import FilePool.PassFollows
import FilePool.StoredShares

/-!
The numbers in the names of a pool's shares over its history. A new share gets the number of
shares that its pool has then, of its tier or of all, and one more; a share goes from the pool
when the health check finds it gone and no volume is on it. Every call and every pass works on
a copy of the pool, which it reads from a cache.
-/
namespace FilePool.ShareNumbers

open UndoNames PoolRecords PoolWorld ShareCreation PoolReconciler PoolProtocol CallsFollow
  PassFollows StepRuns StoredShares Threads Function List

/-- The shares of a copy: one is made, or the health check looks at each of them and finds it
gone or fills in what it knows. -/
inductive Work
  | expand (tier : Name) (info : ShareInfo)
  | check (found : List (Option PoolShareStatus))

/-- Only a share without volumes is dropped; the others keep their names and tiers. -/
def foundAs (s : PoolShareStatus) : Option PoolShareStatus → Bool
  | none => s.pvcCount = 0
  | some s' => s'.shareName = s.shareName && s'.tier = s.tier

def withShares (p : Pool) (shares : List PoolShareStatus) : Pool :=
  { p with status := { p.status with shares := shares } }

def work (p : Pool) : Work → Option Pool
  | .expand tier info =>
    if info.name = nextShareName p tier then
      some (addShare p (newPoolShareStatus info tier) info.sizeGB)
    else none
  | .check found =>
    if Forall₂ (fun s o => foundAs s o = true) p.status.shares found then
      some (withShares p found.reduceOption)
    else none

section Checked

variable {cfg : Config} {pool : Pool} {s : PoolShareStatus} {err : Unit → Prop}

/-- The answers can be any, and nothing is kept of them. -/
def anyAnswers : Protocol Unit Query Answer := ⟨fun _ _ => True, fun _ _ _ _ => True⟩

theorem meets_any {α : Type} {q : Query} {f : Answer q → Driver α} {post : α → Unit → Prop}
    (h : ∀ a, Meets anyAnswers (f a) post err ()) :
    Meets anyAnswers ((Proc.query q : Driver (Answer q)) >>= f) post err () :=
  meets_ask fun a _ => ⟨(), trivial, h a⟩

theorem adopt_keeps :
    Meets anyAnswers (adoptShareWithMountTarget cfg pool s)
      (fun r _ => ∀ s', r = some s' → foundAs s (some s') = true) err () := by
  refine meets_any fun candidates => ?_
  cases candidates with
  | error e => exact meets_pure _ nofun
  | ok cs =>
    refine meets_bind (meets_attempt (meets_any fun r => ?_))
    cases r with
    | error e => exact meets_fail _ fun _ => meets_pure _ nofun
    | ok ps =>
      refine meets_pure _ ?_
      dsimp only
      split
      · exact meets_pure _ nofun
      · have hdone {c : ShareInfo} {t : MountTargetInfo} (s' : PoolShareStatus)
            (h : some { s with
              shareID := c.id, mountTargetIP := t.ipAddress, mountTargetID := t.id
              exportPath := t.exportPath
              mountTargets := [⟨s.zone, t.id, t.ipAddress, t.exportPath⟩] } = some s') :
            foundAs s (some s') = true := by
          cases h
          simp [foundAs]
        have hdrop : Meets anyAnswers (dropBare s) (fun _ _ => True) err () := by
          unfold dropBare
          split
          · exact meets_any fun _ => meets_pure _ trivial
          · exact meets_pure _ trivial
        exact meets_then hdrop fun _ _ _ => meets_pure _ hdone

theorem recover_keeps {info : ShareInfo} :
    Meets anyAnswers (recoverMountTarget cfg pool s info)
      (fun s' _ => foundAs s (some s') = true) err () := by
  have hself : foundAs s (some s) = true := by simp [foundAs]
  unfold recoverMountTarget
  split
  · exact meets_pure _ hself
  · refine meets_then adopt_keeps fun adopted _ h => ?_
    cases adopted with
    | some s' => exact meets_pure _ (h s' rfl)
    | none =>
      dsimp only
      split
      · exact meets_pure _ hself
      · refine meets_any fun net => ?_
        cases net with
        | error e => exact meets_pure _ hself
        | ok u =>
          refine meets_any fun made => ?_
          cases made with
          | error e => exact meets_pure _ hself
          | ok t => exact meets_pure _ (by simp [foundAs])

theorem checkShare_found :
    Meets anyAnswers (checkShare cfg pool s) (fun o _ => foundAs s o = true) err () := by
  have hself : foundAs s (some s) = true := by simp [foundAs]
  refine meets_any fun info => ?_
  match info with
  | .error .notFound =>
    refine meets_pure _ ?_
    split
    · rename_i hcount
      simp [foundAs, hcount]
    · exact hself
  | .error .alreadyExists | .error .other => exact meets_pure _ hself
  | .ok info =>
    have hsame := sameShare_backfill s (stateSeen pool s info) info
    refine meets_then recover_keeps fun s' _ h => meets_pure _ ?_
    simpa [foundAs, hsame.name, hsame.tier] using h

/-- Whatever the VPC answers, the health check of the reconciler is a check of the shares. -/
theorem healthCheck_is_check (p : Pool) :
    Meets anyAnswers (healthCheck cfg p) (fun p' _ => ∃ found q,
      work p (.check found) = some q ∧ p'.status.shares = q.status.shares) err () := by
  have hshares (shares : List PoolShareStatus) :
      Meets anyAnswers (checkShares cfg p shares) (fun x _ => ∃ found,
        Forall₂ (fun s o => foundAs s o = true) shares found ∧ found.reduceOption = x.1)
        err () := by
    induction shares with
    | nil => exact meets_pure _ ⟨[], .nil, rfl⟩
    | cons s rest ih =>
      refine meets_then ih fun later _ hlater => ?_
      obtain ⟨found, hall, hfound⟩ := hlater
      refine meets_then checkShare_found fun kept _ hkept => ?_
      cases kept with
      | some s' => exact meets_pure _ ⟨some s' :: found, .cons hkept hall, congrArg _ hfound⟩
      | none => exact meets_pure _ ⟨none :: found, .cons hkept hall, hfound⟩
  refine meets_then (hshares p.status.shares) fun x _ hx => meets_pure _ ?_
  obtain ⟨found, hall, hfound⟩ := hx
  exact ⟨found, _, if_pos hall, hfound.symm⟩

end Checked

/-- The pool as it is stored, what it was before, and the copies on which the calls and the
passes work. -/
structure State where
  stored : Pool
  earlier : List Pool
  copies : ℕ → Option Pool

def start (p : Pool) : State := ⟨p, [], fun _ => none⟩

/-- A call reads the pool, as the cache has it, so many versions old; it works on its copy; it
stores the status, which is refused if the pool has changed, unless the write is forced. -/
inductive Event
  | read (i age : ℕ)
  | work (i : ℕ) (w : Work)
  | store (i : ℕ) (forced : Bool)

def step (s : State) : Event → Option State
  | .read i age => ((s.stored :: s.earlier)[age]?).map fun seen =>
    { s with copies := update s.copies i (some seen) }
  | .work i w => (s.copies i).bind fun p => (work p w).map fun p' =>
    { s with copies := update s.copies i (some p') }
  | .store i forced => (s.copies i).bind fun p =>
    if forced || p.version = s.stored.version then
      let q := { s.stored with status := p.status, version := s.stored.version + 1 }
      some ⟨q, s.stored :: s.earlier, update s.copies i (some q)⟩
    else none

/-- A share that stays does not count a share before it that is dropped: it has a tier, which
is another one. -/
def Newest (shares : List PoolShareStatus) (found : List (Option PoolShareStatus)) : Prop :=
  (shares.zip found).Pairwise fun a b =>
    a.2 = none → b.2 ≠ none → b.1.tier ≠ [] ∧ b.1.tier ≠ a.1.tier

instance (shares : List PoolShareStatus) (found : List (Option PoolShareStatus)) :
    Decidable (Newest shares found) := inferInstanceAs (Decidable (Pairwise _ _))

/-- The health checks drop only the newest shares. -/
def Fitting (s : State) : Event → Prop
  | .work i (.check found) => ∀ p ∈ s.copies i, Newest p.status.shares found
  | _ => True

instance (s : State) : ∀ e, Decidable (Fitting s e)
  | .work i (.check _) => inferInstanceAs (Decidable (∀ p ∈ s.copies i, _))
  | .read _ _ | .store _ _ | .work _ (.expand _ _) => isTrue trivial

/-- Every number in a name is at most the number of shares that it counts up to its own. -/
inductive Numbered (name : Name) : List PoolShareStatus → List PoolShareStatus → Prop
  | nil {before : List PoolShareStatus} : Numbered name before []
  | cons {before rest : List PoolShareStatus} {s : PoolShareStatus} {k : ℕ}
      (hname : s.shareName = shareNameOf name s.tier k) (hk : k ≤ shareNumber before s.tier + 1)
      (hrest : Numbered name (before ++ [s]) rest) : Numbered name before (s :: rest)

variable {name : Name} {before before' rest shares : List PoolShareStatus} {s : PoolShareStatus}
  {found : List (Option PoolShareStatus)} {p p' : Pool} {k : ℕ} {x : State} {i : ℕ}

theorem shareNumber_concat (tier : Name) : shareNumber (shares ++ [s]) tier =
    shareNumber shares tier + if tier = [] ∨ s.tier = tier then 1 else 0 := by
  unfold shareNumber tierCount
  by_cases h : tier = []
  · simp [h]
  · by_cases hs : s.tier = tier <;> simp [h, hs]

theorem Numbered.concat (h : Numbered name before rest)
    (hname : s.shareName = shareNameOf name s.tier (shareNumber (before ++ rest) s.tier + 1)) :
    Numbered name before (rest ++ [s]) := by
  induction h with
  | nil => exact .cons hname (by simp) .nil
  | cons hown hk _ ih => exact .cons hown hk (ih (by simpa using hname))

theorem Numbered.mem (h : Numbered name before rest) : ∀ s ∈ rest, ∃ k,
    s.shareName = shareNameOf name s.tier k ∧ k ≤ shareNumber (before ++ rest) s.tier := by
  have hgrows (xs ys : List PoolShareStatus) (tier : Name) :
      shareNumber xs tier ≤ shareNumber (xs ++ ys) tier := by
    unfold shareNumber tierCount
    split <;> simp
  induction h with
  | nil => simp
  | @cons before rest s k hown hk _ ih =>
    intro t ht
    rcases mem_cons.mp ht with rfl | ht
    · refine ⟨k, hown, ?_⟩
      have hself := shareNumber_append_self before t
      have hle := hgrows (before ++ [t]) rest t.tier
      rw [append_assoc, singleton_append] at hle
      omega
    · simpa using ih t ht

/-- The shares that stay after a check are numbered if those before them still are, in the
eyes of each one that stays. -/
theorem Numbered.check (h : Numbered name before shares)
    (hall : Forall₂ (fun s o => foundAs s o = true) shares found) (hnew : Newest shares found)
    (hcount : ∀ a ∈ shares.zip found, a.2 ≠ none →
      shareNumber before a.1.tier ≤ shareNumber before' a.1.tier) :
    Numbered name before' found.reduceOption := by
  induction hall generalizing before before' with
  | nil => exact .nil
  | @cons s o shares found hso _ ih =>
    obtain ⟨hfirst, hlater⟩ := pairwise_cons.mp hnew
    cases h with
    | cons hown hk hrest =>
      cases o with
      | none =>
        refine ih hrest hlater fun a ha hstays => ?_
        obtain ⟨htier, hother⟩ := hfirst a ha rfl hstays
        rw [shareNumber_concat, if_neg (by simp [htier, hother.symm])]
        exact hcount a (mem_cons_of_mem _ ha) hstays
      | some s' =>
        obtain ⟨hsame, htier⟩ : s'.shareName = s.shareName ∧ s'.tier = s.tier := by
          simpa [foundAs] using hso
        have hself := hcount (s, some s') mem_cons_self nofun
        refine .cons (by rw [hsame, htier]; exact hown)
          (by rw [htier]; exact hk.trans (Nat.add_le_add_right hself 1)) ?_
        refine ih hrest hlater fun a ha hstays => ?_
        rw [shareNumber_concat, shareNumber_concat, htier]
        exact Nat.add_le_add_right (hcount a (mem_cons_of_mem _ ha) hstays) _

/-- A pool of the name whose shares are numbered. -/
def Sound (name : Name) (p : Pool) : Prop := p.name = name ∧ Numbered name [] p.status.shares

theorem Sound.expand {tier : Name} {info : ShareInfo} (h : Sound name p)
    (hw : work p (.expand tier info) = some p') : Sound name p' := by
  obtain ⟨hname, rfl⟩ := when_some hw
  obtain ⟨-, hown, htier, -⟩ := newPoolShareStatus_same info tier
  refine ⟨h.1, h.2.concat ?_⟩
  rw [hown, hname, htier, nextShareName_eq, h.1, nil_append]

theorem Sound.check (h : Sound name p) (hnew : Newest p.status.shares found)
    (hw : work p (.check found) = some p') : Sound name p' := by
  obtain ⟨hall, rfl⟩ := when_some hw
  exact ⟨h.1, h.2.check hall hnew fun _ _ _ => le_refl _⟩

/-- The stored pool, every earlier one and every copy is sound. -/
structure Kept (name : Name) (x : State) : Prop where
  stored : ∀ p ∈ x.stored :: x.earlier, Sound name p
  copies : ∀ i p, x.copies i = some p → Sound name p

theorem Kept.copy (h : Kept name x) (hp : Sound name p) :
    Kept name { x with copies := update x.copies i (some p) } := by
  refine ⟨h.stored, fun j q hq => ?_⟩
  rcases update_some hq with ⟨-, rfl⟩ | ⟨-, hq⟩
  · exact hp
  · exact h.copies j q hq

theorem step_kept (x : State) (e : Event) (x' : State) (hfit : Fitting x e) (h : Kept name x)
    (hstep : step x e = some x') : Kept name x' := by
  cases e with
  | read i age =>
    obtain ⟨seen, hseen, rfl⟩ := Option.map_eq_some_iff.mp hstep
    exact h.copy (h.stored seen (mem_of_getElem? hseen))
  | work i w =>
    obtain ⟨p, hp, hmap⟩ := Option.bind_eq_some_iff.mp hstep
    obtain ⟨p', hw, rfl⟩ := Option.map_eq_some_iff.mp hmap
    have hsound := h.copies i p hp
    cases w with
    | expand tier info => exact h.copy (hsound.expand hw)
    | check found => exact h.copy (hsound.check (hfit p hp) hw)
  | store i forced =>
    obtain ⟨p, hp, hstep⟩ := Option.bind_eq_some_iff.mp hstep
    obtain ⟨-, rfl⟩ := when_some hstep
    -- only the status is written; the pool keeps its name
    have hq : Sound name { x.stored with
        status := p.status, version := x.stored.version + 1 } :=
      ⟨(h.stored _ mem_cons_self).1, (h.copies i p hp).2⟩
    refine ⟨fun q hmem => ?_, (h.copy hq).copies⟩
    rcases mem_cons.mp hmem with rfl | hmem
    · exact hq
    · exact h.stored q hmem

theorem Sound.fresh (h : Sound name p) (tier : Name) :
    ∀ s ∈ p.status.shares, s.shareName ≠ nextShareName p tier := by
  intro s hs heq
  obtain ⟨k, hk, hle⟩ := h.2.mem s hs
  rw [hk, nextShareName_eq, h.1] at heq
  obtain ⟨htier, hnumber⟩ := shareNameOf_inj heq
  rw [htier, nil_append] at hle
  omega

/-- The copy has every share that the stored pool has. -/
def Current (x : State) (p : Pool) : Prop :=
  ∀ s ∈ x.stored.status.shares, ∃ t ∈ p.status.shares, t.shareName = s.shareName

instance (x : State) (p : Pool) : Decidable (Current x p) :=
  inferInstanceAs (Decidable (∀ s ∈ _, _))

/-- In every history whose health checks fit, the name that a call gives to its next share is
that of no share of its copy, nor of the stored pool if the copy has all its shares. -/
theorem next_name_fresh (p₀ : Pool) (h₀ : p₀.status.shares = []) (x : State)
    (hrun : Run step Fitting (start p₀) x) (i : ℕ) (p : Pool) (hp : x.copies i = some p)
    (hcurrent : Current x p) (tier : Name) :
    ∀ s ∈ x.stored.status.shares ++ p.status.shares, s.shareName ≠ nextShareName p tier := by
  have h : Kept p₀.name x := by
    refine hrun.keeps step_kept ⟨fun p hp => ?_, by rintro _ _ ⟨⟩⟩
    cases mem_singleton.mp hp
    exact ⟨rfl, by rw [start, h₀]; exact .nil⟩
  have hfresh := (h.copies i p hp).fresh tier
  intro s hs
  rcases mem_append.mp hs with hs | hs
  · obtain ⟨t, ht, hname⟩ := hcurrent s hs
    exact hname ▸ hfresh t ht
  · exact hfresh s hs

/-- A share of the pool p with a name of its own. -/
def numbered (k : Char) : ShareInfo :=
  { newShare [k] true with name := ['p', '-', 's', 'h', 'a', 'r', 'e', '-', k] }

def numberedStatus (k : Char) : PoolShareStatus := newPoolShareStatus (numbered k) []

/-- Call 0 makes the shares of these numbers. -/
def makes (ks : List Char) : List Event :=
  .read 0 0 :: ks.map (fun k => .work 0 (.expand [] (numbered k))) ++
    [.store 0 false]

/-- The first of three shares is gone, and the next one would have the name of the third. Or
a call has read the pool before the first share was made, and gives its own one that name. -/
theorem next_name_taken :
    (∃ x p, Run step (fun _ _ => True) (start (emptyPool ['p'])) x ∧ x.copies 0 = some p ∧
      p = x.stored ∧ ∃ s ∈ p.status.shares, s.shareName = nextShareName p []) ∧
    ∃ x p, Run step Fitting (start (emptyPool ['p'])) x ∧ x.copies 1 = some p ∧
      ∃ s ∈ x.stored.status.shares, s.shareName = nextShareName p [] := by
  refine ⟨free_run_some (makes ['1', '2', '3'] ++ [.work 0 (.check
    [none, some (numberedStatus '2'), some (numberedStatus '3')]), .store 0 false]) _
    (by decide +kernel), ?_⟩
  exact free_run_some (makes ['1'] ++ [.read 1 1]) _ (by decide +kernel)

/-- Another call finds the second of two shares gone. -/
theorem next_name_fresh_two : ∃ (x : State) (p : Pool), x.copies 1 = some p ∧
    p.status.shares.length = 1 ∧
    ∀ s ∈ x.stored.status.shares ++ p.status.shares, s.shareName ≠ nextShareName p [] := by
  obtain ⟨x, p, hrun, hp, hone, hcurrent⟩ : ∃ x p,
      Run step Fitting (start (emptyPool ['p'])) x ∧ x.copies 1 = some p ∧
        p.status.shares.length = 1 ∧ Current x p :=
    free_run_some (makes ['1', '2'] ++ [.read 1 0, .work 1 (.check
      [some (numberedStatus '1'), none]), .store 1 false]) _ (by decide +kernel)
  exact ⟨x, p, hp, hone, next_name_fresh (emptyPool ['p']) rfl x hrun 1 p hp hcurrent []⟩

end FilePool.ShareNumbers
