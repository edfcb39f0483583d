import FilePool.HeldCopies
import FilePool.StepRuns

/-!
The export Jobs of a policy beside the copies of its volumes. An export pass reads the copies
that the status tells of, holds a volume that is due, and starts or follows its export Job.
The controller remembers the volume whose export runs. At the end of a pass the holds of all
other volumes go. Two loops, the API and restarts come between any two of these steps.
-/
namespace FilePool.ExportHolds

open UndoNames StepRuns HeldCopies Function Option

/-- The hold of an export on a volume: of this policy or of another one, and since when. -/
structure Hold where
  own : Bool
  since : ℤ
  deriving DecidableEq, Repr

inductive JobPhase
  | running
  | ended
  | stopping
  deriving DecidableEq, Repr

/-- An export pass: the volumes that are due and were not looked at yet, the copies it read,
if it could, and the volume that it holds to export it now. -/
structure ExportPass where
  rest : List Name
  copying : Option (Name → Bool)
  current : Option Name

/-- The export block of the policy, the holds, the export Jobs, the volume that the controller
remembers, its pass, and the copies. -/
structure State where
  now : ℤ
  block : Bool
  hold : Name → Option Hold
  job : Name → Option JobPhase
  active : Option Name
  pass : Option ExportPass
  copies : Copies

/-- The longest a hold lasts, in seconds. -/
def exportHoldLimit : ℤ := 6 * 3600

inductive HoldResult
  | taken
  | wait
  | expired
  deriving DecidableEq, Repr

/-- The calls of the API that take a hold: the read of the volume and the patch. -/
def takeExportHold (read patched running copying : Bool) (now : ℤ) (hold : Option Hold) :
    HoldResult × Option Hold :=
  if !read then (.wait, hold)
  else match hold with
    | some h =>
      if !h.own then (.wait, hold)
      else if exportHoldLimit < now - h.since then (.expired, hold)
      else (.taken, hold)
    | none =>
      if !running && copying then (.wait, none)
      else if patched then (.taken, some ⟨true, now⟩)
      else (.wait, none)

/-- A hold of this policy is removed, if the calls for that succeed. -/
def releaseExportHold (released : Bool) (v : Name) (hold : Name → Option Hold) :
    Name → Option Hold :=
  if released && (hold v).any Hold.own then update hold v none else hold

/-- The holds of this policy go, but for that of one volume and those whose release fails. -/
def releaseStaleExportHolds (keep : Option Name) (failed : List Name)
    (hold : Name → Option Hold) (v : Name) : Option Hold :=
  if (hold v).any Hold.own && keep ≠ some v && !failed.contains v then none else hold v

/-- A pass begins. A remembered volume that is not due is forgotten. -/
def beginExport (due : List Name) (known : Bool) (s : State) : Option State :=
  if !s.block || s.pass.isSome then none
  else some { s with
    active := s.active.filter (fun v => due.contains v)
    pass := some ⟨due, if known then some s.copies.told else none, none⟩ }

/-- The pass does not look at a volume while it remembers another one, while the export of
the volume waits for a retry or its share is not ready, or when it does not know the copies
and does not remember the volume. -/
def passesOver (skipped : Bool) (active : Option Name) (copying : Option (Name → Bool))
    (v : Name) : Bool :=
  (active.isSome && active ≠ some v) || skipped || (copying.isNone && active ≠ some v)

/-- A Job whose stop is asked for is there until its pods are gone. -/
def stopJob (stopped : Bool) (o : Option JobPhase) : Option JobPhase :=
  if stopped then o.map (fun _ => .stopping) else o

/-- The next volume that is due is held, if it can be. An export that passed the limit is
stopped. -/
def take (skipped read patched stopped released : Bool) (s : State) : Option State :=
  s.pass.bind (fun p => match p.current, p.rest with
    | none, v :: rest =>
      if passesOver skipped s.active p.copying v then
        some { s with pass := some ⟨rest, p.copying, none⟩ }
      else
        let got := takeExportHold read patched (s.active = some v)
          (p.copying.any (fun copying => copying v)) s.now (s.hold v)
        match got.1 with
        | .wait => some { s with pass := some ⟨rest, p.copying, none⟩ }
        | .taken => some { s with
            hold := update s.hold v got.2, pass := some ⟨rest, p.copying, some v⟩ }
        | .expired => some { s with
            job := update s.job v (stopJob stopped (s.job v))
            hold := releaseExportHold released v s.hold
            active := none, pass := some ⟨rest, p.copying, none⟩ }
    | _, _ => none)

/-- The export goes on: the controller remembers the volume and ends the loop. -/
def goesOn (v : Name) (p : ExportPass) (s : State) : State :=
  { s with active := some v, pass := some ⟨[], p.copying, none⟩ }

/-- The export has ended or has failed. -/
def endsExport (released : Bool) (v : Name) (p : ExportPass) (s : State) : State :=
  { s with
    active := none
    hold := releaseExportHold released v s.hold
    pass := some ⟨p.rest, p.copying, none⟩ }

/-- The file list or the export of the volume that is held now. A Job that has ended is
removed, and so is the hold. An error of the API counts as a failure. -/
def exportToCOS (listing read started removed released : Bool) (s : State) : Option State :=
  s.pass.bind (fun p => p.current.map (fun v =>
    if listing then goesOn v p s
    else if !read then endsExport released v p s
    else match s.job v with
      | none =>
        if started then goesOn v p { s with job := update s.job v (some .running) }
        else endsExport released v p s
      | some .ended =>
        endsExport released v p (if removed then { s with job := update s.job v none } else s)
      | some _ => goesOn v p s))

/-- The end of a pass. -/
def endExport (failed : List Name) (s : State) : Option State :=
  s.pass.bind (fun p => match p.current, p.rest with
    | none, [] => some { s with
        hold := releaseStaleExportHolds s.active failed s.hold, pass := none }
    | _, _ => none)

/-- A pass without an export block. -/
def clearExport (failed : List Name) (s : State) : Option State :=
  if s.block || s.pass.isSome then none
  else some { s with active := none, hold := releaseStaleExportHolds none failed s.hold }

/-- Another policy holds a volume that is not held, or lets it go. -/
def otherHold (v : Name) (since : Option ℤ) (s : State) : Option State :=
  if (s.hold v).any Hold.own then none
  else some { s with hold := update s.hold v (since.map (fun t => ⟨false, t⟩)) }

def held (s : State) (v : Name) : Bool := (s.hold v).isSome

def withCopies (s : State) (c : Option Copies) : Option State :=
  c.map (fun c => { s with copies := c })

/-- The steps of the export pass and of the replication pass; the block is set and removed,
time passes, Jobs and copies end or go, other policies hold volumes, the controllers stop. -/
inductive Event
  | tick (d : ℕ)
  | setBlock (block : Bool)
  | beginExport (due : List Name) (known : Bool)
  | take (skipped read patched stopped released : Bool)
  | exportToCOS (listing read started removed released : Bool)
  | endExport (failed : List Name)
  | clearExport (failed : List Name)
  | stopExports
  | jobEnds (v : Name)
  | jobGone (v : Name)
  | otherHold (v : Name) (since : Option ℤ)
  | beginCopies (unread : Name → Bool) (volumes : List Name)
  | visit (wanted noticed cleaned : Bool)
  | endCopies (saved : Bool)
  | stopCopies
  | copyEnds (v : Name)
  | copyGone (v : Name)

def step (s : State) : Event → Option State
  | .tick d => some { s with now := s.now + d }
  | .setBlock block => some { s with block := block }
  | .beginExport due known => beginExport due known s
  | .take skipped read patched stopped released => take skipped read patched stopped released s
  | .exportToCOS listing read started removed released =>
    exportToCOS listing read started removed released s
  | .endExport failed => endExport failed s
  | .clearExport failed => clearExport failed s
  | .stopExports => some { s with active := none, pass := none }
  | .jobEnds v =>
    (s.job v).map (fun _ => { s with job := update s.job v (some .ended) })
  | .jobGone v => some { s with job := update s.job v none }
  | .otherHold v since => otherHold v since s
  | .beginCopies unread volumes => withCopies s (beginPass (held s) unread s.copies volumes)
  | .visit wanted noticed cleaned => withCopies s (HeldCopies.visit s.copies wanted noticed cleaned)
  | .endCopies saved => withCopies s (HeldCopies.endPass s.copies saved)
  | .stopCopies => withCopies s (some (breakOff s.copies))
  | .copyEnds v => withCopies s (HeldCopies.copyEnds s.copies v)
  | .copyGone v => withCopies s (some (HeldCopies.copyGone s.copies v))

variable {s s' : State} {v : Name} {failed : List Name} {p : ExportPass}
  {job : Name → Option JobPhase} {listing started removed : Bool} {c : Copies}

/-- The volume is held for an export of this policy. -/
def ownHeld (s : State) (v : Name) : Bool := (s.hold v).any Hold.own

/-- An export of the volume is under way: its Job exists, the controller remembers it, or a
pass holds it now. -/
def Exports (s : State) (v : Name) : Prop :=
  s.job v ≠ none ∨ s.active = some v ∨ ∃ p, s.pass = some p ∧ p.current = some v

def LooksAt (skipped : Bool) (s : State) (p : ExportPass) (v : Name) : Prop :=
  s.pass = some p ∧ p.rest.head? = some v ∧ passesOver skipped s.active p.copying v = false

/-- While a Job exists, an export pass looks at no other volume, the hold is not expired, and
the calls that read and remove the Job succeed; at the end of the pass the controller remembers
the volume, and the block does not go. When a volume is held for the first time, the status
tells of no copy of it that the pass has not read, and a replication pass under way has passed
it and seen no copy of it. A replication pass can tell of a held volume whether its copy
exists, lists and tells of every copy that runs, and saves its status before the controller
stops; no copy of a held volume is removed by others while a pass has still to look at it. -/
def Fitting (s : State) : Event → Prop
  | .take skipped .. => ∀ p v, LooksAt skipped s p v → (∀ u, s.job u ≠ none → u = v) ∧
      (∀ h, s.job v ≠ none → s.hold v = some h → s.now - h.since ≤ exportHoldLimit) ∧
      (s.hold v = none → p.copying.any (fun copying => copying v) = false →
        s.copies.told v = false ∧ Clear s.copies v)
  | .exportToCOS _ read _ removed _ => ∀ p v, s.pass = some p → p.current = some v →
      s.job v ≠ none → read = true ∧ (s.job v = some .ended → removed = true)
  | .endExport _ => ∀ v, s.job v ≠ none → s.active = some v
  | .clearExport _ => ∀ v, s.job v = none
  | .beginCopies unread volumes =>
      (∀ v, unread v = true → ¬ ownHeld s v = true) ∧ ∀ v, Runs s.copies v → v ∈ volumes
  | .visit _ noticed _ => noticed = true
  | .endCopies saved => saved = true
  | .stopCopies => ∀ v, Runs s.copies v → s.copies.told v = true
  | .copyGone v => Passed s.copies v ∨ ¬ ownHeld s v = true
  | _ => True

/-- One volume at most is exported, and is held. No copy of a held volume runs. -/
structure Kept (s : State) : Prop where
  one : ∀ u v, Exports s u → Exports s v → u = v
  held : ∀ v, Exports s v → ownHeld s v = true
  apart : ∀ v, ownHeld s v = true → ¬ Runs s.copies v
  copies : HeldCopies.Kept (fun v => ownHeld s v = true) s.copies

/-- No export begins, and holds go only of volumes that are not exported. -/
theorem Kept.fewer (h : Kept s) (hcopies : s'.copies = s.copies)
    (hexports : ∀ v, Exports s' v → Exports s v ∧ (ownHeld s v = true → ownHeld s' v = true))
    (hfewer : ∀ v, ownHeld s' v = true → ownHeld s v = true) : Kept s' := by
  refine ⟨fun u v hu hv => h.one u v (hexports u hu).1 (hexports v hv).1,
    fun v hv => (hexports v hv).2 (h.held v (hexports v hv).1), fun v hv => ?_, ?_⟩
  · rw [hcopies]
    exact h.apart v (hfewer v hv)
  · rw [hcopies]
    exact h.copies.guard (fun v hv => .inl (hfewer v hv))

theorem ownHeld_release {released : Bool} {u : Name} {hold : Name → Option Hold}
    (h : (releaseExportHold released u hold v).any Hold.own = true) :
    (hold v).any Hold.own = true := by
  unfold releaseExportHold at h
  split at h
  · by_cases hvu : v = u
    · simp [hvu] at h
    · simpa [update_of_ne hvu] using h
  · exact h

theorem ownHeld_releaseStale {keep : Option Name} {hold : Name → Option Hold}
    (h : (releaseStaleExportHolds keep failed hold v).any Hold.own = true) :
    (hold v).any Hold.own = true := by
  unfold releaseStaleExportHolds at h
  split at h
  · cases h
  · exact h

/-- Without a volume that a pass holds now, an export has a Job or is remembered. -/
theorem Exports.known (h : Exports s v) (hpass : ∀ p, s.pass = some p → p.current = none) :
    s.job v ≠ none ∨ s.active = some v := by
  rcases h with hjob | hactive | ⟨p, hp, hv⟩
  · exact .inl hjob
  · exact .inr hactive
  · exact absent (hpass p hp) hv

theorem Kept.beginExport (h : Kept s) {due : List Name} {known : Bool}
    (hstep : beginExport due known s = some s') : Kept s' := by
  obtain ⟨_, rfl⟩ := unless_some hstep
  refine h.fewer rfl (fun v hv => ⟨?_, id⟩) (fun _ => id)
  exact (hv.known (by rintro _ ⟨⟩; rfl)).imp_right
    (fun hactive => .inl (filter_eq_some_iff.mp hactive).1)

/-- A volume that is looked at is the one that is remembered, or none is. -/
theorem passesOver_not {skipped : Bool} {active : Option Name} {copying : Option (Name → Bool)}
    {u : Name} (h : passesOver skipped active copying v = false) (hu : active = some u) :
    u = v := by
  subst hu
  simp only [passesOver, Bool.or_eq_false_iff] at h
  simpa using h.1.1

theorem takeExportHold_told {read patched running copying : Bool} {now : ℤ}
    {hold : Option Hold} :
    ((takeExportHold read patched running copying now hold).1 = .taken →
      (takeExportHold read patched running copying now hold).2.any Hold.own = true ∧
        (hold.any Hold.own = true ∨ (hold = none ∧ (running = true ∨ copying = false)))) ∧
    ((takeExportHold read patched running copying now hold).1 = .expired →
      ∃ h, hold = some h ∧ exportHoldLimit < now - h.since) := by
  unfold takeExportHold
  cases read
  · exact ⟨nofun, nofun⟩
  · cases hold with
    | none => cases running <;> cases copying <;> cases patched <;> simp
    | some hold =>
      cases howner : hold.own
      · simp [howner]
      · by_cases hlate : exportHoldLimit < now - hold.since <;> simp [hlate, howner]

theorem Kept.onward (h : Kept s) (rest : List Name) (copying : Option (Name → Bool)) :
    Kept { s with pass := some ⟨rest, copying, none⟩ } :=
  h.fewer rfl (fun _ hv => ⟨(hv.known (by rintro _ ⟨⟩; rfl)).imp_right .inl, id⟩) (fun _ => id)

/-- While there is no Job, holds may go and the remembered volume is forgotten. -/
theorem Kept.forget (h : Kept s) {hold : Name → Option Hold} (hjob : ∀ v, job v = none)
    (hfewer : ∀ v, (hold v).any Hold.own = true → ownHeld s v = true)
    (hcurrent : ∀ p, s.pass = some p → p.current = none) :
    Kept { s with job := job, hold := hold, active := none } :=
  h.fewer rfl (fun v hv => (hv.known hcurrent).elim (absurd (hjob v)) nofun) hfewer

/-- The volume that is looked at is held, and the only one that is exported. -/
theorem Kept.hold (h : Kept s) {o : Option Hold} (ho : o.any Hold.own = true)
    (hruns : ownHeld s v = true ∨ (¬ Runs s.copies v ∧ Clear s.copies v))
    (hjob : ∀ u, s.job u ≠ none → u = v) (hactive : ∀ u, s.active = some u → u = v)
    (rest : List Name) (copying : Option (Name → Bool)) :
    Kept { s with
      hold := update s.hold v o, pass := some ⟨rest, copying, some v⟩ } := by
  have hexports (u : Name) (hu : Exports { s with
      hold := update s.hold v o, pass := some ⟨rest, copying, some v⟩ } u) : u = v := by
    rcases hu with hu | hu | ⟨q, hq, hu⟩
    · exact hjob u hu
    · exact hactive u hu
    · cases hq
      cases hu
      rfl
  have hbefore (u : Name) (hu : (update s.hold v o u).any Hold.own = true) :
      ownHeld s u = true ∨ (¬ Runs s.copies u ∧ Clear s.copies u) := by
    by_cases huv : u = v
    · exact huv ▸ hruns
    · exact .inl (by simpa [huv, ownHeld] using hu)
  refine ⟨fun u w hu hw => (hexports u hu).trans (hexports w hw).symm, fun u hu => ?_,
    fun u hu => (hbefore u hu).elim (h.apart u) And.left,
    h.copies.guard (fun u hu => (hbefore u hu).imp_right (fun hclear => hclear.2.1))⟩
  cases hexports u hu
  simpa [ownHeld] using ho

theorem Kept.take (h : Kept s) {skipped read patched stopped released : Bool}
    (hfit : Fitting s (.take skipped read patched stopped released))
    (hstep : take skipped read patched stopped released s = some s') : Kept s' := by
  obtain ⟨p, hp, hstep⟩ := bind_eq_some_iff.mp hstep
  split at hstep
  · rename_i v rest hcurrent hrest
    split at hstep
    · cases hstep
      exact h.onward rest p.copying
    · rename_i hlook
      have hover : passesOver skipped s.active p.copying v = false := by simpa using hlook
      obtain ⟨hjob, hlate, hnew⟩ := hfit p v ⟨hp, by simp [hrest], hover⟩
      dsimp only at hstep
      split at hstep
      · cases hstep
        exact h.onward rest p.copying
      · rename_i htaken
        cases hstep
        obtain ⟨hown, hhold⟩ := takeExportHold_told.1 htaken
        refine h.hold hown (hhold.imp_right (fun ⟨hnone, hsafe⟩ => ?_)) hjob
          (fun _ => passesOver_not hover) rest p.copying
        have hactive : s.active ≠ some v := by
          intro hactive
          have hheld := h.held v (.inr (.inl hactive))
          simp [ownHeld, hnone] at hheld
        obtain ⟨htold, hclear⟩ := hnew hnone (hsafe.resolve_left (by simpa using hactive))
        exact ⟨h.copies.not_runs hclear htold, hclear⟩
      · rename_i hexpired
        cases hstep
        -- a hold that is expired has no Job behind it, and no other volume has one
        obtain ⟨o, ho, hpast⟩ := takeExportHold_told.2 hexpired
        have hv : s.job v = none := by
          by_contra hjob
          exact absurd (hlate o hjob ho) (by omega)
        refine (h.onward rest p.copying).forget (fun u => ?_) (fun _ => ownHeld_release)
          (by rintro _ ⟨⟩; rfl)
        by_cases huv : u = v
        · subst huv
          cases stopped <;> simp [hv, stopJob]
        · rw [update_of_ne huv]
          by_contra hu
          exact huv (hjob u hu)
  · cases hstep

theorem Kept.goesOn (h : Kept s) (hv : Exports s v)
    (hjob : ∀ u, job u ≠ none → u = v) : Kept (goesOn v p { s with job := job }) := by
  refine h.fewer rfl (fun u hu => ⟨?_, id⟩) (fun _ => id)
  rcases hu.known (by rintro _ ⟨⟩; rfl) with hu | hu
  · exact hjob u hu ▸ hv
  · cases hu
    exact hv

theorem Kept.endsExport (h : Kept s) {released : Bool} (hjob : ∀ u, job u = none) :
    Kept (endsExport released v p { s with job := job }) :=
  (h.onward p.rest p.copying).forget hjob (fun _ => ownHeld_release) (by rintro _ ⟨⟩; rfl)

theorem Kept.exportToCOS (h : Kept s) {read released : Bool}
    (hcalls : ∀ p v, s.pass = some p → p.current = some v → s.job v ≠ none →
      read = true ∧ (s.job v = some .ended → removed = true))
    (hstep : exportToCOS listing read started removed released s = some s') : Kept s' := by
  obtain ⟨p, hp, hstep⟩ := bind_eq_some_iff.mp hstep
  obtain ⟨v, hv, hstep⟩ := map_eq_some_iff.mp hstep
  have hexports : Exports s v := .inr (.inr ⟨p, hp, hv⟩)
  have honly {u : Name} (hu : s.job u ≠ none) : u = v := h.one u v (.inl hu) hexports
  have hnone (hjob : s.job v = none) (u : Name) : s.job u = none := by
    by_contra hu
    exact hu (honly hu ▸ hjob)
  have hothers {o : Option JobPhase} (u : Name) (hu : update s.job v o u ≠ none) : u = v := by
    by_contra huv
    rw [update_of_ne huv] at hu
    exact huv (honly hu)
  split at hstep
  · subst hstep
    exact h.goesOn hexports (fun _ => honly)
  split at hstep
  · rename_i hread
    subst hstep
    refine h.endsExport (hnone ?_)
    by_contra hjob
    simp [(hcalls p v hp hv hjob).1] at hread
  split at hstep
  · rename_i hjob
    split at hstep
    · subst hstep
      exact h.goesOn hexports hothers
    · subst hstep
      exact h.endsExport (hnone hjob)
  · rename_i hjob
    subst hstep
    rw [(hcalls p v hp hv (by rw [hjob]; exact nofun)).2 hjob]
    refine h.endsExport (fun u => ?_)
    by_contra hu
    exact hu (by simp [hothers u hu])
  · subst hstep
    exact h.goesOn hexports (fun _ => honly)

theorem Kept.endExport (h : Kept s) (hactive : ∀ v, s.job v ≠ none → s.active = some v)
    (hstep : endExport failed s = some s') : Kept s' := by
  obtain ⟨p, hp, hstep⟩ := bind_eq_some_iff.mp hstep
  split at hstep
  · cases hstep
    refine h.fewer rfl (fun v hv => ?_) (fun _ => ownHeld_releaseStale)
    have hkeep : s.active = some v := (hv.known nofun).elim (hactive v) id
    exact ⟨.inr (.inl hkeep), by simp [ownHeld, releaseStaleExportHolds, hkeep]⟩
  · cases hstep

theorem Kept.clearExport (h : Kept s) (hnone : ∀ v, s.job v = none)
    (hstep : clearExport failed s = some s') : Kept s' := by
  obtain ⟨hpass, rfl⟩ := unless_some hstep
  refine h.forget hnone (fun _ => ownHeld_releaseStale) (fun p hp => ?_)
  simp [hp] at hpass

/-- The Job of the volume changes by itself. -/
theorem Kept.jobStep (h : Kept s) {o : Option JobPhase} (ho : o ≠ none → s.job v ≠ none) :
    Kept { s with job := update s.job v o } := by
  refine h.fewer rfl (fun u hu => ⟨hu.imp_left (fun hu => ?_), id⟩) (fun _ => id)
  rcases of_update (P := (· ≠ none)) hu with ⟨rfl, hnew⟩ | ⟨_, hold⟩
  · exact ho hnew
  · exact hold

theorem Kept.otherHold (h : Kept s) {since : Option ℤ}
    (hstep : otherHold v since s = some s') : Kept s' := by
  obtain ⟨hnot, rfl⟩ := unless_some hstep
  have hown : ownHeld { s with
      hold := update s.hold v (since.map (fun t => ⟨false, t⟩)) } = ownHeld s := by
    funext u
    by_cases huv : u = v
    · subst huv
      cases since <;> simpa [ownHeld] using hnot
    · simp [ownHeld, huv]
  exact h.fewer rfl (fun u hu => ⟨hu, by rw [hown]; exact id⟩) (fun u hu => hown ▸ hu)

theorem Kept.copiesStep (h : Kept s) (hc : Keeps (fun v => ownHeld s v = true) s.copies c) :
    Kept { s with copies := c } :=
  { h with
    apart := fun v hv hrun => (hc.runs v hrun).elim (h.apart v hv) (absurd hv)
    copies := hc.kept }

theorem step_kept (s : State) (e : Event) (s' : State) (hfit : Fitting s e) (h : Kept s)
    (hstep : step s e = some s') : Kept s' := by
  cases e with
  | tick d =>
    cases hstep
    exact { h with }
  | setBlock block =>
    cases hstep
    exact { h with }
  | beginExport due known => exact h.beginExport hstep
  | take skipped read patched stopped released => exact h.take hfit hstep
  | exportToCOS listing read started removed released => exact h.exportToCOS hfit hstep
  | endExport failed => exact h.endExport hfit hstep
  | clearExport failed => exact h.clearExport hfit hstep
  | stopExports =>
    cases hstep
    -- the Job of an export goes on, and so does its hold
    exact h.fewer rfl (fun v hv => ⟨(hv.known (by rintro _ ⟨⟩)).imp_right (by rintro ⟨⟩), id⟩)
      (fun _ => id)
  | jobEnds v =>
    obtain ⟨phase, hphase, rfl⟩ := map_eq_some_iff.mp hstep
    exact h.jobStep (fun _ hnone => absent hnone hphase)
  | jobGone v =>
    cases hstep
    exact h.jobStep (absurd rfl)
  | otherHold v since => exact h.otherHold hstep
  | beginCopies unread volumes =>
    obtain ⟨c, hc, rfl⟩ := map_eq_some_iff.mp hstep
    exact h.copiesStep (keeps_beginPass (fun _ hv => isSome_of_any hv) hfit.1 hfit.2 hc)
  | visit wanted noticed cleaned =>
    obtain ⟨c, hc, rfl⟩ := map_eq_some_iff.mp hstep
    cases (show noticed = true from hfit)
    exact h.copiesStep (h.copies.visit hc)
  | endCopies saved =>
    obtain ⟨c, hc, rfl⟩ := map_eq_some_iff.mp hstep
    cases (show saved = true from hfit)
    exact h.copiesStep (h.copies.endPass hc)
  | stopCopies =>
    cases hstep
    exact h.copiesStep (keeps_breakOff hfit)
  | copyEnds v =>
    obtain ⟨c, hc, rfl⟩ := map_eq_some_iff.mp hstep
    exact h.copiesStep (h.copies.copyEnds hc)
  | copyGone v =>
    cases hstep
    exact h.copiesStep (h.copies.copyGone v hfit)

/-- There is no export Job and no hold of this policy, and the status tells of all copies. -/
structure Idle (s : State) : Prop where
  job : ∀ v, s.job v = none
  hold : ∀ v, ownHeld s v = false
  active : s.active = none
  pass : s.pass = none
  copyPass : s.copies.pass = none
  told : ∀ v, Runs s.copies v → s.copies.told v = true

theorem Idle.kept (h : Idle s) : Kept s := by
  have hnot (v : Name) : ¬ Exports s v := by
    rintro (hjob | hactive | ⟨p, hp, _⟩)
    · exact hjob (h.job v)
    · exact absent h.active hactive
    · exact absent h.pass hp
  exact ⟨fun u v hu => absurd hu (hnot u), fun v hv => absurd hv (hnot v),
    fun v hv => opposed hv (h.hold v), fun _ => h.told, fun p hp => absent h.copyPass hp,
    fun p hp => absent h.copyPass hp⟩

def quiet : State :=
  ⟨0, true, fun _ => none, fun _ => none, none, none, ⟨fun _ => none, fun _ => false, none⟩⟩

/-- A replication pass that starts a copy of the volume, up to its end. -/
def copyPass (v : Name) : List Event :=
  [.beginCopies (fun _ => false) [v], .visit true true true]

end FilePool.ExportHolds
