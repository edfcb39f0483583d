import FilePool.PoolProtocol

/-!
The calls of the driver follow the protocol. Each function has one statement: from which
local states it may be called and in which ones it returns. The work on chains and Jobs
leaves the local state as it is.
-/
namespace FilePool.CallsFollow

open UndoNames RewoundFolders PoolRecords PoolWorld ShareCreation InstantSnapshots VolumeCalls
  SnapshotCalls PoolProtocol Threads Proc List

/-- The questions that are not about books, records or shares. -/
def Quiet : Query → Prop
  | .lock _ | .unlock _ | .listPools | .updatePoolStatus _ | .updatePool _ | .createSubVolume _
  | .updateSubVolume _ | .deleteSubVolume _ | .createSnapshot _ | .updateSnapshot _
  | .deleteSnapshot _ | .createShare _ | .sharesByName _ | .awaitShare _ | .deleteShare _ => False
  | _ => True

theorem step_quiet (q : Query) (hq : Quiet q) (l : Local) (a : Answer q)
    (_ : protocol.answers q a) : protocol.step l q a l := by
  cases q with
  | getPool n =>
    cases a with
    | ok p => exact .inl rfl
    | error e => exact .inl rfl
  | getSubVolume n =>
    cases a with
    | ok v => exact .inl rfl
    | error e => exact rfl
  | getSnapshot n =>
    cases a with
    | ok s => exact .inl rfl
    | error e => exact rfl
  | listSubVolumes _ | listSnapshots _ | listSubVolumesByShare _ | listSnapshotsByShare _
  | getShare _ => exact .inl rfl
  | lock _ | unlock _ | listPools | updatePoolStatus _ | updatePool _ | createSubVolume _
  | updateSubVolume _ | deleteSubVolume _ | createSnapshot _ | updateSnapshot _
  | deleteSnapshot _ | createShare _ | sharesByName _ | awaitShare _ | deleteShare _ =>
    exact hq.elim
  | _ => exact rfl

theorem quiet_of_chain (q : Query) (h : ChainQuestion q) : Quiet q := by
  cases q <;> trivial

variable {α β : Type} {l : Local} {post : α → Local → Prop} {err : Local → Prop} {q : Query}
  {x : Lock} {k : ℕ} {tier : Name}

theorem meets_quiet {p : Driver α} (hp : p.Asks Quiet) (hpost : ∀ a, post a l) (herr : err l) :
    Meets protocol p post err l := meets_asks step_quiet hp hpost herr

theorem meets_chain {p : Driver α} (hp : p.Asks ChainQuestion) (hpost : ∀ a, post a l)
    (herr : err l) : Meets protocol p post err l :=
  meets_quiet (asks_mono hp quiet_of_chain) hpost herr

theorem meets_look {post : Answer q → Local → Prop} (hq : Quiet q)
    (h : ∀ a, answers q a → post a l) : Meets protocol (ask q) post err l :=
  meets_query q (fun a ha => ⟨l, step_quiet q hq l a ha, h a ha⟩)

/-- A quiet question whose answer is handed on, or ends the call when it is an error. -/
theorem meets_lookFor {δ : Type} {e : δ → Err} {r : Answer q → Except δ β}
    {f : β → Driver α} (hq : Quiet q)
    (h : ∀ {a : Answer q} (b : β), answers q a → r a = .ok b → Meets protocol (f b) post err l)
    (herr : err l) : Meets protocol (ask q >>= fun a => Proc.orFail e (r a) >>= f) post err l :=
  meets_bind (meets_look hq (fun a ha => meets_bind (meets_orFail e (r a)
    (fun b hb => h b ha hb) (fun _ _ => herr))))

/-- A body under a lock: the lock is held in the body and given back at its end. -/
theorem meets_locked {body : Driver α}
    (h : Meets protocol body (fun a l => x ∈ l.held ∧ post a (l.release x))
      (fun l => x ∈ l.held ∧ err (l.release x)) { l with held := x :: l.held }) :
    Meets protocol (locked x body) post err l := by
  refine meets_ask (fun _ _ => ⟨_, rfl, ?_⟩)
  refine meets_bind (meets_attempt (meets_mono h (fun a l' hl' => ?_) (fun l' hl' e => ?_)))
  · exact meets_ask (fun _ _ => ⟨_, ⟨hl'.1, rfl⟩, hl'.2⟩)
  · exact meets_ask (fun _ _ => ⟨_, ⟨hl'.1, rfl⟩, hl'.2⟩)

theorem nextShareName_eq (p : Pool) (tier : Name) :
    nextShareName p tier = shareNameOf p.name tier (shareNumber p.status.shares tier + 1) := by
  unfold nextShareName shareNameOf shareNumber
  by_cases h : tier = []
  · simp [h]
  · simp [h]

theorem dash_notMem_digitsOf {n : ℕ} : '-' ∉ digitsOf n := by
  intro h
  exact (ne_dot_of_digit _ (digits?_mem _ 0 _ (digits?_decimal _ n 0) _ h)).2.1 rfl

theorem digitsOf_inj {m n : ℕ} (h : digitsOf m = digitsOf n) : m = n := by
  have hm : formatInt (m : ℤ) = digitsOf m := by simp [formatInt]
  have hn : formatInt (n : ℤ) = digitsOf n := by simp [formatInt]
  have := formatInt_inj m n (by rw [hm, hn, h])
  exact_mod_cast this

def wordStem : Name := ['-', 's', 'h', 'a', 'r', 'e']

/-- The part of a share's name between the pool's name and the last dash. -/
def nameStem (tier : Name) : Name := if tier = [] then wordStem else '-' :: tier ++ wordStem

theorem shareNameOf_eq (pool tier : Name) (k : ℕ) :
    shareNameOf pool tier k = (pool ++ nameStem tier) ++ '-' :: digitsOf k := by
  unfold shareNameOf nameStem
  by_cases h : tier = []
  · simp [h, shareWord, wordStem]
  · simp [h, shareWord, wordStem]

/-- The name tells the tier and the number. -/
theorem shareNameOf_inj {pool t u : Name} {m : ℕ}
    (h : shareNameOf pool t k = shareNameOf pool u m) : t = u ∧ k = m := by
  rw [shareNameOf_eq, shareNameOf_eq] at h
  obtain ⟨hstem, hdigits⟩ := append_cut_inj '-' _ _ _ _ dash_notMem_digitsOf dash_notMem_digitsOf h
  refine ⟨?_, digitsOf_inj hdigits⟩
  have hstem' := append_cancel_left hstem
  unfold nameStem at hstem'
  by_cases ht : t = []
  · by_cases hu : u = []
    · rw [ht, hu]
    · have := congrArg length hstem'
      simp [ht, hu] at this
      omega
  · by_cases hu : u = []
    · have := congrArg length hstem'
      simp [ht, hu] at this
      omega
    · rw [if_neg ht, if_neg hu] at hstem'
      exact append_cancel_right (cons.inj hstem').2

theorem shareNumber_append {shares : List PoolShareStatus} {s : PoolShareStatus} :
    shareNumber shares tier ≤ shareNumber (shares ++ [s]) tier := by
  unfold shareNumber tierCount
  by_cases h : tier = []
  · simp [h]
  · simp [h]

theorem shareNumber_append_self (shares : List PoolShareStatus) (s : PoolShareStatus) :
    shareNumber (shares ++ [s]) s.tier = shareNumber shares s.tier + 1 := by
  unfold shareNumber tierCount
  by_cases h : s.tier = []
  · simp [h]
  · simp [h]

variable (cfg : Config)

/-- The local state after shares were made: only what belongs to their making differs. -/
def Extends (l : Local) (ms : List Made) (l' : Local) : Prop :=
  ∃ claimed asked offered creating, l' = { l with
    made := l.made ++ ms, claimed := claimed, asked := asked, offered := offered
    creating := creating }

theorem extends_self (l : Local) : Extends l [] l :=
  ⟨l.claimed, l.asked, l.offered, l.creating, by simp⟩

variable {p₀ : Pool} {ms : List Made} {l' l₀ : Local} {input : CreateShareInput} {pool : Pool}

theorem Extends.frame (h : Extends l ms l') :
    l'.call = l.call ∧ l'.held = l.held ∧ l'.base = l.base ∧ l'.forced = l.forced ∧
      l'.debt = l.debt := by
  obtain ⟨c, a, o, cr, rfl⟩ := h
  exact ⟨rfl, rfl, rfl, rfl, rfl⟩

/-- A share that was awaited is one of those that were made. -/
theorem meets_awaitShare {id : Name}
    (hl : Extends l₀ [] l) (hasked : l.asked = some (input, tier)) (hk : l.Keeper)
    (hid : l.creating = some id ∨ ∃ c ∈ l.offered, c.id = id ∧ id ∉ input.claimedShareIDs) :
    Meets protocol (do orFail (fun _ => Err.vpc) (← ask (.awaitShare id)))
      (fun info l' => Extends l₀ [⟨info, tier, input⟩] l') (Extends l₀ []) l := by
  obtain ⟨c, a, o, cr, hl'⟩ := hl
  refine meets_ask (fun r _ => ?_)
  cases r with
  | ok info =>
    refine ⟨_, ⟨input, tier, hasked, hk, hid, rfl⟩, meets_pure info ?_⟩
    rw [hl']
    exact ⟨c, none, o, none, by simp⟩
  | error e =>
    exact ⟨l, ⟨input, tier, hasked, hk, hid, rfl⟩, meets_fail _ ⟨c, a, o, cr, hl'⟩⟩

theorem mem_of_chooseShare {cs : List ShareInfo} {s : ShareInfo} (h : chooseShare cs = some s) :
    s ∈ cs := by
  cases cs with
  | nil => simp [chooseShare] at h
  | cons x xs =>
    simp only [chooseShare] at h
    cases hf : (x :: xs).find? (fun x => x.mountTargets ≠ []) with
    | none =>
      rw [hf] at h
      simp only [Option.none_or, Option.some.injEq] at h
      exact h ▸ mem_cons_self
    | some y =>
      rw [hf] at h
      simp only [Option.some_or, Option.some.injEq] at h
      exact h ▸ mem_of_find?_eq_some hf

theorem meets_createFileShare
    (hl : Extends l₀ [] l) (hbase : l.base = some p₀) (hk : l.Keeper)
    (hname : input.name = shareNameOf p₀.name tier k)
    (hnew : ∀ m ∈ l.made, m.input.name ≠ input.name)
    (hclaimed : l.claimed = some input.claimedShareIDs) :
    Meets protocol (createFileShare input)
      (fun info l' => Extends l₀ [⟨info, tier, input⟩] l') (Extends l₀ []) l := by
  obtain ⟨c, a, o, cr, hl'⟩ := hl
  have hkeep : ∀ asked offered creating, Extends l₀ [] { l with
      asked := asked, offered := offered, creating := creating } := by
    intro asked offered creating
    rw [hl']
    exact ⟨c, asked, offered, creating, rfl⟩
  refine meets_ask (fun r _ => ?_)
  match r with
  | .ok id =>
    refine ⟨_, ⟨p₀, tier, k, hbase, hk, hname, hnew, hclaimed, rfl⟩, ?_⟩
    exact meets_awaitShare (hkeep _ _ _) rfl hk (.inl rfl)
  | .error .alreadyExists =>
    refine ⟨_, ⟨p₀, tier, k, hbase, hk, hname, hnew, hclaimed, rfl⟩, ?_⟩
    refine meets_call rfl (fun _ _ => ⟨_, rfl, hkeep _ _ _⟩) (fun cs _ =>
      ⟨_, .inl ⟨input, tier, rfl, rfl, rfl⟩, ?_⟩)
    refine meets_unless (hkeep _ _ _) (fun _ => ?_)
    split
    · exact meets_fail _ (hkeep _ _ _)
    · rename_i s hs
      have hmem := mem_filter.mp (mem_of_chooseShare hs)
      have hmatch : s.id ∉ input.claimedShareIDs := by
        have := hmem.2
        simp only [shareMatchesRequest, Bool.and_eq_true, decide_eq_true_eq] at this
        exact this.1.1.1
      exact meets_awaitShare (hkeep _ _ _) rfl hk (.inr ⟨s, hmem.1, rfl, hmatch⟩)
  | .error .notFound | .error .other =>
    exact ⟨l, ⟨p₀, tier, k, hbase, hk, hname, hnew, hclaimed, rfl⟩,
      meets_fail _ ⟨c, a, o, cr, hl'⟩⟩

/-- A request for a share makes one of the asked size under the next name, or none. -/
theorem meets_requestShare (hbase : l.base = some p₀)
    (hk : l.Keeper) (hpool : pool.name = p₀.name)
    (hnew : ∀ m ∈ l.made, m.input.name ≠ nextShareName pool tier) :
    Meets protocol (requestShare cfg pool tier)
      (fun info l' => ∃ t input, pool.spec.tierConfig tier = .ok t ∧
        input.name = nextShareName pool tier ∧ input.sizeGB = t.sizeGB ∧
        Extends l [⟨info, tier, input⟩] l') (Extends l []) l := by
  have herr := extends_self l
  refine meets_bind (meets_bind (meets_orFail _ _ (fun t ht => ?_) (fun _ _ => herr)))
  refine meets_unless herr (fun _ => ?_)
  refine meets_lookFor trivial (fun _ _ _ => ?_) herr
  refine meets_pure _ (meets_bind (meets_call rfl (fun _ _ => ⟨l, rfl, herr⟩)
    (fun ps _ => ⟨_, rfl, meets_pure _ ?_⟩)))
  refine meets_mono (meets_createFileShare ⟨_, _, _, _, by rw [append_nil]⟩ hbase hk
    (by rw [nextShareName_eq, hpool]) hnew rfl) (fun info l' hl' => ?_) (fun _ h => h)
  exact ⟨t, _, ht, rfl, rfl, hl'⟩

/-- The call may end with its debt. -/
def Excused (l : Local) : Prop := ∀ d, l.debt = some d →
  l.lost = true ∨ (d.gb ≤ 0 ∧ d.pvcs = 0 ∧ l.skipped = some d.pool)

/-- The call holds these locks and has no open debt. -/
structure Tidy (c : Call) (h : List Lock) (l : Local) : Prop where
  call : l.call = c
  held : l.held = h
  debt : Excused l

/-- From `l` on, the program leaves its call with the same locks and no open debt. -/
def StaysTidy (p : Driver α) (l : Local) : Prop :=
  Meets protocol p (fun _ => Tidy l.call l.held) (Tidy l.call l.held) l

theorem excused_of_none (h : l.debt = none) : Excused l := by
  intro d hd
  rw [h] at hd
  cases hd

theorem tidy_self (h : l.debt = none) : Tidy l.call l.held l :=
  ⟨rfl, rfl, excused_of_none h⟩

theorem Extends.tidy (h : Extends l ms l') (hdebt : l.debt = none) :
    Tidy l.call l.held l' := by
  obtain ⟨c, a, o, cr, rfl⟩ := h
  exact ⟨rfl, rfl, excused_of_none hdebt⟩

/-- A pool in memory that is the copy with the shares that were made since. -/
structure GrownTo (l : Local) (p₀ p : Pool) : Prop where
  name : p.name = p₀.name
  version : p.version = p₀.version
  shares : p.status.shares = l.grown p₀
  allocated : p.status.totalAllocatedGB = p₀.status.totalAllocatedGB
  count : p.status.totalPVCCount = p₀.status.totalPVCCount
  drains : p.status.drainStatus = p₀.status.drainStatus

variable {p₀ p : Pool} {share : Name} {m : Made} {gb : ℤ} {c : Call} {h : List Lock}

theorem grownTo_self (h : l.made = []) : GrownTo l p₀ p₀ :=
  ⟨rfl, rfl, by simp [Local.grown, h], rfl, rfl, rfl⟩

theorem GrownTo.booked (h : GrownTo l p₀ p) (share : Name) (gb n : ℤ) :
    Booked l p₀ (bookVolume p share gb n) share gb n :=
  ⟨by simp [bookVolume, h.shares], by simp [bookVolume, h.allocated],
    by simp [bookVolume, h.count], by simp [bookVolume, h.drains]⟩

theorem changeShare_same {f : PoolShareStatus → PoolShareStatus}
    (hf : ∀ s, f s = s) (shares : List PoolShareStatus) : changeShare share f shares = shares := by
  induction shares with
  | nil => rfl
  | cons s rest ih =>
    unfold changeShare
    split
    · rw [hf]
    · rw [ih]

theorem GrownTo.unbooked (h : GrownTo l p₀ p) (share : Name) : Booked l p₀ p share 0 0 :=
  ⟨by rw [changeShare_same (fun s => by simp), h.shares], by simp [h.allocated],
    by simp [h.count], h.drains⟩

theorem GrownTo.addShare (h : GrownTo l p₀ p) (hl : Extends l [m] l')
    (sizeGB : ℤ) : GrownTo l' p₀ (ShareCreation.addShare p m.status sizeGB) := by
  obtain ⟨c, a, o, cr, rfl⟩ := hl
  refine { h with shares := ?_ }
  simp [ShareCreation.addShare, h.shares, Local.grown]

theorem GrownTo.extends_nil (h : GrownTo l p₀ p) (hl : Extends l [] l') :
    GrownTo l' p₀ p := by
  obtain ⟨c, a, o, cr, rfl⟩ := hl
  exact { h with shares := by simp [h.shares, Local.grown] }

theorem meets_logged {q : Pool} {n : ℤ} {d : Option Debt} {b : Bool} (hbase : l.base = some p₀)
    (hk : l.Keeper)
    (hname : q.name = p₀.name) (hversion : q.version = p₀.version)
    (hbooked : Booked l p₀ q share gb n) (hpays : Pays l p₀ share gb n d b) (hcall : l.call = c)
    (hheld : l.held = h)
    (hd : d = none) :
    Meets protocol (ask (.updatePoolStatus q)) (fun _ => Tidy c h) err l := by
  refine meets_query _ (fun r _ => ?_)
  cases r with
  | ok q' =>
    exact ⟨_, ⟨p₀, hbase, hk, hname, hversion, .inl ⟨share, gb, n, d, b, hbooked, hpays, rfl⟩⟩,
      hcall, hheld, excused_of_none hd⟩
  | error e =>
    refine ⟨_, ⟨p₀, hbase, hk, hname, hversion, rfl⟩, hcall, hheld, ?_⟩
    intro d' hd'
    have : l.debt = some d' := hd'
    exact .inl (by simp [this])

variable {req : AllocationRequest} {v : SubVolume} {e : ApiErr → Err} {n name : Name}
  {newSizeGB : ℕ}

theorem meets_storeVolume (hbase : l.base = some p₀) (hforced : l.forced = false)
    (hmu : Lock.mu ∈ l.held) (hpool : v.poolName = p₀.name)
    (hcall : volumePool l.call = some v.poolName) (hdebt : l.debt = none) (hfits : Fits l p₀ v) :
    Meets protocol (storeVolume v)
      (fun _ l' => l' = { l with debt := some ⟨p₀.name, v.shareID, v.requestedGB, 1⟩ })
      (fun l' => l' = l) l := by
  refine meets_call rfl
    (fun _ _ => ⟨l, ⟨p₀, hbase, hforced, hmu, hpool, hcall, hdebt, hfits, rfl⟩, rfl⟩)
    (fun made _ => ⟨_, ⟨p₀, hbase, hforced, hmu, hpool, hcall, hdebt, hfits, rfl⟩, ?_⟩)
  refine meets_bind (meets_look trivial (fun stored _ => ?_))
  cases stored with
  | ok v' => exact meets_pure v' rfl
  | error e => exact meets_pure _ rfl

/-- A debt is booked; a write that fails is only logged. -/
theorem meets_bookDebt {n : ℤ} (hbase : l.base = some p₀)
    (hmu : Lock.mu ∈ l.held) (hgrown : GrownTo l p₀ p)
    (hdebt : l.debt = some ⟨p₀.name, share, gb, n⟩) :
    StaysTidy (do let _r ← ask (.updatePoolStatus (bookVolume p share gb n)); return ()) l :=
  meets_then (meets_logged hbase (.inl hmu) hgrown.name hgrown.version (hgrown.booked share gb n)
    (.debt _ _ hmu hdebt) rfl rfl rfl) (fun _ _ h => meets_pure () h)

/-- A volume of the request fits on the share. -/
def Room (l : Local) (p₀ : Pool) (req : AllocationRequest) (share : PoolShareStatus) : Prop :=
  ∀ v : SubVolume, v.shareID = share.shareID → v.requestedGB = req.requestedGB → Fits l p₀ v

theorem room_of_takes {share : PoolShareStatus} (hmem : share ∈ p₀.status.shares)
    (h : Takes req.requestedGB share) : Room l p₀ req share := by
  intro v hv hgb
  exact ⟨share, hv.symm, h.1, .inl ⟨hmem, by rw [hgb]; exact h.2⟩⟩

theorem room_of_made (hmem : m ∈ l.made) (hready : shareReady m.status = true)
    (hsize : (req.requestedGB : ℤ) ≤ m.input.sizeGB) : Room l p₀ req m.status := by
  intro v hv hgb
  exact ⟨m.status, hv.symm, hready, .inr ⟨m, hmem, rfl, by rw [hgb]; exact hsize⟩⟩

theorem meets_expandPool (hbase : l.base = some p₀)
    (hk : l.Keeper) (hpool : pool.name = p₀.name) (hmade : l.made = []) :
    Meets protocol (expandPool cfg pool gb tier)
      (fun info l' => ∃ input, gb ≤ input.sizeGB ∧ Extends l [⟨info, tier, input⟩] l')
      (Extends l []) l := by
  have herr := extends_self l
  refine meets_unless herr (fun _ => ?_)
  refine meets_bind (meets_orFail _ _ (fun t ht => ?_) (fun _ _ => herr))
  refine meets_unless herr (fun _ => ?_)
  refine meets_unless herr (fun _ => ?_)
  refine meets_unless herr (fun _ => ?_)
  refine meets_unless herr (fun hsize => ?_)
  refine meets_mono (meets_requestShare cfg hbase hk hpool (by simp [hmade]))
    (fun info l' h => ?_) (fun _ h => h)
  obtain ⟨t', input, ht', -, hgb, hl'⟩ := h
  have htt : t = t' := by
    have := ht.symm.trans ht'
    simpa using this
  subst htt
  exact ⟨input, by omega, hl'⟩

/-- The pool with the share that was made, if there is one, and the share when it is
ready. -/
theorem meets_tryAutoExpand (hbase : l.base = some p₀)
    (hk : l.Keeper) (hgrown : GrownTo l p₀ pool) (hmade : l.made = []) :
    Meets protocol (tryAutoExpand cfg pool req.requestedGB tier)
      (fun x l' => (∃ ms, Extends l ms l') ∧ GrownTo l' p₀ x.1 ∧
        ∀ share, x.2 = .ok share → Room l' p₀ req share) (Extends l []) l := by
  refine meets_bind (meets_attempt (meets_mono (meets_expandPool cfg hbase hk hgrown.name hmade)
    (fun info l' h => ?_) (fun l' h e => ?_)))
  · obtain ⟨input, hsize, hl'⟩ := h
    refine meets_pure _ ⟨⟨_, hl'⟩, hgrown.addShare hl' _, fun share hshare => ?_⟩
    have hmem : (⟨info, tier, input⟩ : Made) ∈ l'.made := by
      obtain ⟨c, a, o, cr, rfl⟩ := hl'
      simp
    split at hshare
    · rename_i hready
      cases hshare
      exact room_of_made hmem hready hsize
    · cases hshare
  · refine meets_pure _ ⟨⟨_, h⟩, hgrown.extends_nil h, fun share hshare => ?_⟩
    cases hshare

theorem meets_shareForAllocate (hbase : l.base = some p₀)
    (hmu : Lock.mu ∈ l.held) (hgrown : GrownTo l p₀ pool) (hpool : pool.status = p₀.status)
    (hmade : l.made = []) (hdebt : l.debt = none) :
    Meets protocol (shareForAllocate cfg req pool)
      (fun x l' => (∃ ms, Extends l ms l') ∧ GrownTo l' p₀ x.1 ∧ Room l' p₀ req x.2)
      (Tidy l.call l.held) l := by
  unfold shareForAllocate
  split
  · rename_i share hshare
    have hok := selectShare_ok hshare
    rw [hpool] at hok
    exact meets_pure _ ⟨⟨_, extends_self l⟩, hgrown, room_of_takes hok.1 hok.2⟩
  · refine meets_bind (meets_mono (meets_tryAutoExpand cfg hbase (.inl hmu) hgrown hmade)
      (fun x l' h => ?_) (fun l' h => ?_))
    · obtain ⟨⟨ms, hl'⟩, hgrown', hroom⟩ := h
      obtain ⟨hcall, hheld, hbase', -, hdebt'⟩ := hl'.frame
      split
      · rename_i share hshare
        exact meets_pure _ ⟨⟨ms, hl'⟩, hgrown', hroom share hshare⟩
      · refine meets_then (meets_logged (hbase'.trans hbase)
          (.inl (hheld ▸ hmu)) hgrown'.name hgrown'.version (hgrown'.unbooked []) .nothing
          hcall hheld (hdebt'.trans hdebt)) (fun _ _ h => meets_fail _ h)
    · exact h.tidy hdebt
  · exact meets_fail _ (tidy_self hdebt)

/-- The record of a volume is made and booked, on a share that was picked for it. -/
theorem meets_placed {f : SubVolume → α} (hl : Extends l ms l') (hbase : l.base = some p₀)
    (hforced : l.forced = false)
    (hmu : Lock.mu ∈ l.held) (hdebt : l.debt = none) (hgrown : GrownTo l' p₀ pool)
    (hpool : v.poolName = p₀.name) (hvol : volumePool l.call = some v.poolName)
    (hfits : Fits l' p₀ v) :
    Meets protocol (do
        let v' ← storeVolume v
        recordVolume pool v
        return f v') (fun _ => Tidy l.call l.held) (Tidy l.call l.held) l' := by
  have htidy := hl.tidy hdebt
  obtain ⟨c, a, o, cr, rfl⟩ := hl
  refine meets_bind (meets_mono (meets_storeVolume hbase hforced hmu hpool hvol hdebt hfits)
    (fun v' l' hl' => ?_) (fun l' hl' => hl' ▸ htidy))
  subst hl'
  exact meets_then (meets_bookDebt hbase hmu { hgrown with } rfl) (fun _ _ h => meets_pure _ h)

theorem meets_startFrom {f : Pool → Driver α} (hk : l.Keeper) (herr : err l)
    (h : ∀ p : Pool, p.name = n → Meets protocol (f p) post err (l.startFrom p)) :
    Meets protocol (do
        let r ← ask (.getPool n)
        let p ← orFail e (r : Except ApiErr Pool)
        f p) post err l :=
  meets_call rfl (fun _ _ => ⟨l, .inl rfl, herr⟩)
    (fun p hr => ⟨_, .inr (.inl ⟨hk, rfl⟩), h p (hr p rfl)⟩)

theorem meets_allocateBody (hvol : volumePool l.call = some req.poolName)
    (hmu : Lock.mu ∈ l.held) (hdebt : l.debt = none) :
    StaysTidy (allocateBody cfg req) l := by
  have htidy := tidy_self hdebt
  refine meets_startFrom (.inl hmu) htidy (fun p hp => ?_)
  have htidy' : Tidy l.call l.held (l.startFrom p) := ⟨rfl, rfl, excused_of_none hdebt⟩
  refine meets_unless htidy' (fun _ => ?_)
  refine meets_bind (meets_look trivial (fun existing _ => ?_))
  match existing with
  | .ok v => exact meets_pure _ htidy'
  | .error _ =>
    refine meets_unless htidy' (fun _ => ?_)
    refine meets_then (meets_shareForAllocate cfg (l := l.startFrom p) rfl hmu
      (grownTo_self rfl) rfl rfl hdebt) (fun x l' h => ?_)
    obtain ⟨⟨ms, hl'⟩, hgrown, hroom⟩ := h
    have hplaced := meets_placed hl' rfl rfl hmu hdebt hgrown
      (v := { newSubVolume req x.1 x.2 with restorePending := req.restorePending })
      (f := allocationResult x.1 x.2) (hp ▸ rfl) hvol (hroom _ rfl rfl)
    split
    · refine meets_bind (meets_look trivial (fun r _ => ?_))
      exact meets_bind (meets_orFail _ r (fun _ _ => hplaced) (fun _ _ => hl'.tidy hdebt))
    · exact hplaced

theorem Tidy.release (ht : Tidy c (x :: h) l) :
    x ∈ l.held ∧ Tidy c h (l.release x) := by
  refine ⟨by rw [ht.held]; exact mem_cons_self, ?_⟩
  cases x with
  | mu | volume _ | worker | cloning _ | backup =>
    exact ⟨ht.call, by simp [Local.release, ht.held], ht.debt⟩

theorem meets_lockedTidy {b : Driver α}
    (hb : Meets protocol b (fun _ => Tidy c (x :: h)) (Tidy c (x :: h))
      { l with held := x :: l.held }) :
    Meets protocol (locked x b) (fun _ => Tidy c h) (Tidy c h) l :=
  meets_locked (meets_mono hb (fun _ _ ht => ht.release) (fun _ ht => ht.release))

theorem meets_allocate (hvol : volumePool l.call = some req.poolName) (hdebt : l.debt = none) :
    StaysTidy (allocate cfg req) l :=
  meets_lockedTidy (meets_allocateBody cfg hvol mem_cons_self hdebt)

theorem meets_createVolume :
    Meets protocol (createVolume cfg req) (fun _ => Tidy (.allocate req) [])
      (Tidy (.allocate req) []) (start (.allocate req)) := by
  unfold createVolume
  split
  · exact meets_allocate cfg rfl rfl
  · refine meets_lookFor trivial (fun pending _ _ => ?_) ⟨rfl, rfl, excused_of_none rfl⟩
    exact @meets_allocate (start (.allocate req)) cfg { req with restorePending := pending } rfl rfl

theorem asks_stopDataCopy : (stopDataCopy v).Asks Quiet := by
  unfold stopDataCopy
  split
  · exact asks_pure
  · refine asks_call trivial (fun stopped => ?_)
    exact asks_ite asks_pure asks_fail

theorem asks_removeFolder : (removeFolder v).Asks Quiet := by
  refine asks_bind (asks_mono asks_hasInstantSnapshots quiet_of_chain) (fun keep => ?_)
  refine asks_ite asks_pure ?_
  refine asks_call trivial (fun done => ?_)
  exact asks_ite asks_pure asks_fail

theorem meets_readVolume {f : SubVolume → Driver α} (hmu : Lock.mu ∈ l.held) (herr : err l)
    (h : ∀ v : SubVolume, v.name = n → Meets protocol (f v) post err { l with volume := some v }) :
    Meets protocol (do
        let r ← ask (.getSubVolume n)
        let v ← orFail e (r : Except ApiErr SubVolume)
        f v) post err l :=
  meets_call rfl (fun _ _ => ⟨l, rfl, herr⟩)
    (fun v hr => ⟨_, .inr (.inl ⟨hmu, rfl⟩), h v (hr v rfl)⟩)

theorem meets_deallocateBody (hmu : Lock.mu ∈ l.held)
    (hlock : Lock.volume name ∈ l.held) (hdebt : l.debt = none) :
    StaysTidy (deallocateBody cfg name) l := by
  refine meets_readVolume hmu (tidy_self hdebt) (fun v hv => ?_)
  refine meets_startFrom (.inl hmu) ⟨rfl, rfl, excused_of_none hdebt⟩ (fun p hp => ?_)
  refine meets_unless ⟨rfl, rfl, excused_of_none hdebt⟩ (fun _ => ?_)
  refine meets_bind (meets_quiet asks_stopDataCopy (fun _ => ?_) ⟨rfl, rfl, excused_of_none hdebt⟩)
  refine meets_bind (meets_quiet asks_removeFolder (fun _ => ?_) ⟨rfl, rfl, excused_of_none hdebt⟩)
  refine meets_call rfl
    (fun _ _ => ⟨_, ⟨p, v, rfl, rfl, rfl, hmu, hlock, rfl, hv, hp.symm, hdebt, rfl⟩,
      rfl, rfl, excused_of_none hdebt⟩)
    (fun u _ => ⟨_, ⟨p, v, rfl, rfl, rfl, hmu, hlock, rfl, hv, hp.symm, hdebt, rfl⟩, ?_⟩)
  exact meets_bookDebt rfl hmu (grownTo_self rfl) rfl

theorem meets_deallocate :
    Meets protocol (deallocate cfg name) (fun _ => Tidy (.deallocate name) [])
      (Tidy (.deallocate name) []) (start (.deallocate name)) :=
  meets_lockedTidy (meets_lockedTidy (meets_deallocateBody cfg mem_cons_self
    (mem_cons_of_mem _ mem_cons_self) rfl))

theorem meets_expandBody (hmu : Lock.mu ∈ l.held)
    (hdebt : l.debt = none) :
    StaysTidy (expandBody name newSizeGB) l := by
  refine meets_readVolume hmu (tidy_self hdebt) (fun v hv => ?_)
  refine meets_startFrom (.inl hmu) ⟨rfl, rfl, excused_of_none hdebt⟩ (fun p hp => ?_)
  split
  · exact meets_pure _ ⟨rfl, rfl, excused_of_none hdebt⟩
  · refine meets_bind (meets_orFail _ _ (fun _ hroom => ?_)
      (fun _ _ => ⟨rfl, rfl, excused_of_none hdebt⟩))
    obtain ⟨s, hs, hfree⟩ := checkShareRoom_ok hroom
    have hle : v.requestedGB ≤ newSizeGB := by omega
    refine meets_call rfl
      (fun _ _ => ⟨_, ⟨p, v, s, rfl, rfl, rfl, hmu, rfl, hp.symm, hdebt, rfl, hle, hs, hfree, rfl⟩,
        rfl, rfl, excused_of_none hdebt⟩)
      (fun u _ => ⟨_, ⟨p, v, s, rfl, rfl, rfl, hmu, rfl, hp.symm, hdebt, rfl, hle, hs, hfree, rfl⟩,
        ?_⟩)
    exact meets_bookDebt rfl hmu (grownTo_self rfl) rfl

theorem meets_expand :
    Meets protocol (expand name newSizeGB) (fun _ => Tidy (.expand name newSizeGB) [])
      (Tidy (.expand name newSizeGB) []) (start (.expand name newSizeGB)) :=
  meets_lockedTidy (meets_expandBody mem_cons_self rfl)

theorem meets_shareForCopy {selected : Except Err PoolShareStatus}
    (hbase : l.base = some p₀) (hmu : Lock.mu ∈ l.held) (hgrown : GrownTo l p₀ pool)
    (hsel : ∀ share, selected = .ok share → Room l p₀ req share) (hmade : l.made = [])
    (hdebt : l.debt = none) :
    Meets protocol (shareForCopy cfg req pool selected)
      (fun x l' => (∃ ms, Extends l ms l') ∧ GrownTo l' p₀ x.1 ∧ Room l' p₀ req x.2)
      (Tidy l.call l.held) l := by
  unfold shareForCopy
  split
  · exact meets_pure _ ⟨⟨_, extends_self l⟩, hgrown, hsel _ rfl⟩
  · refine meets_bind (meets_mono (meets_tryAutoExpand cfg hbase (.inl hmu) hgrown hmade)
      (fun x l' h => ?_) (fun l' h => h.tidy hdebt))
    obtain ⟨⟨ms, hl'⟩, hgrown', hroom⟩ := h
    split
    · rename_i share hshare
      exact meets_pure _ ⟨⟨ms, hl'⟩, hgrown', hroom share hshare⟩
    · exact meets_fail _ (hl'.tidy hdebt)
  · exact meets_fail _ (tidy_self hdebt)

theorem meets_reserveRestoreBody {snapshot : Name} (hvol : volumePool l.call = some req.poolName)
    (hmu : Lock.mu ∈ l.held) (hdebt : l.debt = none) :
    StaysTidy (reserveRestoreBody cfg snapshot req) l := by
  refine meets_startFrom (.inl hmu) (tidy_self hdebt) (fun p hp => ?_)
  refine meets_then (meets_shareForCopy cfg (l := l.startFrom p) rfl hmu
    (grownTo_self rfl) (fun share hs => ?_) rfl hdebt) (fun x l' h => ?_)
  · exact room_of_takes (selectShare_ok hs).1 (selectShare_ok hs).2
  · obtain ⟨⟨ms, hl'⟩, hgrown, hroom⟩ := h
    refine meets_unless (hl'.tidy hdebt) (fun _ => ?_)
    exact meets_placed (l := l.startFrom p) hl' rfl rfl hmu hdebt hgrown
      (hp ▸ rfl) hvol (hroom _ rfl rfl)

theorem meets_cloneBody {source : Option Name} (hvol : volumePool l.call = some req.poolName)
    (hmu : Lock.mu ∈ l.held) (hdebt : l.debt = none) :
    StaysTidy (cloneBody cfg source req) l := by
  have htidy := tidy_self hdebt
  refine meets_bind (meets_look trivial (fun existing _ => ?_))
  match existing, source with
  | .ok v, _ =>
    refine meets_unless htidy (fun _ => ?_)
    exact meets_pure _ htidy
  | .error _, none => exact meets_fail _ htidy
  | .error _, some src =>
    refine meets_lookFor trivial (fun sv _ _ => ?_) htidy
    refine meets_unless htidy (fun _ => ?_)
    refine meets_unless htidy (fun _ => ?_)
    refine meets_startFrom (.inl hmu) htidy (fun p hp => ?_)
    refine meets_then (meets_shareForCopy cfg (l := l.startFrom p) rfl hmu
      (grownTo_self rfl) (fun share hs => ?_) rfl hdebt) (fun x l' h => ?_)
    · exact room_of_takes (selectShareForClone_ok hs).1 (selectShareForClone_ok hs).2
    · obtain ⟨⟨ms, hl'⟩, hgrown, hroom⟩ := h
      exact meets_placed (l := l.startFrom p) hl' rfl rfl hmu hdebt hgrown

        (hp ▸ rfl) hvol (hroom _ rfl rfl)

theorem meets_cloneVolume (source : Option Name) :
    Meets protocol (cloneVolume cfg source req) (fun _ => Tidy (.cloneVolume source req) [])
      (Tidy (.cloneVolume source req) []) (start (.cloneVolume source req)) := by
  cases source with
  | none =>
    refine meets_lockedTidy ?_
    exact meets_cloneBody cfg (l := { start (.cloneVolume none req) with held := [.mu] }) rfl
      mem_cons_self rfl
  | some src =>
    refine meets_lockedTidy (meets_lockedTidy ?_)
    exact meets_cloneBody cfg
      (l := { start (.cloneVolume (some src) req) with held := [.mu, .volume src] }) rfl
      mem_cons_self rfl

end FilePool.CallsFollow
