import FilePool.SnapshotsFollow

/-!
A pass of the reconciler follows the protocol. The status it stores comes from the copy it
has read: a share of the copy is kept, dropped, or switched to another share of its name,
its books are counted anew or left alone, and shares are added at the end. Then every call
of the driver follows the protocol.
-/
namespace FilePool.PassFollows

open UndoNames PoolRecords PoolWorld ShareCreation PoolReconciler PoolProtocol CallsFollow
  SnapshotsFollow VolumeWorkers Threads Proc List

variable {cfg : Config}

/-- The record is still of this share, and its books are as they were. -/
structure SameShare (s s' : PoolShareStatus) : Prop where
  id : s'.shareID = s.shareID
  name : s'.shareName = s.shareName
  tier : s'.tier = s.tier
  total : s'.totalGB = s.totalGB
  allocated : s'.allocatedGB = s.allocatedGB
  count : s'.pvcCount = s.pvcCount

/-- As above, but the record can be of another share of the same name. -/
structure Looked (l : Local) (s s' : PoolShareStatus) : Prop where
  id : s'.shareID = s.shareID ∨
    ∃ c, (s.shareID, c) ∈ l.switches ∧ c.name = s.shareName ∧ s'.shareID = c.id
  name : s'.shareName = s.shareName
  tier : s'.tier = s.tier
  total : s'.totalGB = s.totalGB
  allocated : s'.allocatedGB = s.allocatedGB
  count : s'.pvcCount = s.pvcCount

/-- The local state after a look at shares. -/
def Checking (l l' : Local) : Prop := ∃ looked switches claimed, l' = { l with
  looked := looked, switches := l.switches ++ switches, claimed := claimed }

variable {l l' : Local} {p₀ : Pool} {s s' t : PoolShareStatus} {err : Local → Prop} {pool : Pool}
  {info : ShareInfo} {shares : List PoolShareStatus}

theorem checking_self : Checking l l := ⟨l.looked, [], l.claimed, by rw [append_nil]⟩

theorem Checking.trans {l'' : Local} (h : Checking l l') (h' : Checking l' l'') :
    Checking l l'' := by
  obtain ⟨a, sw, c, rfl⟩ := h
  obtain ⟨a', sw', c', rfl⟩ := h'
  exact ⟨a', sw ++ sw', c', by simp⟩

theorem Checking.switches_subset (h : Checking l l') : l.switches ⊆ l'.switches := by
  obtain ⟨a, sw, c, rfl⟩ := h
  exact subset_append_left _ _

/-- The health check of a pass on a copy. -/
structure Looking (l : Local) (p₀ : Pool) : Prop where
  call : ∃ n, l.call = .reconcile n
  base : l.base = some p₀
  counted : l.counted = none
  finalized : l.finalized = some p₀.name

theorem Looking.checking (h : Looking l p₀) (hc : Checking l l') : Looking l' p₀ := by
  obtain ⟨a, sw, c, rfl⟩ := hc
  exact { h with }

theorem Looked.mono (h : Looked l s s') (hc : Checking l l') : Looked l' s s' := by
  refine { h with id := h.id.imp_right ?_ }
  rintro ⟨c, hmem, hname, hid⟩
  exact ⟨c, hc.switches_subset hmem, hname, hid⟩

theorem SameShare.looked (h : SameShare s t) (h' : Looked l t s') : Looked l s s' := by
  refine ⟨?_, h'.name.trans h.name, h'.tier.trans h.tier, h'.total.trans h.total,
    h'.allocated.trans h.allocated, h'.count.trans h.count⟩
  rw [← h.id, ← h.name]
  exact h'.id

theorem Looked.same (h : Looked l s t) (h' : SameShare t s') : Looked l s s' := by
  refine ⟨?_, h'.name.trans h.name, h'.tier.trans h.tier, h'.total.trans h.total,
    h'.allocated.trans h.allocated, h'.count.trans h.count⟩
  rw [h'.id]
  exact h.id

theorem sameShare_backfill (s : PoolShareStatus) (state : ShareState) (info : ShareInfo) :
    SameShare s (backfill { s with state := state } info) := by
  unfold backfill
  split
  · dsimp only
    split <;> split <;> exact ⟨rfl, rfl, rfl, rfl, rfl, rfl⟩
  · exact ⟨rfl, rfl, rfl, rfl, rfl, rfl⟩

theorem adoptable_some {claimed : List Name} {c d : ShareInfo}
    {m : MountTargetInfo} (h : adoptable cfg pool s claimed c = some (d, m)) :
    d = c ∧ c.id ≠ s.shareID := by
  unfold adoptable at h
  split at h
  · cases h
  · rename_i hne
    simp only [Bool.or_eq_true, decide_eq_true_eq, not_or] at hne
    obtain ⟨m', -, hm'⟩ := Option.map_eq_some_iff.mp h
    cases hm'
    exact ⟨rfl, hne.1.1⟩

theorem meets_dropBare (h : ∃ c, (s.shareID, c) ∈ l.switches) (hcounted : l.counted = none) :
    Meets protocol (dropBare s) (fun _ l' => l' = l) err l := by
  unfold dropBare
  split
  · exact meets_ask (fun r _ => ⟨l, ⟨rfl, .inl ⟨h, hcounted⟩⟩, meets_pure _ rfl⟩)
  · exact meets_pure _ rfl

theorem meets_adopt (h : Looking l p₀)
    (hlooked : l.looked = some info) (hid : s.shareID = info.id)
    (hmem : ∃ t ∈ p₀.status.shares, t.shareID = s.shareID ∧ t.shareName = s.shareName) :
    Meets protocol (adoptShareWithMountTarget cfg pool s)
      (fun r l' => Checking l l' ∧ ∀ s', r = some s' → Looked l' s s') err l := by
  obtain ⟨t, ht, htid, htname⟩ := hmem
  refine meets_ask (fun candidates hnames => ?_)
  cases candidates with
  | error e => exact ⟨l, rfl, meets_pure _ ⟨checking_self, nofun⟩⟩
  | ok cs =>
    refine ⟨_, .inr ⟨p₀, info, t, h.base, hlooked, ht, htid.trans hid, htname, h.counted,
      h.finalized, h.call, rfl⟩, ?_⟩
    refine meets_bind (meets_attempt (meets_ask (fun r _ => ?_)))
    cases r with
    | error e =>
      exact ⟨_, rfl, meets_fail _ (fun _ => meets_pure _ ⟨⟨_, _, _, rfl⟩, nofun⟩)⟩
    | ok ps =>
      refine ⟨_, rfl, meets_pure _ ?_⟩
      dsimp only
      split
      · exact meets_pure _ ⟨⟨_, _, _, rfl⟩, nofun⟩
      · rename_i c m hfound
        obtain ⟨d, hd, hadopt⟩ := exists_of_findSome?_eq_some hfound
        obtain ⟨rfl, hne⟩ := adoptable_some hadopt
        have hswitch : (s.shareID, c) ∈ l.switches ++
            (cs.filter (fun c => c.id ≠ info.id)).map (fun c => (info.id, c)) := by
          refine mem_append_right _ (mem_map.mpr ⟨c, ?_, by rw [hid]⟩)
          exact mem_filter.mpr ⟨hd, by simpa [← hid] using hne⟩
        refine meets_then (meets_dropBare ⟨c, hswitch⟩ h.counted) (fun _ l' hl' => ?_)
        subst hl'
        refine meets_pure _ ⟨⟨_, _, _, rfl⟩, fun s' h => ?_⟩
        cases h
        exact ⟨.inr ⟨c, hswitch, hnames cs rfl c hd, rfl⟩, rfl, rfl, rfl, rfl, rfl⟩

theorem meets_recoverMountTarget {info' : ShareInfo}
    (h : Looking l p₀) (hlooked : l.looked = some info') (hid : s.shareID = info'.id)
    (hmem : ∃ t ∈ p₀.status.shares, t.shareID = s.shareID ∧ t.shareName = s.shareName) :
    Meets protocol (recoverMountTarget cfg pool s info)
      (fun s' l' => Checking l l' ∧ Looked l' s s') err l := by
  have hsame : ∀ l', Looked l' s s := fun l' => ⟨.inl rfl, rfl, rfl, rfl, rfl, rfl⟩
  unfold recoverMountTarget
  split
  · exact meets_pure _ ⟨checking_self, hsame l⟩
  · refine meets_then (meets_adopt h hlooked hid hmem) (fun adopted l' h => ?_)
    match adopted with
    | some s' => exact meets_pure _ ⟨h.1, h.2 s' rfl⟩
    | none =>
      dsimp only
      split
      · exact meets_pure _ ⟨h.1, hsame l'⟩
      · refine meets_bind (meets_look trivial (fun net _ => ?_))
        match net with
        | .error _ => exact meets_pure _ ⟨h.1, hsame l'⟩
        | .ok _ =>
          refine meets_bind (meets_look trivial (fun made _ => ?_))
          match made with
          | .error _ => exact meets_pure _ ⟨h.1, hsame l'⟩
          | .ok t => exact meets_pure _ ⟨h.1, .inl rfl, rfl, rfl, rfl, rfl, rfl⟩

theorem meets_checkShare (h : Looking l p₀)
    (hmem : s ∈ p₀.status.shares) :
    Meets protocol (checkShare cfg pool s)
      (fun r l' => Checking l l' ∧ ∀ s', r = some s' → Looked l' s s') err l := by
  have hsame : ∀ l' s', some s = some s' → Looked l' s s' := by
    intro l' s' h
    cases h
    exact ⟨.inl rfl, rfl, rfl, rfl, rfl, rfl⟩
  refine meets_ask (fun info hinfo => ?_)
  match info with
  | .error .notFound =>
    refine ⟨l, .inl rfl, meets_pure _ ⟨checking_self, fun s' h => ?_⟩⟩
    split at h
    · cases h
    · exact hsame l s' h
  | .error .alreadyExists | .error .other =>
    exact ⟨l, .inl rfl, meets_pure _ ⟨checking_self, hsame l⟩⟩
  | .ok info =>
    have hid : info.id = s.shareID := hinfo info rfl
    refine ⟨_, .inr ⟨info, rfl, rfl⟩, ?_⟩
    have hb := sameShare_backfill s (stateSeen pool s info) info
    have hstep : Checking l { l with looked := some info } :=
      ⟨some info, [], l.claimed, by rw [append_nil]⟩
    refine meets_bind (meets_mono (meets_recoverMountTarget (h.checking hstep) rfl
      (hb.id.trans hid.symm) ⟨s, hmem, hb.id.symm, hb.name.symm⟩) (fun s' l' h => ?_)
      (fun _ h => h))
    refine meets_pure _ ⟨hstep.trans h.1, fun s'' hs => ?_⟩
    cases hs
    exact hb.looked h.2

theorem meets_checkShares
    (h : Looking l p₀) (hmem : ∀ s ∈ shares, s ∈ p₀.status.shares) :
    Meets protocol (checkShares cfg pool shares)
      (fun x l' => Checking l l' ∧ ∃ sub, sub.Sublist shares ∧ List.Forall₂ (Looked l') sub x.1)
      err l := by
  induction shares with
  | nil => exact meets_pure _ ⟨checking_self, [], Sublist.refl _, .nil⟩
  | cons s rest ih =>
    refine meets_then (ih (fun t ht => hmem t (mem_cons_of_mem s ht))) (fun later l₁ h₁ => ?_)
    obtain ⟨hc₁, sub, hsub, hall⟩ := h₁
    refine meets_then (meets_checkShare (h.checking hc₁)
      (hmem s mem_cons_self)) (fun kept l₂ h₂ => ?_)
    obtain ⟨hc₂, hkept⟩ := h₂
    have hall' : Forall₂ (Looked l₂) sub later.1 := hall.imp (fun _ _ h => h.mono hc₂)
    match kept with
    | some s' =>
      exact meets_pure _ ⟨hc₁.trans hc₂, s :: sub, hsub.cons_cons s, .cons (hkept s' rfl) hall'⟩
    | none => exact meets_pure _ ⟨hc₁.trans hc₂, sub, hsub.cons s, hall'⟩

/-- The pass works on a copy. -/
structure Passing (l : Local) (p₀ : Pool) : Prop where
  call : ∃ n, l.call = .reconcile n
  held : l.held = []
  debt : l.debt = none
  base : l.base = some p₀
  forced : l.forced = false

/-- A pool in memory with its shares related to those of the copy. -/
structure Stage (l : Local) (p₀ p : Pool) (R : PoolShareStatus → PoolShareStatus → Prop) :
    Prop where
  passing : Passing l p₀
  name : p.name = p₀.name
  version : p.version = p₀.version
  spec : p.spec = p₀.spec
  shares : ∃ sub kept, sub.Sublist p₀.status.shares ∧ List.Forall₂ R sub kept ∧
    p.status.shares = kept ++ l.made.map Made.status

variable {p : Pool} {R R' : PoolShareStatus → PoolShareStatus → Prop} {tier : Name} {ms : List Made}
  {n name : Name} {v : SubVolume} {r : BackupRestore} {phase : RestorePhase} {c : Call} {α : Type}

theorem Passing.checking (h : Passing l p₀) (hc : Checking l l') : Passing l' p₀ := by
  obtain ⟨a, sw, c, rfl⟩ := hc
  exact { h with }

theorem Passing.tidy (h : Passing l p₀) : ∃ n, Tidy (.reconcile n) [] l := by
  obtain ⟨n, hn⟩ := h.call
  exact ⟨n, hn, h.held, excused_of_none h.debt⟩

theorem Passing.keeper (h : Passing l p₀) : l.Keeper := .inr h.call

theorem meets_healthCheck (h : Passing l p₀) (hmade : l.made = []) (hlook : Looking l p₀) :
    Meets protocol (healthCheck cfg p₀)
      (fun p l' => Checking l l' ∧ Stage l' p₀ p (Looked l')) err l := by
  refine meets_then (meets_checkShares hlook (fun _ h => h)) (fun x l' hx => ?_)
  obtain ⟨hc, sub, hsub, hall⟩ := hx
  have hmade' : l'.made = [] := by
    obtain ⟨a, sw, c, rfl⟩ := hc
    exact hmade
  exact meets_pure _ ⟨hc, h.checking hc, rfl, rfl, rfl, sub, x.1, hsub, hall, by simp [hmade']⟩

theorem Stage.accessors (h : Stage l p₀ p (Looked l)) (hmade : l.made = []) :
    Stage l p₀ (ensureAccessorMountTargets p) (Looked l) := by
  obtain ⟨sub, kept, hsub, hall, hshares⟩ := h.shares
  unfold ensureAccessorMountTargets
  split
  · exact h
  · refine ⟨h.passing, h.name, h.version, h.spec, sub, kept.map (accessorTargets p), hsub, ?_,
      by simp [hshares, hmade]⟩
    refine forall₂_map_right_iff.mpr (hall.imp (fun s s' hs => hs.same ?_))
    unfold accessorTargets
    split
    · exact ⟨rfl, rfl, rfl, rfl, rfl, rfl⟩
    · exact ⟨rfl, rfl, rfl, rfl, rfl, rfl⟩

theorem meets_countDrain {id : Name} (hcall : ∃ n, l.call = .reconcile n)
    (hbase : l.base = some p₀) (hid : id ∈ p₀.spec.drainShares) :
    Meets protocol (countDrain id)
      (fun d l' => ∃ onShare, l' = { l with drains := l.drains ++ d.toList, onShare := onShare })
      err l := by
  refine meets_ask (fun vs _ => ?_)
  cases vs with
  | error e => exact ⟨l, .inl rfl, meets_pure _ ⟨l.onShare, by simp⟩⟩
  | ok vs =>
    refine ⟨_, .inr ⟨vs, hcall, rfl, rfl⟩, meets_ask (fun ss _ => ?_)⟩
    cases ss with
    | error e => exact ⟨_, .inl rfl, meets_pure _ ⟨some (id, vs), by simp⟩⟩
    | ok ss =>
      exact ⟨_, .inr ⟨p₀, vs, ss, hbase, hid, hcall, rfl, rfl, rfl⟩,
        meets_pure _ ⟨some (id, vs), by simp⟩⟩

theorem meets_countDrains {ids : List Name} (hcall : ∃ n, l.call = .reconcile n)
    (hbase : l.base = some p₀) (hids : ∀ id ∈ ids, id ∈ p₀.spec.drainShares) :
    Meets protocol (countDrains ids)
      (fun ds l' => ∃ onShare, l' = { l with drains := l.drains ++ ds, onShare := onShare })
      err l := by
  induction ids generalizing l with
  | nil => exact meets_pure _ ⟨l.onShare, by simp⟩
  | cons id ids ih =>
    refine meets_then (meets_countDrain hcall hbase (hids id mem_cons_self)) (fun d l₁ h₁ => ?_)
    obtain ⟨o, rfl⟩ := h₁
    refine meets_then (ih hcall hbase (fun x hx =>
      hids x (mem_cons_of_mem id hx))) (fun ds l₂ h₂ => ?_)
    obtain ⟨o', rfl⟩ := h₂
    exact meets_pure _ ⟨o', by simp⟩

/-- A share of the drain list does not take volumes. -/
def Drains (p₀ : Pool) (s : PoolShareStatus) : Prop :=
  s.shareID ∈ p₀.spec.drainShares → s.state ≠ .stable

/-- After the work on the drain requests: no share of the list is stable, and what is
reported was counted. -/
theorem meets_processDrainRequests (h : Stage l p₀ p (Looked l)) (hmade : l.made = []) :
    Meets protocol (processDrainRequests p)
      (fun p' l' => Stage l' p₀ p' (fun s s' => Looked l' s s' ∧ Drains p₀ s') ∧
        l'.made = [] ∧ l'.counted = l.counted ∧ ∀ d ∈ p'.status.drainStatus, d ∈ l'.drains)
      err l := by
  obtain ⟨sub, kept, hsub, hall, hshares⟩ := h.shares
  unfold processDrainRequests
  split
  · rename_i hnone
    refine meets_pure _ ⟨⟨h.passing, h.name, h.version, h.spec, sub, kept, hsub, ?_, hshares⟩,
      hmade, rfl, nofun⟩
    refine hall.imp (fun s s' hs => ⟨hs, fun hmem => ?_⟩)
    rw [← h.spec, hnone] at hmem
    cases hmem
  · refine meets_then (meets_countDrains h.passing.call h.passing.base
      (fun id hid => h.spec ▸ hid)) (fun ds l' hl' => ?_)
    obtain ⟨o, rfl⟩ := hl'
    refine meets_pure _ ⟨⟨{ h.passing with }, h.name, h.version, h.spec, sub,
      kept.map (markDraining p), hsub, ?_, by simp [hshares, hmade]⟩, hmade, rfl,
      fun d hd => mem_append_right _ hd⟩
    refine forall₂_map_right_iff.mpr (hall.imp (fun s s' hs => ?_))
    have hlooked : Looked { l with drains := l.drains ++ ds, onShare := o } s s' :=
      { hs with }
    unfold markDraining
    split
    · exact ⟨hlooked.same ⟨rfl, rfl, rfl, rfl, rfl, rfl⟩, fun _ => by simp⟩
    · rename_i hnot
      simp only [Bool.and_eq_true, decide_eq_true_eq, not_and] at hnot
      exact ⟨hlooked, fun hmem => hnot (h.spec ▸ hmem)⟩

/-- After the recount every share has the books of the lists, or its old ones. -/
theorem meets_reconcileMetrics
    (h : Stage l p₀ p (fun s s' => Looked l s s' ∧ Drains p₀ s')) (hmade : l.made = [])
    (hcounted : l.counted = none) (hdrains : ∀ d ∈ p.status.drainStatus, d ∈ l.drains) :
    Meets protocol (reconcileMetrics p)
      (fun p' l' => Stage l' p₀ p' (Checked l' p₀) ∧ l'.made = [] ∧
        ∀ d ∈ p'.status.drainStatus, d ∈ l'.drains) err l := by
  obtain ⟨sub, kept, hsub, hall, hshares⟩ := h.shares
  have hold : ∀ l' : Local, l'.switches = l.switches → l'.counted = none →
      Forall₂ (Checked l' p₀) sub kept := by
    intro l' hsw hnone
    refine hall.imp (fun s s' hs => ⟨hs.1.name, hs.1.tier, hs.1.total, ?_, ?_, hs.2⟩)
    · rw [hsw]
      exact hs.1.id
    · rw [hnone]
      exact ⟨hs.1.allocated, hs.1.count⟩
  refine meets_ask (fun vs _ => ?_)
  cases vs with
  | error e =>
    exact ⟨l, .inl rfl, meets_pure _ ⟨⟨h.passing, h.name, h.version, h.spec, sub, kept, hsub,
      hold l rfl hcounted, hshares⟩, hmade, hdrains⟩⟩
  | ok vs =>
    refine ⟨_, .inr ⟨p₀, vs, h.passing.base, h.name.symm, h.passing.call, rfl, rfl⟩, ?_⟩
    refine meets_ask (fun ss _ => ?_)
    cases ss with
    | error e =>
      exact ⟨_, .inl rfl, meets_pure _ ⟨⟨{ h.passing with }, h.name, h.version, h.spec,
        sub, kept, hsub, hold _ rfl hcounted, hshares⟩, hmade, hdrains⟩⟩
    | ok ss =>
      refine ⟨_, .inr ⟨p₀, vs, ss, h.passing.base, h.name.symm, h.passing.call, rfl, rfl, rfl⟩,
        meets_pure _ ⟨⟨{ h.passing with }, h.name, h.version, h.spec, sub,
          kept.map (fun s => { s with
            allocatedGB := countedGB vs ss s.shareID, pvcCount := countedPVCs vs s.shareID }),
          hsub, ?_, by simp [recount, hshares, hmade]⟩, hmade, hdrains⟩⟩
      refine forall₂_map_right_iff.mpr (hall.imp (fun s s' hs => ?_))
      exact { hs.1 with books := ⟨rfl, rfl⟩, drain := hs.2 }

/-- The shares that were made have names of lower numbers than the next one. -/
def Numbered (l : Local) (p : Pool) : Prop := ∀ m ∈ l.made, ∃ k,
  m.input.name = shareNameOf p.name m.tier k ∧ k ≤ shareNumber p.status.shares m.tier

theorem Numbered.fresh (h : Numbered l p) (tier : Name) :
    ∀ m ∈ l.made, m.input.name ≠ nextShareName p tier := by
  intro m hm heq
  obtain ⟨k, hk, hle⟩ := h m hm
  rw [hk, nextShareName_eq] at heq
  obtain ⟨htier, hnum⟩ := shareNameOf_inj heq
  rw [htier] at hle
  omega

theorem status_tier (m : Made) : m.status.tier = m.tier :=
  (newPoolShareStatus_same m.info m.tier).2.2.1

theorem Numbered.add (h : Numbered l p) {m : Made} (hl : Extends l [m] l')
    (hname : m.input.name = nextShareName p m.tier) (sizeGB : ℤ) :
    Numbered l' (addShare p m.status sizeGB) := by
  obtain ⟨c, a, o, cr, rfl⟩ := hl
  intro x hx
  rcases mem_append.mp hx with hx | hx
  · obtain ⟨k, hk, hle⟩ := h x hx
    exact ⟨k, hk, hle.trans shareNumber_append⟩
  · cases mem_singleton.mp hx
    refine ⟨_, hname.trans (nextShareName_eq p m.tier), ?_⟩
    have := shareNumber_append_self p.status.shares m.status
    rw [status_tier] at this
    exact this.symm.le

theorem meets_createPoolShare (hbase : l.base = some p₀) (hk : l.Keeper)
    (hname : p.name = p₀.name) (hn : Numbered l p) :
    Meets protocol (createPoolShare cfg p tier)
      (fun p' l' => ∃ m, Extends l [m] l' ∧ p' = addShare p m.status m.info.sizeGB ∧
        Numbered l' p') (Extends l []) l := by
  refine meets_then (meets_requestShare cfg hbase hk hname (hn.fresh tier)) (fun info l' h => ?_)
  obtain ⟨t, input, -, hinput, -, hl'⟩ := h
  exact meets_pure _ ⟨⟨info, tier, input⟩, hl', rfl, hn.add hl' hinput _⟩

/-- The pool in memory while shares are added ahead of need. -/
structure Growing (l : Local) (p₀ p : Pool) : Prop where
  stage : Stage l p₀ p (Checked l p₀)
  numbered : Numbered l p
  drains : ∀ d ∈ p.status.drainStatus, d ∈ l.drains

theorem Passing.extends (h : Passing l p₀) (hl : Extends l ms l') :
    Passing l' p₀ := by
  obtain ⟨c, a, o, cr, rfl⟩ := hl
  exact { h with }

theorem Stage.extends (h : Stage l p₀ p (Checked l p₀)) (hl : Extends l ms l')
    {p' : Pool} (hname : p'.name = p.name) (hversion : p'.version = p.version)
    (hspec : p'.spec = p.spec)
    (hshares : p'.status.shares = p.status.shares ++ ms.map Made.status) :
    Stage l' p₀ p' (Checked l' p₀) := by
  obtain ⟨sub, kept, hsub, hall, hs⟩ := h.shares
  refine ⟨h.passing.extends hl, hname.trans h.name, hversion.trans h.version,
    hspec.trans h.spec, sub, kept, hsub, ?_, ?_⟩
  · obtain ⟨c, a, o, cr, rfl⟩ := hl
    exact hall.imp (fun s s' h => { h with })
  · obtain ⟨c, a, o, cr, rfl⟩ := hl
    rw [hshares, hs]
    simp

theorem Growing.extends_nil (h : Growing l p₀ p) (hl : Extends l [] l') : Growing l' p₀ p := by
  refine ⟨h.stage.extends hl rfl rfl rfl (by simp), ?_, ?_⟩
  · obtain ⟨c, a, o, cr, rfl⟩ := hl
    intro m hm
    exact h.numbered m (by simpa using hm)
  · obtain ⟨c, a, o, cr, rfl⟩ := hl
    exact h.drains

theorem meets_growTier (h : Growing l p₀ p) :
    Meets protocol (growTier cfg p tier) (fun p' l' => Growing l' p₀ p') err l := by
  refine meets_bind (meets_attempt (meets_mono (meets_createPoolShare h.stage.passing.base
    h.stage.passing.keeper h.stage.name h.numbered) (fun p' l' hp => ?_) (fun l' hl e => ?_)))
  · obtain ⟨m, hl', rfl, hn⟩ := hp
    refine meets_pure _ ⟨h.stage.extends hl' rfl rfl rfl rfl, hn, ?_⟩
    obtain ⟨c, a, o, cr, rfl⟩ := hl'
    exact h.drains
  · exact meets_pure _ (h.extends_nil hl)

theorem meets_proactiveExpansion (h : Growing l p₀ p) :
    Meets protocol (proactiveExpansion cfg p) (fun p' l' => Growing l' p₀ p') err l := by
  unfold proactiveExpansion
  split
  · exact meets_pure _ h
  · split
    · exact meets_pure _ h
    · split
      · refine meets_foldEach _ (fun q l' hq t _ => ?_) p h
        unfold expandTier
        dsimp only
        split
        · exact meets_pure _ hq
        · exact meets_growTier hq
      · split
        · exact meets_pure _ h
        · exact meets_growTier h

/-- The pool in memory while its first shares are made. -/
structure Provisioning (l : Local) (p₀ p : Pool) : Prop where
  call : ∃ n, l.call = .reconcile n
  held : l.held = []
  debt : l.debt = none
  base : l.base = some p₀
  finalized : l.finalized = some p₀.name
  grown : GrownTo l p₀ p
  numbered : Numbered l p

theorem Provisioning.extends_nil (h : Provisioning l p₀ p) (hl : Extends l [] l') :
    Provisioning l' p₀ p := by
  have hgrown := h.grown.extends_nil hl
  obtain ⟨c, a, o, cr, rfl⟩ := hl
  exact { h with grown := hgrown, numbered := fun m hm => h.numbered m (by simpa using hm) }

theorem meets_provisionTier {n : ℕ} (h : Provisioning l p₀ p) :
    Meets protocol (provisionTier cfg tier n p) (fun x l' => Provisioning l' p₀ x.1) err l := by
  induction n generalizing l p with
  | zero => exact meets_pure _ h
  | succ n ih =>
    refine meets_bind (meets_attempt (meets_mono (meets_createPoolShare h.base (.inr h.call)
      h.grown.name h.numbered) (fun p' l' hp => ?_) (fun l' hl e => ?_)))
    · obtain ⟨m, hl', rfl, hn⟩ := hp
      have hgrown := h.grown.addShare hl' m.info.sizeGB
      refine ih ?_
      obtain ⟨c, a, o, cr, rfl⟩ := hl'
      exact { h with grown := hgrown, numbered := hn }
    · exact meets_pure _ (h.extends_nil hl)

theorem meets_initialProvisioning (h : Provisioning l p₀ p) :
    Meets protocol (initialProvisioning cfg p) (fun x l' => Provisioning l' p₀ x.1) err l := by
  unfold initialProvisioning
  split
  · refine meets_foldEach (I := fun (x : Pool × Bool) l' => Provisioning l' p₀ x.1) _
      (fun x l' hx t _ => ?_) (p, true) h
    unfold provisionNext
    split
    · exact meets_provisionTier hx
    · exact meets_pure _ hx
  · exact meets_provisionTier h

theorem Provisioning.withPhase (h : Provisioning l p₀ p) (phase : PoolPhase) :
    Provisioning l p₀ (withPhase p phase) :=
  { h with grown := { h.grown with } }

/-- A pass that may end. -/
def Idle (l : Local) : Prop := ∃ n, Tidy (.reconcile n) [] l ∧ l.debt = none

theorem Provisioning.idle (h : Provisioning l p₀ p) : Idle l := by
  obtain ⟨n, hn⟩ := h.call
  exact ⟨n, ⟨hn, h.held, excused_of_none h.debt⟩, h.debt⟩

/-- After a conflict the status of the pass is put on a fresh copy. -/
theorem meets_updateStatusRetryingConflict {n : ℕ} (h : Provisioning l p₀ p) :
    Meets protocol (updateStatusRetryingConflict n p)
      (fun _ l' => Idle l' ∧ l'.finalized = some p₀.name) Idle l := by
  induction n generalizing l p₀ p with
  | zero => exact meets_fail _ h.idle
  | succ n ih =>
    obtain ⟨k, hk⟩ := h.call
    have hlost : ∀ b, Provisioning { l with lost := b } p₀ p := fun b =>
      { h with grown := { h.grown with } }
    refine meets_ask (fun r _ => ?_)
    match r with
    | .ok q =>
      refine ⟨_, ⟨p₀, h.base, .inr h.call, h.grown.name, h.grown.version,
        .inl ⟨[], 0, 0, _, _, h.grown.unbooked [], .nothing, rfl⟩⟩, meets_pure _ ?_⟩
      exact ⟨⟨k, ⟨hk, h.held, excused_of_none h.debt⟩, h.debt⟩, h.finalized⟩
    | .error .conflict =>
      refine ⟨_, ⟨p₀, h.base, .inr h.call, h.grown.name, h.grown.version, rfl⟩, ?_⟩
      refine meets_call rfl (fun _ _ => ⟨_, .inl rfl, (hlost _).idle⟩) (fun q hr => ?_)
      have hq : q.name = p.name := hr q rfl
      have hqname : q.name = p₀.name := hq.trans h.grown.name
      have hfin : l.finalized = some q.name := by rw [hqname, h.finalized]
      refine ⟨_, .inr (.inr ⟨p₀, k, h.base, hqname.symm, hk, hfin, rfl⟩), ?_⟩
      rw [← hqname]
      refine @ih _ { q with status := p₀.status } _ ?_
      refine ⟨h.call, h.held, h.debt, rfl, hfin, ⟨rfl, rfl, h.grown.shares, h.grown.allocated,
        h.grown.count, h.grown.drains⟩, fun m hm => ?_⟩
      obtain ⟨j, hj, hle⟩ := h.numbered m hm
      exact ⟨j, by rw [hj, ← hq], hle⟩
    | .error .notFound | .error .alreadyExists | .error .other =>
      exact ⟨_, ⟨p₀, h.base, .inr h.call, h.grown.name, h.grown.version, rfl⟩,
        meets_fail _ (hlost _).idle⟩

theorem Passing.idle (h : Passing l p₀) : Idle l := by
  obtain ⟨n, hn⟩ := h.tidy
  exact ⟨n, hn, h.debt⟩

theorem Idle.frame (h : Idle l) (hcall : l'.call = l.call) (hheld : l'.held = l.held)
    (hdebt : l'.debt = l.debt) : Idle l' := by
  obtain ⟨n, ht, hd⟩ := h
  exact ⟨n, ⟨hcall.trans ht.call, hheld.trans ht.held, excused_of_none (hdebt.trans hd)⟩,
    hdebt.trans hd⟩

theorem Idle.keeper (h : Idle l) : l.Keeper := by
  obtain ⟨n, ht, -⟩ := h
  exact .inr ⟨n, ht.call⟩

theorem Idle.startFrom (h : Idle l) (p : Pool) : Passing (l.startFrom p) p := by
  obtain ⟨n, ht, hd⟩ := h
  exact ⟨⟨n, ht.call⟩, ht.held, hd, rfl, rfl⟩

/-- A pass that has just read its pool, or the pool anew. -/
structure Begun (l : Local) (p : Pool) : Prop where
  passing : Passing l p
  made : l.made = []
  counted : l.counted = none
  finalized : p.finalizer = true → l.finalized = some p.name

theorem Idle.begun (h : Idle l) (p : Pool) : Begun (l.startFrom p) p := by
  refine ⟨h.startFrom p, rfl, rfl, fun hf => ?_⟩
  simp [Local.startFrom, hf]

theorem finalized_startFrom (h : l.finalized = some p.name) :
    (l.startFrom p).finalized = some p.name := by
  unfold Local.startFrom
  split
  · rfl
  · exact h

theorem Begun.provisioning (h : Begun l p) (hf : l.finalized = some p.name) :
    Provisioning l p p := by
  refine { h.passing with finalized := hf, grown := grownTo_self h.made, numbered := ?_ }
  intro m hm
  rw [h.made] at hm
  cases hm

theorem meets_readAgain (h : Idle l) (hf : l.finalized = some n) :
    Meets protocol (do orFail (fun _ => Err.api) (← ask (.getPool n)))
      (fun p l' => Begun l' p ∧ l'.finalized = some p.name) Idle l := by
  refine meets_ask (fun r hr => ?_)
  cases r with
  | error e => exact ⟨l, .inl rfl, meets_fail _ h⟩
  | ok p =>
    refine ⟨_, .inr (.inl ⟨h.keeper, rfl⟩), meets_pure p ⟨h.begun p, finalized_startFrom ?_⟩⟩
    rw [hf, hr p rfl]

theorem meets_deleteShares (hbase : l.base = some p₀) (hdel : p₀.deleting = true)
    (hcall : l.call = .reconcile n) (hcounted : l.counted = some ([], []))
    (hsub : ∀ s ∈ shares, s ∈ p₀.status.shares) :
    Meets protocol (deleteShares shares) (fun _ l' => l' = l) (fun l' => l' = l) l := by
  induction shares with
  | nil => exact meets_pure _ rfl
  | cons s rest ih =>
    have hs : s.shareID ∈ p₀.status.shares.map PoolShareStatus.shareID :=
      mem_map_of_mem (hsub s mem_cons_self)
    refine meets_ask (fun r _ => ⟨l, ⟨rfl, .inr ⟨p₀, n, hbase, hdel, hcall, hcounted, hs⟩⟩, ?_⟩)
    refine meets_bind (meets_orFail _ _ (fun _ _ => ?_) (fun _ _ => rfl))
    exact ih (fun t ht => hsub t (mem_cons_of_mem s ht))

theorem meets_storeSame (h : Passing l p₀) (hmade : l.made = []) :
    Meets protocol (do let _r ← ask (.updatePoolStatus p₀); return ()) (fun _ => Idle) Idle l := by
  refine meets_ask (fun r _ => ?_)
  cases r with
  | error e =>
    exact ⟨_, ⟨p₀, h.base, h.keeper, rfl, rfl, rfl⟩, meets_pure _ (h.idle.frame rfl rfl rfl)⟩
  | ok q =>
    exact ⟨_, ⟨p₀, h.base, h.keeper, rfl, rfl, .inl ⟨[], 0, 0, _, _,
      (grownTo_self hmade).unbooked [], .nothing, rfl⟩⟩, meets_pure _ (h.idle.frame rfl rfl rfl)⟩

theorem meets_handleDeletion (h : Begun l p₀) (hdel : p₀.deleting = true) :
    Meets protocol (handleDeletion p₀) (fun _ => Idle) Idle l := by
  refine meets_call rfl (fun _ _ => ⟨l, .inl rfl, h.passing.idle⟩)
    (fun vs _ => ⟨_, .inr ⟨p₀, vs, h.passing.base, rfl, h.passing.call, rfl, rfl⟩, ?_⟩)
  have hpass : Passing { l with volumes := some vs } p₀ :=
    { h.passing with }
  split
  · exact meets_storeSame hpass h.made
  · rename_i hvs
    refine meets_call rfl (fun _ _ => ⟨_, .inl rfl, hpass.idle⟩)
      (fun ss _ => ⟨_, .inr ⟨p₀, vs, ss, h.passing.base, rfl, h.passing.call, rfl, rfl, rfl⟩, ?_⟩)
    have hpass' : Passing { l with volumes := some vs, counted := some (vs, ss) } p₀ :=
      { h.passing with }
    split
    · exact meets_storeSame hpass' h.made
    · rename_i hss
      cases not_not.mp hvs
      cases not_not.mp hss
      obtain ⟨n, hn⟩ := h.passing.call
      refine meets_bind (meets_mono (meets_deleteShares hpass'.base hdel hn rfl
        (fun _ hs => hs)) (fun _ l' hl' => ?_) (fun l' hl' => hl' ▸ hpass'.idle))
      subst hl'
      exact meets_call rfl
        (fun _ _ => ⟨_, ⟨p₀, n, hpass'.base, hn, rfl, rfl, .inr ⟨hdel, rfl⟩, rfl⟩, hpass'.idle⟩)
        (fun q _ => ⟨_, ⟨p₀, n, hpass'.base, hn, rfl, rfl, .inr ⟨hdel, rfl⟩, rfl⟩,
          meets_pure _ (hpass'.idle.frame rfl rfl rfl)⟩)

theorem meets_ensureFinalizer (h : Begun l p₀) :
    Meets protocol (ensureFinalizer p₀)
      (fun p l' => Begun l' p ∧ l'.finalized = some p.name) Idle l := by
  unfold ensureFinalizer
  split
  · exact meets_pure _ ⟨h, h.finalized ‹_›⟩
  · obtain ⟨n, hn⟩ := h.passing.call
    exact meets_call rfl
      (fun _ _ => ⟨l, ⟨p₀, n, h.passing.base, hn, rfl, rfl, .inl rfl, rfl⟩, h.passing.idle⟩)
      (fun q _ => ⟨_, ⟨p₀, n, h.passing.base, hn, rfl, rfl, .inl rfl, rfl⟩,
        meets_readAgain (h.passing.idle.frame rfl rfl rfl) rfl⟩)

theorem meets_provision (h : Begun l p₀) (hf : l.finalized = some p₀.name) :
    Meets protocol (provision cfg p₀)
      (fun r l' => Idle l' ∧ ∀ p, r = some p → Begun l' p ∧ l'.finalized = some p.name) Idle l := by
  unfold provision
  split
  · refine meets_pure _ ⟨h.passing.idle, fun p hp => ?_⟩
    cases hp
    exact ⟨h, hf⟩
  · refine meets_then (meets_initialProvisioning (h.provisioning hf)) (fun made l₁ h₁ => ?_)
    split
    · refine meets_bind (meets_attempt (meets_mono (meets_updateStatusRetryingConflict
        (h₁.withPhase .initializing)) (fun _ l₂ h₂ => ?_) (fun l₂ h₂ e => ?_)))
      · exact meets_pure _ ⟨h₂.1, fun p hp => nomatch hp⟩
      · exact meets_pure _ ⟨h₂, fun p hp => nomatch hp⟩
    · refine meets_then (meets_updateStatusRetryingConflict
        (h₁.withPhase .expanding)) (fun _ l₂ h₂ => ?_)
      refine meets_call rfl (fun _ _ => ⟨l₂, .inl rfl, h₂.1⟩)
        (fun p hr => ⟨_, .inr (.inl ⟨h₂.1.keeper, rfl⟩), meets_pure _ ?_⟩)
      refine ⟨(h₂.1.begun p).passing.idle, fun q hq => ?_⟩
      cases hq
      refine ⟨h₂.1.begun p, finalized_startFrom ?_⟩
      rw [h₂.2, hr p rfl]

theorem meets_refresh (h : Begun l p₀) (hf : l.finalized = some p₀.name) :
    Meets protocol (refresh cfg p₀) (fun _ => Idle) Idle l := by
  refine meets_bind (meets_mono (meets_healthCheck h.passing h.made
    ⟨h.passing.call, h.passing.base, h.counted, hf⟩) (fun p₁ l₁ h₁ => ?_)
    (fun _ he => he))
  obtain ⟨hc, hst₁⟩ := h₁
  have hmade₁ : l₁.made = [] := by
    obtain ⟨a, sw, c, rfl⟩ := hc
    exact h.made
  have hcounted₁ : l₁.counted = none := by
    obtain ⟨a, sw, c, rfl⟩ := hc
    exact h.counted
  refine meets_then (meets_processDrainRequests (hst₁.accessors hmade₁) hmade₁) (fun p₂ l₂ h₂ => ?_)
  obtain ⟨hst₂, hmade₂, hcounted₂, hdrains₂⟩ := h₂
  refine meets_then (meets_reconcileMetrics hst₂ hmade₂
    (hcounted₂.trans hcounted₁) hdrains₂) (fun p₃ l₃ h₃ => ?_)
  obtain ⟨hst₃, hmade₃, hdrains₃⟩ := h₃
  have hgrowing : Growing l₃ p₀ p₃ := ⟨hst₃, fun m hm => by simp [hmade₃] at hm, hdrains₃⟩
  refine meets_then (meets_proactiveExpansion hgrowing) (fun p₄ l₄ h₄ => ?_)
  have hpass := h₄.stage.passing
  have hrefreshed : Refreshed l₄ p₀ (withPhase p₄ (determinePhase p₄)) :=
    ⟨hpass.call, h₄.stage.shares, h₄.drains⟩
  exact meets_call rfl
    (fun _ _ => ⟨_, ⟨p₀, hpass.base, hpass.keeper, h₄.stage.name, h₄.stage.version, rfl⟩,
      hpass.idle.frame rfl rfl rfl⟩)
    (fun q _ => ⟨_, ⟨p₀, hpass.base, hpass.keeper, h₄.stage.name, h₄.stage.version,
      .inr ⟨hrefreshed, hpass.forced, rfl⟩⟩, meets_pure _ (hpass.idle.frame rfl rfl rfl)⟩)

theorem meets_reconcile :
    Meets protocol (reconcile cfg name) (fun _ => Idle) Idle (start (.reconcile name)) := by
  have hidle : Idle (start (.reconcile name)) :=
    ⟨name, ⟨rfl, rfl, excused_of_none rfl⟩, rfl⟩
  refine meets_ask (fun r _ => ?_)
  cases r with
  | error e => exact ⟨_, .inl rfl, meets_pure _ hidle⟩
  | ok p =>
    refine ⟨_, .inr (.inl ⟨hidle.keeper, rfl⟩), ?_⟩
    have hbegun := hidle.begun p
    dsimp only
    split
    · exact meets_handleDeletion hbegun ‹_›
    · refine meets_then (meets_ensureFinalizer hbegun) (fun p₁ l₁ h₁ => ?_)
      refine meets_then (meets_provision h₁.1 h₁.2) (fun r l₂ h₂ => ?_)
      match r with
      | none => exact meets_pure _ h₂.1
      | some p₂ => exact meets_refresh (h₂.2 p₂ rfl).1 (h₂.2 p₂ rfl).2

theorem asks_startClone : (startClone v).Asks Quiet := by
  unfold startClone
  split
  · exact asks_ask trivial (fun r => asks_orFail)
  · exact asks_pure

theorem asks_failClone : (failClone v).Asks Quiet :=
  asks_ask trivial (fun _ => asks_pure)

theorem asks_processClone : (processClone name).Asks Quiet := by
  refine asks_call trivial (fun v => ?_)
  refine asks_ite asks_pure ?_
  refine asks_bind asks_startClone (fun v => asks_ask trivial (fun source => ?_))
  match source with
  | .error _ => exact asks_failClone
  | .ok source =>
    refine asks_ask trivial (fun done => ?_)
    match done with
    | .error .failed => exact asks_failClone
    | .error .api | .ok false => exact asks_pure
    | .ok true => exact asks_ask trivial (fun _ => asks_pure)

theorem asks_publish {volumeID : Name} {parsed : Bool} :
    (publish volumeID name parsed).Asks Quiet := by
  have hmount : (do orFail (fun _ => .api) (← ask (.mount volumeID)) : Driver Unit).Asks Quiet :=
    asks_ask trivial (fun r => asks_orFail)
  unfold publish
  split
  · exact hmount
  · refine asks_ask trivial (fun v => ?_)
    match v with
    | .error _ => exact hmount
    | .ok v =>
      dsimp only
      split
      · exact hmount
      · exact asks_fail

theorem asks_saveRestoreStatus :
    (saveRestoreStatus r phase).Asks Quiet := by
  refine asks_ite asks_pure ?_
  exact asks_call trivial (fun _ => asks_pure)

theorem asks_setRestoreStatus :
    (setRestoreStatus r phase).Asks Quiet :=
  asks_bind (asks_attempt asks_saveRestoreStatus) (fun _ => asks_pure)

theorem asks_setSubVolumeRestoreLabel {pending : Bool} :
    (setSubVolumeRestoreLabel name pending).Asks Quiet :=
  asks_ask trivial (fun _ => asks_pure)

theorem asks_ensureRestoreTarget : (ensureRestoreTarget r).Asks Quiet := by
  refine asks_ask trivial (fun c => ?_)
  match c with
  | .ok b => exact asks_pure
  | .error .notFound =>
    refine asks_ask trivial (fun made => ?_)
    match made with
    | .error _ => exact asks_pure
    | .ok _ =>
      refine asks_ask trivial (fun again => ?_)
      match again with
      | .ok b => exact asks_pure
      | .error _ => exact asks_pure
  | .error .alreadyExists | .error .conflict | .error .other => exact asks_pure

theorem asks_fillVolume : (fillVolume r v).Asks Quiet := by
  unfold fillVolume
  split
  on_goal 1 => refine asks_bind asks_setSubVolumeRestoreLabel (fun _ => ?_)
  all_goals
    refine asks_ask trivial (fun done => ?_)
    split
    · exact asks_setRestoreStatus
    · exact asks_setRestoreStatus
    · exact asks_setRestoreStatus
    · exact asks_bind asks_saveRestoreStatus (fun _ => asks_setSubVolumeRestoreLabel)

theorem asks_reconcileRestore : (reconcileRestore name).Asks Quiet := by
  refine asks_call trivial (fun r => ?_)
  refine asks_ite asks_pure ?_
  refine asks_ask trivial (fun source => ?_)
  match source with
  | .error .notFound | .error .alreadyExists | .error .conflict | .error .other =>
    exact asks_setRestoreStatus
  | .ok _ =>
    refine asks_bind asks_ensureRestoreTarget (fun target => ?_)
    match target with
    | .error phase => exact asks_setRestoreStatus
    | .ok b =>
      dsimp only
      split
      · exact asks_setRestoreStatus
      · refine asks_ask trivial (fun v => ?_)
        match v with
        | .error _ => exact asks_setRestoreStatus
        | .ok v => exact asks_fillVolume

theorem asks_openFinished : (openFinished v).Asks Quiet := by
  refine asks_ask trivial (fun c => ?_)
  match c with
  | .error _ => exact asks_pure
  | .ok b =>
    refine asks_ite asks_pure ?_
    refine asks_ask trivial (fun r => ?_)
    match r with
    | .error _ => exact asks_pure
    | .ok r =>
      dsimp only
      split
      · exact asks_setSubVolumeRestoreLabel
      · exact asks_pure

theorem asks_openEach (vs : List SubVolume) : (openEach vs).Asks Quiet := by
  induction vs with
  | nil => exact asks_pure
  | cons v rest ih => exact asks_bind asks_openFinished (fun _ => ih)

theorem asks_openFinishedRestores : openFinishedRestores.Asks Quiet :=
  asks_ask trivial (fun _ => asks_bind asks_orFail asks_openEach)

theorem final_of_tidy (h : Tidy c [] l) : Final l := ⟨h.held, h.debt⟩

theorem final_of_idle (h : Idle l) : Final l := by
  obtain ⟨n, ht, -⟩ := h
  exact final_of_tidy ht

theorem follows_tidy {p : Driver α}
    (h : Meets protocol p (fun _ => Tidy c []) (Tidy c []) l) :
    Follows protocol p.forget (fun _ l => Final l) l :=
  follows_forget (meets_mono h (fun _ _ => final_of_tidy) (fun _ => final_of_tidy))

theorem follows_quiet {p : Driver α} (h : p.Asks Quiet) :
    Follows protocol p.forget (fun _ l => Final l) (start c) :=
  follows_tidy (meets_quiet h (fun _ => ⟨rfl, rfl, excused_of_none rfl⟩)
    ⟨rfl, rfl, excused_of_none rfl⟩)

/-- Every call of the driver follows the protocol and gives back what it holds. -/
theorem follows_body (c : Call) :
    Follows protocol (PoolMachine.body cfg c) (fun _ l => Final l) (start c) := by
  cases c with
  | allocate req => exact follows_tidy (meets_createVolume cfg)
  | deallocate name => exact follows_tidy (meets_deallocate cfg)
  | expand name n => exact follows_tidy meets_expand
  | cloneVolume source req => exact follows_tidy (meets_cloneVolume cfg source)
  | restoreSnapshot s req => exact follows_tidy (meets_restoreSnapshot cfg s req)
  | createSnapshot s source ok => exact follows_tidy (meets_createSnapshot cfg)
  | deleteSnapshot s => exact follows_tidy (meets_deleteSnapshot cfg)
  | reconcile p =>
    exact follows_forget (meets_mono meets_reconcile (fun _ _ => final_of_idle)
      (fun _ => final_of_idle))
  | processClone name => exact follows_quiet asks_processClone
  | publish id name parsed => exact follows_quiet asks_publish
  | reconcileRestore r => exact follows_quiet asks_reconcileRestore
  | openFinishedRestores => exact follows_quiet asks_openFinishedRestores

end FilePool.PassFollows
