import FilePool.PoolSteps

/-!
What holds in every run of the driver, whatever happens. A thread that holds a lock is its
only holder, one worker reconciles the pools, a copy of a pool is the stored pool as long
as the versions agree, a pool with a finalizer stays while a pass works on it, and a volume
that is read under its lock stays until the lock is given back.
-/
namespace FilePool.PoolOrder

open UndoNames PoolRecords VersionedStore PoolWorld PoolAnswers PoolMachine PoolProtocol
  PoolSteps ThreadRuns List

/-- A pass of the reconciler. -/
def Pass (l : Local) : Prop := ∃ n, l.call = .reconcile n

/-- What one thread can rely on. -/
structure InOrder (w : World) (i : ℕ) (l : Local) : Prop where
  call : w.calls i = some l.call
  held : ∀ x ∈ l.held, w.locks x = some i
  nodup : l.held.Nodup
  worker : Pass l → w.locks .worker = some i ∧ Lock.worker ∉ l.held
  base : ∀ p₀, l.base = some p₀ → p₀.version ≤ w.rev
  copied : ∀ p₀, l.base = some p₀ → l.forced = false → Copied poolKind w.pools p₀
  forced : l.forced = true → Pass l
  finalized : ∀ n, l.finalized = some n → Pass l →
    ∃ u, find poolKind w.pools n = some u ∧ u.finalizer = true
  source : ∀ v, l.source = some v → Lock.volume v.name ∈ l.held ∧
    ∃ u, find subVolumeKind w.subVolumes v.name = some u ∧ u.shareID = v.shareID ∧
      u.poolName = v.poolName

/-- What the store of the cluster keeps. -/
structure StoreOrder (w : World) : Prop where
  pools : Distinct poolKind w.pools
  volumes : Distinct subVolumeKind w.subVolumes
  snapshots : Distinct snapshotKind w.snapshots
  versions : ∀ p ∈ w.pools, p.version ≤ w.rev
  finalizers : ∀ p ∈ w.pools, p.deleting = true → p.finalizer = true

structure Orderly (w : World) (ls : ℕ → Option Local) : Prop where
  store : StoreOrder w
  threads : ∀ i l, ls i = some l → InOrder w i l
  idle : ∀ i, ls i = none → w.calls i = none

/-- A change of the world that does not touch what a thread relies on. -/
structure Spares (w w' : World) (j : ℕ) : Prop where
  calls : w'.calls j = w.calls j
  locks : ∀ x, w.locks x = some j → w'.locks x = some j
  rev : w.rev ≤ w'.rev
  pools : Moved poolKind w.rev w.pools w'.pools
  finalizers : w.locks .worker = some j → ∀ n u, find poolKind w.pools n = some u →
    u.finalizer = true → ∃ u', find poolKind w'.pools n = some u' ∧ u'.finalizer = true
  volumes : ∀ n u, w.locks (.volume n) = some j → find subVolumeKind w.subVolumes n = some u →
    ∃ u', find subVolumeKind w'.subVolumes n = some u' ∧ u'.shareID = u.shareID ∧
      u'.poolName = u.poolName

variable {w w' : World} {i j : ℕ} {l l' : Local} {n : Name} {q : Query} {a : Answer q}

theorem InOrder.spared (h : InOrder w j l) (hs : Spares w w' j) : InOrder w' j l := by
  refine ⟨hs.calls.trans h.call, fun x hx => hs.locks x (h.held x hx), h.nodup, ?_, ?_, ?_,
    h.forced, ?_, ?_⟩
  · intro hp
    obtain ⟨hlock, hnot⟩ := h.worker hp
    exact ⟨hs.locks _ hlock, hnot⟩
  · intro p₀ hp₀
    exact (h.base p₀ hp₀).trans hs.rev
  · intro p₀ hp₀ hf
    exact (h.copied p₀ hp₀ hf).moved (h.base p₀ hp₀) hs.pools
  · intro n hn hp
    obtain ⟨u, hu, hfin⟩ := h.finalized n hn hp
    exact hs.finalizers (h.worker hp).1 n u hu hfin
  · intro v hv
    obtain ⟨hlock, u, hu, hshare, hpool⟩ := h.source v hv
    obtain ⟨u', hu', hshare', hpool'⟩ := hs.volumes _ u (h.held _ hlock) hu
    exact ⟨hlock, u', hu', hshare'.trans hshare, hpool'.trans hpool⟩

theorem spares_of_same {p : Part} (h : SameBut p w w') (hlocks : p ≠ .locks)
    (hpools : p ≠ .pools) (hvolumes : p ≠ .volumes) : Spares w w' j := by
  refine ⟨by rw [h.calls], fun x hx => by rw [h.locks hlocks]; exact hx, h.rev, ?_, ?_, ?_⟩
  · rw [h.pools hpools]
    exact moved_self
  · intro _ n u hu hf
    rw [h.pools hpools]
    exact ⟨u, hu, hf⟩
  · intro n u _ hu
    rw [h.volumes hvolumes]
    exact ⟨u, hu, rfl, rfl⟩

theorem spares_of_pools (h : SameBut .pools w w') (hm : Moved poolKind w.rev w.pools w'.pools)
    (hf : w.locks .worker = some j → ∀ n u, find poolKind w.pools n = some u →
      u.finalizer = true → ∃ u', find poolKind w'.pools n = some u' ∧ u'.finalizer = true) :
    Spares w w' j := by
  refine ⟨by rw [h.calls], fun x hx => by rw [h.locks nofun]; exact hx, h.rev, hm, hf, ?_⟩
  intro n u _ hu
  rw [h.volumes nofun]
  exact ⟨u, hu, rfl, rfl⟩

theorem spares_of_volumes (h : SameBut .volumes w w')
    (hv : ∀ n u, w.locks (.volume n) = some j → find subVolumeKind w.subVolumes n = some u →
      ∃ u', find subVolumeKind w'.subVolumes n = some u' ∧ u'.shareID = u.shareID ∧
        u'.poolName = u.poolName) : Spares w w' j := by
  refine ⟨by rw [h.calls], fun x hx => by rw [h.locks nofun]; exact hx, h.rev, ?_, ?_, hv⟩
  · rw [h.pools nofun]
    exact moved_self
  · intro _ n u hu hf
    rw [h.pools nofun]
    exact ⟨u, hu, hf⟩

theorem finalizer_settle {l : List Pool} {x : Pool} (hx : find poolKind l n = some x)
    (hf : x.finalizer = true) : find poolKind (settlePools l) n = some x :=
  find_filter hx (by simp [hf])

theorem find_patch {f : SubVolume → SubVolume} (hname : ∀ v, (f v).name = v.name) {m : Name}
    {x : SubVolume} (hx : find subVolumeKind w.subVolumes n = some x) :
    find subVolumeKind (w.subVolumes.map (fun v => if v.name = m then f v else v)) n =
      some (if x.name = m then f x else x) := by
  unfold find at hx ⊢
  rw [find?_map]
  have hcomp : ((fun v => decide (subVolumeKind.name v = n)) ∘
      fun v => if v.name = m then f v else v) = fun v => decide (subVolumeKind.name v = n) := by
    funext v
    have hv : subVolumeKind.name (if v.name = m then f v else v) = subVolumeKind.name v := by
      split
      · exact hname v
      · rfl
    simp only [Function.comp, hv]
  rw [hcomp, hx]
  rfl

theorem answer_volumes {ch : Choice}
    (h : answer i q ch w = some (a, w')) (hq : part q = .volumes)
    (hdel : ∀ n, q ≠ .deleteSubVolume n)
    {u : SubVolume} (hu : find subVolumeKind w.subVolumes n = some u) :
    ∃ u', find subVolumeKind w'.subVolumes n = some u' ∧ u'.shareID = u.shareID ∧
      u'.poolName = u.poolName := by
  cases q with
  | createSubVolume v =>
    rcases answer_createSubVolume h with ⟨rfl, -⟩ | ⟨_, -, -, rfl⟩
    · exact ⟨u, hu, rfl, rfl⟩
    · exact ⟨u, find_append_of_some hu, rfl, rfl⟩
  | updateSubVolume _ | updateSubVolumeStatus _ =>
    rcases writes_update h with ⟨rfl, -⟩ | ⟨x, _, hx, -, -, rfl⟩
    · exact ⟨u, hu, rfl, rfl⟩
    · exact find_replace hx rfl (fun h => h) hu ⟨rfl, rfl⟩
  | patchRestorePending m b =>
    rcases deletes_some h with ⟨rfl, -⟩ | ⟨-, rfl, -⟩
    · exact ⟨u, hu, rfl, rfl⟩
    · refine ⟨_, find_patch (f := fun v => { v with restorePending := b, version := w.rev + 1 })
        (fun _ => rfl) hu, ?_⟩
      by_cases hm : u.name = m
      · simp [hm]
      · simp [hm]
  | deleteSubVolume m => exact absurd rfl (hdel m)
  | _ => cases hq

/-- The questions with which a thread changes what it relies on itself. -/
def OwnStep : Query → Prop
  | .lock _ | .unlock _ | .updatePool _ | .deleteSubVolume _ => True
  | _ => False

/-- The other threads can rely on what they relied on. -/
theorem answer_spares {ch : Choice} (hl : InOrder w i l)
    (h : answer i q ch w = some (a, w')) (hstep : protocol.step l q a l')
    (hown : OwnStep q → j ≠ i) : Spares w w' j := by
  have hsame := answer_sameBut h
  cases q with
  | lock x =>
    simp only [answer] at h
    split at h
    · rename_i hfree
      cases h
      refine ⟨rfl, fun y hy => ?_, le_rfl, moved_self, fun _ n u hu hf => ⟨u, hu, hf⟩,
        fun n u _ hu => ⟨u, hu, rfl, rfl⟩⟩
      have hne : y ≠ x := fun heq => by rw [heq, hfree] at hy; cases hy
      exact (Function.update_of_ne hne _ _).trans hy
    · cases h
  | unlock x =>
    have hj := hown trivial
    cases h
    refine ⟨rfl, fun y hy => ?_, le_rfl, moved_self, fun _ n u hu hf => ⟨u, hu, hf⟩,
      fun n u _ hu => ⟨u, hu, rfl, rfl⟩⟩
    have hne : y ≠ x := fun heq => by
      rw [heq, hl.held x hstep.1] at hy
      cases hy
      exact hj rfl
    exact (Function.update_of_ne hne _ _).trans hy
  | updatePoolStatus p =>
    rcases answer_updatePoolStatus h with ⟨rfl, -⟩ | ⟨u, _, hu, -, -, rfl⟩
    · exact spares_of_pools sameBut_self moved_self (fun _ n u hu hf => ⟨u, hu, hf⟩)
    · refine spares_of_pools (sameBut_pools (Nat.le_succ _))
        (moved_replace (Nat.lt_succ_self _)) (fun _ n x hx hfx => ?_)
      exact find_replace hu rfl (fun hf => hf) hx hfx
  | updatePool p =>
    have hj := hown trivial
    obtain ⟨p₀, n, -, hcall, -⟩ := hstep
    have hnot : w.locks .worker ≠ some j := by
      rw [(hl.worker ⟨n, hcall⟩).1]
      intro heq
      cases heq
      exact hj rfl
    rcases writes_update h with ⟨rfl, -⟩ | ⟨u, _, hu, -, -, rfl⟩
    · exact spares_of_pools sameBut_self moved_self (fun hw => absurd hw hnot)
    · exact spares_of_pools (sameBut_pools (Nat.le_succ _))
        ((moved_replace (Nat.lt_succ_self _)).filter _) (fun hw => absurd hw hnot)
  | deleteSubVolume n =>
    have hj := hown trivial
    obtain ⟨p₀, v₀, -, -, -, -, hlock, -⟩ := hstep
    refine spares_of_volumes hsame (fun m u hm hu => ?_)
    rcases deletes_find h with ⟨rfl, -⟩ | ⟨x, -, -, rfl⟩
    · exact ⟨u, hu, rfl, rfl⟩
    · have hne : m ≠ n := fun heq => by
        rw [heq, hl.held _ hlock] at hm
        cases hm
        exact hj rfl
      exact ⟨u, (find_delete_ne hne).trans hu, rfl, rfl⟩
  | createSubVolume _ | updateSubVolume _ | updateSubVolumeStatus _ | patchRestorePending _ _ =>
    exact spares_of_volumes hsame (fun m u _ hu => answer_volumes h rfl (by rintro _ ⟨⟩) hu)
  | _ => exact spares_of_same hsame (by rintro ⟨⟩) (by rintro ⟨⟩) (by rintro ⟨⟩)

variable {ch : Choice} {x : Lock} {p : Pool}

theorem InOrder.framed (h : InOrder w i l) (hcall : l'.call = l.call) (hheld : l'.held = l.held)
    (hbase : l'.base = l.base) (hforced : l'.forced = l.forced)
    (hfin : l'.finalized = l.finalized) (hsource : l'.source = l.source) : InOrder w i l' := by
  have hpass : Pass l' → Pass l := by
    rintro ⟨n, hn⟩
    exact ⟨n, hcall.symm.trans hn⟩
  refine ⟨by rw [hcall]; exact h.call, by rw [hheld]; exact h.held, by rw [hheld]; exact h.nodup,
    fun hp => by rw [hheld]; exact h.worker (hpass hp), by rw [hbase]; exact h.base,
    by rw [hbase, hforced]; exact h.copied, fun hf => ?_,
    fun n hn hp => h.finalized n (hfin ▸ hn) (hpass hp), by rw [hsource, hheld]; exact h.source⟩
  obtain ⟨n, hn⟩ := h.forced (hforced ▸ hf)
  exact ⟨n, hcall.trans hn⟩

theorem InOrder.noBase (h : InOrder w i l) (hcall : l'.call = l.call) (hheld : l'.held = l.held)
    (hbase : l'.base = none) (hforced : l'.forced = l.forced)
    (hfin : l'.finalized = l.finalized) (hsource : l'.source = l.source) : InOrder w i l' := by
  have h' : InOrder w i { l' with base := l.base } :=
    h.framed hcall hheld rfl hforced hfin hsource
  have hnone : ∀ p₀, l'.base ≠ some p₀ := fun p₀ hp₀ => by
    exact StepRuns.absent hbase hp₀
  exact { h' with
    base := fun p₀ hp₀ => absurd hp₀ (hnone p₀), copied := fun p₀ hp₀ => absurd hp₀ (hnone p₀) }

theorem inOrder_lock (h : InOrder w i l) (hfree : w.locks x = none) :
    InOrder { w with locks := Function.update w.locks x (some i) } i
      { l with held := x :: l.held } := by
  have hnot : x ∉ l.held := fun hx => by
    cases (h.held x hx).symm.trans hfree
  have hlocks : ∀ y, w.locks y = some i → Function.update w.locks x (some i) y = some i := by
    intro y hy
    have hne : y ≠ x := fun heq => by
      rw [heq, hfree] at hy
      cases hy
    exact (Function.update_of_ne hne _ _).trans hy
  refine { h with
    held := fun y hy => ?_, nodup := nodup_cons.mpr ⟨hnot, h.nodup⟩, worker := fun hp => ?_,
    source := fun v hv => ?_ }
  · rcases mem_cons.mp hy with rfl | hy
    · exact Function.update_self _ _ _
    · exact hlocks y (h.held y hy)
  · obtain ⟨hworker, hno⟩ := h.worker hp
    refine ⟨hlocks _ hworker, fun hmem => ?_⟩
    rcases mem_cons.mp hmem with heq | hmem
    · rw [heq, hfree] at hworker
      cases hworker
    · exact hno hmem
  · obtain ⟨hlock, hu⟩ := h.source v hv
    exact ⟨mem_cons_of_mem x hlock, hu⟩

theorem inOrder_unlock (h : InOrder w i l) (hx : x ∈ l.held) :
    InOrder { w with locks := Function.update w.locks x none } i (l.release x) := by
  have hlocks : ∀ y, y ≠ x → w.locks y = some i → Function.update w.locks x none y = some i :=
    fun y hne hy => (Function.update_of_ne hne _ _).trans hy
  have herase : ∀ y ∈ l.held.erase x, Function.update w.locks x none y = some i := by
    intro y hy
    obtain ⟨hne, hy⟩ := (Nodup.mem_erase_iff h.nodup).mp hy
    exact hlocks y hne (h.held y hy)
  have hworker : Pass l → Function.update w.locks x none .worker = some i ∧
      .worker ∉ l.held.erase x := by
    intro hp
    obtain ⟨hw, hno⟩ := h.worker hp
    exact ⟨hlocks _ (fun heq => hno (heq ▸ hx)) hw, fun hmem => hno (mem_of_mem_erase hmem)⟩
  have hnodup := h.nodup.erase x
  have hsource : (∀ n, x ≠ .volume n) → ∀ v, l.source = some v →
      .volume v.name ∈ l.held.erase x ∧ ∃ u, find subVolumeKind w.subVolumes v.name = some u ∧
        u.shareID = v.shareID ∧ u.poolName = v.poolName := by
    intro hne v hv
    obtain ⟨hlock, hu⟩ := h.source v hv
    exact ⟨(mem_erase_of_ne (fun heq => hne _ heq.symm)).mpr hlock, hu⟩
  cases x with
  | mu =>
    exact ⟨h.call, herase, hnodup, hworker, fun p₀ hp₀ => (nomatch hp₀),
      fun p₀ hp₀ => (nomatch hp₀),
      h.forced, h.finalized, hsource (fun n => nofun)⟩
  | volume n =>
    exact { h with
      held := herase, nodup := hnodup, worker := hworker, source := nofun }
  | worker | cloning _ | backup =>
    exact { h with
      held := herase, nodup := hnodup, worker := hworker, source := hsource (fun n => nofun) }

theorem inOrder_startFrom (hstore : StoreOrder w) (h : InOrder w i l)
    (hp : find poolKind w.pools n = some p) : InOrder w i (l.startFrom p) := by
  refine ⟨h.call, h.held, h.nodup, h.worker, fun p₀ hp₀ => ?_, fun p₀ hp₀ _ => ?_,
    nofun, fun m hm hpass => ?_, h.source⟩
  · cases hp₀
    exact hstore.versions p (find_mem hp)
  · cases hp₀
    exact copied_of_find hstore.pools hp
  · have hm' : (if p.finalizer then some p.name else l.finalized) = some m := hm
    split at hm'
    · rename_i hfin
      cases hm'
      have hname : p.name = n := find_name hp
      exact ⟨p, by rw [hname]; exact hp, hfin⟩
    · exact h.finalized m hm' hpass

theorem inOrder_poolRead {a : Except ApiErr Pool} (hstore : StoreOrder w)
    (h : InOrder w i l) (ha : ∀ p, a = .ok p → find poolKind w.pools n = some p)
    (hstep : poolRead l n a l') : InOrder w i l' := by
  cases a with
  | ok p =>
    rcases hstep with rfl | ⟨-, rfl⟩ | ⟨p₀, m, hbase, hname, hcall, hfin, rfl⟩
    · exact h
    · exact inOrder_startFrom hstore h (ha p rfl)
    · refine { h with
        base := fun q hq => ?_, copied := fun q _ hf => (nomatch hf),
        forced := fun _ => ⟨m, hcall⟩ }
      cases hq
      exact hstore.versions p (find_mem (ha p rfl))
  | error e =>
    rcases hstep with rfl | ⟨-, rfl⟩
    all_goals exact { h with }

theorem inOrder_updatePool {a : Except ApiErr Pool} (h : InOrder w i l)
    (ha : answer i (.updatePool p) ch w = some (a, w')) (hstep : metadataWritten l p a l') :
    InOrder w' i l' := by
  obtain ⟨p₀, n, -, -, -, -, -, hstep⟩ := hstep
  rcases writes_update ha with ⟨rfl, e, rfl⟩ | ⟨u, q, hu, -, rfl, rfl⟩
  · cases hstep
    exact h
  · cases hstep
    have hname : u.name = p.name := find_name hu
    refine { h with
      base := fun p₀ hp₀ => (nomatch hp₀), copied := fun p₀ hp₀ => (nomatch hp₀),
      finalized := fun m hm _ => ?_ }
    have hm' : (if p.finalizer then some p.name else none) = some m := hm
    split at hm'
    · rename_i hfin
      cases hm'
      have hfind : find poolKind (replace poolKind w.pools
          { u with finalizer := p.finalizer, version := w.rev + 1 }) p.name =
          some { u with finalizer := p.finalizer, version := w.rev + 1 } := by
        rw [← hname]
        refine find_replace_self ?_
        exact Option.isSome_of_eq_some ((congrArg (find poolKind w.pools) hname).trans hu)
      exact ⟨_, finalizer_settle hfind hfin, hfin⟩
    · cases hm'

/-- The step lemma for the thread that asks. -/
theorem answer_inOrder (hstore : StoreOrder w) (h : InOrder w i l)
    (ha : answer i q ch w = some (a, w')) (hstep : protocol.step l q a l') : InOrder w' i l' := by
  have hframe := step_framed hstep
  have hkeep : ¬OwnStep q → InOrder w' i l := fun hq =>
    h.spared (answer_spares h ha hstep (fun ho => absurd ho hq))
  cases q with
  | lock x =>
    simp only [answer] at ha
    split at ha
    · rename_i hfree
      cases ha
      cases hstep
      exact inOrder_lock h hfree
    · cases ha
  | unlock x =>
    cases ha
    obtain ⟨hx, rfl⟩ := hstep
    exact inOrder_unlock h hx
  | getPool n =>
    obtain ⟨rfl, hp⟩ := reads_found ha
    exact inOrder_poolRead hstore h hp hstep
  | updatePoolStatus p =>
    obtain ⟨p₀, -, -, -, -, hstep⟩ := hstep
    cases a with
    | ok q =>
      rcases hstep with ⟨share, gb, pvcs, d, c, -, -, rfl⟩ | ⟨-, -, rfl⟩
      · exact (hkeep id).noBase rfl rfl rfl rfl rfl rfl
      · exact (hkeep id).noBase rfl rfl rfl rfl rfl rfl
    | error e =>
      cases hstep
      exact { hkeep id with }
  | updatePool p => exact inOrder_updatePool h ha hstep
  | getSubVolume n =>
    obtain ⟨rfl, hv⟩ := reads_found ha
    cases a with
    | ok v =>
      rcases hstep with rfl | ⟨-, rfl⟩ | ⟨hlock, rfl⟩
      · exact h
      · exact { h with }
      · refine { h with source := fun u hu => ?_ }
        cases hu
        have hfind := hv v rfl
        have hname : v.name = n := find_name hfind
        rw [hname]
        exact ⟨hlock, v, hfind, rfl, rfl⟩
    | error e =>
      cases hstep
      exact h
  | deleteSubVolume n =>
    obtain ⟨p₀, v₀, -, -, -, -, -, -, -, -, -, hstep⟩ := hstep
    rcases deletes_find ha with ⟨rfl, e, rfl⟩ | ⟨x, -, rfl, rfl⟩
    · cases hstep
      exact h
    · cases hstep
      exact { h with source := by rintro _ ⟨⟩ }
  | getSnapshot n =>
    cases a with
    | ok s =>
      rcases hstep with rfl | rfl | ⟨-, rfl | rfl⟩
      all_goals exact { hkeep id with }
    | error e =>
      cases hstep
      exact hkeep id
  | createSnapshot s =>
    obtain ⟨v, ok, -, -, -, -, -, -, -, -, -, hstep⟩ := hstep
    cases a with
    | ok _ | error _ =>
      cases hstep
      exact { hkeep id with }
  | deleteSnapshot n =>
    obtain ⟨s, -, -, -, -, hstep⟩ := hstep
    cases a with
    | ok _ | error _ =>
      cases hstep
      exact { hkeep id with }
  | _ =>
    obtain ⟨hbase, hforced, hfin⟩ := hframe.base id
    exact (hkeep id).framed hframe.call (hframe.held id) hbase hforced hfin
      (hframe.records id).source

variable {pools : List Pool} {rev : ℕ} {v : Pool} {e : Event}

/-- What the list of pools keeps. -/
structure PoolsOrder (rev : ℕ) (pools : List Pool) : Prop where
  distinct : Distinct poolKind pools
  versions : ∀ p ∈ pools, p.version ≤ rev
  finalizers : ∀ p ∈ pools, p.deleting = true → p.finalizer = true

theorem StoreOrder.poolsOrder (h : StoreOrder w) : PoolsOrder w.rev w.pools :=
  ⟨h.pools, h.versions, h.finalizers⟩

theorem PoolsOrder.later {rev' : ℕ} (h : PoolsOrder rev pools)
    (hrev : rev ≤ rev') : PoolsOrder rev' pools :=
  ⟨h.distinct, fun p hp => (h.versions p hp).trans hrev, h.finalizers⟩

theorem PoolsOrder.replace (h : PoolsOrder rev pools)
    (hver : v.version = rev + 1) (hfin : v.deleting = true → v.finalizer = true) :
    PoolsOrder (rev + 1) (replace poolKind pools v) := by
  refine ⟨distinct_replace h.distinct, fun p hp => ?_, fun p hp => ?_⟩
  · rcases mem_replace hp with rfl | ⟨hp, -⟩
    · exact hver.le
    · exact (h.versions p hp).trans (Nat.le_succ _)
  · rcases mem_replace hp with rfl | ⟨hp, -⟩
    · exact hfin
    · exact h.finalizers p hp

/-- A deleted pool without a finalizer does not stay. -/
theorem PoolsOrder.settle (h : PoolsOrder rev pools)
    (hver : v.version = rev + 1) :
    PoolsOrder (rev + 1) (settlePools (VersionedStore.replace poolKind pools v)) := by
  refine ⟨(distinct_replace h.distinct).sublist (filter_sublist.map _), fun p hp => ?_,
    fun p hp hdel => ?_⟩
  · rcases mem_replace (mem_filter.mp hp).1 with rfl | ⟨hp, -⟩
    · exact hver.le
    · exact (h.versions p hp).trans (Nat.le_succ _)
  · have hkept := (mem_filter.mp hp).2
    simpa [hdel] using hkept

theorem PoolsOrder.append (h : PoolsOrder rev pools)
    (hnew : find poolKind pools v.name = none) (hver : v.version = rev + 1)
    (hdel : v.deleting = false) : PoolsOrder (rev + 1) (pools ++ [v]) := by
  refine ⟨distinct_append h.distinct hnew, fun p hp => ?_, fun p hp => ?_⟩
  · rcases mem_append.mp hp with hp | hp
    · exact (h.versions p hp).trans (Nat.le_succ _)
    · cases mem_singleton.mp hp
      exact hver.le
  · rcases mem_append.mp hp with hp | hp
    · exact h.finalizers p hp
    · cases mem_singleton.mp hp
      rw [hdel]
      exact nofun

theorem answer_poolsOrder (h : PoolsOrder w.rev w.pools)
    (ha : answer i q ch w = some (a, w')) : PoolsOrder w'.rev w'.pools := by
  have hsame := answer_sameBut ha
  have hkeep : part q ≠ .pools → PoolsOrder w'.rev w'.pools := fun hq => by
    rw [hsame.pools hq]
    exact h.later hsame.rev
  cases q with
  | updatePoolStatus p =>
    rcases answer_updatePoolStatus ha with ⟨rfl, -⟩ | ⟨u, _, hu, -, -, rfl⟩
    · exact h
    · exact h.replace rfl (h.finalizers u (find_mem hu))
  | updatePool p =>
    rcases writes_update ha with ⟨rfl, -⟩ | ⟨u, _, hu, -, -, rfl⟩
    · exact h
    · exact h.settle rfl
  | _ => exact hkeep nofun

theorem event_poolsOrder (h : PoolsOrder w.rev w.pools)
    (he : happens e w = some w') : PoolsOrder w'.rev w'.pools := by
  have hsame := happens_sameBut he
  have hkeep : eventPart e ≠ .pools → PoolsOrder w'.rev w'.pools := fun hq => by
    rw [hsame.pools hq]
    exact h.later hsame.rev
  cases e with
  | newPool n spec =>
    obtain ⟨hnone, rfl⟩ := StepRuns.unless_some he
    exact h.append (Option.not_isSome_iff_eq_none.mp hnone) rfl rfl
  | editSpec n spec | deletePool n =>
    obtain ⟨u, -, rfl⟩ := changePool_some he
    exact h.settle rfl
  | _ => exact hkeep nofun

theorem answer_volumesDistinct
    (h : Distinct subVolumeKind w.subVolumes) (ha : answer i q ch w = some (a, w')) :
    Distinct subVolumeKind w'.subVolumes := by
  have hkeep : part q ≠ .volumes → Distinct subVolumeKind w'.subVolumes := fun hq => by
    rw [(answer_sameBut ha).volumes hq]
    exact h
  cases q with
  | createSubVolume v =>
    rcases answer_createSubVolume ha with ⟨rfl, -⟩ | ⟨_, hn, -, rfl⟩
    · exact h
    · exact distinct_append h hn
  | updateSubVolume v | updateSubVolumeStatus v =>
    rcases writes_update ha with ⟨rfl, -⟩ | ⟨_, _, -, -, -, rfl⟩
    · exact h
    · exact distinct_replace h
  | deleteSubVolume n =>
    rcases deletes_find ha with ⟨rfl, -⟩ | ⟨_, -, -, rfl⟩
    · exact h
    · exact distinct_delete h
  | patchRestorePending n b =>
    rcases deletes_some ha with ⟨rfl, -⟩ | ⟨-, rfl, -⟩
    · exact h
    · have hnames : (w.subVolumes.map (fun v => if v.name = n then
          { v with restorePending := b, version := w.rev + 1 } else v)).map subVolumeKind.name =
          w.subVolumes.map subVolumeKind.name := by
        rw [map_map]
        refine map_congr_left (fun v _ => ?_)
        by_cases hv : v.name = n
        · simp only [Function.comp, if_pos hv]
          rfl
        · simp only [Function.comp, if_neg hv]
      unfold Distinct
      rw [hnames]
      exact h
  | _ => exact hkeep nofun

theorem answer_snapshotsDistinct
    (h : Distinct snapshotKind w.snapshots) (ha : answer i q ch w = some (a, w')) :
    Distinct snapshotKind w'.snapshots := by
  have hkeep : part q ≠ .snapshots → Distinct snapshotKind w'.snapshots := fun hq => by
    rw [(answer_sameBut ha).snapshots hq]
    exact h
  cases q with
  | createSnapshot s =>
    rcases answer_createSnapshot ha with ⟨rfl, -⟩ | ⟨hn, -, rfl⟩
    · exact h
    · exact distinct_append h hn
  | updateSnapshot s | updateSnapshotStatus s =>
    rcases writes_update ha with ⟨rfl, -⟩ | ⟨_, _, -, -, -, rfl⟩
    · exact h
    · exact distinct_replace h
  | deleteSnapshot n =>
    rcases deletes_find ha with ⟨rfl, -⟩ | ⟨_, -, -, rfl⟩
    · exact h
    · exact distinct_delete h
  | _ => exact hkeep nofun

theorem vmLoop_some {name : Name} {method : SnapshotMethod} {phase : SnapshotPhase} {ready : Bool}
    (h : vmLoop w name method phase ready = some w') :
    ∃ s, find snapshotKind w.snapshots name = some s ∧ s.method = .vm ∧
      (method = .vm ∨ method = .file) ∧ w' = { w with
        rev := w.rev + 1
        snapshots := replace snapshotKind w.snapshots
          { s with
            method := method, phase := phase, readyToUse := ready, version := w.rev + 1 } } := by
  unfold vmLoop at h
  split at h
  · rename_i s hs
    obtain ⟨hcond, rfl⟩ := StepRuns.when_some h
    simp only [Bool.and_eq_true, Bool.or_eq_true, decide_eq_true_eq] at hcond
    exact ⟨s, hs, hcond.1.1.1.1, hcond.2.imp_right (fun h => h.1), rfl⟩
  · cases h

theorem answer_store (h : StoreOrder w)
    (ha : answer i q ch w = some (a, w')) : StoreOrder w' := by
  obtain ⟨hp, hv, hf⟩ := answer_poolsOrder h.poolsOrder ha
  exact ⟨hp, answer_volumesDistinct h.volumes ha, answer_snapshotsDistinct h.snapshots ha, hv, hf⟩

theorem event_store (h : StoreOrder w) (he : happens e w = some w') :
    StoreOrder w' := by
  obtain ⟨hp, hv, hf⟩ := event_poolsOrder h.poolsOrder he
  have hsame := happens_sameBut he
  refine ⟨hp, ?_, ?_, hv, hf⟩
  · rw [hsame.volumes (by cases e <;> nofun)]
    exact h.volumes
  · by_cases hsnap : eventPart e = .snapshots
    · cases e with
      | vmLoop name method phase ready =>
        obtain ⟨s, -, -, -, rfl⟩ := vmLoop_some he
        exact distinct_replace h.snapshots
      | _ => cases hsnap
    · rw [hsame.snapshots hsnap]
      exact h.snapshots

variable {c : Call}

theorem changePool_spares {f : Pool → Pool} (h : changePool w n f = some w')
    (hf : ∀ p, (f p).finalizer = p.finalizer) : Spares w w' j := by
  obtain ⟨u, hu, rfl⟩ := changePool_some h
  refine spares_of_pools (sameBut_pools (Nat.le_succ _))
    ((moved_replace (Nat.lt_succ_self _)).filter _) (fun _ m x hx hfx => ?_)
  obtain ⟨x', hx', hfx'⟩ := find_replace (P := fun p => p.finalizer = true)
    (v := { f u with name := u.name, version := w.rev + 1 }) hu rfl (hf u).trans hx hfx
  exact ⟨x', finalizer_settle hx' hfx', hfx'⟩

theorem event_spares (he : happens e w = some w') : Spares w w' j := by
  have hsame := happens_sameBut he
  cases e with
  | newPool n spec =>
    obtain ⟨-, rfl⟩ := StepRuns.unless_some he
    exact spares_of_pools hsame (moved_append (Nat.lt_succ_self _))
      (fun _ m u hu hf => ⟨u, find_append_of_some hu, hf⟩)
  | editSpec n spec | deletePool n =>
    exact changePool_spares he (fun _ => rfl)
  | _ => exact spares_of_same hsame nofun nofun nofun

theorem enter_same (h : enter i c w = some w') :
    w'.calls = Function.update w.calls i (some c) ∧
    (∃ f, w' = { w with calls := Function.update w.calls i (some c), locks := f }) ∧
    (∀ x, w.locks x ≠ none → w'.locks x = w.locks x) ∧
    ∀ x, workerLock c = some x → w'.locks x = some i := by
  unfold enter at h
  split at h
  · rename_i hnone
    cases h
    exact ⟨rfl, ⟨w.locks, rfl⟩, fun _ _ => rfl, fun x hx => by rw [hnone] at hx; cases hx⟩
  · rename_i y hy
    split at h
    · cases h
    · rename_i hfree
      cases h
      refine ⟨rfl, ⟨_, rfl⟩, fun x hx => ?_, fun x hx => ?_⟩
      · have hne : x ≠ y := fun heq => hx (by rw [heq]; exact hfree)
        exact Function.update_of_ne hne _ _
      · cases hy.symm.trans hx
        exact Function.update_self _ _ _

theorem enter_spares (h : enter i c w = some w') (hj : j ≠ i) : Spares w w' j := by
  obtain ⟨hcalls, ⟨f, rfl⟩, hlocks, -⟩ := enter_same h
  refine ⟨Function.update_of_ne hj _ _, fun x hx => ?_, le_rfl, moved_self,
    fun _ n u hu hf => ⟨u, hu, hf⟩, fun n u _ hu => ⟨u, hu, rfl, rfl⟩⟩
  exact (hlocks x (by rw [hx]; exact nofun)).trans hx

theorem leave_spares (hj : j ≠ i) : Spares w (leave i w) j := by
  refine ⟨Function.update_of_ne hj _ _, fun x hx => ?_, le_rfl, moved_self,
    fun _ n u hu hf => ⟨u, hu, hf⟩, fun n u _ hu => ⟨u, hu, rfl, rfl⟩⟩
  have hne : w.locks x ≠ some i := by
    rw [hx]
    intro heq
    cases heq
    exact hj rfl
  exact (if_neg hne).trans hx

theorem inOrder_start (h : enter i c w = some w') : InOrder w' i (start c) := by
  obtain ⟨hcalls, -, -, hworker⟩ := enter_same h
  refine ⟨?_, nofun, nodup_nil, fun hp => ⟨?_, nofun⟩,
    fun p hp => (nomatch hp), fun p hp => (nomatch hp), nofun,
    nofun, nofun⟩
  · rw [hcalls, Function.update_self]
    rfl
  · obtain ⟨n, hn⟩ := hp
    cases hn
    exact hworker _ rfl

/-- Every run of the driver is in order. -/
theorem upholds_orderly {cfg : ShareCreation.Config} :
    (machine cfg).Upholds (fun _ _ => True) protocol start Final Orderly where
  answers _ _ _ _ _ _ h := answers_of_answer h
  follows := PassFollows.follows_body
  keeps := {
    begins := by
      intro s ls i c w _ _ h hi hw _
      obtain ⟨hcalls, ⟨f, heq⟩, -, -⟩ := enter_same hw
      refine ⟨?_, Machine.each_update (inOrder_start hw) (fun j l hj hl =>
        (h.threads j l hl).spared (enter_spares hw hj)), fun j hj => ?_⟩
      · rw [heq]
        exact { h.store with }
      · have hne : j ≠ i := fun heq => by
          rw [heq, Function.update_self] at hj
          cases hj
        rw [Function.update_of_ne hne] at hj
        rw [hcalls, Function.update_of_ne hne]
        exact h.idle j hj
    acts := by
      intro s ls i ch q k a w l l' _ _ h hl _ ha hstep _
      refine ⟨answer_store h.store ha, Machine.each_update
        (answer_inOrder h.store (h.threads i l hl) ha hstep) (fun j m hj hm =>
          (h.threads j m hm).spared (answer_spares (h.threads i l hl) ha hstep (fun _ => hj))),
        fun j hj => ?_⟩
      have hne : j ≠ i := fun heq => by
        rw [heq, Function.update_self] at hj
        cases hj
      rw [Function.update_of_ne hne] at hj
      rw [(answer_sameBut ha).calls]
      exact h.idle j hj
    ends := by
      intro s ls i l _ _ h hl _ _
      refine ⟨⟨h.store.pools, h.store.volumes, h.store.snapshots, h.store.versions,
        h.store.finalizers⟩, Machine.each_drop (fun j m hj hm =>
          (h.threads j m hm).spared (leave_spares hj)), fun j hj => ?_⟩
      by_cases hji : j = i
      · subst hji
        exact Function.update_self _ _ _
      · rw [Function.update_of_ne hji] at hj
        exact (Function.update_of_ne hji _ _).trans (h.idle j hj)
    event := by
      intro s ls e w _ _ h he _
      exact ⟨event_store h.store he, fun j l hl => (h.threads j l hl).spared (event_spares he),
        fun j hj => by rw [(happens_sameBut he).calls]; exact h.idle j hj⟩
    halts := by
      intro s ls _ _ h _
      exact ⟨⟨h.store.pools, h.store.volumes, h.store.snapshots, h.store.versions,
        h.store.finalizers⟩, fun i l hl => (nomatch hl), fun i _ => rfl⟩ }

end FilePool.PoolOrder
