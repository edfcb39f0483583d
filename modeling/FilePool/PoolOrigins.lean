import FilePool.PoolOrder

/-!
Where a stored record comes from. A pool was there before the step, unless it is a new one
without shares; its status is the old one or the one that a call has written from a copy of
the same version. A deletion of a pool is not taken back, and a pool goes only when it was
marked for deletion. A new volume is on a share of the call that makes it, and a new
snapshot is on the share of a volume that exists.
-/
namespace FilePool.PoolOrigins

open UndoNames PoolRecords VersionedStore PoolWorld PoolAnswers PoolMachine PoolProtocol
  PoolSteps PoolOrder List

variable {w w' : World} {i : ℕ} {l l' : Local} {ch : Choice} {p : Pool} {q : Query} {a : Answer q}
  {e : Event} {n : Name} {u : Pool}

/-- The pool was stored before, and a deletion of it is not taken back. -/
structure Descends (w : World) (p u : Pool) : Prop where
  found : find poolKind w.pools p.name = some u
  deleting : u.deleting = true → p.deleting = true

/-- A status that the call has worked out from its copy of the pool. -/
def Wrote (l : Local) (p₀ x : Pool) : Prop :=
  (∃ share gb pvcs d c, Booked l p₀ x share gb pvcs ∧ Pays l p₀ share gb pvcs d c) ∨
    (Refreshed l p₀ x ∧ l.forced = false)

/-- The status is the old one, or written from a copy that is still the stored pool. -/
def StatusFrom (l : Local) (p u : Pool) : Prop :=
  p.status = u.status ∨ ∃ p₀ x, l.base = some p₀ ∧ l.Keeper ∧ p.name = p₀.name ∧
    u.version = p₀.version ∧ p.status = x.status ∧ Wrote l p₀ x

theorem descends_self (hd : Distinct poolKind w.pools) (hp : p ∈ w.pools) :
    Descends w p p := ⟨find_of_mem hd hp, fun h => h⟩

theorem answer_pool_origin (hstore : StoreOrder w)
    (ha : answer i q ch w = some (a, w')) (hstep : protocol.step l q a l')
    (hp : p ∈ w'.pools) : ∃ u, Descends w p u ∧ p.spec = u.spec ∧ StatusFrom l p u := by
  have hkept : p ∈ w.pools → ∃ u, Descends w p u ∧ p.spec = u.spec ∧ StatusFrom l p u :=
    fun h => ⟨p, descends_self hstore.pools h, rfl, .inl rfl⟩
  cases q with
  | updatePoolStatus x =>
    rcases answer_updatePoolStatus ha with ⟨rfl, -⟩ | ⟨u, y, hu, hver, rfl, rfl⟩
    · exact hkept hp
    · have hname : u.name = x.name := find_name hu
      obtain ⟨p₀, hbase, hkeeper, hx, hxver, hstep⟩ := hstep
      rcases mem_replace hp with rfl | ⟨hp, -⟩
      · refine ⟨u, ⟨find_self hu, fun h => h⟩, rfl,
          .inr ⟨p₀, x, hbase, hkeeper, hname.trans hx, hver.trans hxver, rfl, ?_⟩⟩
        rcases hstep with ⟨share, gb, pvcs, d, c, hbooked, hpays, -⟩ | ⟨hfresh, hforced, -⟩
        · exact .inl ⟨share, gb, pvcs, d, c, hbooked, hpays⟩
        · exact .inr ⟨hfresh, hforced⟩
      · exact hkept hp
  | updatePool x =>
    rcases writes_update ha with ⟨rfl, -⟩ | ⟨u, y, hu, -, rfl, rfl⟩
    · exact hkept hp
    · rcases mem_replace (mem_filter.mp hp).1 with rfl | ⟨hp, -⟩
      · exact ⟨u, ⟨find_self hu, fun h => h⟩, rfl, .inl rfl⟩
      · exact hkept hp
  | _ =>
    rw [(answer_sameBut ha).pools nofun] at hp
    exact hkept hp

theorem answer_moved (ha : answer i q ch w = some (a, w')) :
    Moved poolKind w.rev w.pools w'.pools := by
  cases q with
  | updatePoolStatus x =>
    rcases answer_updatePoolStatus ha with ⟨rfl, -⟩ | ⟨u, y, -, -, rfl, rfl⟩
    · exact moved_self
    · exact moved_replace (Nat.lt_succ_self _)
  | updatePool x =>
    rcases writes_update ha with ⟨rfl, -⟩ | ⟨u, y, -, -, rfl, rfl⟩
    · exact moved_self
    · exact (moved_replace (Nat.lt_succ_self _)).filter _
  | _ =>
    rw [(answer_sameBut ha).pools nofun]
    exact moved_self

/-- A pool that somebody else has made, edited or marked for deletion. -/
theorem event_pool_origin (hstore : StoreOrder w) (he : happens e w = some w') (hp : p ∈ w'.pools) :
    (∃ u, Descends w p u ∧ p.status = u.status) ∨
      (find poolKind w.pools p.name = none ∧ p.deleting = false ∧ p.status = emptyStatus) := by
  have hkept : p ∈ w.pools → ∃ u, Descends w p u ∧ p.status = u.status :=
    fun h => ⟨p, descends_self hstore.pools h, rfl⟩
  have hchange : ∀ n (f : Pool → Pool), changePool w n f = some w' →
      (∀ u, u.deleting = true → (f u).deleting = true) → (∀ u, (f u).status = u.status) →
      ∃ u, Descends w p u ∧ p.status = u.status := by
    intro n f hf hdel hstatus
    obtain ⟨u, hu, rfl⟩ := changePool_some hf
    rcases mem_replace (mem_filter.mp hp).1 with rfl | ⟨hp, -⟩
    · exact ⟨u, ⟨find_self hu, hdel u⟩, hstatus u⟩
    · exact hkept hp
  cases e with
  | newPool n spec =>
    obtain ⟨hnone, rfl⟩ := StepRuns.unless_some he
    rcases mem_append.mp hp with hp | hp
    · exact .inl (hkept hp)
    · cases mem_singleton.mp hp
      exact .inr ⟨Option.not_isSome_iff_eq_none.mp hnone, rfl, rfl⟩
  | editSpec n spec => exact .inl (hchange n _ he (fun _ h => h) (fun _ => rfl))
  | deletePool n => exact .inl (hchange n _ he (fun _ _ => rfl) (fun _ => rfl))
  | _ =>
    rw [(happens_sameBut he).pools nofun] at hp
    exact .inl (hkept hp)

/-- A volume was there before, or it is made by the call. -/
theorem answer_volume_origin (ha : answer i q ch w = some (a, w'))
    (hstep : protocol.step l q a l') {v : SubVolume} (hv : v ∈ w'.subVolumes) :
    (∃ u ∈ w.subVolumes, u.name = v.name ∧ u.shareID = v.shareID ∧ u.poolName = v.poolName) ∨
      ∃ p₀ x, l.base = some p₀ ∧ l.forced = false ∧ v.poolName = p₀.name ∧
        volumePool l.call = some p₀.name ∧ v.shareID = x.shareID ∧ Fits l p₀ x := by
  cases q with
  | createSubVolume x =>
    rcases answer_createSubVolume ha with ⟨rfl, -⟩ | ⟨y, -, rfl, rfl⟩
    · exact .inl ⟨v, hv, rfl, rfl, rfl⟩
    · rcases mem_append.mp hv with hv | hv
      · exact .inl ⟨v, hv, rfl, rfl, rfl⟩
      · cases mem_singleton.mp hv
        obtain ⟨p₀, hbase, hforced, -, hpool, hcall, -, hfits, -⟩ := hstep
        exact .inr ⟨p₀, x, hbase, hforced, hpool, hpool ▸ hcall, rfl, hfits⟩
  | _ => exact .inl (volume_origin ha (fun _ => nofun) hv)

/-- A snapshot was there before, or it is made on the share of a volume that exists. -/
theorem answer_snapshot_origin (hord : InOrder w i l)
    (ha : answer i q ch w = some (a, w')) (hstep : protocol.step l q a l') {s : Snapshot}
    (hs : s ∈ w'.snapshots) :
    (∃ u ∈ w.snapshots, u.shareID = s.shareID ∧ u.poolName = s.poolName) ∨
      ∃ v ∈ w.subVolumes, v.shareID = s.shareID ∧ v.poolName = s.poolName := by
  cases q with
  | createSnapshot x =>
    rcases answer_createSnapshot ha with ⟨rfl, -⟩ | ⟨-, rfl, rfl⟩
    · exact .inl ⟨s, hs, rfl, rfl⟩
    · rcases mem_append.mp hs with hs | hs
      · exact .inl ⟨s, hs, rfl, rfl⟩
      · cases mem_singleton.mp hs
        obtain ⟨v, ok, -, hsource, -, -, -, hpool, hshare, -⟩ := hstep
        obtain ⟨-, u, hu, hushare, hupool⟩ := hord.source v hsource
        exact .inr ⟨u, find_mem hu, hushare.trans hshare.symm, hupool.trans hpool.symm⟩
  | _ =>
    obtain ⟨u, hu, -, -, hshare, hpool, -⟩ := snapshot_origin ha (fun _ => nofun) hs
    exact .inl ⟨u, hu, hshare, hpool⟩

theorem event_snapshot_origin (he : happens e w = some w') {s : Snapshot}
    (hs : s ∈ w'.snapshots) :
    ∃ u ∈ w.snapshots, u.shareID = s.shareID ∧ u.poolName = s.poolName := by
  by_cases hsnap : eventPart e = .snapshots
  · cases e with
    | vmLoop name method phase ready =>
      obtain ⟨x, hx, -, -, rfl⟩ := vmLoop_some he
      rcases mem_replace hs with rfl | ⟨hs, -⟩
      · exact ⟨x, find_mem hx, rfl, rfl⟩
      · exact ⟨s, hs, rfl, rfl⟩
    | _ => cases hsnap
  · rw [(happens_sameBut he).snapshots hsnap] at hs
    exact ⟨s, hs, rfl, rfl⟩

theorem event_volumes (he : happens e w = some w') : w'.subVolumes = w.subVolumes :=
  (happens_sameBut he).volumes (by cases e <;> nofun)

/-- No ID is used for a second share. -/
def Issues (w w' : World) : Prop :=
  w'.issued = w.issued ∨ ∃ x, x.1 ∉ w.issued.map Prod.fst ∧ w'.issued = x :: w.issued

theorem Issues.subset (h : Issues w w') : w.issued ⊆ w'.issued := by
  rcases h with h | ⟨x, -, h⟩
  · rw [h]
    exact Subset.refl _
  · rw [h]
    exact subset_cons_self _ _

theorem Issues.nodup (h : Issues w w') (hw : (w.issued.map Prod.fst).Nodup) :
    (w'.issued.map Prod.fst).Nodup := by
  rcases h with h | ⟨x, hnew, h⟩
  · rwa [h]
  · rw [h]
    exact nodup_cons.mpr ⟨hnew, hw⟩

theorem answer_issues (ha : answer i q ch w = some (a, w')) :
    Issues w w' := by
  by_cases hq : part q = .shares
  · cases q with
    | createShare input =>
      rcases answer_createShare ha with ⟨rfl, -⟩ | ⟨id, ts, hnew, rfl, -⟩
      · exact .inl rfl
      · exact .inr ⟨(id, input.name), hnew, rfl⟩
    | deleteShare _ | createMountTarget _ => cases ch <;> cases ha <;> exact .inl rfl
    | _ => cases hq
  · exact .inl ((answer_sameBut ha).shares hq).2

theorem event_issues (he : happens e w = some w') : Issues w w' := by
  cases e with
  | shareMade s =>
    obtain ⟨hnew, rfl⟩ := StepRuns.unless_some he
    exact .inr ⟨(s.id, s.name), hnew, rfl⟩
  | shareChanges _ _ _ | shareGone _ =>
    cases he
    exact .inl rfl
  | _ => exact .inl ((happens_sameBut he).shares nofun).2

/-- The share was there before, or it is a new one under an ID of its own. -/
def ShareFrom (w w' : World) (s : ShareInfo) : Prop :=
  (∃ u ∈ w.shares, u.id = s.id ∧ u.name = s.name) ∨
    (s.id ∉ w.issued.map Prod.fst ∧ (s.id, s.name) ∈ w'.issued)

variable {s : ShareInfo}

theorem shareFrom_change {id : Name} {f : ShareInfo → ShareInfo}
    (hs : s ∈ (changeInfo w id f).shares) (hf : ∀ s, (f s).id = s.id ∧ (f s).name = s.name) :
    ShareFrom w w' s := by
  obtain ⟨u, hu, rfl⟩ := mem_map.mp hs
  refine .inl ⟨u, hu, ?_⟩
  split
  · exact ⟨(hf u).1.symm, (hf u).2.symm⟩
  · exact ⟨rfl, rfl⟩

theorem answer_share_origin (ha : answer i q ch w = some (a, w'))
    (hs : s ∈ w'.shares) : ShareFrom w w' s := by
  cases q with
  | createShare input =>
    rcases answer_createShare ha with ⟨rfl, -⟩ | ⟨id, ts, hnew, rfl, -⟩
    · exact .inl ⟨s, hs, rfl, rfl⟩
    · rcases mem_append.mp hs with hs | hs
      · exact .inl ⟨s, hs, rfl, rfl⟩
      · cases mem_singleton.mp hs
        exact .inr ⟨hnew, mem_cons_self⟩
  | deleteShare id =>
    cases ch with
    | ok =>
      cases ha
      exact .inl ⟨s, (mem_filter.mp hs).1, rfl, rfl⟩
    | refused =>
      cases ha
      exact .inl ⟨s, hs, rfl, rfl⟩
    | _ => cases ha
  | createMountTarget id =>
    cases ch with
    | mountTarget t =>
      cases ha
      exact shareFrom_change hs (fun _ => ⟨rfl, rfl⟩)
    | refused =>
      cases ha
      exact .inl ⟨s, hs, rfl, rfl⟩
    | _ => cases ha
  | _ =>
    rw [((answer_sameBut ha).shares nofun).1] at hs
    exact .inl ⟨s, hs, rfl, rfl⟩

theorem event_share_origin (he : happens e w = some w')
    (hs : s ∈ w'.shares) : ShareFrom w w' s := by
  cases e with
  | shareMade x =>
    obtain ⟨hnew, rfl⟩ := StepRuns.unless_some he
    rcases mem_append.mp hs with hs | hs
    · exact .inl ⟨s, hs, rfl, rfl⟩
    · cases mem_singleton.mp hs
      exact .inr ⟨hnew, mem_cons_self⟩
  | shareChanges id state targets =>
    cases he
    exact shareFrom_change hs (fun _ => ⟨rfl, rfl⟩)
  | shareGone id =>
    cases he
    exact .inl ⟨s, (mem_filter.mp hs).1, rfl, rfl⟩
  | _ =>
    rw [((happens_sameBut he).shares nofun).1] at hs
    exact .inl ⟨s, hs, rfl, rfl⟩

/-- A share goes only when it is deleted. -/
theorem answer_share_stays (ha : answer i q ch w = some (a, w'))
    (hq : ∀ id, q ≠ .deleteShare id) (hs : s ∈ w.shares) :
    ∃ s' ∈ w'.shares, s'.id = s.id := by
  cases q with
  | createShare input =>
    rcases answer_createShare ha with ⟨rfl, -⟩ | ⟨id, ts, -, rfl, -⟩
    · exact ⟨s, hs, rfl⟩
    · exact ⟨s, mem_append_left _ hs, rfl⟩
  | deleteShare id => exact absurd rfl (hq id)
  | createMountTarget id =>
    cases ch with
    | mountTarget t =>
      cases ha
      exact ⟨_, mem_map_of_mem hs, by split <;> rfl⟩
    | refused =>
      cases ha
      exact ⟨s, hs, rfl⟩
    | _ => cases ha
  | _ => exact ⟨s, by rw [((answer_sameBut ha).shares nofun).1]; exact hs, rfl⟩

end FilePool.PoolOrigins
