import FilePool.NewestEntry
import FilePool.ShareOwners

/-!
The choice of a share, and what every run of the driver keeps: records on shares of their own
pool, and bookings that no other write loses.
-/
namespace FilePool.PoolSafety

open UndoNames PoolRecords VersionedStore PoolWorld PoolAnswers PoolMachine PoolProtocol PoolOrder
  PoolOrigins ShareNames ShareOwners ThreadRuns NewestEntry

variable {gb : ℤ} {tier : Name} {shares : List PoolShareStatus} {cfg : ShareCreation.Config}
  {s s' : State World Query Answer} {i : ℕ} {ch : Choice}

def candidate (gb : ℤ) (tier : Name) (s : PoolShareStatus) : Bool :=
  shareReady s && s.tier = tier && gb ≤ s.freeGB

theorem selectShare_finds {strategy : Strategy} {key : PoolShareStatus → ℤ}
    (h : ∀ o s, pickShare strategy gb tier o s =
      .ok (if candidate gb tier s ∧ o.all (fun c => key s < key c) then some s else o)) :
    FindsLeast key (candidate gb tier ·) shares
      (selectShare strategy shares gb tier).toOption := by
  have hleast := scanLeast_least key (candidate gb tier ·) shares
  have hfold : shares.foldlM (pickShare strategy gb tier) none =
      .ok (scanLeast key (candidate gb tier ·) shares) := by
    rw [funext₂ h]
    exact List.foldlM_pure
  unfold selectShare
  rw [hfold]
  generalize scanLeast key (candidate gb tier ·) shares = o at hleast ⊢
  cases o <;> exact hleast

/-- Spread takes a candidate with the most free space, binpack one with the least, and there is
none only if no share can take the request. -/
theorem selectShare_best :
    FindsLeast (fun s => -s.freeGB) (candidate gb tier ·) shares
        (selectShare .spread shares gb tier).toOption ∧
      FindsLeast PoolShareStatus.freeGB (candidate gb tier ·) shares
        (selectShare .binpack shares gb tier).toOption := by
  refine ⟨selectShare_finds fun o s => ?_, selectShare_finds fun o s => ?_⟩
  · unfold pickShare candidate
    cases o <;> grind
  · unfold pickShare candidate
    cases o <;> grind

/-- A state of the driver that was started in a quiet world. -/
def Reached (cfg : ShareCreation.Config) (s : State World Query Answer) : Prop :=
  ∃ w, Quiet w ∧ (machine cfg).Run (fun _ _ => True) ⟨w, fun _ => none⟩ s

theorem Reached.held (h : Reached cfg s) : Machine.Held protocol Final Kept s := by
  obtain ⟨w, hquiet, hrun⟩ := h
  exact (upholds_kept cfg).run (Machine.held_still w hquiet.kept) hrun

/-- Every recorded share, and the share of every volume and snapshot, was made under a name of
its own pool. -/
theorem records_on_own_shares (h : Reached cfg s) : NamedWorld s.world := by
  obtain ⟨_, hk, -⟩ := h.held
  exact hk.2.1

theorem quiet_apartPools : Quiet apartPools :=
  quiet_pools ⟨by decide, by decide, by decide⟩ List.nodup_nil (by rintro _ ⟨⟩)
    (by simp [emptyStatus])

/-- Both pools have a share and one of them a volume. -/
theorem records_on_own_shares_apart : ∃ s, Reached plainConfig s ∧
    s.world.pools.map shareIDs = [[['y']], [['x']]] ∧
    s.world.subVolumes.map SubVolume.shareID = [['y']] ∧ NamedWorld s.world := by
  have h : ((machine plainConfig).moves apartMoves ⟨apartPools, fun _ => none⟩).any
      (fun s => decide (s.world.pools.map shareIDs = [[['y']], [['x']]] ∧
        s.world.subVolumes.map SubVolume.shareID = [['y']])) = true := by
    decide +kernel
  obtain ⟨s, hs, hend⟩ := Option.any_eq_true _ _ |>.mp h
  obtain ⟨hids, hvols⟩ := of_decide_eq_true hend
  have hs : Reached plainConfig s := ⟨_, quiet_apartPools, Machine.run_moves _ _ _ s hs⟩
  exact ⟨s, hs, hids, hvols, records_on_own_shares hs⟩

end FilePool.PoolSafety
