import FilePool.UndoFormat
import FilePool.UndoNames
import FilePool.GroupedLists

/-!
The status of a replication policy: what is known of each volume, the state of a copy
of a running VM's disk that is not finished, and the status of each VM, which lists the
moments that all its disks can show. The API server keeps times in whole seconds.
-/
namespace FilePool.ReplicationStatus

open UndoFormat UndoNames GroupedLists List

inductive CopyPhase
  | copying
  | sending
  deriving DecidableEq, Repr

inductive Consistency
  | unset
  | fileSystem
  | crash
  deriving DecidableEq, Repr

/-- The error texts of a volume's last sync, without the parts that only tell names
and causes. -/
inductive SyncNote
  | none
  | syncInProgress
  | deferredParallelLimit
  | heldByExport
  | heldByBrowse
  | diskChain
  | checkJob
  | vmStartedDuringCopy
  | checkVMAfterCopy
  | jobFailed
  | checkRunningVM
  | skippedRunningVM
  | createResources
  | hotPlugged
  | noOwner
  | checkMove
  | vmMoving
  | vmBusy
  | clearEarlierCopy
  | startCopy
  | copyLost
  | checkPod
  | cancelCopy
  | checkCopy
  | copyFailed
  | releaseCopy
  | createApplyJob
  | checkApplyJob
  | jobGone
  | applyFailed
  | wrongBase
  deriving DecidableEq, Repr

/-- A copy of a running VM's disk that is not finished. -/
structure VMCopyState where
  id : Name
  phase : CopyPhase
  podName : Name
  podUID : Name
  vmiName : Name
  volume : Name
  diskIndex : ℕ
  stagingFile : Name
  moment : Moment
  fileSystemConsistent : Bool
  bitmap : Name
  base : Name
  incremental : Bool
  deriving DecidableEq, Repr

structure SubVolumeStatus where
  subVolumeName : Name
  lastSyncTime : Option Moment
  lastError : SyncNote
  copyMoment : Option Moment
  consistency : Consistency
  vmChangeList : Name
  restorePointMoments : List Moment
  vmName : Name
  vmCopy : Option VMCopyState
  deriving DecidableEq, Repr

structure VMStatus where
  name : Name
  subVolumes : List Name
  copyMoment : Option Moment
  consistency : Consistency
  commonRestorePoints : List Moment
  deriving DecidableEq, Repr

/-- The moments a disk can show as far as its status knows. -/
def statusPoints (d : SubVolumeStatus) (t : Moment) : List Moment :=
  (t :: d.restorePointMoments).dedup

/-- The loop over the disks of a VM; none is the map that was not made yet. -/
def commonStep (common : Option (List Moment)) (d : SubVolumeStatus) : Option (List Moment) :=
  match d.copyMoment with
  | none => some []
  | some t =>
    match common with
    | none => some (statusPoints d t)
    | some c => some (c.filter (· ∈ statusPoints d t))

def consistencyStep (c : Consistency) (d : SubVolumeStatus) : Consistency :=
  if d.consistency = .crash then .crash
  else if c = .unset then d.consistency
  else c

/-- The oldest copy among the disks. -/
def copyMomentStep (m : Option Moment) (d : SubVolumeStatus) : Option Moment :=
  match d.copyMoment, m with
  | none, m => m
  | some t, none => some t
  | some t, some m => if t < m then some t else some m

def vmStatusOf (name : Name) (disks : List SubVolumeStatus) : VMStatus where
  name := name
  subVolumes := disks.map SubVolumeStatus.subVolumeName
  copyMoment := disks.foldl copyMomentStep none
  consistency := disks.foldl consistencyStep .unset
  commonRestorePoints := newestFirst ((disks.foldl commonStep none).getD [])

/-- The status of each VM, from the statuses of its disks. -/
def vmReplicationStatuses (statuses : List SubVolumeStatus) : List VMStatus :=
  let byVM := groupAll (statuses.filterMap (fun s =>
    if s.vmName = [] then none else some (s.vmName, s)))
  (byVM.insertionSort (fun a b => a.1 ≤ b.1)).map (fun g =>
    vmStatusOf g.1 (g.2.insertionSort (fun a b => a.subVolumeName ≤ b.subVolumeName)))

/-- A time as the API server keeps it. -/
def second (t : ℤ) : ℤ := t / 1000000000 * 1000000000

def SubVolumeStatus.stored (s : SubVolumeStatus) : SubVolumeStatus :=
  { s with
    lastSyncTime := s.lastSyncTime.map second
    copyMoment := s.copyMoment.map second
    restorePointMoments := s.restorePointMoments.map second
    vmCopy := s.vmCopy.map (fun c => { c with moment := second c.moment }) }

def VMStatus.stored (s : VMStatus) : VMStatus :=
  { s with
    copyMoment := s.copyMoment.map second
    commonRestorePoints := s.commonRestorePoints.map second }

/-- The moments that every disk can show are left at the end of the loop. -/
theorem mem_foldl_commonStep (ds : List SubVolumeStatus) (c : Option (List Moment)) (t : Moment)
    (h : t ∈ (ds.foldl commonStep c).getD []) :
    (∀ d ∈ ds, ∃ m, d.copyMoment = some m ∧ (t = m ∨ t ∈ d.restorePointMoments)) ∧
      ∀ c', c = some c' → t ∈ c' := by
  induction ds generalizing c with
  | nil =>
    refine ⟨fun d hd => absurd hd not_mem_nil, ?_⟩
    intro c' hc
    rw [hc] at h
    exact h
  | cons d ds ih =>
    obtain ⟨hrest, hstep⟩ := ih (commonStep c d) h
    rw [forall_mem_cons]
    unfold commonStep at hstep
    cases hm : d.copyMoment with
    | none =>
      rw [hm] at hstep
      exact absurd (hstep [] rfl) not_mem_nil
    | some m =>
      rw [hm] at hstep
      have hset : t ∈ statusPoints d m → t = m ∨ t ∈ d.restorePointMoments := by
        unfold statusPoints
        rw [mem_dedup, mem_cons]
        exact id
      cases c with
      | none => exact ⟨⟨⟨m, rfl, hset (hstep _ rfl)⟩, hrest⟩, nofun⟩
      | some c =>
        obtain ⟨hc, hin⟩ := mem_filter.mp (hstep _ rfl)
        refine ⟨⟨⟨m, rfl, hset (of_decide_eq_true hin)⟩, hrest⟩, ?_⟩
        rintro c' hc'
        cases hc'
        exact hc

theorem name_ne_nil (statuses : List SubVolumeStatus) (vm : VMStatus)
    (hvm : vm ∈ vmReplicationStatuses statuses) : vm.name ≠ [] := by
  obtain ⟨⟨name, disks⟩, hg, rfl⟩ := mem_map.mp hvm
  obtain ⟨hvalues, hne⟩ := (groups_groupAll.mem_iff name disks).mp
    ((perm_insertionSort _ _).mem_iff.mp hg)
  obtain ⟨d, hd⟩ := exists_mem_of_ne_nil disks hne
  rw [hvalues, mem_valuesOf, mem_filterMap] at hd
  obtain ⟨s, -, hs⟩ := hd
  by_cases hempty : s.vmName = []
  · rw [if_pos hempty] at hs
    cases hs
  · rw [if_neg hempty] at hs
    cases hs
    exact hempty

/-- A common restore point of a VM is one of every disk with the VM's name. -/
theorem commonRestorePoints_mem {statuses : List SubVolumeStatus} {vm : VMStatus}
    (hvm : vm ∈ vmReplicationStatuses statuses) {t : Moment} (ht : t ∈ vm.commonRestorePoints)
    {s : SubVolumeStatus} (hs : s ∈ statuses) (hname : s.vmName = vm.name) :
    ∃ m, s.copyMoment = some m ∧ (t = m ∨ t ∈ s.restorePointMoments) := by
  have hset : s.vmName ≠ [] := hname ▸ name_ne_nil statuses vm hvm
  obtain ⟨⟨name, disks⟩, hg, rfl⟩ := mem_map.mp hvm
  obtain ⟨hvalues, -⟩ := (groups_groupAll.mem_iff name disks).mp
    ((perm_insertionSort _ _).mem_iff.mp hg)
  have hmem : s ∈ disks := by
    rw [hvalues, mem_valuesOf, mem_filterMap]
    exact ⟨s, hs, by rw [if_neg hset, show s.vmName = name from hname]⟩
  have hloop := (mem_newestFirst _ t).mp ht
  exact (mem_foldl_commonStep _ none t hloop).1 s ((perm_insertionSort _ disks).mem_iff.mpr hmem)

theorem second_of_whole {t : ℤ} (h : t % 1000000000 = 0) : second t = t := by
  unfold second
  omega

theorem second_second {t : ℤ} : second (second t) = second t := by
  unfold second
  omega

end FilePool.ReplicationStatus
