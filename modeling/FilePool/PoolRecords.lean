import FilePool.RewoundFolders

/-!
The records of the driver in the cluster: the pools with their shares, the volumes and
the snapshots, and how the driver picks a share and keeps the books of a pool. Sizes are
in GB. What a pool has given away is an integer, because the books can be wrong.
-/
namespace FilePool.PoolRecords

open UndoNames RewoundFolders List

inductive ShareState
  | creating
  | stable
  | draining
  | degraded
  | deleting
  deriving DecidableEq, Repr

structure ZoneMountTarget where
  zone : Name
  mountTargetID : Name
  mountTargetIP : Name
  exportPath : Name
  deriving DecidableEq, Repr

/-- What a pool records of one of its shares. -/
structure PoolShareStatus where
  shareID : Name
  shareName : Name
  mountTargetIP : Name
  mountTargetID : Name
  exportPath : Name
  totalGB : ℤ
  allocatedGB : ℤ
  pvcCount : ℤ
  state : ShareState
  tier : Name
  zone : Name
  mountTargets : List ZoneMountTarget
  deriving DecidableEq, Repr

structure ShareTier where
  name : Name
  shareSizeGB : ℤ
  maxShares : ℤ
  initialShares : ℤ
  deriving DecidableEq, Repr

inductive Strategy
  | spread
  | binpack
  | unknown
  deriving DecidableEq, Repr

structure PoolSpec where
  zone : Name
  accessorZones : List Name
  shareSizeGB : ℤ
  maxShares : ℤ
  initialShares : ℤ
  autoExpand : Bool
  expandThresholdPercent : ℤ
  allocationStrategy : Strategy
  defaultPermissions : Name
  defaultUID : Option ℤ
  defaultGID : Option ℤ
  resourceGroup : Name
  tags : List Name
  tiers : List ShareTier
  drainShares : List Name
  deriving DecidableEq, Repr

inductive PoolPhase
  | unset
  | initializing
  | ready
  | expanding
  | degraded
  | full
  deriving DecidableEq, Repr

structure ShareDrainStatus where
  shareID : Name
  remainingSubVolumes : ℕ
  remainingSnapshots : ℕ
  drained : Bool
  deriving DecidableEq, Repr

structure PoolStatus where
  phase : PoolPhase
  shares : List PoolShareStatus
  shareCount : ℕ
  totalCapacityGB : ℤ
  totalAllocatedGB : ℤ
  totalPVCCount : ℤ
  drainStatus : List ShareDrainStatus
  deriving DecidableEq, Repr

/-- A pool. The version is that of the copy at hand. -/
structure Pool where
  name : Name
  version : ℕ
  deleting : Bool
  finalizer : Bool
  spec : PoolSpec
  status : PoolStatus
  deriving DecidableEq, Repr

inductive VolumePhase
  | unset
  | creating
  | cloning
  | bound
  | failed
  deriving DecidableEq, Repr

inductive CloneStatus
  | unset
  | pending
  | inProgress
  | complete
  | failed
  deriving DecidableEq, Repr

/-- A volume. An empty name stands for a label or a field that is not set. -/
structure SubVolume where
  name : Name
  version : ℕ
  restoreSnapshot : Name
  cloneSource : Name
  restorePending : Bool
  poolName : Name
  shareID : Name
  shareMountTargetIP : Name
  shareExportPath : Name
  subPath : Name
  requestedGB : ℕ
  pvcName : Name
  pvcNamespace : Name
  uid : Option ℤ
  gid : Option ℤ
  permissions : Name
  sourceVolume : Name
  sourceShareID : Name
  phase : VolumePhase
  cloneStatus : CloneStatus
  diskChain : List Name
  chainOperation : Name
  deriving DecidableEq, Repr

inductive SnapshotMethod
  | file
  | vm
  | instant
  deriving DecidableEq, Repr

inductive SnapshotPhase
  | unset
  | creating
  | ready
  | failed
  | deleting
  deriving DecidableEq, Repr

structure Snapshot where
  name : Name
  version : ℕ
  method : SnapshotMethod
  deleting : Bool
  sourceSubVolume : Name
  poolName : Name
  shareID : Name
  shareMountTargetIP : Name
  snapshotPath : Name
  sourceSubPath : Name
  sizeGB : ℕ
  phase : SnapshotPhase
  readyToUse : Bool
  chainFile : Name
  mergeChild : Name
  deriving DecidableEq, Repr

/-- Why a call of the driver ends without doing its work. -/
inductive Err
  | poolNotFound
  | poolExhausted
  | poolExpanding
  | noUsableShare (ids : List Name)
  | subVolumeNotFound
  | insufficientShareCapacity
  | snapshotNotFound
  | snapshotFailed
  | snapshotNotReady
  | snapshotUnsupported
  | sourceNotFound
  | operationInProgress
  | restoreTooSmall
  | cloneFailed
  | cloneTooSmall
  | zoneMismatch
  | tierRequired
  | tierNotFound
  | unknownStrategy
  | requestTooLarge
  | shareNotInPool
  | shareDataNotSet
  | instantNotSet
  | networkNotSet
  | notOurShare
  | shareJobFailed
  | invalidVolumeID
  | invalidParameter
  | createDirectory
  | api
  | vpc
  deriving DecidableEq, Repr

/-- The free space of a share, a difference of 64 bits. -/
def PoolShareStatus.freeGB (s : PoolShareStatus) : ℤ :=
  Int.bmod (s.totalGB - s.allocatedGB) (2 ^ 64)

/-- The share is stable and its address is known. -/
def shareReady (s : PoolShareStatus) : Bool := s.state = .stable && s.mountTargetIP ≠ []

def sharesWithoutMountTarget (shares : List PoolShareStatus) (tier : Name) : List Name :=
  (shares.filter (fun s => s.tier = tier && s.state = .stable && s.mountTargetIP = [])).map
    PoolShareStatus.shareID

/-- One round of the search: the better one of the best share so far and this one. -/
def pickShare (strategy : Strategy) (requestedGB : ℤ) (tier : Name)
    (best : Option PoolShareStatus) (s : PoolShareStatus) : Except Err (Option PoolShareStatus) :=
  if !shareReady s || s.tier ≠ tier then .ok best
  else if s.freeGB < requestedGB then .ok best
  else match strategy, best with
    | .unknown, _ => .error .unknownStrategy
    | _, none => .ok (some s)
    | .spread, some b => .ok (if b.freeGB < s.freeGB then some s else best)
    | .binpack, some b => .ok (if s.freeGB < b.freeGB then some s else best)

def selectShare (strategy : Strategy) (shares : List PoolShareStatus) (requestedGB : ℤ)
    (tier : Name) : Except Err PoolShareStatus :=
  match shares.foldlM (pickShare strategy requestedGB tier) none with
  | .error e => .error e
  | .ok none => .error .poolExhausted
  | .ok (some s) => .ok s

/-- The source's own share is preferred when it has room. -/
def selectShareForClone (strategy : Strategy) (shares : List PoolShareStatus)
    (requestedGB : ℤ) (tier sourceShareID : Name) : Except Err PoolShareStatus :=
  match shares.find? (fun s => s.shareID = sourceShareID && s.state = .stable &&
      s.mountTargetIP ≠ [] && s.tier = tier) with
  | some s =>
    if requestedGB ≤ s.freeGB then .ok s else selectShare strategy shares requestedGB tier
  | none => selectShare strategy shares requestedGB tier

/-- The first share of the list with this ID, changed; the others stay. -/
def changeShare (id : Name) (f : PoolShareStatus → PoolShareStatus) :
    List PoolShareStatus → List PoolShareStatus
  | [] => []
  | s :: shares => if s.shareID = id then f s :: shares else s :: changeShare id f shares

def findShare (shares : List PoolShareStatus) (id : Name) : Option PoolShareStatus :=
  shares.find? (fun s => s.shareID = id)

/-- A volume of this size is put on a share; with the signs turned, it is taken off. -/
def bookVolume (p : Pool) (shareID : Name) (sizeGB : ℤ) (count : ℤ) : Pool :=
  { p with status := { p.status with
      shares := changeShare shareID (fun s =>
        { s with allocatedGB := s.allocatedGB + sizeGB, pvcCount := s.pvcCount + count })
        p.status.shares
      totalAllocatedGB := p.status.totalAllocatedGB + sizeGB
      totalPVCCount := p.status.totalPVCCount + count } }

def updateShareAllocation (p : Pool) (shareID : Name) (sizeGB : ℤ) : Pool :=
  bookVolume p shareID sizeGB 1

def updateShareDeallocation (p : Pool) (shareID : Name) (sizeGB : ℤ) : Pool :=
  bookVolume p shareID (-sizeGB) (-1)

/-- A snapshot uses space but is not a volume. -/
def chargeShare (p : Pool) (shareID : Name) (sizeGB : ℤ) : Pool :=
  bookVolume p shareID sizeGB 0

def checkShareRoom (p : Pool) (shareID : Name) (sizeGB : ℤ) : Except Err Unit :=
  match findShare p.status.shares shareID with
  | none => .error .shareNotInPool
  | some s => if s.freeGB < sizeGB then .error .insufficientShareCapacity else .ok ()

def instantChargeGB (sizeGB : ℕ) : ℕ :=
  if 1 < (sizeGB + 9) / 10 then (sizeGB + 9) / 10 else 1

def snapshotChargeGB (s : Snapshot) : ℕ :=
  if s.method = .instant then instantChargeGB s.sizeGB else s.sizeGB

/-- The size and the limits of one tier of a pool. -/
structure TierConfig where
  sizeGB : ℤ
  maxShares : ℤ
  initialShares : ℤ

def PoolSpec.tierConfig (spec : PoolSpec) (tier : Name) : Except Err TierConfig :=
  if spec.tiers = [] then .ok ⟨spec.shareSizeGB, spec.maxShares, spec.initialShares⟩
  else if tier = [] then .error .tierRequired
  else match spec.tiers.find? (fun t => t.name = tier) with
    | some t => .ok ⟨t.shareSizeGB, t.maxShares, t.initialShares⟩
    | none => .error .tierNotFound

def PoolSpec.allAccessibleZones (spec : PoolSpec) : List Name := spec.zone :: spec.accessorZones

def PoolSpec.isAccessibleZone (spec : PoolSpec) (zone : Name) : Bool :=
  zone ∈ spec.allAccessibleZones

/-- The number of shares of a tier. -/
def tierCount (shares : List PoolShareStatus) (tier : Name) : ℕ :=
  (shares.filter (fun s => s.tier = tier)).length

def shareWord : Name := ['-', 's', 'h', 'a', 'r', 'e', '-']

/-- The name of the next share, with the tier when there is one. -/
def nextShareName (p : Pool) (tier : Name) : Name :=
  if tier = [] then p.name ++ shareWord ++ digitsOf (p.status.shares.length + 1)
  else p.name ++ ['-'] ++ tier ++ shareWord ++ digitsOf (tierCount p.status.shares tier + 1)

/-- A share that can take a request of this size. -/
def Takes (requestedGB : ℤ) (s : PoolShareStatus) : Prop :=
  shareReady s = true ∧ requestedGB ≤ s.freeGB

variable {requestedGB : ℤ} {s : PoolShareStatus} {strategy : Strategy} {tier : Name}
  {shares : List PoolShareStatus}

theorem pickShare_ok {best best' : Option PoolShareStatus}
    (h : pickShare strategy requestedGB tier best s = .ok best') :
    best' = best ∨ (best' = some s ∧ Takes requestedGB s) := by
  unfold pickShare at h
  split at h
  · cases h
    exact .inl rfl
  · rename_i hready
    simp only [Bool.or_eq_true, Bool.not_eq_true', not_or,
      Bool.not_eq_false] at hready
    split at h
    · cases h
      exact .inl rfl
    · have htakes : Takes requestedGB s := ⟨hready.1, by omega⟩
      cases best with
      | none =>
        cases strategy <;> simp at h
        · exact .inr ⟨h.symm, htakes⟩
        · exact .inr ⟨h.symm, htakes⟩
      | some b =>
        cases strategy with
        | unknown => simp at h
        | spread | binpack =>
          simp only [Except.ok.injEq] at h
          split at h
          · exact .inr ⟨h.symm, htakes⟩
          · exact .inl h.symm

theorem foldlM_pickShare
    (shares : List PoolShareStatus) (best : Option PoolShareStatus)
    (h : shares.foldlM (pickShare strategy requestedGB tier) best = .ok (some s)) :
    best = some s ∨ (s ∈ shares ∧ Takes requestedGB s) := by
  induction shares generalizing best with
  | nil =>
    cases h
    exact .inl rfl
  | cons x xs ih =>
    rw [foldlM_cons] at h
    cases hx : pickShare strategy requestedGB tier best x with
    | error e =>
      rw [hx] at h
      cases h
    | ok best' =>
      rw [hx] at h
      rcases ih best' h with hb | ⟨hmem, ht⟩
      · rcases pickShare_ok hx with rfl | ⟨hsome, ht⟩
        · exact .inl hb
        · rw [hsome, Option.some.injEq] at hb
          subst hb
          exact .inr ⟨mem_cons_self, ht⟩
      · exact .inr ⟨mem_cons_of_mem x hmem, ht⟩

theorem selectShare_ok
    (h : selectShare strategy shares requestedGB tier = .ok s) :
    s ∈ shares ∧ Takes requestedGB s := by
  unfold selectShare at h
  split at h
  · cases h
  · cases h
  · rename_i t ht
    cases h
    rcases foldlM_pickShare shares none ht with hn | hs
    · cases hn
    · exact hs

theorem selectShareForClone_ok
    {source : Name} (h : selectShareForClone strategy shares requestedGB tier source = .ok s) :
    s ∈ shares ∧ Takes requestedGB s := by
  unfold selectShareForClone at h
  split at h
  · rename_i t ht
    split at h
    · rename_i hroom
      cases h
      have hp := find?_some ht
      simp only [Bool.and_eq_true] at hp
      refine ⟨mem_of_find?_eq_some ht, ?_, hroom⟩
      simp [shareReady, hp.1.1.2, hp.1.2]
    · exact selectShare_ok h
  · exact selectShare_ok h

theorem checkShareRoom_ok {p : Pool} {share : Name} {gb : ℤ}
    (h : checkShareRoom p share gb = .ok ()) :
    ∃ s, findShare p.status.shares share = some s ∧ gb ≤ s.freeGB := by
  unfold checkShareRoom at h
  split at h
  · cases h
  · rename_i s hs
    split at h
    · cases h
    · exact ⟨s, hs, by omega⟩

end FilePool.PoolRecords
