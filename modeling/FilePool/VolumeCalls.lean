import FilePool.InstantSnapshots

/-!
The calls that make, grow, clone and delete volumes. Each one holds the Manager's lock
from its first read of the pool to its last write. A volume's record is made before the
pool's books are written, and a write of the books that fails is only logged.
-/
namespace FilePool.VolumeCalls

open UndoNames PoolRecords PoolWorld Threads Proc ShareCreation InstantSnapshots

structure AllocationResult where
  shareID : Name
  mountTargetIP : Name
  subPath : Name
  sharePath : Name
  uid : Option ℤ
  gid : Option ℤ
  permissions : Name
  mountTargets : List (Name × Name)
  accessibleZones : List Name
  deriving DecidableEq, Repr

def pvcsFolder : Name := ['/', 'p', 'v', 'c', 's', '/']

def sharePathOf (exportPath : Name) : Name := if exportPath = [] then ['/'] else exportPath

/-- The answer for a volume that exists. -/
def subVolumeAllocationResult (v : SubVolume) : AllocationResult :=
  ⟨v.shareID, v.shareMountTargetIP, v.subPath, sharePathOf v.shareExportPath, v.uid, v.gid,
    v.permissions, [], []⟩

/-- The values of a request go before the pool's own. -/
def resolvePermissions (req : AllocationRequest) (pool : Pool) : Option ℤ × Option ℤ × Name :=
  (req.uid.or pool.spec.defaultUID, req.gid.or pool.spec.defaultGID,
    if req.permissions = [] then pool.spec.defaultPermissions else req.permissions)

/-- The record of a new volume on a share. -/
def newSubVolume (req : AllocationRequest) (pool : Pool) (share : PoolShareStatus) : SubVolume :=
  let perms := resolvePermissions req pool
  { name := req.pvName, version := 0, restoreSnapshot := [], cloneSource := []
    restorePending := false, poolName := req.poolName, shareID := share.shareID
    shareMountTargetIP := share.mountTargetIP, shareExportPath := share.exportPath
    subPath := pvcsFolder ++ req.pvName, requestedGB := req.requestedGB
    pvcName := req.pvcName, pvcNamespace := req.pvcNamespace, uid := perms.1, gid := perms.2.1
    permissions := perms.2.2, sourceVolume := [], sourceShareID := []
    phase := .bound, cloneStatus := .unset, diskChain := [], chainOperation := [] }

variable (cfg : Config)

/-- The record is created, then its status is written; a status write that fails is only
logged. -/
def storeVolume (v : SubVolume) : Driver SubVolume := do
  let made : SubVolume ← orFail (fun _ => .api) (← ask (.createSubVolume v))
  let full := { v with version := made.version }
  let stored : Except ApiErr SubVolume ← ask (.updateSubVolumeStatus full)
  match stored with
  | .ok v' => return v'
  | .error _ => return full

/-- The pool's books after a new volume; a write that fails is only logged. -/
def recordVolume (pool : Pool) (v : SubVolume) : Driver Unit := do
  let _r ← ask (.updatePoolStatus (updateShareAllocation pool v.shareID v.requestedGB))
  return ()

def allocationResult (pool : Pool) (share : PoolShareStatus) (v : SubVolume) : AllocationResult :=
  let zones := pool.spec.accessorZones ≠ [] && share.mountTargets ≠ []
  ⟨share.shareID, share.mountTargetIP, v.subPath, sharePathOf share.exportPath, v.uid, v.gid,
    v.permissions,
    if zones then share.mountTargets.map (fun t => (t.zone, t.mountTargetIP)) else [],
    if zones then pool.spec.allAccessibleZones else []⟩

/-- The share for a new volume, with the pool as it is then. Only this call stores the
pool when a share was made that is not ready yet. -/
def shareForAllocate (req : AllocationRequest) (pool : Pool) :
    Driver (Pool × PoolShareStatus) := do
  match selectShare pool.spec.allocationStrategy pool.status.shares req.requestedGB req.tier with
  | .ok share => return (pool, share)
  | .error .poolExhausted => do
    let made ← tryAutoExpand cfg pool req.requestedGB req.tier
    match made.2 with
    | .ok share => return (made.1, share)
    | .error e => do
      let _r ← ask (.updatePoolStatus made.1)
      fail e
  | .error e => fail e

def allocateBody (req : AllocationRequest) : Driver AllocationResult := do
  let pool : Pool ← orFail (fun _ => .poolNotFound) (← ask (.getPool req.poolName))
  if req.zone ≠ [] && !pool.spec.isAccessibleZone req.zone then fail .zoneMismatch
  else do
    let existing : Except ApiErr SubVolume ← ask (.getSubVolume req.pvName)
    match existing with
    | .ok v => return subVolumeAllocationResult v
    | .error _ =>
      if pool.spec.tiers ≠ [] && req.tier = [] then fail .tierRequired
      else do
        let picked ← shareForAllocate cfg req pool
        let v := { newSubVolume req picked.1 picked.2 with restorePending := req.restorePending }
        if cfg.nfsOps then orFail (fun _ => .createDirectory) (← ask (.createDirectory v.subPath))
        let v' ← storeVolume v
        recordVolume picked.1 v
        return allocationResult picked.1 picked.2 v'

def allocate (req : AllocationRequest) : Driver AllocationResult :=
  locked .mu (allocateBody cfg req)

/-- The driver's call for a new volume. One that a backup restore is about to fill is held
back from the start. -/
def createVolume (req : AllocationRequest) : Driver AllocationResult := do
  if req.pvcName = [] then allocate cfg { req with restorePending := false }
  else do
    let pending : Bool ← orFail (fun _ => .api)
      (← ask (.hasOpenRestore ⟨req.pvcNamespace, req.pvcName⟩))
    allocate cfg { req with restorePending := pending }

/-- The key of the Job that copies data into a restored or cloned volume. -/
def dataCopyKey (v : SubVolume) : Option Name :=
  if v.restoreSnapshot ≠ [] then some (restoreKey ++ v.name)
  else if v.sourceVolume ≠ [] then some (['c', 'l', 'o', 'n', 'e', '-'] ++ v.name)
  else none

/-- A copy into the volume is stopped before the volume goes. -/
def stopDataCopy (v : SubVolume) : Driver Unit := do
  match dataCopyKey v with
  | none => return ()
  | some key => do
    let stopped : Bool ← orFail (fun _ => .api) (← ask (.stopJob key))
    if stopped then return () else fail .operationInProgress

/-- The folder goes, unless the files of instant snapshots are in it. -/
def removeFolder (v : SubVolume) : Driver Unit := do
  let keep ← hasInstantSnapshots v.name
  if keep then return ()
  else do
    let done : Bool ← orFail (fun _ => .api)
      (← ask (.job (rmKey ++ v.name) (.removeDir (subVolumeFolder v))))
    if done then return () else fail .operationInProgress

def deallocateBody (name : Name) : Driver Unit := do
  let v : SubVolume ← orFail (fun _ => .subVolumeNotFound) (← ask (.getSubVolume name))
  let pool : Pool ← orFail (fun _ => .api) (← ask (.getPool v.poolName))
  if !cfg.shareData then fail .shareDataNotSet
  else do
    stopDataCopy v
    removeFolder v
    orFail (fun _ => .api) (← ask (.deleteSubVolume name))
    let _r ← ask (.updatePoolStatus (updateShareDeallocation pool v.shareID v.requestedGB))
    return ()

def deallocate (name : Name) : Driver Unit :=
  locked (.volume name) (locked .mu (deallocateBody cfg name))

def expandBody (name : Name) (newSizeGB : ℕ) : Driver Unit := do
  let v : SubVolume ← orFail (fun _ => .subVolumeNotFound) (← ask (.getSubVolume name))
  let pool : Pool ← orFail (fun _ => .api) (← ask (.getPool v.poolName))
  if newSizeGB ≤ v.requestedGB then return ()
  else do
    let delta : ℤ := newSizeGB - v.requestedGB
    orFail id (checkShareRoom pool v.shareID delta)
    let _v : SubVolume ← orFail (fun _ => .api)
      (← ask (.updateSubVolume { v with requestedGB := newSizeGB }))
    let _r ← ask (.updatePoolStatus (chargeShare pool v.shareID delta))
    return ()

def expand (name : Name) (newSizeGB : ℕ) : Driver Unit := locked .mu (expandBody name newSizeGB)

/-- The share for a restored or cloned volume. A share that was made and is not ready yet
is not stored by these calls. -/
def shareForCopy (req : AllocationRequest) (pool : Pool)
    (selected : Except Err PoolShareStatus) : Driver (Pool × PoolShareStatus) := do
  match selected with
  | .ok share => return (pool, share)
  | .error .poolExhausted => do
    let made ← tryAutoExpand cfg pool req.requestedGB req.tier
    match made.2 with
    | .ok share => return (made.1, share)
    | .error e => fail e
  | .error e => fail e

/-- A share is picked for a restored volume and its record is made in phase Creating. -/
def reserveRestoreBody (snapshot : Name) (req : AllocationRequest) : Driver SubVolume := do
  let pool : Pool ← orFail (fun _ => .poolNotFound) (← ask (.getPool req.poolName))
  let picked ← shareForCopy cfg req pool
    (selectShare pool.spec.allocationStrategy pool.status.shares req.requestedGB req.tier)
  if !cfg.shareData then fail .shareDataNotSet
  else do
    let v := { newSubVolume req picked.1 picked.2 with
      restoreSnapshot := snapshot, phase := .creating }
    let v' ← storeVolume v
    recordVolume picked.1 v
    return v'

def reserveRestore (snapshot : Name) (req : AllocationRequest) : Driver SubVolume :=
  locked .mu (reserveRestoreBody cfg snapshot req)

/-- The record of a clone, not copied yet. -/
def newClone (req : AllocationRequest) (pool : Pool) (share : PoolShareStatus)
    (source : SubVolume) : SubVolume :=
  { newSubVolume req pool share with
    cloneSource := source.name, sourceVolume := source.name, sourceShareID := source.shareID
    phase := .cloning, cloneStatus := .pending }

def cloneBody (source : Option Name) (req : AllocationRequest) : Driver AllocationResult := do
  let existing : Except ApiErr SubVolume ← ask (.getSubVolume req.pvName)
  match existing with
  | .ok v =>
    if v.cloneStatus = .failed then fail .cloneFailed else return subVolumeAllocationResult v
  | .error _ =>
    match source with
    | none => fail .invalidVolumeID
    | some src => do
      let sv : SubVolume ← orFail (fun _ => .sourceNotFound) (← ask (.getSubVolume src))
      if sv.diskChain ≠ [] then fail .snapshotUnsupported
      else if req.requestedGB < sv.requestedGB then fail .cloneTooSmall
      else do
        let pool : Pool ← orFail (fun _ => .poolNotFound) (← ask (.getPool req.poolName))
        let picked ← shareForCopy cfg req pool (selectShareForClone pool.spec.allocationStrategy
          pool.status.shares req.requestedGB req.tier sv.shareID)
        let v := newClone req picked.1 picked.2 sv
        let v' ← storeVolume v
        recordVolume picked.1 v
        return { allocationResult picked.1 picked.2 v' with
          mountTargets := [], accessibleZones := [] }

def cloneVolume (source : Option Name) (req : AllocationRequest) : Driver AllocationResult :=
  match source with
  | none => locked .mu (cloneBody cfg none req)
  | some src => locked (.volume src) (locked .mu (cloneBody cfg (some src) req))

end FilePool.VolumeCalls
