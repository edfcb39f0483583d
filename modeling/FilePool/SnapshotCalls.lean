import FilePool.VolumeCalls

/-!
The calls that take, delete and restore snapshots. A snapshot's space is charged before
its record is made, and given back after the record is gone; both hold the Manager's lock
only for the bookkeeping. The copy of a snapshot or of a restore runs in a Job after the
call has returned.
-/
namespace FilePool.SnapshotCalls

open UndoNames PoolRecords PoolWorld Threads Proc ShareCreation InstantSnapshots VolumeCalls

variable (cfg : Config)

def snapKey : Name := ['s', 'n', 'a', 'p', '-']

def snapvmKey : Name := ['s', 'n', 'a', 'p', 'v', 'm', '-']

def rmsnapKey : Name := ['r', 'm', 's', 'n', 'a', 'p', '-']

def snapshotsFolder : Name :=
  pvcsFolder ++ ['.', 's', 'n', 'a', 'p', 's', 'h', 'o', 't', 's', '/'] ++ snapKey

/-- The charge of a snapshot, refused when the share has no room for it. -/
def bookShare (poolName shareID : Name) (sizeGB : ℕ) : Driver Unit := locked .mu do
  let pool : Pool ← orFail (fun _ => .poolNotFound) (← ask (.getPool poolName))
  orFail id (checkShareRoom pool shareID sizeGB)
  let _p : Pool ← orFail (fun _ => .api)
    (← ask (.updatePoolStatus (chargeShare pool shareID sizeGB)))
  return ()

/-- The charge is given back. A failure is only logged: the next recount corrects it. -/
def unbookShare (poolName shareID : Name) (sizeGB : ℕ) : Driver Unit := locked .mu do
  let pool : Except ApiErr Pool ← ask (.getPool poolName)
  match pool with
  | .error _ => return ()
  | .ok pool => do
    let _r ← ask (.updatePoolStatus (chargeShare pool shareID (-sizeGB)))
    return ()

/-- A VM that uses the source turns the snapshot over to QEMU, once the file copy has
stopped. Some when the caller must not go on with the file copy. -/
def switchToVMPath (s : Snapshot) : Driver (Option Snapshot) := do
  if !cfg.vmSnapshots || !cfg.shareData then return none
  else do
    let v : SubVolume ← orFail (fun _ => .api) (← ask (.getSubVolume s.sourceSubVolume))
    let pod : Option PodKind ← orFail (fun _ => .api) (← ask (.vmPod (claimOf v)))
    if pod.isNone then return none
    else do
      let stopped : Bool ← orFail (fun _ => .api) (← ask (.stopJob (snapKey ++ s.name)))
      if !stopped then return some s
      else do
        let s' : Snapshot ← orFail (fun _ => .api)
          (← ask (.updateSnapshot { s with method := .vm }))
        let s'' : Snapshot ← orFail (fun _ => .api) (← ask (.updateSnapshotStatus s'))
        return some s''

/-- The copy of the source folder is started or looked at. A copy that failed takes the
snapshot's record and charge with it. -/
def copySnapshotData (s : Snapshot) (pool : Pool) : Driver Snapshot := do
  if !cfg.shareData then fail .shareDataNotSet
  else do
    let handled ← switchToVMPath cfg s
    match handled with
    | some s' => return s'
    | none => do
      let share ← orFail id (poolShareMount pool s.shareID)
      let done : Except JobErr Bool ← ask (.job (snapKey ++ s.name)
        (.copyDir ⟨share, s.sourceSubPath⟩ ⟨share, s.snapshotPath⟩))
      match done with
      | .error .api => fail .api
      | .error .failed => do
        orFail (fun _ => .api) (← ask (.deleteSnapshot s.name))
        unbookShare pool.name s.shareID (snapshotChargeGB s)
        fail .shareJobFailed
      | .ok false => return s
      | .ok true => do
        let handled ← switchToVMPath cfg s
        match handled with
        | some s' => return s'
        | none => do
          orFail (fun _ => .api)
            (← ask (.updateSnapshotStatus { s with phase := .ready, readyToUse := true }))

/-- A snapshot that exists: its take or its copy goes on. -/
def continueSnapshot (s : Snapshot) : Driver Snapshot := do
  if s.phase = .failed then fail .snapshotFailed
  else if s.readyToUse then return s
  else match s.method with
    | .instant => do
      let v : SubVolume ← orFail (fun _ => .sourceNotFound)
        (← ask (.getSubVolume s.sourceSubVolume))
      takeInstant cfg s v
    | .vm => return s
    | .file => do
      let pool : Pool ← orFail (fun _ => .poolNotFound) (← ask (.getPool s.poolName))
      copySnapshotData cfg s pool

/-- How a new snapshot of the volume is taken. -/
def chooseMethod (v : SubVolume) : Driver SnapshotMethod := do
  let plan ← (if cfg.instantSnapshots then planInstant v else return none)
  if plan.isSome then return .instant
  else if v.diskChain ≠ [] then fail .snapshotUnsupported
  else if !cfg.vmSnapshots then return .file
  else do
    let pod : Option PodKind ← orFail (fun _ => .api) (← ask (.vmPod (claimOf v)))
    match pod with
    | none => return .file
    | some .hotplugDisk => fail .snapshotUnsupported
    | some (.launcher _) => return .vm

def newSnapshot (name : Name) (v : SubVolume) (method : SnapshotMethod) : Snapshot :=
  { name := name, version := 0, method := method, deleting := false, sourceSubVolume := v.name
    poolName := v.poolName, shareID := v.shareID, shareMountTargetIP := v.shareMountTargetIP
    snapshotPath := snapshotsFolder ++ name, sourceSubPath := v.subPath, sizeGB := v.requestedGB
    phase := .creating, readyToUse := false, chainFile := [], mergeChild := [] }

/-- The record is created, then its status is written; a status write that fails is only
logged. -/
def createRecord (s : Snapshot) : Driver Snapshot := do
  let made : Except ApiErr Snapshot ← ask (.createSnapshot s)
  match made with
  | .error _ => do
    unbookShare s.poolName s.shareID (snapshotChargeGB s)
    fail .api
  | .ok made => do
    let full := { s with version := made.version }
    let stored : Except ApiErr Snapshot ← ask (.updateSnapshotStatus full)
    match stored with
    | .ok s' => return { full with version := s'.version }
    | .error _ => return full

def createSnapshotBody (name source : Name) (validParams : Bool) : Driver Snapshot := do
  let existing : Except ApiErr Snapshot ← ask (.getSnapshot name)
  match existing with
  | .ok s => continueSnapshot cfg s
  | .error _ =>
    if !validParams then fail .invalidParameter
    else do
      let v : SubVolume ← orFail (fun _ => .sourceNotFound) (← ask (.getSubVolume source))
      let pool : Pool ← orFail (fun _ => .poolNotFound) (← ask (.getPool v.poolName))
      let method ← chooseMethod cfg v
      if !cfg.shareData then fail .shareDataNotSet
      else do
        let s := newSnapshot name v method
        bookShare s.poolName s.shareID (snapshotChargeGB s)
        let s' ← createRecord s
        match method with
        | .instant => takeInstant cfg s' v
        | .file => copySnapshotData cfg s' pool
        | .vm => return s'

def createSnapshot (name : Name) (source : Option Name) (validParams : Bool) : Driver Snapshot :=
  match source with
  | none => fail .invalidVolumeID
  | some src => locked (.volume src) (createSnapshotBody cfg name src validParams)

/-- The copy loop leaves a snapshot that is marked alone. -/
def cancelVMSnapshotForDelete (s : Snapshot) : Driver Unit := do
  if !cfg.vmSnapshots then return ()
  else do
    let fresh : Snapshot ← orFail (fun _ => .api) (← ask (.getSnapshot s.name))
    if fresh.deleting then return ()
    else do
      let _s : Snapshot ← orFail (fun _ => .api)
        (← ask (.updateSnapshot { fresh with deleting := true }))
      return ()

def stopCopies : List Name → Driver Unit
  | [] => return ()
  | key :: keys => do
    let stopped : Bool ← orFail (fun _ => .api) (← ask (.stopJob key))
    if stopped then stopCopies keys else fail .operationInProgress

/-- The folder of a copied snapshot goes, then its record, then its charge. -/
def deleteCopied (s : Snapshot) : Driver Unit := do
  cancelVMSnapshotForDelete cfg s
  if !cfg.shareData then fail .shareDataNotSet
  else do
    let pool : Pool ← orFail (fun _ => .poolNotFound) (← ask (.getPool s.poolName))
    let share ← orFail id (poolShareMount pool s.shareID)
    stopCopies [snapKey ++ s.name, snapvmKey ++ s.name]
    let done : Bool ← orFail (fun _ => .api)
      (← ask (.job (rmsnapKey ++ s.name) (.removeDir ⟨share, s.snapshotPath⟩)))
    if !done then fail .operationInProgress
    else do
      orFail (fun _ => .api) (← ask (.deleteSnapshot s.name))
      unbookShare s.poolName s.shareID (snapshotChargeGB s)

def deleteInstantSnapshot (s : Snapshot) : Driver Unit := do
  if !cfg.instantSnapshots then fail .instantNotSet
  else if !cfg.shareData then fail .shareDataNotSet
  else do
    let pool : Pool ← orFail (fun _ => .poolNotFound) (← ask (.getPool s.poolName))
    deleteInstant cfg s pool
    orFail (fun _ => .api) (← ask (.deleteSnapshot s.name))
    unbookShare pool.name s.shareID (snapshotChargeGB s)

def deleteSnapshotBody (name : Name) : Driver Unit := do
  let s : Snapshot ← orFail (fun _ => .snapshotNotFound) (← ask (.getSnapshot name))
  let pool : Except ApiErr Pool ← ask (.getPool s.poolName)
  match pool with
  | .error .notFound => do
    -- only the record is left of a snapshot whose pool is gone
    orFail (fun _ => .api) (← ask (.deleteSnapshot name))
  | _ => match s.method with
    | .instant => deleteInstantSnapshot cfg s
    | _ => deleteCopied cfg s

/-- The record is read to know its volume, and again under the volume's lock. -/
def deleteSnapshot (name : Name) : Driver Unit := do
  let s : Snapshot ← orFail (fun _ => .snapshotNotFound) (← ask (.getSnapshot name))
  locked (.volume s.sourceSubVolume) (deleteSnapshotBody cfg name)

/-- The copy of a snapshot into a restored volume is started or looked at; when it is
done, the volume is bound. -/
def copyRestoreData (v : SubVolume) (s : Snapshot) : Driver SubVolume := do
  if !cfg.shareData then fail .shareDataNotSet
  else do
    let pool : Pool ← orFail (fun _ => .poolNotFound) (← ask (.getPool s.poolName))
    let src ← orFail id (poolShareMount pool s.shareID)
    let done : Bool ← (match s.method with
      | .instant => restoreInstant cfg v s src
      | _ => do
        orFail (fun _ => .api) (← ask (.job (restoreKey ++ v.name)
          (.copyDir ⟨src, s.snapshotPath⟩ (subVolumeFolder v)))))
    if !done then fail .operationInProgress
    else orFail (fun _ => .api) (← ask (.updateSubVolumeStatus { v with phase := .bound }))

def copyRestoreLocked (v : SubVolume) (s : Snapshot) : Driver SubVolume :=
  locked (.volume s.sourceSubVolume) (copyRestoreData cfg v s)

def restoreBody (snapshot : Name) (req : AllocationRequest) : Driver AllocationResult := do
  let existing : Except ApiErr SubVolume ← ask (.getSubVolume req.pvName)
  match existing with
  | .ok v =>
    if v.phase = .bound || v.restoreSnapshot = [] then return subVolumeAllocationResult v
    else do
      let s : Snapshot ← orFail (fun _ => .snapshotNotFound)
        (← ask (.getSnapshot v.restoreSnapshot))
      let v' ← copyRestoreLocked cfg v s
      return subVolumeAllocationResult v'
  | .error _ => do
    let s : Snapshot ← orFail (fun _ => .snapshotNotFound) (← ask (.getSnapshot snapshot))
    if !s.readyToUse then fail .snapshotNotReady
    else if req.requestedGB < s.sizeGB then fail .restoreTooSmall
    else do
      let v ← reserveRestore cfg snapshot req
      let v' ← copyRestoreLocked cfg v s
      return subVolumeAllocationResult v'

def restoreSnapshot (snapshot : Name) (req : AllocationRequest) : Driver AllocationResult :=
  locked (.volume req.pvName) (restoreBody cfg snapshot req)

/-- The questions of the bookkeeping. -/
def BookQuestion : Query → Prop
  | .lock _ | .unlock _ | .getPool _ | .updatePoolStatus _ => True
  | _ => False

theorem asks_unbookShare {poolName shareID : Name} {sizeGB : ℕ} :
    (unbookShare poolName shareID sizeGB).Asks BookQuestion := by
  refine asks_ask trivial (fun _ => asks_bind (asks_attempt (asks_ask trivial fun p => ?_))
    (fun r => asks_ask trivial fun _ => ?_))
  · cases p with
    | error e => exact asks_pure
    | ok p => exact asks_ask trivial fun _ => asks_pure
  · cases r with
    | ok a => exact asks_pure
    | error e => exact asks_fail

theorem asks_stopCopies {S : Query → Prop} (h : ∀ key, S (.stopJob key)) {keys : List Name} :
    (stopCopies keys).Asks S := by
  induction keys with
  | nil => exact asks_pure
  | cons key keys ih =>
    refine asks_call (h key) (fun stopped => ?_)
    split
    · exact ih
    · exact asks_fail

end FilePool.SnapshotCalls
