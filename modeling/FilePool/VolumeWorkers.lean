import FilePool.SnapshotCalls

/-!
The work that goes on beside the Manager's calls: the clone worker, which copies the
source of a clone with a Job, the restores from a backup, which fill a new volume, and the
node's publish call, which looks whether a volume may be mounted yet.
-/
namespace FilePool.VolumeWorkers

open UndoNames PoolRecords PoolWorld Threads Proc InstantSnapshots

def cloneCopyKey (name : Name) : Name := ['c', 'l', 'o', 'n', 'e', '-'] ++ name

/-- A failed clone; a save that does not work is only logged. -/
def failClone (v : SubVolume) : Driver Unit := do
  let _r ← ask (.updateSubVolumeStatus { v with cloneStatus := .failed, phase := .failed })
  return ()

/-- A pending clone is marked as in progress before its copy starts. -/
def startClone (v : SubVolume) : Driver SubVolume := do
  if v.cloneStatus = .pending then
    orFail (fun _ => .api)
      (← ask (.updateSubVolumeStatus { v with cloneStatus := .inProgress, phase := .cloning }))
  else return v

/-- One look of the worker at a clone. -/
def processClone (name : Name) : Driver Unit := do
  let v : SubVolume ← orFail (fun _ => .api) (← ask (.getSubVolume name))
  if v.cloneStatus ≠ .pending && v.cloneStatus ≠ .inProgress then return ()
  else do
    let v ← startClone v
    let source : Except ApiErr SubVolume ← ask (.getSubVolume v.sourceVolume)
    match source with
    | .error _ => failClone v
    | .ok source => do
      let done : Except JobErr Bool ← ask (.job (cloneCopyKey v.name)
        (.copyDir (subVolumeFolder source) (subVolumeFolder v)))
      match done with
      | .error .failed => failClone v
      | .error .api => return ()
      | .ok false => return ()
      | .ok true => do
        let _r ← ask (.updateSubVolumeStatus { v with cloneStatus := .complete, phase := .bound })
        return ()

/-- The volume may be mounted, as far as its record tells. -/
def mountAllowed (v : SubVolume) : Bool :=
  !v.restorePending && (v.cloneSource = [] || v.cloneStatus = .complete)

/-- A record that cannot be read does not hold the mount back; nor does a volume ID that
cannot be parsed. -/
def publish (volumeID name : Name) (parsed : Bool) : Driver Unit := do
  let mountIt : Driver Unit := do
    orFail (fun _ => .api) (← ask (.mount volumeID))
  if !parsed then mountIt
  else do
    let v : Except ApiErr SubVolume ← ask (.getSubVolume name)
    match v with
    | .error _ => mountIt
    | .ok v => if mountAllowed v then mountIt else fail .operationInProgress

/-- The phase of a restore is saved when it changes. -/
def saveRestoreStatus (r : BackupRestore) (phase : RestorePhase) : Driver Unit := do
  if r.phase = phase then return ()
  else do
    let _r : BackupRestore ← orFail (fun _ => .api)
      (← ask (.updateRestoreStatus { r with phase := phase }))
    return ()

/-- As above, for a save that may fail without notice. -/
def setRestoreStatus (r : BackupRestore) (phase : RestorePhase) : Driver Unit := do
  let _r ← (saveRestoreStatus r phase).attempt
  return ()

/-- The new claim of a restore, made when it is not there. A claim that someone else made
is never used. -/
def ensureRestoreTarget (r : BackupRestore) : Driver (Except RestorePhase BoundClaim) := do
  let c : Except ApiErr BoundClaim ← ask (.getClaim r.target)
  match c with
  | .ok b => return if b.restore = r.name then .ok b else .error .failed
  | .error .notFound => do
    let made : Except ApiErr Unit ← ask (.createClaim r.target r.name)
    match made with
    | .error _ => return .error .pending
    | .ok _ => do
      let again : Except ApiErr BoundClaim ← ask (.getClaim r.target)
      match again with
      | .ok b => return .ok b
      | .error _ => return .error .pending
  | .error _ => return .error .pending

/-- The label that holds pods back; a patch that fails is only logged. -/
def setSubVolumeRestoreLabel (name : Name) (pending : Bool) : Driver Unit := do
  let _r ← ask (.patchRestorePending name pending)
  return ()

/-- The copy of the backup into the volume. Done is saved before the volume opens. -/
def fillVolume (r : BackupRestore) (v : SubVolume) : Driver Unit := do
  if !v.restorePending then setSubVolumeRestoreLabel v.name true
  let done : Except JobErr Bool ← ask (.job (restoreKey ++ r.name)
    (.restoreBackup r.name (subVolumeFolder v)))
  match done with
  | .error .failed => setRestoreStatus r .failed
  | .error .api => setRestoreStatus r .restoring
  | .ok false => setRestoreStatus r .restoring
  | .ok true => do
    saveRestoreStatus r .done
    setSubVolumeRestoreLabel v.name false

/-- One look at a restore that has not ended. -/
def reconcileRestore (name : Name) : Driver Unit := do
  let r : BackupRestore ← orFail (fun _ => .api) (← ask (.getRestore name))
  if r.phase = .done || r.phase = .failed then return ()
  else do
    let source : Except ApiErr Unit ← ask (.backupSource name)
    match source with
    | .error .notFound => setRestoreStatus r .failed
    | .error _ => setRestoreStatus r .pending
    | .ok _ => do
      let target ← ensureRestoreTarget r
      match target with
      | .error phase => setRestoreStatus r phase
      | .ok b =>
        if b.volumeName = [] then setRestoreStatus r .provisioning
        else do
          let v : Except ApiErr SubVolume ← ask (.getSubVolume b.volumeName)
          match v with
          | .error _ => setRestoreStatus r .provisioning
          | .ok v => fillVolume r v

/-- A volume that is held back opens when the restore that made its claim is done. -/
def openFinished (v : SubVolume) : Driver Unit := do
  let c : Except ApiErr BoundClaim ← ask (.getClaim (claimOf v))
  match c with
  | .error _ => return ()
  | .ok b =>
    if b.restore = [] then return ()
    else do
      let r : Except ApiErr BackupRestore ← ask (.getRestore b.restore)
      match r with
      | .ok r => if r.phase = .done then setSubVolumeRestoreLabel v.name false else return ()
      | .error _ => return ()

def openEach : List SubVolume → Driver Unit
  | [] => return ()
  | v :: rest => do
    openFinished v
    openEach rest

def openFinishedRestores : Driver Unit := do
  let vs : List SubVolume ← orFail (fun _ => .api) (← ask .listRestorePending)
  openEach vs

end FilePool.VolumeWorkers
