import FilePool.PoolRecords
import FilePool.Threads
import FilePool.VersionedStore

/-!
What the driver works on: the records in the cluster, the shares of the VPC, the Jobs
that change folders on the shares, the folders, and the VMs that use them. The calls of
the driver are programs of questions to this world. A question can be refused. Between
two questions other calls go on, Jobs run, VMs start and stop, and people edit pools.
-/
namespace FilePool.PoolWorld

open UndoNames PoolRecords VersionedStore

inductive ApiErr
  | notFound
  | alreadyExists
  | conflict
  | other
  deriving DecidableEq, Repr

/-- The NFS export of one share. -/
structure ShareMount where
  mountTargetIP : Name
  exportPath : Name
  deriving DecidableEq, Repr

structure Folder where
  share : ShareMount
  path : Name
  deriving DecidableEq, Repr

/-- The files of a folder, each with what it holds. -/
abbrev Content := ℕ → Option ℕ

/-- What a share data Job was made for. -/
inductive Work
  | removeDir (folder : Folder)
  | copyDir (src dst : Folder)
  | takeChain (folder : Folder) (newFile : Name)
  | mergeChain (folder : Folder) (file child : Name)
  | convert (src : Folder) (file : Name) (dst : Folder)
  | restoreBackup (restore : Name) (dst : Folder)
  deriving DecidableEq, Repr

/-- A Job that is stopping can still do a part of its work. -/
inductive JobState
  | running
  | stopping
  | succeeded
  | failed
  deriving DecidableEq, Repr

/-- A Job with what it has copied so far. -/
structure Job where
  work : Work
  state : JobState
  copied : ℕ → Option (Option ℕ)

inductive Lifecycle
  | pending
  | stable
  | failed
  | degraded
  | updating
  deriving DecidableEq, Repr

structure MountTargetInfo where
  id : Name
  name : Name
  ipAddress : Name
  exportPath : Name
  deriving DecidableEq, Repr

/-- A file share of the VPC. -/
structure ShareInfo where
  id : Name
  name : Name
  zone : Name
  resourceGroupID : Name
  tags : List Name
  sizeGB : ℤ
  lifecycleState : Lifecycle
  mountTargets : List MountTargetInfo
  deriving DecidableEq, Repr

structure CreateShareInput where
  name : Name
  zone : Name
  sizeGB : ℤ
  resourceGroupID : Name
  tags : List Name
  claimedShareIDs : List Name
  deriving DecidableEq, Repr

structure Claim where
  namespace_ : Name
  name : Name
  deriving DecidableEq, Repr

/-- A KubeVirt pod that mounts a claim: the pod of a VM, with or without an owner, or
the pod of a hot-plugged disk. -/
inductive PodKind
  | launcher (owned : Bool)
  | hotplugDisk
  deriving DecidableEq, Repr

inductive RestorePhase
  | unset
  | pending
  | provisioning
  | restoring
  | done
  | failed
  deriving DecidableEq, Repr

/-- A restore from a backup into a new claim. -/
structure BackupRestore where
  name : Name
  version : ℕ
  target : Claim
  phase : RestorePhase
  deriving DecidableEq, Repr

/-- A claim in the cluster: the volume it is bound to and the restore that made it. -/
structure BoundClaim where
  claim : Claim
  uid : Name
  volumeName : Name
  restore : Name
  deriving DecidableEq, Repr

inductive Lock
  | mu
  | volume (name : Name)
  | worker
  | cloning (name : Name)
  | backup
  deriving DecidableEq, Repr

structure AllocationRequest where
  pvName : Name
  pvcName : Name
  pvcNamespace : Name
  poolName : Name
  requestedGB : ℕ
  zone : Name
  tier : Name
  uid : Option ℤ
  gid : Option ℤ
  permissions : Name
  restorePending : Bool
  deriving DecidableEq, Repr

/-- The calls of the driver. A source volume whose ID cannot be read is none. -/
inductive Call
  | allocate (req : AllocationRequest)
  | deallocate (name : Name)
  | expand (name : Name) (newSizeGB : ℕ)
  | cloneVolume (source : Option Name) (req : AllocationRequest)
  | restoreSnapshot (snapshot : Name) (req : AllocationRequest)
  | createSnapshot (snapshot : Name) (source : Option Name) (validParams : Bool)
  | deleteSnapshot (snapshot : Name)
  | reconcile (pool : Name)
  | processClone (name : Name)
  | publish (volumeID name : Name) (parsed : Bool)
  | reconcileRestore (restore : Name)
  | openFinishedRestores
  deriving DecidableEq, Repr

/-- The state of the cluster and of the cloud. The shares that were ever made are kept
with their names, since an ID is never used again. -/
structure World where
  rev : ℕ
  pools : List Pool
  subVolumes : List SubVolume
  snapshots : List Snapshot
  restores : List BackupRestore
  claims : List BoundClaim
  shares : List ShareInfo
  issued : List (Name × Name)
  jobs : Name → Option Job
  folders : Folder → Option Content
  pods : Claim → Option PodKind
  instances : Claim → Bool
  machines : Claim → Bool
  moving : Claim → Bool
  sidecarGate : Bool
  mounted : List Name
  locks : Lock → Option ℕ
  calls : ℕ → Option Call

def poolKind : Kind Pool Name where
  name := Pool.name
  version := Pool.version
  stamp p n := { p with version := n }
  name_stamp _ _ := rfl
  version_stamp _ _ := rfl

def subVolumeKind : Kind SubVolume Name where
  name := SubVolume.name
  version := SubVolume.version
  stamp v n := { v with version := n }
  name_stamp _ _ := rfl
  version_stamp _ _ := rfl

def snapshotKind : Kind Snapshot Name where
  name := Snapshot.name
  version := Snapshot.version
  stamp s n := { s with version := n }
  name_stamp _ _ := rfl
  version_stamp _ _ := rfl

def restoreKind : Kind BackupRestore Name where
  name := BackupRestore.name
  version := BackupRestore.version
  stamp r n := { r with version := n }
  name_stamp _ _ := rfl
  version_stamp _ _ := rfl

/-- A status write changes only the status. -/
def withStatus (stored copy : Pool) : Pool := { stored with status := copy.status }

def withMetadata (stored copy : Pool) : Pool := { stored with finalizer := copy.finalizer }

def withVolumeStatus (stored copy : SubVolume) : SubVolume :=
  { stored with
    phase := copy.phase
    cloneStatus := copy.cloneStatus
    diskChain := copy.diskChain
    chainOperation := copy.chainOperation }

def withVolumeSpec (stored copy : SubVolume) : SubVolume :=
  { stored with requestedGB := copy.requestedGB }

def withSnapshotStatus (stored copy : Snapshot) : Snapshot :=
  { stored with
    phase := copy.phase
    readyToUse := copy.readyToUse
    chainFile := copy.chainFile
    mergeChild := copy.mergeChild }

def withAnnotations (stored copy : Snapshot) : Snapshot :=
  { stored with method := copy.method, deleting := copy.deleting }

def withRestoreStatus (stored copy : BackupRestore) : BackupRestore :=
  { stored with phase := copy.phase }

/-- A new record has no status yet. -/
def noVolumeStatus (v : SubVolume) : SubVolume :=
  { v with phase := .unset, cloneStatus := .unset, diskChain := [], chainOperation := [] }

def noSnapshotStatus (s : Snapshot) : Snapshot :=
  { s with phase := .unset, readyToUse := false, chainFile := [], mergeChild := [] }

def refusalErr : Refusal → ApiErr
  | .missing => .notFound
  | .exists => .alreadyExists
  | .stale => .conflict

inductive VpcErr
  | alreadyExists
  | notFound
  | other
  deriving DecidableEq, Repr

inductive JobErr
  | failed
  | api
  deriving DecidableEq, Repr

inductive TakeErr
  | chainFull
  | notOwned
  | other
  deriving DecidableEq, Repr

inductive MergeErr
  | running
  | other
  deriving DecidableEq, Repr

/-- The questions that the driver asks. -/
inductive Query
  | lock (l : Lock)
  | unlock (l : Lock)
  | getPool (name : Name)
  | listPools
  | updatePoolStatus (p : Pool)
  | updatePool (p : Pool)
  | getSubVolume (name : Name)
  | listSubVolumes (pool : Name)
  | listSubVolumesByShare (shareID : Name)
  | createSubVolume (v : SubVolume)
  | updateSubVolume (v : SubVolume)
  | updateSubVolumeStatus (v : SubVolume)
  | deleteSubVolume (name : Name)
  | patchRestorePending (name : Name) (pending : Bool)
  | listRestorePending
  | getSnapshot (name : Name)
  | listSnapshots (pool : Name)
  | listSnapshotsByShare (shareID : Name)
  | listSnapshotsBySource (volume : Name)
  | createSnapshot (s : Snapshot)
  | updateSnapshot (s : Snapshot)
  | updateSnapshotStatus (s : Snapshot)
  | deleteSnapshot (name : Name)
  | getRestore (name : Name)
  | updateRestoreStatus (r : BackupRestore)
  | getClaim (c : Claim)
  | createClaim (c : Claim) (restore : Name)
  | backupSource (restore : Name)
  | hasOpenRestore (c : Claim)
  | network (zone : Name)
  | createShare (input : CreateShareInput)
  | sharesByName (name : Name)
  | awaitShare (id : Name)
  | getShare (id : Name)
  | deleteShare (id : Name)
  | createMountTarget (id : Name)
  | createDirectory (path : Name)
  | job (key : Name) (work : Work)
  | stopJob (key : Name)
  | vmPod (c : Claim)
  | vmInstance (c : Claim)
  | vmForClaim (c : Claim)
  | vmMoving (c : Claim)
  | sidecarGate
  | ensureHook
  | takeInVM (folder : Folder) (newFile : Name)
  | mergeInVM (folder : Folder) (file child : Name)
  | setDiskTop (c : Claim) (top : Name)
  | mount (volume : Name)

def Answer : Query → Type
  | .lock _ | .unlock _ | .setDiskTop _ _ => Unit
  | .getPool _ => Except ApiErr Pool
  | .listPools => Except ApiErr (List Pool)
  | .updatePoolStatus _ | .updatePool _ => Except ApiErr Pool
  | .getSubVolume _ => Except ApiErr SubVolume
  | .listSubVolumes _ | .listSubVolumesByShare _ | .listRestorePending =>
    Except ApiErr (List SubVolume)
  | .createSubVolume _ | .updateSubVolume _ | .updateSubVolumeStatus _ => Except ApiErr SubVolume
  | .deleteSubVolume _ | .patchRestorePending _ _ | .deleteSnapshot _ => Except ApiErr Unit
  | .getSnapshot _ => Except ApiErr Snapshot
  | .listSnapshots _ | .listSnapshotsByShare _ | .listSnapshotsBySource _ =>
    Except ApiErr (List Snapshot)
  | .createSnapshot _ | .updateSnapshot _ | .updateSnapshotStatus _ => Except ApiErr Snapshot
  | .getRestore _ | .updateRestoreStatus _ => Except ApiErr BackupRestore
  | .getClaim _ => Except ApiErr BoundClaim
  | .network _ | .deleteShare _ => Except VpcErr Unit
  | .createShare _ => Except VpcErr Name
  | .sharesByName _ => Except VpcErr (List ShareInfo)
  | .awaitShare _ | .getShare _ => Except VpcErr ShareInfo
  | .createMountTarget _ => Except VpcErr MountTargetInfo
  | .createDirectory _ | .ensureHook | .createClaim _ _ | .backupSource _ => Except ApiErr Unit
  | .job _ _ => Except JobErr Bool
  | .stopJob _ => Except ApiErr Bool
  | .vmPod _ => Except ApiErr (Option PodKind)
  | .vmInstance _ | .vmForClaim _ | .vmMoving _ | .sidecarGate | .hasOpenRestore _ =>
    Except ApiErr Bool
  | .takeInVM _ _ => Except TakeErr (List Name × Name)
  | .mergeInVM _ _ _ => Except MergeErr (List Name)
  | .mount _ => Except ApiErr Unit

abbrev Driver (α : Type) := Threads.Proc Query Answer Err α

def ask (q : Query) : Driver (Answer q) := Threads.Proc.query q

end FilePool.PoolWorld
