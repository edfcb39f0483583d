import FilePool.VMCopier

/-!
How the controller moves the copies of running VMs' disks forward. A pass groups the
volumes of a policy: those of one unfinished copy, and those of one VM's pod for a new
copy. A copy is first made by QEMU; then a Job of each disk takes the staged copy to the
far site. The status keeps the copy between passes.
-/
namespace FilePool.VMCopyPass

open UndoFormat UndoNames DurableSteps ReplicationNames ReplicationStatus ReplicationWorld
  ReplicationCalls VMCopier GroupedLists

structure Policy where
  name : Name
  receiver : Bool
  dest : Name
  interval : Option ℤ
  maxParallel : ℤ
  maxRetries : ℤ
  preHooks : Bool
  deriving DecidableEq, Repr

def noStatus : SubVolumeStatus := ⟨[], none, .none, none, .unset, [], [], [], none⟩

/-- The status of a volume in a list of statuses, as the map made from the list has it. -/
def prevOf (sts : List SubVolumeStatus) (name : Name) : SubVolumeStatus :=
  (sts.reverse.find? (fun s => s.subVolumeName = name)).getD noStatus

/-- A volume's status with the last good copy kept and the given error set. -/
def vmStatus (prev : List SubVolumeStatus) (name : Name) (note : SyncNote) : SubVolumeStatus :=
  { prevOf prev name with subVolumeName := name, lastError := note, vmCopy := none }

/-- What was done for some volumes: their statuses and the volumes whose copy has reached
the far site. -/
structure VMCopyResult where
  statuses : List SubVolumeStatus
  sent : List Name
  deriving DecidableEq, Repr

def VMCopyResult.add (a b : VMCopyResult) : VMCopyResult :=
  ⟨a.statuses ++ b.statuses, a.sent ++ b.sent⟩

variable (policy : Policy)

def getJob (name : Name) : WorldProg (Option Job) := query (fun w => .ok (w.jobs name))

inductive JobCheck
  | unfinished
  | succeeded (result : JobResult)
  | failed
  deriving DecidableEq, Repr

/-- The first message among the pods of the volume's Jobs that tells something. Pods that
cannot be listed give an empty result. -/
def readJobResult (job : Job) : WorldProg JobResult := do
  let found ← (query (fun w => .ok (w.reports job.policy job.volume))).attempt
  match found with
  | .error _ => return .empty
  | .ok rs =>
    return (rs.find? (fun r => 0 < r.bytesWritten || 0 < r.restorePoints || r.wrongBase)).getD
      .empty

def checkReplicationJob (volume : Name) : WorldProg JobCheck := do
  let found ← getJob (replJobName policy.name volume)
  match found with
  | none => return .unfinished
  | some job =>
    match job.state with
    | .running => return .unfinished
    | .failed => return .failed
    | .succeeded => do
      let r ← readJobResult job
      return .succeeded r

/-- Make a Job, if there is none of its name. -/
def ensureJob (job : Job) : WorldProg Unit := do
  let found ← (getJob job.name).attempt
  match found with
  | .ok (some _) => return ()
  | _ => do
    let made ← (request (.createJob job)).attempt
    match made with
    | .ok _ => return ()
    | .error .alreadyExists => return ()
    | .error e => Prog.fail e

/-- The Job of a staged copy. It holds the whole disk unless it is a change copy and the
destination disk has a known moment. -/
def vmJob (volume : Name) (st : VMCopyState) (start : Option Moment) : Job where
  name := replJobName policy.name volume
  policy := policy.name
  volume := volume
  dest := policy.dest
  spec := .vm policy.receiver st.id st.stagingFile st.moment start
    (!st.incremental || start.isNone)
  state := .running

/-- The volumes of a Job are made first. -/
def createVMApplyResources (volume : Name) (st : VMCopyState) (start : Option Moment) :
    WorldProg Unit := do
  ask
  ensureJob (vmJob policy volume st start)

/-- Errors are only logged. -/
def cleanupReplicationResources (volume : Name) : WorldProg Unit := do
  let _ ← (request (.deleteJob (replJobName policy.name volume))).attempt
  return ()

/-- A pod that runs or starts and mounts the volume, with the pod's name for it. A VM's
own pod is preferred. -/
def findVMPodForClaim (pods : List Pod) (claim : Name) : Option (Pod × Name) :=
  let uses := pods.filterMap (fun p =>
    if p.ended then none
    else (p.disks.find? (fun d => d.claim = claim)).map (fun d => (p, d.volume)))
  match uses.find? (fun x => x.1.launcher) with
  | some x => some x
  | none => uses.getLast?

def vmPodForClaim (claim : Name) : WorldProg (Option (Pod × Name)) :=
  query (fun w => .ok (findVMPodForClaim w.pods claim))

def vmMoving (vmi : Name) : WorldProg Bool := query (fun w => .ok (w.moving vmi))

def getPod (name : Name) : WorldProg (Option Pod) := query (fun w => .ok (w.podNamed name))

def sameVMPod (st : VMCopyState) : WorldProg Bool := do
  let found ← (getPod st.podName).attempt
  match found with
  | .ok (some p) => return p.uid = st.podUID
  | _ => return false

def digitOf (d : ℕ) : Char :=
  if d < 10 then Char.ofNat ('0'.toNat + d) else Char.ofNat ('a'.toNat + (d - 10))

def base36 : ℕ → ℕ → Name
  | 0, _ => []
  | k + 1, n => if n < 36 then [digitOf n] else base36 k (n / 36) ++ [digitOf (n % 36)]

/-- The time in base 36, as strconv.FormatInt writes it. A time has at most 13 digits. -/
def copyID (t : Moment) : Name :=
  if t < 0 then '-' :: base36 13 t.natAbs else base36 13 t.natAbs

/-- The change list of the last good copy, if all disks share it. -/
def sharedBase (prev : List SubVolumeStatus) (members : List (Name × Name)) : Name :=
  match members with
  | [] => []
  | m :: ms =>
    let base := (prevOf prev m.1).vmChangeList
    if ms.all (fun x => (prevOf prev x.1).vmChangeList = base) then base else []

/-- There is no copy now, for the reason given. -/
def endAll (prev : List SubVolumeStatus) (names : List Name) (note : SyncNote) : VMCopyResult :=
  ⟨names.map (fun n => vmStatus prev n note), []⟩

def startedStatus (prev : List SubVolumeStatus) (pod : Pod) (cp : Copy) (i : ℕ)
    (m : Name × Name) : SubVolumeStatus :=
  { vmStatus prev m.1 .none with
    vmCopy := some {
      id := cp.id
      phase := .copying
      podName := pod.name
      podUID := pod.uid
      vmiName := pod.vmi
      volume := m.2
      diskIndex := i
      stagingFile := stagingName cp.id
      moment := cp.moment
      fileSystemConsistent := cp.fileSystemConsistent
      bitmap := cp.bitmap
      base := cp.base
      incremental := cp.incremental } }

/-- A full copy is made if QEMU has lost the change list. -/
def startOrFull (pod : Name) (volumes : List Name) (id base : Name) : WorldProg Copy := do
  let begun ← (start pod volumes id base).attempt
  match begun with
  | .ok cp => return cp
  | .error .baseLost => start pod volumes id []
  | .error e => Prog.fail e

def launchCopy (prev : List SubVolumeStatus) (pod : Pod) (members : List (Name × Name)) :
    WorldProg VMCopyResult := do
  let base := sharedBase prev members
  let cleared ← (removeStale pod.name (members.map Prod.snd) base).attempt
  match cleared with
  | .error .busy => return endAll prev (members.map Prod.fst) .vmBusy
  | .error _ => return endAll prev (members.map Prod.fst) .clearEarlierCopy
  | .ok _ => do
    let t ← now
    let begun ← (startOrFull pod.name (members.map Prod.snd) (copyID t) base).attempt
    match begun with
    | .error _ => return endAll prev (members.map Prod.fst) .startCopy
    | .ok cp =>
      return ⟨members.zipIdx.map (fun x => startedStatus prev pod cp x.2 x.1), []⟩

/-- Start a copy of a VM's disks. The members come with their volume names in the pod and
are sorted, so a disk has the same place every time. -/
def startVMCopy (prev : List SubVolumeStatus) (pod : Pod) (found : List (Name × Name)) :
    WorldProg VMCopyResult := do
  let members := found.insertionSort (fun a b => a.1 ≤ b.1)
  if pod.vmi = [] then return endAll prev (members.map Prod.fst) .noOwner
  else do
    let moving ← (vmMoving pod.vmi).attempt
    match moving with
    | .error _ => return endAll prev (members.map Prod.fst) .checkMove
    | .ok true => return endAll prev (members.map Prod.fst) .vmMoving
    | .ok false => launchCopy prev pod members

/-- The members of a copy in the order of their disks. -/
def byDiskIndex (members : List (Name × VMCopyState)) : List (Name × VMCopyState) :=
  members.insertionSort (fun a b => a.2.diskIndex ≤ b.2.diskIndex)

/-- The copy as the status of its first member has it, with the disks of all members. -/
def copyOf (st : VMCopyState) (members : List (Name × VMCopyState)) : Copy :=
  ⟨st.id, st.bitmap, st.base, st.incremental, st.moment, st.fileSystemConsistent,
    (byDiskIndex members).map (fun m => ⟨m.2.volume, m.2.stagingFile⟩)⟩

/-- The copy goes on. -/
def keepAll (prev : List SubVolumeStatus) (members : List (Name × VMCopyState))
    (note : SyncNote) : VMCopyResult :=
  ⟨members.map (fun m => { prevOf prev m.1 with lastError := note, vmCopy := some m.2 }), []⟩

variable (prev : List SubVolumeStatus) (members : List (Name × VMCopyState))

/-- Make the Jobs of a copy that QEMU has finished, one after another. -/
def createAllApply : WorldProg Unit :=
  forEach (fun _ m =>
    createVMApplyResources policy m.1 m.2 (prevOf prev m.1).copyMoment) 0 members

def cleanupAll (names : List Name) : WorldProg Unit :=
  forEach (fun _ n => cleanupReplicationResources policy n) 0 names

def sendAll : WorldProg VMCopyResult := do
  let made ← (createAllApply policy prev members).attempt
  match made with
  | .ok _ =>
    return keepAll prev (members.map (fun m => (m.1, { m.2 with phase := .sending }))) .none
  | .error _ => do
    cleanupAll policy (members.map Prod.fst)
    return endAll prev (members.map Prod.fst) .createApplyJob

/-- What is done for a copy that QEMU still has or has ended. -/
def advanceProgress (pod : Name) (cp : Copy) : WorldProg VMCopyResult := do
  let looked ← (progress pod cp).attempt
  match looked with
  | .error _ => return keepAll prev members .checkCopy
  | .ok .running => return keepAll prev members .none
  | .ok .failed | .ok .lost => do
    let _ ← (finish pod cp true).attempt
    return endAll prev (members.map Prod.fst) .copyFailed
  | .ok .done => do
    let released ← (finish pod cp false).attempt
    match released with
    | .error _ => return keepAll prev members .releaseCopy
    | .ok _ => sendAll policy prev members

/-- A failed look at the moves of the VM is only logged. -/
def advanceCopying (st : VMCopyState) : WorldProg VMCopyResult := do
  let found ← (getPod st.podName).attempt
  match found with
  | .error _ => return keepAll prev members .checkPod
  | .ok none => return endAll prev (members.map Prod.fst) .copyLost
  | .ok (some p) =>
    if p.uid ≠ st.podUID then return endAll prev (members.map Prod.fst) .copyLost
    else do
      let moving ← (vmMoving st.vmiName).attempt
      match moving with
      | .ok true => do
        let stopped ← (cancel st.podName (copyOf st members)).attempt
        match stopped with
        | .error _ => return keepAll prev members .cancelCopy
        | .ok _ => return endAll prev (members.map Prod.fst) .vmMoving
      | _ => advanceProgress policy prev members st.podName (copyOf st members)

/-- How far the Job of one disk is. -/
inductive SendState
  | waiting (gone : Bool)
  | failed
  | wrongBase
  | sent (result : JobResult)
  deriving DecidableEq, Repr

/-- The Job is missing although the copy is being sent. -/
def jobIsGone (volume : Name) : WorldProg Bool := do
  let found ← (getJob (replJobName policy.name volume)).attempt
  match found with
  | .ok none => return true
  | _ => return false

/-- Look at the Job of one disk. A Job that went missing is made again; nothing is done
if it exists. -/
def checkMember (m : Name × VMCopyState) : WorldProg (Except SyncNote SendState) := do
  let looked ← (checkReplicationJob policy m.1).attempt
  match looked with
  | .error _ => return .error .checkApplyJob
  | .ok .failed => return .ok .failed
  | .ok (.succeeded r) => return .ok (if r.wrongBase then .wrongBase else .sent r)
  | .ok .unfinished => do
    let gone ← jobIsGone policy m.1
    let made ← (createVMApplyResources policy m.1 m.2 (prevOf prev m.1).copyMoment).attempt
    match made with
    | .error _ => return .error .createApplyJob
    | .ok _ => return .ok (.waiting gone)

/-- Look at the Jobs of all members until one look fails. -/
def checkMembers (prev : List SubVolumeStatus) :
    List (Name × VMCopyState) → WorldProg (Except SyncNote (List SendState))
  | [] => return .ok []
  | m :: ms => do
    let r ← checkMember policy prev m
    match r with
    | .error note => return .error note
    | .ok s => do
      let rest ← checkMembers prev ms
      return rest.map (fun ss => s :: ss)

def SendState.isWaiting : SendState → Bool
  | .waiting _ => true
  | _ => false

def SendState.isSent : SendState → Bool
  | .sent _ => true
  | _ => false

/-- The change list that the next copy starts from. The new list becomes the base only
when every disk of the VM holds the copy. -/
def settleLists (st : VMCopyState) (sends : List SendState) : WorldProg Name := do
  let same ← sameVMPod st
  if same then
    if sends.all SendState.isSent then do
      let _ ← (commit st.podName (copyOf st members)).attempt
      return st.bitmap
    else do
      let _ ← (finish st.podName (copyOf st members) true).attempt
      return (prevOf prev ((members.map Prod.fst).headD [])).vmChangeList
  else return []

/-- The status of a member when the Jobs of all members have ended. -/
def sentStatus (st : VMCopyState) (list : Name)
    (sends : List SendState) (name : Name) (s : SendState) : SubVolumeStatus :=
  let note : SyncNote :=
    if .wrongBase ∈ sends then .wrongBase
    else if sends.all SendState.isSent then .none else .applyFailed
  let kept := { vmStatus prev name note with vmChangeList := list }
  match s with
  | .sent r =>
    { kept with
      lastSyncTime := some st.moment
      copyMoment := some st.moment
      consistency := if st.fileSystemConsistent then .fileSystem else .crash
      restorePointMoments := r.restorePointMoments
      vmName := st.vmiName }
  | _ => kept

def finishSending (st : VMCopyState) (sends : List SendState) : WorldProg VMCopyResult := do
  let settled ← settleLists prev members st sends
  -- a far disk that is not where the copy starts from needs a full copy
  let list := if .wrongBase ∈ sends then [] else settled
  cleanupAll policy (members.map Prod.fst)
  return ⟨(members.zip sends).map (fun x => sentStatus prev st list sends x.1.1 x.2),
    ((members.zip sends).filter (fun x => x.2.isSent)).map (fun x => x.1.1)⟩

def advanceSending (st : VMCopyState) : WorldProg VMCopyResult := do
  let looked ← checkMembers policy prev members
  match looked with
  | .error note => return keepAll prev members note
  | .ok sends =>
    if sends.any SendState.isWaiting then
      return keepAll prev members (if .waiting true ∈ sends then .jobGone else .none)
    else finishSending policy prev members st sends

def advanceVMCopy : WorldProg VMCopyResult :=
  match members with
  | [] => return ⟨[], []⟩
  | m :: _ =>
    match m.2.phase with
    | .copying => advanceCopying policy prev members m.2
    | .sending => advanceSending policy prev members m.2

/-- Where a volume goes: to its unfinished copy, or to a new copy of its VM. -/
inductive Role
  | inflight (st : VMCopyState)
  | fresh (pod : Pod) (volume : Name)
  deriving DecidableEq, Repr

inductive GroupKey
  | copy (id : Name)
  | pod (uid : Name)
  deriving DecidableEq, Repr

def Role.key : Role → GroupKey
  | .inflight st => .copy st.id
  | .fresh pod _ => .pod pod.uid

def inflightOf (ms : List (Name × Role)) : List (Name × VMCopyState) :=
  ms.filterMap (fun m =>
    match m.2 with
    | .inflight st => some (m.1, st)
    | .fresh .. => none)

def freshOf (ms : List (Name × Role)) : List (Name × Name) :=
  ms.filterMap (fun m =>
    match m.2 with
    | .inflight _ => none
    | .fresh _ volume => some (m.1, volume))

/-- The volumes of a policy sorted out. -/
structure Sorted where
  items : List (GroupKey × Name × Role)
  rest : List Volume
  result : VMCopyResult

def Sorted.put (s : Sorted) (name : Name) (r : Role) : Sorted :=
  { s with items := s.items ++ [(r.key, name, r)] }

def Sorted.note (s : Sorted) (status : SubVolumeStatus) : Sorted :=
  { s with result := s.result.add ⟨[status], []⟩ }

def sortVolume (prev : List SubVolumeStatus) (allowStart : Bool) (s : Sorted) (v : Volume) :
    WorldProg Sorted :=
  match (prevOf prev v.name).vmCopy with
  | some st => return s.put v.name (.inflight st)
  | none =>
    if allowStart = false then return { s with rest := s.rest ++ [v] }
    else do
      let found ← (vmPodForClaim v.name).attempt
      match found with
      | .error _ => return s.note (vmStatus prev v.name .checkRunningVM)
      | .ok none => return { s with rest := s.rest ++ [v] }
      | .ok (some (pod, volume)) =>
        if pod.launcher = false then return s.note (vmStatus prev v.name .hotPlugged)
        else return s.put v.name (.fresh pod volume)

def processGroup (prev : List SubVolumeStatus) (ms : List (Name × Role)) :
    WorldProg VMCopyResult :=
  match ms with
  | [] => return ⟨[], []⟩
  | (_, .inflight _) :: _ => advanceVMCopy policy prev (inflightOf ms)
  | (_, .fresh pod _) :: _ => startVMCopy prev pod (freshOf ms)

/-- Handle the volumes that are disks of running VMs: move unfinished copies forward and,
if allowed, start new ones. The other volumes are left for file copies. -/
def processVMVolumes (copier : Bool) (prev : List SubVolumeStatus) (volumes : List Volume)
    (allowStart : Bool) : WorldProg (List Volume × VMCopyResult) :=
  if copier = false then return (volumes, ⟨[], []⟩)
  else do
    let s ← foldEach (sortVolume prev allowStart) ⟨[], [], ⟨[], []⟩⟩ volumes
    let res ← foldEach (fun (r : VMCopyResult) (g : GroupKey × List (Name × Role)) => do
      let x ← processGroup policy prev g.2
      return r.add x) s.result (groupAll s.items)
    return (s.rest, res)

end FilePool.VMCopyPass
