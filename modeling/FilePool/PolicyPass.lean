import FilePool.UndoFolder
import FilePool.VMCopyPass

/-!
One pass of the replication controller over a policy. A cycle goes over several passes:
it ends in the pass in which no file copy is running or waits for its turn. The results
of the volumes whose Job has ended stay in the controller's memory until then, and are
lost if the controller stops.
-/
namespace FilePool.PolicyPass

open UndoFormat UndoNames DurableSteps ReplicationNames ReplicationStatus ReplicationWorld
open ReplicationCalls VMCopier VMCopyPass
open UndoFolder (zeroTime)

/-- The result of one volume's Job in the current cycle. -/
structure CycleResult where
  status : SubVolumeStatus
  failed : Bool
  deriving DecidableEq, Repr

/-- What the controller remembers of a policy. -/
structure Memory where
  running : Option Moment
  results : List CycleResult
  lastSync : Option Moment
  lastVolumeSync : Name → Moment

def Memory.empty : Memory := ⟨none, [], none, fun _ => zeroTime⟩

/-- A volume that gets no new copy now, and why. -/
abbrev Held := Volume × Hold

def holdNote : Hold → SyncNote
  | .cosExport => .heldByExport
  | .browse => .heldByBrowse

variable (policy : Policy)

/-- Whether the copy Job of a volume exists, or cannot be told. -/
def copyJobExists (volume : Name) : WorldProg Bool := do
  let found ← (getJob (replJobName policy.name volume)).attempt
  match found with
  | .ok none => return false
  | _ => return true

def copying (prev : List SubVolumeStatus) (volume : Name) : Bool :=
  prev.any (fun st => st.subVolumeName = volume ∧ st.vmCopy.isSome)

/-- A volume whose VM copy runs, or whose copy Job exists, is never held. -/
def isHeld (prev : List SubVolumeStatus) (v : Volume) : WorldProg Bool :=
  if v.hold.isNone ∨ copying prev v.name then return false
  else do
    let busy ← copyJobExists policy v.name
    return !busy

structure Split where
  free : List Volume
  held : List Held

def splitOne (prev : List SubVolumeStatus) (s : Split) (v : Volume) : WorldProg Split := do
  let h ← isHeld policy prev v
  match v.hold with
  | some reason =>
    if h then return { s with held := s.held ++ [(v, reason)] }
    else return { s with free := s.free ++ [v] }
  | none => return { s with free := s.free ++ [v] }

/-- What a hold reaches: the pod of the held disk, or all of a namespace if the pod is
not known. -/
inductive Reach
  | pod (uid : Name)
  | namespace_ (name : Name)
  deriving DecidableEq, Repr

def heldReach (holds : List (Reach × Hold)) (h : Held) :
    WorldProg (List (Reach × Hold)) := do
  let found ← (vmPodForClaim h.1.name).attempt
  match found with
  | .error _ => return holds ++ [(.namespace_ h.1.namespace_, h.2)]
  | .ok none => return holds
  | .ok (some (p, _)) => return holds ++ [(.pod p.uid, h.2)]

def reasonOf (holds : List (Reach × Hold)) (key : Reach) : Option Hold :=
  (holds.reverse.find? (fun x => x.1 = key)).map Prod.snd

/-- A hold on one disk of a running VM holds the VM's other disks. -/
def holdWithVM (prev : List SubVolumeStatus) (holds : List (Reach × Hold)) (s : Split)
    (v : Volume) : WorldProg Split := do
  let found ← (vmPodForClaim v.name).attempt
  if copying prev v.name then return { s with free := s.free ++ [v] }
  else
    let unknown := reasonOf holds (.namespace_ v.namespace_)
    match found with
    | .error _ => return { s with held := s.held ++ [(v, unknown.getD .cosExport)] }
    | .ok p =>
      match (p.bind (fun x => reasonOf holds (.pod x.1.uid))).or unknown with
      | none => return { s with free := s.free ++ [v] }
      | some reason => return { s with held := s.held ++ [(v, reason)] }

/-- Separate the volumes that an export or a browse session holds from the rest. -/
def splitHeld (copier : Bool) (prev : List SubVolumeStatus) (volumes : List Volume) :
    WorldProg Split := do
  let s ← foldEach (splitOne policy prev) ⟨[], []⟩ volumes
  if s.held = [] ∨ s.free = [] ∨ copier = false then return s
  else do
    let holds ← foldEach heldReach [] s.held
    foldEach (holdWithVM prev holds) ⟨[], s.held⟩ s.free

/-- What the loop over the file copies has done so far. -/
structure Loop where
  statuses : List SubVolumeStatus
  errors : ℕ
  results : List CycleResult
  active : ℤ
  lastVolumeSync : Name → Moment

def Loop.note (l : Loop) (s : SubVolumeStatus) : Loop :=
  { l with statuses := l.statuses ++ [s] }

def Loop.error (l : Loop) (s : SubVolumeStatus) : Loop :=
  { l with statuses := l.statuses ++ [s], errors := l.errors + 1 }

/-- A volume whose Job has ended keeps its result until the cycle ends. -/
def Loop.finish (l : Loop) (r : CycleResult) : Loop :=
  { l with
    statuses := l.statuses ++ [r.status]
    errors := l.errors + if r.failed then 1 else 0
    results := l.results.filter (fun x => x.status.subVolumeName ≠ r.status.subVolumeName) ++ [r] }

def Loop.busy (l : Loop) (s : SubVolumeStatus) : Loop :=
  { l with statuses := l.statuses ++ [s], active := l.active + 1 }

def fileJob (policy : Policy) (volume : Name) : Job where
  name := replJobName policy.name volume
  policy := policy.name
  volume := volume
  dest := policy.dest
  spec := .file
  state := .running

def createReplicationResources (policy : Policy) (volume : Name) : WorldProg Unit := do
  ask
  ensureJob (fileJob policy volume)

def runningVMPod (volume : Name) : WorldProg Bool := do
  let found ← vmPodForClaim volume
  return found.isSome

/-- The status of a volume whose file copy is good. -/
def copiedStatus (volume : Name) (t : Moment) : SubVolumeStatus :=
  { noStatus with subVolumeName := volume, lastSyncTime := some t }

variable (prev : List SubVolumeStatus)

/-- The Job has succeeded. A VM that started during the copy wrote to the disk while it
was read, so the copy may not boot. -/
def copySucceeded (l : Loop) (volume : Name) : WorldProg Loop := do
  let vm ← (runningVMPod volume).attempt
  match vm with
  | .error _ => do
    cleanupReplicationResources policy volume
    return l.finish ⟨vmStatus prev volume .checkVMAfterCopy, true⟩
  | .ok true => do
    cleanupReplicationResources policy volume
    return l.finish ⟨vmStatus prev volume .vmStartedDuringCopy, true⟩
  | .ok false => do
    let t ← now
    cleanupReplicationResources policy volume
    return { l.finish ⟨copiedStatus volume t, false⟩ with
      lastVolumeSync := Function.update l.lastVolumeSync volume t }

def copyEnded (l : Loop) (volume : Name) : WorldProg Loop := do
  cleanupReplicationResources policy volume
  return l.finish ⟨vmStatus prev volume .jobFailed, true⟩

/-- There is no Job: make one if the limit allows and no VM uses the volume. -/
def copyStarts (l : Loop) (volume : Name) : WorldProg Loop :=
  if max 1 policy.maxParallel ≤ l.active then
    return l.note (vmStatus prev volume .deferredParallelLimit)
  else do
    let vm ← (runningVMPod volume).attempt
    match vm with
    | .error _ => return l.error (vmStatus prev volume .checkRunningVM)
    | .ok true => return l.note (vmStatus prev volume .skippedRunningVM)
    | .ok false => do
      let made ← (createReplicationResources policy volume).attempt
      match made with
      | .error _ => do
        cleanupReplicationResources policy volume
        return l.error (vmStatus prev volume .createResources)
      | .ok _ => return l.busy (vmStatus prev volume .syncInProgress)

def copyUnfinished (l : Loop) (volume : Name) : WorldProg Loop := do
  let found ← (getJob (replJobName policy.name volume)).attempt
  match found with
  | .ok (some _) => return l.busy (vmStatus prev volume .syncInProgress)
  | _ => copyStarts policy prev l volume

def checkFileCopy (l : Loop) (volume : Name) : WorldProg Loop := do
  let looked ← (checkReplicationJob policy volume).attempt
  match looked with
  | .error _ => return l.error (vmStatus prev volume .checkJob)
  | .ok (.succeeded _) => copySucceeded policy prev l volume
  | .ok .failed => copyEnded policy prev l volume
  | .ok .unfinished => copyUnfinished policy prev l volume

/-- One volume of the file copies. A chain of files is copied only while its VM runs, and
a volume whose Job has ended in this cycle gets no new one. -/
def fileStep (l : Loop) (v : Volume) : WorldProg Loop :=
  if v.chained then return l.finish ⟨vmStatus prev v.name .diskChain, false⟩
  else
    match l.results.find? (fun r => r.status.subVolumeName = v.name) with
    | some r =>
      return { l with
        statuses := l.statuses ++ [r.status]
        errors := l.errors + if r.failed then 1 else 0 }
    | none => checkFileCopy policy prev l v.name

/-- Write the status; an error is only logged. -/
def storeStatus (s : PolicyStatus) : WorldProg Unit := do
  let _ ← (request (.writeStatus policy.name s)).attempt
  return ()

def maxRetries : ℕ := if policy.maxRetries ≤ 0 then 3 else policy.maxRetries.toNat

def handleFailure (s : PolicyStatus) : WorldProg Unit := do
  let failures := s.consecutiveFailures + 1
  let autoPause := maxRetries policy ≤ failures
  storeStatus policy
    { s with
      consecutiveFailures := failures
      phase := if autoPause then .paused else s.phase }
  if autoPause then do
    let _ ← (request (.pause policy.name)).attempt
    return ()
  else return ()

/-- A volume whose file copy runs or waits for its turn. -/
def SyncNote.isOpen (n : SyncNote) : Bool := n = .syncInProgress || n = .deferredParallelLimit

def allComplete (sts : List SubVolumeStatus) : Bool :=
  sts.all (fun s => !SyncNote.isOpen s.lastError)

def anySucceeded (sts : List SubVolumeStatus) : Bool :=
  sts.any (fun s => s.lastSyncTime.isSome && s.lastError = .none)

def PolicyStatus.setVolumes (s : PolicyStatus) (sts : List SubVolumeStatus) : PolicyStatus :=
  { s with subVolumeStatuses := sts, vms := vmReplicationStatuses sts }

def PolicyStatus.synced (s : PolicyStatus) (t : Moment) : PolicyStatus :=
  { s with lastSyncTime := some t, consecutiveFailures := 0 }

/-- Some Jobs still run or wait: the cycle stays open. -/
def stayOpen (s : PolicyStatus) (sts : List SubVolumeStatus) : WorldProg Unit :=
  if anySucceeded sts then do
    let t ← now
    storeStatus policy (PolicyStatus.setVolumes (PolicyStatus.synced s t) sts)
  else storeStatus policy (PolicyStatus.setVolumes s sts)

/-- Every volume of the cycle is done with. -/
def closeCycle (s : PolicyStatus) (sts : List SubVolumeStatus) (errors : ℕ) : WorldProg Unit :=
  if 0 < errors then handleFailure policy (PolicyStatus.setVolumes s sts)
  else do
    let t ← now
    storeStatus policy
      { PolicyStatus.setVolumes (PolicyStatus.synced s t) sts with phase := .active }

/-- The volumes of the pass, with the ones not copied for the longest time first. -/
def byLastSync (m : Memory) (volumes : List Volume) : List Volume :=
  volumes.insertionSort (fun a b => m.lastVolumeSync a.name ≤ m.lastVolumeSync b.name)

def listVolumes : WorldProg (List Volume) := query (fun w => .ok (w.volumes policy.name))

/-- Note when the volumes were copied. -/
def Memory.recordSync (m : Memory) (names : List Name) (t : Moment) : Memory :=
  { m with lastVolumeSync := fun n => if n ∈ names then t else m.lastVolumeSync n }

/-- The pass over the volumes of a policy. -/
def processMatched (copier : Bool) (s : PolicyStatus) (m : Memory) (start : Moment)
    (matched : List Volume) : WorldProg Memory := do
  let prev := s.subVolumeStatuses
  let split ← splitHeld policy copier prev matched
  let vm ← processVMVolumes policy copier prev split.free true
  let t ← now
  let m := m.recordSync vm.2.sent t
  let l ← foldEach (fileStep policy prev)
    ⟨vm.2.statuses ++ split.held.map (fun h => vmStatus prev h.1.name (holdNote h.2)),
      0, m.results, 0,
      m.lastVolumeSync⟩ vm.1
  if allComplete l.statuses then do
    closeCycle policy s l.statuses l.errors
    return { m with results := [], lastVolumeSync := l.lastVolumeSync }
  else do
    stayOpen policy s l.statuses
    return { m with
      running := some start, results := l.results, lastVolumeSync := l.lastVolumeSync }

/-- A cycle that is open goes on; otherwise a new one begins with the hooks. -/
def processPolicy (copier : Bool) (s : PolicyStatus) (m : Memory) : WorldProg Memory := do
  let t ← now
  let start := m.running.getD t
  let fresh := m.running.isNone
  let m : Memory :=
    { m with running := none, lastSync := if fresh then some t else m.lastSync }
  let s : PolicyStatus := { s with phase := if s.phase = .unset then .active else s.phase }
  let listed ← (listVolumes policy).attempt
  match listed with
  | .error _ => do
    handleFailure policy s
    return m
  | .ok volumes => do
    let hooks ← (if fresh ∧ policy.preHooks then ask else return ()).attempt
    match hooks with
    | .error _ => do
      handleFailure policy s
      return m
    | .ok _ => processMatched policy copier s m start (byLastSync m volumes)

/-- Put the statuses of a pass into those of the policy. -/
def mergeStatuses (sts new : List SubVolumeStatus) : List SubVolumeStatus :=
  new.foldl (fun sts n =>
    if sts.any (fun s => s.subVolumeName = n.subVolumeName) then
      sts.map (fun s => if s.subVolumeName = n.subVolumeName then n else s)
    else sts ++ [n]) sts

/-- Write what a pass between cycles did. Only a copy that has reached the far site moves
the time of the last sync. -/
def storeAdvanced (s : PolicyStatus) (new : List SubVolumeStatus) (t : Moment) :
    WorldProg Unit :=
  let merged := PolicyStatus.setVolumes s (mergeStatuses s.subVolumeStatuses new)
  if new = [] then return ()
  else if new.any (fun x => x.vmCopy.isNone && x.lastError = .none && x.lastSyncTime.isSome) then
    storeStatus policy { merged with lastSyncTime := some t }
  else storeStatus policy merged

/-- Move the copies of running VMs' disks forward between cycles. -/
def advanceVMCopies (copier : Bool) (s : PolicyStatus) (m : Memory) : WorldProg Memory :=
  let prev := s.subVolumeStatuses
  if prev.all (fun x => x.vmCopy.isNone) ∨ copier = false then return m
  else do
    let listed ← (listVolumes policy).attempt
    match listed with
    | .error _ => return m
    | .ok volumes => do
      let res ← processVMVolumes policy copier prev volumes false
      let t ← now
      storeAdvanced policy s res.2.statuses t
      return m.recordSync res.2.sent t

/-- Whether a new cycle is due. -/
def isDue (m : Memory) (interval : ℤ) (t : Moment) : Bool :=
  match m.lastSync with
  | none => true
  | some last => interval ≤ t - last

/-- The cycle of a policy that runs, or is due; otherwise only the copies of running VMs'
disks move forward. -/
def runPolicy (copier : Bool) (s : PolicyStatus) (m : Memory) : WorldProg Memory :=
  match policy.interval with
  | none => return m
  | some interval => do
    let t ← now
    if m.running.isSome ∨ isDue m interval t then processPolicy policy copier s m
    else advanceVMCopies policy copier s m

/-- A policy that was paused and is not any more starts counting failures afresh. -/
def resumed (s : PolicyStatus) : PolicyStatus :=
  { s with phase := .active, consecutiveFailures := 0 }

/-- What a pass of the controller does for a policy, with the status and the pause mark
it read. -/
def processOne (copier : Bool) (m : Memory) (s : PolicyStatus) (paused : Bool) :
    WorldProg Memory :=
  if paused then do
    if s.phase = .paused then return { m with running := none }
    else do
      storeStatus policy { s with phase := .paused }
      return { m with running := none }
  else if s.phase = .paused then do
    storeStatus policy (resumed s)
    runPolicy policy copier (resumed s) m
  else if s.phase = .failed then return m
  else runPolicy policy copier s m

end FilePool.PolicyPass
