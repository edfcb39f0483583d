import FilePool.PoolAnswers
import FilePool.PoolReconciler
import FilePool.ThreadRuns
import FilePool.VolumeWorkers

/-!
The driver as a machine. Its calls run beside each other, each as a thread of its own;
one worker reconciles the pools and one handles the backups, so such a pass waits for the
one before it. Besides, pools are made and edited, shares change in the VPC, Jobs do their
work bit by bit, and VMs start, write and stop.
-/
namespace FilePool.PoolMachine

open UndoNames PoolRecords VersionedStore PoolWorld PoolAnswers InstantSnapshots ThreadRuns Function

inductive Event
  | newPool (name : Name) (spec : PoolSpec)
  | editSpec (name : Name) (spec : PoolSpec)
  | deletePool (name : Name)
  | shareMade (s : ShareInfo)
  | shareChanges (id : Name) (state : Lifecycle) (targets : List MountTargetInfo)
  | shareGone (id : Name)
  | jobCopies (key : Name) (n : ℕ)
  | jobRemoves (key : Name) (n : ℕ)
  | jobEnds (key : Name) (content : Content)
  | jobFails (key : Name)
  | jobGone (key : Name)
  | podStarts (c : Claim) (kind : PodKind)
  | podStops (c : Claim)
  | instanceChanges (c : Claim) (there : Bool)
  | machineChanges (c : Claim) (there : Bool)
  | moves (c : Claim) (moving : Bool)
  | gateChanges (open_ : Bool)
  | guestWrites (volume : Name) (n : ℕ) (x : Option ℕ)
  | vmLoop (snapshot : Name) (method : SnapshotMethod) (phase : SnapshotPhase) (ready : Bool)
  | claimMade (b : BoundClaim)
  | claimBound (c : Claim) (volume : Name)
  | claimGone (c : Claim)
  | restoreAsked (name : Name) (target : Claim)

def emptyStatus : PoolStatus := ⟨.unset, [], 0, 0, 0, 0, []⟩

/-- A world without any record, share or call. -/
def emptyWorld : World where
  rev := 0
  pools := []
  subVolumes := []
  snapshots := []
  restores := []
  claims := []
  shares := []
  issued := []
  jobs _ := none
  folders _ := none
  pods _ := none
  instances _ := false
  machines _ := false
  moving _ := false
  sidecarGate := true
  mounted := []
  locks _ := none
  calls _ := none

/-- A change of one pool from outside; a deleted pool without a finalizer goes. -/
def changePool (w : World) (name : Name) (f : Pool → Pool) : Option World :=
  (find poolKind w.pools name).map (fun p => { w with
    rev := w.rev + 1
    pools := settlePools
      (replace poolKind w.pools { f p with name := p.name, version := w.rev + 1 }) })

def copyPiece (w : World) (j : Job) (n : ℕ) : Option Job :=
  match j.work with
  | .copyDir src _ =>
    some { j with copied := update j.copied n (some ((w.folders src).bind (· n))) }
  | _ => none

/-- A copy in which every piece that was not read yet is read now. -/
def copyRest (w : World) (j : Job) (src : Folder) : Content :=
  fun n => (j.copied n).getD ((w.folders src).bind (· n))

/-- What a Job that ends well leaves on the shares. -/
def finishWork (w : World) (j : Job) (content : Content) : World :=
  match j.work with
  | .removeDir f => setFolder w f none
  | .copyDir src dst => setFolder w dst (some (copyRest w j src))
  | .takeChain f _ | .mergeChain f _ _ | .convert _ _ f | .restoreBackup _ f =>
    setFolder w f (some content)

/-- What was written of a copy that does not end well. -/
def leavePart (w : World) (j : Job) : World :=
  match j.work with
  | .copyDir _ dst => setFolder w dst (some (fun n => (j.copied n).getD none))
  | _ => w

def jobEnds (w : World) (key : Name) (content : Content) : Option World :=
  match w.jobs key with
  | some j =>
    if j.state = .running then
      some (setJob (finishWork w j content) key (some { j with state := .succeeded }))
    else none
  | none => none

def jobFails (w : World) (key : Name) : Option World :=
  match w.jobs key with
  | some j =>
    if j.state = .running then some (setJob (leavePart w j) key (some { j with state := .failed }))
    else none
  | none => none

def jobGone (w : World) (key : Name) : Option World :=
  match w.jobs key with
  | some j =>
    if j.state = .stopping then some (setJob (leavePart w j) key none)
    else if j.state = .running then none
    else some (setJob w key none)
  | none => none

def active (j : Job) : Bool := j.state = .running || j.state = .stopping

def jobCopies (w : World) (key : Name) (n : ℕ) : Option World :=
  match w.jobs key with
  | some j => if active j then (copyPiece w j n).map (fun j' => setJob w key (some j')) else none
  | none => none

/-- A removal takes the files of a folder one after another. -/
def jobRemoves (w : World) (key : Name) (n : ℕ) : Option World :=
  match w.jobs key with
  | some j => match j.work with
    | .removeDir f =>
      if active j then
        some (setFolder w f ((w.folders f).map (fun c => update c n none)))
      else none
    | _ => none
  | none => none

/-- A guest writes to its disk while a pod of its VM mounts the volume. -/
def guestWrites (w : World) (volume : Name) (n : ℕ) (x : Option ℕ) : Option World :=
  match find subVolumeKind w.subVolumes volume with
  | some v =>
    if (w.pods (claimOf v)).isSome then
      some (setFolder w (subVolumeFolder v)
        ((w.folders (subVolumeFolder v)).map (fun c => update c n x)))
    else none
  | none => none

/-- A step of the loop that copies the disks of running VMs with QEMU. It gives a snapshot
back to the file copy when no VM uses the disk any more. -/
def vmLoop (w : World) (name : Name) (method : SnapshotMethod) (phase : SnapshotPhase)
    (ready : Bool) : Option World :=
  match find snapshotKind w.snapshots name with
  | some s =>
    if s.method = .vm && !s.deleting && !s.readyToUse && s.phase ≠ .failed &&
        (method = .vm || (method = .file && !ready)) then
      some { w with
        rev := w.rev + 1
        snapshots := replace snapshotKind w.snapshots
          { s with method := method, phase := phase, readyToUse := ready, version := w.rev + 1 } }
    else none
  | none => none

def happens : Event → World → Option World
  | .newPool name spec, w =>
    if (find poolKind w.pools name).isSome then none
    else some { w with
      rev := w.rev + 1
      pools := w.pools ++ [⟨name, w.rev + 1, false, false, spec, emptyStatus⟩] }
  | .editSpec name spec, w => changePool w name (fun p => { p with spec := spec })
  | .deletePool name, w => changePool w name (fun p => { p with deleting := true })
  | .shareMade s, w =>
    if s.id ∈ w.issued.map Prod.fst then none
    else some { w with shares := w.shares ++ [s], issued := (s.id, s.name) :: w.issued }
  | .shareChanges id state targets, w =>
    some (changeInfo w id (fun s => { s with lifecycleState := state, mountTargets := targets }))
  | .shareGone id, w => some { w with shares := w.shares.filter (fun s => s.id ≠ id) }
  | .jobCopies key n, w => jobCopies w key n
  | .jobRemoves key n, w => jobRemoves w key n
  | .jobEnds key content, w => jobEnds w key content
  | .jobFails key, w => jobFails w key
  | .jobGone key, w => jobGone w key
  | .podStarts c kind, w => some { w with pods := update w.pods c (some kind) }
  | .podStops c, w => some { w with pods := update w.pods c none }
  | .instanceChanges c b, w => some { w with instances := update w.instances c b }
  | .machineChanges c b, w => some { w with machines := update w.machines c b }
  | .moves c b, w => some { w with moving := update w.moving c b }
  | .gateChanges b, w => some { w with sidecarGate := b }
  | .guestWrites volume n x, w => guestWrites w volume n x
  | .vmLoop name method phase ready, w => vmLoop w name method phase ready
  | .claimMade b, w =>
    if w.claims.any (fun x => x.claim = b.claim) then none
    else some { w with claims := w.claims ++ [b] }
  | .claimBound c volume, w => some { w with
      claims := w.claims.map (fun b => if b.claim = c then { b with volumeName := volume } else b) }
  | .claimGone c, w => some { w with claims := w.claims.filter (fun b => b.claim ≠ c) }
  | .restoreAsked name target, w =>
    if (find restoreKind w.restores name).isSome then none
    else some { w with
      rev := w.rev + 1, restores := w.restores ++ [⟨name, w.rev + 1, target, .unset⟩] }

variable (cfg : ShareCreation.Config)

/-- What a call of the driver does, its result left out. -/
def body : Call → Threads.Tree Query Answer Unit
  | .allocate req => (VolumeCalls.createVolume cfg req).forget
  | .deallocate name => (VolumeCalls.deallocate cfg name).forget
  | .expand name newSizeGB => (VolumeCalls.expand name newSizeGB).forget
  | .cloneVolume source req => (VolumeCalls.cloneVolume cfg source req).forget
  | .restoreSnapshot snapshot req =>
    (SnapshotCalls.restoreSnapshot cfg snapshot req).forget
  | .createSnapshot snapshot source ok =>
    (SnapshotCalls.createSnapshot cfg snapshot source ok).forget
  | .deleteSnapshot snapshot => (SnapshotCalls.deleteSnapshot cfg snapshot).forget
  | .reconcile pool => (PoolReconciler.reconcile cfg pool).forget
  | .processClone name => (VolumeWorkers.processClone name).forget
  | .publish volumeID name parsed =>
    (VolumeWorkers.publish volumeID name parsed).forget
  | .reconcileRestore restore => (VolumeWorkers.reconcileRestore restore).forget
  | .openFinishedRestores => VolumeWorkers.openFinishedRestores.forget

/-- The worker that a call has to wait for. -/
def workerLock : Call → Option Lock
  | .reconcile _ => some .worker
  | .processClone name => some (.cloning name)
  | .reconcileRestore _ | .openFinishedRestores => some .backup
  | _ => none

def enter (i : ℕ) (c : Call) (w : World) : Option World :=
  match workerLock c with
  | none => some { w with calls := update w.calls i (some c) }
  | some l => match w.locks l with
    | some _ => none
    | none => some { w with
        calls := update w.calls i (some c), locks := update w.locks l (some i) }

def leave (i : ℕ) (w : World) : World :=
  { w with
    calls := update w.calls i none
    locks := fun l => if w.locks l = some i then none else w.locks l }

/-- The controller stops: its calls and its locks are gone. -/
def halt (w : World) : World := { w with calls := fun _ => none, locks := fun _ => none }

def machine : Machine World Query Answer Call Choice Event where
  answer := answer
  event := happens
  body := body cfg
  enter := enter
  leave := leave
  halt := halt

end FilePool.PoolMachine
