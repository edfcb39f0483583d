import FilePool.StepRuns
import FilePool.UndoNames

/-!
The loop that makes the snapshots of running VM disks. A snapshot starts a QEMU copy of all
disks of its VM, or joins the copy of another snapshot. QEMU writes one staging file for each
disk. When it has ended, a Job for each snapshot makes the disk image in the snapshot's folder
from the staging file of its disk. A try that fails is made again with a new copy. The status
of a snapshot is written after the step it tells of, and the write can fail.
-/
namespace FilePool.VMSnapshots

open UndoNames StepRuns Function

/-- What the status of a snapshot says of its copy. The id names the staging files too. -/
structure VMCopyState where
  id : Name
  sending : Bool
  vm : Name
  pod : Name
  moment : ℤ
  leader : Option Name
  disks : List Name
  deriving DecidableEq, Repr

/-- A copy of several disks that other snapshots may join. -/
structure VMCopySet where
  id : Name
  vm : Name
  pod : Name
  moment : ℤ
  joinUntil : ℤ
  disks : List Name
  deriving DecidableEq, Repr

structure Snapshot where
  source : Name
  deleting : Bool
  ready : Bool
  failed : Bool
  copyID : Option Name
  restorePoint : Option ℤ
  copy : Option VMCopyState
  set : Option VMCopySet
  attempts : ℕ
  deriving DecidableEq, Repr

inductive QemuPhase
  | running
  | done
  | failed
  deriving DecidableEq, Repr

/-- A copy that was started: its moment and disks, what QEMU knows of it, and whether QEMU has
written its files to their end. -/
structure Copy where
  pod : Name
  moment : ℤ
  disks : List Name
  qemu : Option QemuPhase
  finished : Bool
  deriving DecidableEq, Repr

inductive JobPhase
  | running
  | succeeded
  | failed
  deriving DecidableEq, Repr

/-- An apply Job, with the staging file that it was started for. -/
structure ApplyJob where
  copy : Name
  disk : Name
  phase : JobPhase
  deriving DecidableEq, Repr

/-- A disk image in a snapshot folder: the copy and the disk it shows, and whether QEMU had
written the staging file to its end. -/
structure Image where
  copy : Name
  disk : Name
  whole : Bool
  deriving DecidableEq, Repr

/-- The pods of the VMs, the snapshots and the names of all that there were, the snapshots as
a pass remembers them, the copies, the staging files, the apply Jobs by the names of their
snapshots, and the snapshot folders. -/
structure State where
  now : ℤ
  pods : Name → Option Name
  snaps : Name → Option Snapshot
  names : List Name
  seen : Name → Option Snapshot
  copies : Name → Option Copy
  ids : List Name
  staging : Name → Name → Bool
  jobs : Name → Option ApplyJob
  folder : Name → Option Image

def maxVMSnapshotAttempts : ℕ := 3

/-- In seconds. -/
def vmCopyJoinWindow : ℤ := 600

def needsVMStep (o : Snapshot) : Bool := !o.deleting && !o.ready && !o.failed

/-- A snapshot whose try has failed. -/
def tryFailed (o : Snapshot) : Snapshot :=
  { o with
    copy := none, copyID := none, attempts := o.attempts + 1
    failed := decide (maxVMSnapshotAttempts ≤ o.attempts + 1) }

/-- The status is written, if the write succeeds; the pass remembers it in any case. -/
def store (n : Name) (o : Snapshot) (saved : Bool) (s : State) : State :=
  { s with
    snaps := if saved then update s.snaps n (some o) else s.snaps
    seen := update s.seen n (some o) }

def clear (gone : Name → Name → Bool) (s : State) : State :=
  { s with staging := fun c d => s.staging c d && !gone c d }

/-- QEMU forgets a copy. -/
def forget (id : Name) (s : State) : State :=
  { s with copies := update s.copies id ((s.copies id).map (fun x => { x with qemu := none })) }

def samePod (s : State) (vm pod : Name) : Bool := s.pods vm = some pod

/-- No copy is known to QEMU in the pod. -/
def idle (s : State) (pod : Name) : Bool :=
  s.ids.all (fun c => (s.copies c).all (fun x => x.pod ≠ pod || x.qemu.isNone))

def started (vm pod : Name) (disks : List Name) (id : Name) (moment now : ℤ) (o : Snapshot) :
    Snapshot :=
  { o with
    copy := some ⟨id, false, vm, pod, moment, none, disks⟩
    copyID := some id
    set := if 1 < disks.length then
        some ⟨id, vm, pod, moment, now + vmCopyJoinWindow, disks⟩ else none }

def startCopy (pod : Name) (disks : List Name) (id : Name) (moment : ℤ) (s : State) : State :=
  { s with
    copies := update s.copies id (some ⟨pod, moment, disks, some .running, false⟩)
    ids := id :: s.ids
    staging := fun c d => (c = id && disks.contains d) || s.staging c d }

/-- The staging files of earlier snapshot copies of the disks are removed, then all disks are
copied. A copy that cannot be recorded is cancelled. -/
def startVMSnapshotCopy (n vm : Name) (disks : List Name) (id : Name) (moment : ℤ)
    (made saved cancelled : Bool) (s : State) : Option State :=
  (s.snaps n).bind (fun o => (s.pods vm).bind (fun pod =>
    if !needsVMStep o || o.copy.isSome || !idle s pod || !disks.contains o.source then none
    else
      let cleaned := clear (fun _ d => disks.contains d) s
      if !made then some (store n (tryFailed o) saved cleaned)
      else
        let copying := store n (started vm pod disks id moment s.now o) saved
          (startCopy pod disks id moment cleaned)
        if saved || !cancelled then some copying
        else some (forget id (clear (fun c d => c = id && disks.contains d) copying))))

/-- The snapshot that owns a copy may be joined while it is copied or after it is ready. -/
def joinable (l : Snapshot) (t : VMCopySet) : Bool :=
  l.copy.any (fun st => st.id = t.id) || (l.copy.isNone && l.ready && l.copyID = some t.id)

def joined (leader : Name) (l : Snapshot) (t : VMCopySet) (o : Snapshot) : Snapshot :=
  { o with
    copy := some ⟨t.id, !l.copy.any (fun st => !st.sending), t.vm, t.pod, t.moment, some leader,
      t.disks⟩
    copyID := some t.id }

/-- The leader is taken as the pass remembers it. -/
def joinVMCopySet (n leader : Name) (claimed saved : Bool) (s : State) : Option State :=
  (s.snaps n).bind (fun o => (s.seen leader).bind (fun l => l.set.bind (fun t =>
    if !needsVMStep o || o.copy.isSome || leader = n || l.deleting || claimed ||
        !samePod s t.vm t.pod || !decide (s.now < t.joinUntil) || !t.disks.contains o.source ||
        !joinable l t then none
    else some (store n (joined leader l t o) saved s))))

/-- The calls around an apply Job: the read, the start and the removal of the Job, the release
of the staging file, the status write. -/
structure Calls where
  read : Bool
  start : Bool
  cleaned : Bool
  released : Bool
  saved : Bool
  deriving DecidableEq, Repr

def cleanup (n : Name) (cleaned : Bool) (s : State) : State :=
  if cleaned then { s with jobs := update s.jobs n none } else s

def releaseVMSnapshotCopy (st : VMCopyState) (source : Name) (released : Bool) (s : State) :
    State :=
  if released && samePod s st.vm st.pod then clear (fun c d => c = st.id && d = source) s else s

def markReady (st : VMCopyState) (o : Snapshot) : Snapshot :=
  { o with ready := true, restorePoint := some st.moment, copy := none }

/-- The apply Job of the snapshot is started, or reported on. It is found by the name of the
snapshot. -/
def watchVMSnapshotApply (n : Name) (st : VMCopyState) (k : Calls) (o : Snapshot) (s : State) :
    State :=
  if !k.read then s
  else match s.jobs n with
    | none =>
      if k.start then { s with jobs := update s.jobs n (some ⟨st.id, o.source, .running⟩) }
      else s
    | some j => match j.phase with
      | .running => s
      | .failed => store n (tryFailed o) k.saved
          (releaseVMSnapshotCopy st o.source k.released (cleanup n k.cleaned s))
      | .succeeded => store n (markReady st o) k.saved
          (releaseVMSnapshotCopy st o.source k.released (cleanup n k.cleaned s))

/-- The snapshot sends its disk: the new phase is written, and the apply Job is looked at. -/
def send (n : Name) (st : VMCopyState) (sent : Bool) (k : Calls) (o : Snapshot) (s : State) :
    State :=
  let st' := { st with sending := true }
  let o' := { o with copy := some st' }
  watchVMSnapshotApply n st' k o' (store n o' sent s)

def cancelCopy (st : VMCopyState) (s : State) : State :=
  forget st.id (clear (fun c d => c = st.id && st.disks.contains d) s)

/-- The owner of a copy looks at it. -/
def watchVMSnapshotCopy (n : Name) (cancel removed sent saved : Bool) (k : Calls) (s : State) :
    Option State :=
  (s.snaps n).bind (fun o => o.copy.bind (fun st =>
    let ended := store n { tryFailed o with set := none } saved
    if !needsVMStep o || st.sending || st.leader.isSome then none
    else if !samePod s st.vm st.pod then some (ended s)
    else if cancel then (if removed then some (ended (cancelCopy st s)) else none)
    else match (s.copies st.id).bind Copy.qemu with
      | some .running => none
      | some .done => if removed then some (send n st sent k o (forget st.id s)) else none
      | _ => some (ended (if removed then cancelCopy st s else s))))

/-- A snapshot that joined a copy looks at the owner. -/
def watchJoinedVMSnapshot (n : Name) (sent saved : Bool) (k : Calls) (s : State) : Option State :=
  (s.snaps n).bind (fun o => o.copy.bind (fun st => st.leader.bind (fun leader =>
    if !needsVMStep o || st.sending then none
    else match s.snaps leader with
      | none => some (store n (tryFailed o) saved s)
      | some l =>
        if l.copy.any (fun lc => lc.id = st.id && !lc.sending) then none
        else if l.copy.any (fun lc => lc.id = st.id) ||
            (l.copy.isNone && l.ready && l.copyID = some st.id) then
          some (send n st sent k o s)
        else some (store n (tryFailed o) saved s))))

def watchSent (n : Name) (k : Calls) (s : State) : Option State :=
  (s.snaps n).bind (fun o => o.copy.bind (fun st =>
    if !needsVMStep o || !st.sending then none else some (watchVMSnapshotApply n st k o s)))

/-- A snapshot other than one has claimed the disk of the copy. -/
def claimed (s : State) (id disk : Name) (other : Option Name) : Bool :=
  s.names.any (fun n => other ≠ some n &&
    (s.snaps n).any (fun o => o.copyID = some id && o.source = disk))

def releaseUnclaimedDisks (t : VMCopySet) (other : Option Name) (removed : Bool) (s : State) :
    State :=
  if removed && samePod s t.vm t.pod then
    clear (fun c d => c = t.id && t.disks.contains d && !claimed s t.id d other) s
  else s

def releaseExpiredCopySet (n : Name) (removed saved : Bool) (s : State) : Option State :=
  (s.snaps n).bind (fun o => o.set.bind (fun t =>
    if o.deleting || decide (s.now < t.joinUntil) || o.copy.any (fun st => !st.sending) then none
    else some (store n { o with set := none } saved (releaseUnclaimedDisks t none removed s))))

/-- A deleted snapshot leaves its copy. One that joined a copy that still runs does no more. -/
def leaveCopy (o : Snapshot) (s : State) : State :=
  match o.copy with
  | none => s
  | some st =>
    if !samePod s st.vm st.pod then s
    else if st.sending then clear (fun c d => c = st.id && d = o.source) s
    else if st.leader.isSome then s
    else cancelCopy st s

/-- A deleted owner of a copy that has ended releases the disks that no other one claimed. -/
def leaveSet (n : Name) (o : Snapshot) (s : State) : State :=
  match o.set with
  | none => s
  | some t =>
    if o.copy.any (fun st => !st.sending) then s
    else releaseUnclaimedDisks t (some n) true s

/-- A delete marks the snapshot first. If its copy cannot be cancelled only the mark stays. -/
def cancelVMSnapshotForDelete (n : Name) (cancelled saved : Bool) (s : State) : Option State :=
  (s.snaps n).map (fun o =>
    let marked := store n { o with deleting := true } true s
    if !cancelled then marked
    else store n { o with deleting := true, copy := none, set := none } saved
      (leaveSet n o (leaveCopy o marked)))

/-- The steps of the loop and of deletes; snapshots are asked for, VM pods are replaced, QEMU
copies end, and apply Jobs clear the folder, make the image, end or fail. -/
inductive Event
  | tick (d : ℕ)
  | create (n source : Name)
  | beginPass
  | start (n vm : Name) (disks : List Name) (id : Name) (moment : ℤ) (made saved cancelled : Bool)
  | join (n leader : Name) (claimed saved : Bool)
  | watch (n : Name) (cancel removed sent saved : Bool) (k : Calls)
  | follow (n : Name) (sent saved : Bool) (k : Calls)
  | apply (n : Name) (k : Calls)
  | release (n : Name) (removed saved : Bool)
  | delete (n : Name) (cancelled saved : Bool)
  | stopJob (n : Name)
  | removeFolder (n : Name)
  | removeRecord (n : Name)
  | replacePod (vm : Name) (pod : Option Name)
  | qemuEnds (c : Name) (ok : Bool)
  | jobClears (n : Name)
  | jobApplies (n : Name) (removed : Bool)
  | jobEnds (n : Name) (ok : Bool)

/-- The Job writes a new file from the staging file and gives it the name of the image. -/
def makeImage (n : Name) (j : ApplyJob) (s : State) : State :=
  let whole := (s.copies j.copy).any Copy.finished
  { s with folder := update s.folder n (some ⟨j.copy, j.disk, whole⟩) }

/-- QEMU ends with its pod. -/
def losePod (old : Option Name) (x : Copy) : Copy :=
  if old = some x.pod then { x with qemu := none } else x

def endCopy (c : Name) (x : Copy) (ok : Bool) (s : State) : State :=
  let phase := if ok then QemuPhase.done else .failed
  { s with
    copies := update s.copies c (some { x with qemu := some phase, finished := x.finished || ok }) }

def endJob (n : Name) (j : ApplyJob) (ok : Bool) (s : State) : State :=
  let phase := if ok then JobPhase.succeeded else .failed
  { s with jobs := update s.jobs n (some { j with phase := phase }) }

def runningJob (s : State) (n : Name) : Option ApplyJob :=
  (s.jobs n).filter (fun j => j.phase = .running)

def marked (s : State) (n : Name) : Bool := (s.snaps n).any Snapshot.deleting

def step (s : State) : Event → Option State
  | .tick d => some { s with now := s.now + d }
  | .create n source =>
    if (s.snaps n).isSome then none
    else some { s with
      snaps := update s.snaps n (some ⟨source, false, false, false, none, none, none, none, 0⟩)
      names := n :: s.names }
  | .beginPass => some { s with seen := s.snaps }
  | .start n vm disks id moment made saved cancelled =>
    startVMSnapshotCopy n vm disks id moment made saved cancelled s
  | .join n leader claimed saved => joinVMCopySet n leader claimed saved s
  | .watch n cancel removed sent saved k => watchVMSnapshotCopy n cancel removed sent saved k s
  | .follow n sent saved k => watchJoinedVMSnapshot n sent saved k s
  | .apply n k => watchSent n k s
  | .release n removed saved => releaseExpiredCopySet n removed saved s
  | .delete n cancelled saved => cancelVMSnapshotForDelete n cancelled saved s
  | .stopJob n => if marked s n then some { s with jobs := update s.jobs n none } else none
  | .removeFolder n =>
    if marked s n && (s.jobs n).isNone then some { s with folder := update s.folder n none }
    else none
  | .removeRecord n =>
    if marked s n && (s.folder n).isNone then some { s with snaps := update s.snaps n none }
    else none
  | .replacePod vm pod => some { s with
      pods := update s.pods vm pod
      copies := fun c => (s.copies c).map (losePod (s.pods vm)) }
  | .qemuEnds c ok => (s.copies c).bind (fun x =>
      if x.qemu ≠ some .running then none
      else some (endCopy c x ok s))
  | .jobClears n => (runningJob s n).bind (fun j =>
      if s.staging j.copy j.disk then some { s with folder := update s.folder n none } else none)
  | .jobApplies n removed => (runningJob s n).bind (fun j =>
      if s.staging j.copy j.disk then
        let applied := makeImage n j s
        some (if removed then clear (fun c d => c = j.copy && d = j.disk) applied else applied)
      else none)
  | .jobEnds n ok => (runningJob s n).bind (fun j =>
      -- a Job ends well when the staging file is gone and the image is there
      if ok && (s.staging j.copy j.disk || (s.folder n).isNone) then none
      else some (endJob n j ok s))

end FilePool.VMSnapshots
