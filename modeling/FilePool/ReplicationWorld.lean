import FilePool.BlockHistory
import FilePool.ReplicationNames
import FilePool.ReplicationStatus

/-!
What the replication controller works on: the Jobs of the cluster, the pods of running
VMs with what QEMU holds for their disks, the staging files on the source share, the
disks at the far site, and the stored status of each policy. The controller is a program
of calls. Others act before each call: guests write, VMs stop and start, QEMU and the
Jobs go on, people change what a policy selects. A call can be refused, and the answer to
a call that was carried out can get lost.
-/
namespace FilePool.ReplicationWorld

open BlockHistory UndoFormat UndoNames DurableSteps ReplicationNames ReplicationStatus
open Function (update)

abbrev Content := ℕ → ℕ

/-- What a Job reports in the termination message of its pod. -/
structure JobResult where
  bytesWritten : ℕ
  restorePoints : ℕ
  restorePointMoments : List Moment
  wrongBase : Bool
  deriving DecidableEq, Repr

def JobResult.empty : JobResult := ⟨0, 0, [], false⟩

/-- What a Job was made for: a copy of the volume's folder, or the staged copy of a
running VM's disk. -/
inductive JobSpec
  | file
  | vm (send : Bool) (copyID stagingFile : Name) (shown : Moment) (start : Option Moment)
      (full : Bool)
  deriving DecidableEq, Repr

inductive JobState
  | running
  | succeeded
  | failed
  deriving DecidableEq, Repr

structure Job where
  name : Name
  policy : Name
  volume : Name
  dest : Name
  spec : JobSpec
  state : JobState
  deriving DecidableEq, Repr

/-- A change list with the version of the disk when it was created. QEMU records in it
every write after that. -/
structure ChangeList where
  name : Name
  created : ℕ
  deriving DecidableEq, Repr

/-- A disk of a running VM: its volume name in the pod and the volume it is. -/
structure Disk where
  volume : Name
  claim : Name
  lists : List ChangeList
  deriving DecidableEq, Repr

/-- A job of QEMU that copies one disk of a copy. -/
structure CopyJob where
  id : Name
  idx : ℕ
  volume : Name
  stagingFile : Name
  concluded : Bool
  failed : Bool
  deriving DecidableEq, Repr

/-- A pod of a VM. A pod that has ended can still be read, but runs no QEMU. -/
structure Pod where
  name : Name
  uid : Name
  vmi : Name
  launcher : Bool
  ended : Bool
  disks : List Disk
  jobs : List CopyJob
  deriving DecidableEq, Repr

/-- A staging file: the version of the change list it starts from, none for a full copy,
the version it was taken at, and whether QEMU has written all of it. -/
structure Staged where
  base : Option ℕ
  taken : ℕ
  complete : Bool
  deriving DecidableEq, Repr

/-- A disk at the far site, with the moment it shows and the copies its undo files
record. -/
structure FarDisk where
  present : Bool
  content : Content
  shown : Option Moment
  undo : List Moment

/-- What holds a volume back from a new copy. -/
inductive Hold
  | cosExport
  | browse
  deriving DecidableEq, Repr

structure Volume where
  name : Name
  namespace_ : Name
  chained : Bool
  hold : Option Hold
  deriving DecidableEq, Repr

inductive Phase
  | unset
  | active
  | paused
  | failed
  deriving DecidableEq, Repr

structure PolicyStatus where
  phase : Phase
  lastSyncTime : Option Moment
  consecutiveFailures : ℕ
  subVolumeStatuses : List SubVolumeStatus
  vms : List VMStatus
  deriving DecidableEq, Repr

/-- What a running Job does. A try that reads a staging file QEMU has not finished leaves
any content. -/
inductive JobAct
  | files (disk : FarDisk)
  | apply (other : Content) (kept : List Moment)
  | removeStaging
  | succeed (result : JobResult)
  | fail

/-- What others do. -/
inductive Event
  | guestWrites (volume : Name) (w : Write ℕ ℕ)
  | podStarts (name uid vmi : Name) (launcher : Bool) (disks : List (Name × Name))
  | podEnds (name : Name)
  | podRemoved (name : Name)
  | plugged (pod volume claim : Name)
  | unplugged (pod volume : Name)
  | migrates (vmi : Name) (on : Bool)
  | copyEnds (pod id : Name) (idx : ℕ) (failed : Bool)
  | snapshotStarts (pod id : Name) (volumes : List Name)
  | snapshotEnds (pod id : Name)
  | listed (pod volume : Name) (lists : List ChangeList)
  | jobActs (name : Name) (act : JobAct)
  | jobRemoved (name : Name)
  | reported (policy volume : Name) (results : List JobResult)
  | selected (policy : Name) (volumes : List Volume)
  | annotated (policy : Name) (paused : Bool)

/-- How a call ends: carried out, refused, or carried out with the answer lost. -/
inductive Outcome
  | done
  | refused
  | unanswered
  deriving DecidableEq, Repr

/-- What happens before a call, how the call ends, the time then, and for the start of a
copy whether the guest was frozen. -/
structure Answer where
  before : List Event
  outcome : Outcome
  time : Moment
  frozen : Bool

/-- The state. The script has the answers to the calls of the pass that runs; finished
is the history of the Jobs that succeeded. -/
structure World where
  script : List Answer
  jobs : Name → Option Job
  finished : List Job
  reports : Name → Name → List JobResult
  pods : List Pod
  moving : Name → Bool
  staging : Name → Name → Option Staged
  writes : Name → List (Write ℕ ℕ)
  far : Name → Name → FarDisk
  volumes : Name → List Volume
  status : Name → PolicyStatus
  paused : Name → Bool

def zeros : Content := fun _ => 0

def World.podNamed (w : World) (name : Name) : Option Pod := w.pods.find? (fun p => p.name = name)

/-- The pod, if commands can run in it. -/
def World.livePod (w : World) (name : Name) : Option Pod :=
  (w.podNamed name).filter (fun p => !p.ended)

def Pod.disk (p : Pod) (volume : Name) : Option Disk := p.disks.find? (fun d => d.volume = volume)

def Disk.created (d : Disk) (list : Name) : Option ℕ :=
  (d.lists.find? (fun l => l.name = list)).map ChangeList.created

def World.onPod (w : World) (name : Name) (f : Pod → Pod) : World :=
  { w with pods := w.pods.map (fun p => if p.name = name then f p else p) }

def Pod.onDisk (p : Pod) (volume : Name) (f : Disk → Disk) : Pod :=
  { p with disks := p.disks.map (fun d => if d.volume = volume then f d else d) }

/-- The volume that a disk of a running pod is. -/
def World.claimOf (w : World) (pod volume : Name) : Option Name :=
  ((w.livePod pod).bind (fun p => p.disk volume)).map Disk.claim

def World.setStaging (w : World) (claim file : Name) (s : Option Staged) : World :=
  { w with staging := update w.staging claim (update (w.staging claim) file s) }

def World.setJob (w : World) (name : Name) (j : Option Job) : World :=
  { w with jobs := update w.jobs name j }

def World.setFar (w : World) (dest volume : Name) (d : FarDisk) : World :=
  { w with far := update w.far dest (update (w.far dest) volume d) }

/-- The version of a volume's disk. -/
def World.version (w : World) (volume : Name) : ℕ := (w.writes volume).length

def stagingPrefix : Name :=
  ['.', 'r', 'e', 'p', 'l', '-', 's', 't', 'a', 'g', 'i', 'n', 'g', '-']

def bitmapPrefix : Name := repl

def snapshotPrefix : Name := ['s', 'n', 'a', 'p']

/-- Whether a name that a copy made belongs to a replication copy and not to a
snapshot copy. -/
def ours (name start : Name) : Bool :=
  start.isPrefixOf name && !snapshotPrefix.isPrefixOf (name.drop start.length)

/-- What a staged copy makes of the disk at the far site. The gaps of a full copy are
zeros; a change copy leaves them as they are. -/
def Staged.applied (s : Staged) (ws : List (Write ℕ ℕ)) (full : Bool) (old other : Content) :
    Content :=
  let new := contentAt zeros ws s.taken
  let old := if full then zeros else old
  if s.complete = false then other
  else
    match s.base with
    | none => new
    | some c => overlay (changedBetween ws c s.taken) new old

def FarDisk.put (d : FarDisk) (content : Content) (shown : Moment) (kept : List Moment) :
    FarDisk where
  present := true
  content := content
  shown := some shown
  undo := if d.present then (shown :: d.undo).filter (fun t => t ∈ kept) else []

/-- A try of a Job on the staged copy. A Job that sends looks first at the moment the far
disk shows; one that applies does not. -/
def mayApply (send full : Bool) (shown : Moment) (start : Option Moment) (d : FarDisk) : Bool :=
  !send || (d.shown ≠ some shown && (full || (d.shown.isSome && d.shown = start)))

/-- The disk already has the copy, so a Job whose staging file is gone has nothing left
to do. -/
def alreadyApplied (send : Bool) (shown : Moment) (start : Option Moment) (d : FarDisk) : Bool :=
  if send then d.shown = some shown
  else d.present && (shown ∈ d.undo || (start.isNone && d.undo.isEmpty))

def isWrongBase (send full : Bool) (shown : Moment) (start : Option Moment) (d : FarDisk) : Bool :=
  send && !full && d.shown ≠ some shown && !(d.shown.isSome && d.shown = start)

def World.finishJob (w : World) (j : Job) (r : JobResult) : World :=
  { w.setJob j.name (some { j with state := .succeeded }) with
    finished := { j with state := .succeeded } :: w.finished
    reports := update w.reports j.policy
      (update (w.reports j.policy) j.volume (w.reports j.policy j.volume ++ [r])) }

def World.jobActs (w : World) (j : Job) : JobAct → World
  | .files d =>
    match j.spec with
    | .file => w.setFar j.dest j.volume d
    | .vm .. => w
  | .apply other kept =>
    match j.spec with
    | .file => w
    | .vm send _ file shown start full =>
      match w.staging j.volume file with
      | none => w
      | some s =>
        let d := w.far j.dest j.volume
        if mayApply send full shown start d then
          w.setFar j.dest j.volume
            (d.put (s.applied (w.writes j.volume) full d.content other) shown kept)
        else w
  | .removeStaging =>
    match j.spec with
    | .file => w
    | .vm _ _ file shown _ _ =>
      if (w.far j.dest j.volume).shown = some shown then w.setStaging j.volume file none else w
  | .succeed r =>
    match j.spec with
    | .file => w.finishJob j r
    | .vm send _ file shown start full =>
      let d := w.far j.dest j.volume
      if r.wrongBase then
        if isWrongBase send full shown start d then w.finishJob j r else w
      else if w.staging j.volume file = none ∧ alreadyApplied send shown start d then
        w.finishJob j r
      else w
  | .fail => w.setJob j.name (some { j with state := .failed })

def snapshotList (id : Name) (version : ℕ) : ChangeList := ⟨bitmapPrefix ++ id, version⟩

def snapshotJobs (id : Name) (volumes : List Name) : List CopyJob :=
  volumes.zipIdx.map (fun v => ⟨id, v.2, v.1, stagingPrefix ++ id, false, false⟩)

/-- QEMU has ended the copy of a disk. -/
def World.copyEnds (w : World) (pod id : Name) (idx : ℕ) (failed : Bool) : World :=
  match w.livePod pod with
  | none => w
  | some p =>
    match p.jobs.find? (fun j => j.id = id ∧ j.idx = idx ∧ j.concluded = false) with
    | none => w
    | some j =>
      let w' := w.onPod pod (fun p => { p with jobs := p.jobs.map (fun j =>
        if j.id = id ∧ j.idx = idx ∧ j.concluded = false then
          { j with concluded := true, failed := failed }
        else j) })
      match w.claimOf pod j.volume with
      | none => w'
      | some claim =>
        match w.staging claim j.stagingFile with
        | none => w'
        | some s =>
          w'.setStaging claim j.stagingFile (some { s with complete := s.complete || !failed })

def Event.apply : Event → World → World
  | guestWrites volume x, w =>
    { w with writes := update w.writes volume (w.writes volume ++ [x]) }
  | podStarts name uid vmi launcher disks, w =>
    if (w.podNamed name).isSome then w
    else
      { w with
        pods := w.pods ++
          [⟨name, uid, vmi, launcher, false, disks.map (fun d => ⟨d.1, d.2, []⟩), []⟩] }
  | podEnds name, w =>
    w.onPod name (fun p =>
      { p with ended := true, disks := p.disks.map (fun d => { d with lists := [] }), jobs := [] })
  | podRemoved name, w => { w with pods := w.pods.filter (fun p => p.name ≠ name) }
  | plugged pod volume claim, w =>
    w.onPod pod (fun p =>
      if (p.disk volume).isSome then p else { p with disks := p.disks ++ [⟨volume, claim, []⟩] })
  | unplugged pod volume, w =>
    w.onPod pod (fun p => { p with
      disks := p.disks.filter (fun d => d.volume ≠ volume)
      jobs := p.jobs.filter (fun j => j.volume ≠ volume) })
  | migrates vmi on, w => { w with moving := update w.moving vmi on }
  | copyEnds pod id idx failed, w => w.copyEnds pod id idx failed
  | snapshotStarts pod id volumes, w =>
    if snapshotPrefix.isPrefixOf id then
      w.onPod pod (fun p =>
        if p.ended then p
        else
          { p with
            disks := p.disks.map (fun d =>
              if d.volume ∈ volumes then
                { d with lists := snapshotList id (w.version d.claim) :: d.lists }
              else d)
            jobs := snapshotJobs id volumes ++ p.jobs })
    else w
  | snapshotEnds pod id, w =>
    if snapshotPrefix.isPrefixOf id then
      w.onPod pod (fun p =>
        { p with
          disks := p.disks.map (fun d =>
            { d with lists := d.lists.filter (fun l => l.name ≠ bitmapPrefix ++ id) })
          jobs := p.jobs.filter (fun j => j.id ≠ id) })
    else w
  | listed pod volume lists, w =>
    w.onPod pod (fun p => p.onDisk volume (fun d =>
      if lists.isPerm d.lists then { d with lists := lists } else d))
  | jobActs name act, w =>
    match w.jobs name with
    | none => w
    | some j => if j.state = .running then w.jobActs j act else w
  | jobRemoved name, w => w.setJob name none
  | reported policy volume results, w =>
    if ∀ r ∈ results, r ∈ w.reports policy volume then
      { w with
        reports := update w.reports policy (update (w.reports policy) volume results) }
    else w
  | selected policy volumes, w =>
    { w with volumes := update w.volumes policy volumes }
  | annotated policy paused, w =>
    { w with paused := update w.paused policy paused }

end FilePool.ReplicationWorld
