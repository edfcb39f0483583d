import FilePool.ReplicationWorld

/-!
The calls of the replication controller, to the API server and to QEMU in a VM's pod. A
server refuses a request that it cannot carry out. Before each call others have acted.
-/
namespace FilePool.ReplicationCalls

open UndoFormat UndoNames DurableSteps ReplicationStatus ReplicationWorld Function

/-- One disk of a copy that QEMU is told to make. -/
structure CopyTarget where
  idx : ℕ
  volume : Name
  stagingFile : Name
  deriving DecidableEq, Repr

inductive Step
  | next
  | createJob (job : Job)
  | deleteJob (name : Name)
  | createStaging (pod volume file : Name)
  | removeStaging (pod volume file : Name)
  | removeAllStaging (pod volume : Name)
  | transaction (pod id list base : Name) (targets : List CopyTarget)
  | removeList (pod volume list : Name)
  | cancel (pod id : Name) (idx : ℕ)
  | dismiss (pod id : Name) (idx : ℕ)
  | writeStatus (policy : Name) (status : PolicyStatus)
  | pause (policy : Name)

inductive CallErr
  | busy
  | baseLost
  | notFound
  | alreadyExists
  | failed
  deriving DecidableEq, Repr

def PolicyStatus.stored (s : PolicyStatus) : PolicyStatus where
  phase := s.phase
  lastSyncTime := s.lastSyncTime.map second
  consecutiveFailures := s.consecutiveFailures
  subVolumeStatuses := s.subVolumeStatuses.map SubVolumeStatus.stored
  vms := s.vms.map VMStatus.stored

/-- One target of the transaction that starts a copy: a new change list, a job of QEMU
and a staging file that is being written. -/
def startTarget (pod id list base : Name) (w : World) (t : CopyTarget) : World :=
  match (w.livePod pod).bind (fun p => p.disk t.volume) with
  | none => w
  | some d =>
    (w.onPod pod (fun p =>
      { p.onDisk t.volume (fun d =>
          { d with lists := ⟨list, w.version d.claim⟩ :: d.lists }) with
        jobs := ⟨id, t.idx, t.volume, t.stagingFile, false, false⟩ :: p.jobs })).setStaging
      d.claim t.stagingFile (some ⟨d.created base, w.version d.claim, false⟩)

/-- The answers still to come, after what others did. -/
def World.advance (w : World) : World :=
  match w.script with
  | [] => w
  | a :: rest => a.before.foldl (fun w e => e.apply w) { w with script := rest }

def Step.apply : Step → World → World
  | next, w => World.advance w
  | createJob job, w => w.setJob job.name (some job)
  | deleteJob name, w => w.setJob name none
  | createStaging pod volume file, w =>
    match w.claimOf pod volume with
    | none => w
    | some claim => w.setStaging claim file (some ⟨none, 0, false⟩)
  | removeStaging pod volume file, w =>
    match w.claimOf pod volume with
    | none => w
    | some claim => w.setStaging claim file none
  | removeAllStaging pod volume, w =>
    match w.claimOf pod volume with
    | none => w
    | some claim =>
      { w with
        staging := update w.staging claim (fun file =>
          if ours file stagingPrefix then none else w.staging claim file) }
  | transaction pod id list base targets, w => targets.foldl (startTarget pod id list base) w
  | removeList pod volume list, w =>
    w.onPod pod (fun p => p.onDisk volume (fun d =>
      { d with lists := d.lists.filter (fun l => l.name ≠ list) }))
  | cancel pod id idx, w =>
    w.onPod pod (fun p => { p with jobs := p.jobs.map (fun j =>
      if j.id = id ∧ j.idx = idx ∧ j.concluded = false then
        { j with concluded := true, failed := true }
      else j) })
  | dismiss pod id idx, w =>
    w.onPod pod (fun p => { p with jobs := p.jobs.filter (fun j => ¬ (j.id = id ∧ j.idx = idx)) })
  | writeStatus policy status, w =>
    { w with status := update w.status policy (PolicyStatus.stored status) }
  | pause policy, w => { w with paused := update w.paused policy true }

/-- The disk of a target can be copied: it has the base and not yet the new list. -/
def Pod.canStart (p : Pod) (id list base : Name) (t : CopyTarget) : Bool :=
  match p.disk t.volume with
  | none => false
  | some d =>
    (base = [] || (d.created base).isSome) && (d.created list).isNone &&
      !p.jobs.any (fun j => j.id = id ∧ j.idx = t.idx)

/-- Whether the server carries out a request. -/
def Step.check : Step → World → Except CallErr Unit
  | createJob job, w => if (w.jobs job.name).isSome then .error .alreadyExists else .ok ()
  | deleteJob name, w => if (w.jobs name).isSome then .ok () else .error .notFound
  | createStaging pod volume _, w | removeAllStaging pod volume, w =>
    if (w.claimOf pod volume).isSome then .ok () else .error .failed
  | removeStaging pod _ _, w => if (w.livePod pod).isSome then .ok () else .error .failed
  | transaction pod id list base targets, w =>
    match w.livePod pod with
    | none => .error .failed
    | some p =>
      if targets.all (Pod.canStart p id list base) then .ok () else .error .failed
  | removeList pod volume list, w =>
    match (w.livePod pod).bind (fun p => p.disk volume) with
    | none => .error .failed
    | some d => if (d.created list).isSome then .ok () else .error .failed
  | cancel pod id idx, w =>
    match w.livePod pod with
    | none => .error .failed
    | some p =>
      if p.jobs.any (fun j => j.id = id ∧ j.idx = idx ∧ j.concluded = false) then .ok ()
      else .error .failed
  | dismiss pod id idx, w =>
    match w.livePod pod with
    | none => .error .failed
    | some p =>
      if p.jobs.any (fun j => j.id = id ∧ j.idx = idx ∧ j.concluded = true) then .ok ()
      else .error .failed
  | next, _ | writeStatus .., _ | pause _, _ => .ok ()

/-- Every step is one request to a server, so none is left half done. -/
def world : Device World Step := ⟨Step.apply, fun _ _ _ => False⟩

abbrev WorldProg (α : Type) := Prog world CallErr α

/-- What a call that nothing goes wrong with is answered. -/
def Answer.plain : Answer := ⟨[], .done, 0, true⟩

/-- The answer to the next call; others act first. -/
def next : WorldProg Answer := do
  let a ← Prog.inspect (fun w => .ok (w.script.headD Answer.plain))
  Prog.perform .next
  return a

/-- A request that changes something. -/
def call (t : Step) : WorldProg Answer := do
  let a ← next
  match a.outcome with
  | .refused => Prog.fail .failed
  | .done => do
    Prog.inspect t.check
    Prog.perform t
    return a
  | .unanswered => do
    Prog.inspect t.check
    Prog.perform t
    Prog.fail .failed

def request (t : Step) : WorldProg Unit := do
  let _ ← call t
  return ()

/-- A request that changes nothing modelled here. -/
def ask : WorldProg Unit := do
  let a ← next
  if a.outcome = .done then return () else Prog.fail .failed

/-- A question; an answer that gets lost is an error. -/
def query {α : Type} (f : World → Except CallErr α) : WorldProg α := do
  ask
  Prog.inspect f

/-- The clock. -/
def now : WorldProg Moment := do
  let a ← next
  return a.time

/-- Do something for each element until one fails. -/
def forEach {α : Type} (f : ℕ → α → WorldProg Unit) : ℕ → List α → WorldProg Unit
  | _, [] => return ()
  | i, x :: xs => do
    f i x
    forEach f (i + 1) xs

/-- Do something for each element; the first failure is reported at the end. -/
def forAll {α : Type} (f : α → WorldProg Unit) : List α → WorldProg Unit
  | [] => return ()
  | x :: xs => do
    let r ← (f x).attempt
    forAll f xs
    Prog.inspect (fun _ => r)

/-- Go through a list with a value that each element changes. -/
def foldEach {α β : Type} (f : β → α → WorldProg β) : β → List α → WorldProg β
  | b, [] => return b
  | b, x :: xs => do
    let b' ← f b x
    foldEach f b' xs

end FilePool.ReplicationCalls
