import FilePool.ReplicationCalls

/-!
Copies of a running VM's disks, as the commands to QEMU in the VM's pod. One transaction
starts a new change list and a copy of each disk, so all disks show one moment. The copy
of a disk goes to a staging file; a change copy reads the change list it starts from and
leaves it as it is. The block nodes of the staging files are not kept here: a command on
them can fail at any time and changes nothing else.
-/
namespace FilePool.VMCopier

open UndoFormat UndoNames DurableSteps ReplicationNames ReplicationWorld ReplicationCalls

structure CopyDisk where
  volume : Name
  stagingFile : Name
  deriving DecidableEq, Repr

/-- A copy that was started; the controller keeps it between passes. -/
structure Copy where
  id : Name
  bitmap : Name
  base : Name
  incremental : Bool
  moment : Moment
  fileSystemConsistent : Bool
  disks : List CopyDisk
  deriving DecidableEq, Repr

inductive CopyProgress
  | running
  | done
  | failed
  | lost
  deriving DecidableEq, Repr

def qcow2 : Name := ['.', 'q', 'c', 'o', 'w', '2']

def stagingName (id : Name) : Name := stagingPrefix ++ id ++ qcow2

def cancelPolls : ℕ := 20

variable (pod : Name)

def queryBlock : WorldProg (List Disk) :=
  query (fun w =>
    match w.livePod pod with
    | none => .error .failed
    | some p => .ok p.disks)

def queryJobs : WorldProg (List CopyJob) :=
  query (fun w =>
    match w.livePod pod with
    | none => .error .failed
    | some p => .ok p.jobs)

def namedNodes : WorldProg Unit := ask

def deleteNode : WorldProg Unit := ask

def findDisk (devs : List Disk) (volume : Name) : Option Disk :=
  devs.find? (fun d => d.volume = volume)

def jobOf (jobs : List CopyJob) (id : Name) (i : ℕ) : Option CopyJob :=
  jobs.find? (fun j => j.id = id ∧ j.idx = i)

/-- The state of a copy from the jobs that QEMU has. A disk without a job means that QEMU
has no record of the copy. -/
def progressOf (jobs : List CopyJob) (id : Name) : ℕ → List CopyDisk → CopyProgress
  | _, [] => .done
  | i, _ :: ds =>
    match jobOf jobs id i with
    | none => .lost
    | some j =>
      match progressOf jobs id (i + 1) ds with
      | .lost => .lost
      | .failed => .failed
      | .running => if j.concluded && j.failed then .failed else .running
      | .done =>
        if j.concluded = false then .running else if j.failed then .failed else .done

/-- Remove the change lists that match on the disks of the volumes. -/
def removeBitmaps (volumes : List Name) (select : Name → Bool) : WorldProg Unit := do
  let devs ← queryBlock pod
  forEach (fun _ volume =>
    match findDisk devs volume with
    | none => return ()
    | some d => forEach (fun _ name => request (.removeList pod volume name)) 0
        ((d.lists.map ChangeList.name).filter select)) 0 volumes

def dismissEnded (jobs : List CopyJob) (id : Name) (i : ℕ) : WorldProg Unit :=
  match jobOf jobs id i with
  | none => return ()
  | some j => if j.concluded then request (.dismiss pod id i) else return ()

/-- Dismiss the job of one disk and close its staging file. -/
def release (jobs : List CopyJob) (id : Name) (i : ℕ) : WorldProg Unit := do
  dismissEnded pod jobs id i
  deleteNode

/-- A copy that will not reach the far site must not become a base. -/
def dropBitmap (cp : Copy) : WorldProg Unit :=
  if cp.bitmap = [] then return ()
  else removeBitmaps pod (cp.disks.map CopyDisk.volume) (fun n => n = cp.bitmap)

def removeStagingFiles (cp : Copy) : WorldProg Unit :=
  forAll (fun (d : CopyDisk) => request (.removeStaging pod d.volume d.stagingFile)) cp.disks

/-- Dismiss the copy's jobs, close its staging files and, if asked, remove its change
list and its staging files. -/
def cleanup (cp : Copy) (removeStaging : Bool) : WorldProg Unit := do
  let jobs ← queryJobs pod
  namedNodes
  forEach (fun i (_ : CopyDisk) => release pod jobs cp.id i) 0 cp.disks
  if removeStaging then do
    dropBitmap pod cp
    removeStagingFiles pod cp
  else return ()

def finish (cp : Copy) (removeStaging : Bool) : WorldProg Unit := cleanup pod cp removeStaging

/-- Remove the base of a copy that has reached the far site. -/
def commit (cp : Copy) : WorldProg Unit :=
  if cp.base = [] then return ()
  else removeBitmaps pod (cp.disks.map CopyDisk.volume) (fun n => n = cp.base)

def progress (cp : Copy) : WorldProg CopyProgress := do
  let jobs ← queryJobs pod
  return progressOf jobs cp.id 0 cp.disks

/-- Wait until the copy has stopped. -/
def awaitStop (cp : Copy) : ℕ → WorldProg Unit
  | 0 => return ()
  | n + 1 => do
    let st ← progress pod cp
    if st = .running then do
      ask
      awaitStop cp n
    else return ()

/-- Stop a running copy and delete its staging files. A job that has ended cannot be
cancelled, so a refusal is no error. -/
def cancel (cp : Copy) : WorldProg Unit := do
  forEach (fun i (_ : CopyDisk) => do
    let _ ← (request (.cancel pod cp.id i)).attempt
    return ()) 0 cp.disks
  awaitStop pod cp cancelPolls
  cleanup pod cp true

def checkIdle : WorldProg Unit := do
  let jobs ← queryJobs pod
  if jobs = [] then return () else Prog.fail .busy

/-- Delete the staging files and change lists that earlier replication copies left, but
for the list to keep. -/
def removeStale (volumes : List Name) (keep : Name) : WorldProg Unit := do
  checkIdle pod
  namedNodes
  deleteNode
  removeBitmaps pod volumes (fun n => ours n bitmapPrefix && n ≠ keep)
  forEach (fun _ volume => request (.removeAllStaging pod volume)) 0 volumes

/-- Every volume is a disk of the VM and has the base. -/
def checkDisks (devs : List Disk) (base : Name) : List Name → Except CallErr Unit
  | [] => .ok ()
  | v :: vs =>
    match findDisk devs v with
    | none => .error .failed
    | some d =>
      if base ≠ [] ∧ d.created base = none then .error .baseLost else checkDisks devs base vs

def targets (id : Name) (volumes : List Name) : List CopyTarget :=
  volumes.zipIdx.map (fun x => ⟨x.2, x.1, stagingName id⟩)

/-- Make the staging files, freeze the guest and start the copies in one transaction. -/
def startCopies (volumes : List Name) (id base : Name) : WorldProg Answer := do
  forEach (fun _ volume => do
    request (.createStaging pod volume (stagingName id))
    ask) 0 volumes
  call (.transaction pod id (bitmapPrefix ++ id) base (targets id volumes))

def newCopy (volumes : List Name) (id base : Name) (a : Answer) : Copy :=
  ⟨id, bitmapPrefix ++ id, base, base ≠ [], a.time, a.frozen,
    volumes.map (fun v => ⟨v, stagingName id⟩)⟩

def isCopyID (id : Name) : Bool :=
  id ≠ [] && id.length ≤ 16 && id.all (fun c => isLetter c)

/-- Start a copy of each volume at one moment, with a new change list on each disk. If a
disk lacks the base, nothing is done. -/
def start (volumes : List Name) (id base : Name) : WorldProg Copy :=
  if volumes = [] ∨ isCopyID id = false then Prog.fail .failed
  else do
    let devs ← queryBlock pod
    Prog.inspect (fun _ => checkDisks devs base volumes)
    let begun ← (startCopies pod volumes id base).attempt
    match begun with
    | .ok a => return newCopy volumes id base a
    | .error e => do
      let _ ← (cleanup pod (newCopy volumes id base Answer.plain) true).attempt
      Prog.fail e

end FilePool.VMCopier
