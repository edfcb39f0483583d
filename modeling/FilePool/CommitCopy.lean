import FilePool.SessionAge

/-!
The commit of an upload. The receiver rolls back an earlier copy, checks that
the copy starts from the moment the disk shows and that the stored records fit
the digest, applies them as one copy, and records the new moment. A record that
was noted as equal is read from the disk itself. The lease is removed however
the commit ends.
-/
namespace FilePool.CommitCopy

open ByteFiles BigEndian CopyChunks UndoFormat UndoNames VolumeSteps DurableSteps DurableSteps.Prog
  UndoFolder DiskMoments ApplyCopy UploadSessions

structure CommitRequest (δ : Type) where
  size : ℤ
  fromMoment : Option Moment
  toMoment : Moment
  full : Bool
  digest : δ
  vmGroup : Name
  keepSeconds : ℤ
  deriving DecidableEq, Repr

structure CommitResponse where
  changedBytes : ℕ
  rolledBack : Bool
  restorePoints : ℕ
  oldestRestorePoint : Option Moment
  restorePointMoments : List Moment
  deriving DecidableEq, Repr

/-- What a digest adds for a record. -/
def encodeRecord (r : UploadRecord) : Bytes :=
  if r.zero then 1 :: (bigEndian 8 r.off ++ bigEndian 4 r.len)
  else 0 :: (bigEndian 8 r.off ++ (bigEndian 4 r.data.length ++ r.data))

variable {δ : Type} [DecidableEq δ] (hash : Bytes → δ)

def uploadDigest (rs : List UploadRecord) : δ := hash (rs.flatMap encodeRecord)

/-- The records that the digest is over, read from the data file. -/
def storedRecords (data : Bytes) : List Seg → Except Err (List UploadRecord)
  | [] => .ok []
  | s :: segs =>
    match s.kind with
    | .same => storedRecords data segs
    | .zero => do
      let rs ← storedRecords data segs
      return ⟨s.off, true, s.length, []⟩ :: rs
    | .data =>
      if s.pos + s.length ≤ data.length then do
        let rs ← storedRecords data segs
        return ⟨s.off, false, s.length, readAt data s.pos s.length⟩ :: rs
      else .error (.readingStored s.off)

/-- Recompute the digest from what is stored. -/
def checkDigest (data : Bytes) (segs : List Seg) (want : δ) : Except Err Unit := do
  let rs ← storedRecords data segs
  if uploadDigest hash rs = want then .ok () else .error .digestMismatch

def sortSegs (segs : List Seg) : List Seg := segs.insertionSort (fun s t => s.off ≤ t.off)

/-- The records are apart, inside the disk, and equal ranges inside the old disk. The end of
a record is a signed 64-bit sum. -/
def checkSegs (size oldSize : ℕ) : ℤ → List Seg → Except Err Unit
  | _, [] => .ok ()
  | fin, s :: segs =>
    if s.off < fin then .error (.recordsOverlap s.off)
    else if size < wrap (s.off + s.length) then .error (.pastEnd s.off)
    else if s.kind = .same ∧ oldSize < wrap (s.off + s.length) then .error (.pastOldEnd s.off)
    else checkSegs size oldSize (wrap (s.off + s.length)) segs

def segExtent (data disk : Bytes) (s : Seg) : Extent :=
  match s.kind with
  | .data => ⟨s.off, s.length, .data, readAt data s.pos s.length⟩
  | .zero => ⟨s.off, s.length, .zero, []⟩
  | .same => ⟨s.off, s.length, .data, readAt disk s.off s.length⟩

/-- The stored records as a copy. -/
def receivedCopy (size : ℕ) (data disk : Bytes) (segs : List Seg) : CopySource :=
  ⟨size, segs.map (segExtent data disk)⟩

/-- The disk, if there is one. -/
def commitDisk (v : Volume) : Except Err (Option DiskFile) :=
  match diskInfo v with
  | .ok d => .ok (some d)
  | .error .notExist => .ok none
  | .error e => .error e

/-- Whether the copy does not start from the moment the disk shows. The first
argument is none for no disk, else the moment if it is known. -/
def wrongBase {δ : Type} (cur : Option (Option Moment)) (req : CommitRequest δ) : Bool :=
  match cur, req.fromMoment with
  | none, some _ => true
  | none, none => !req.full
  | some known, none => known.isSome || !req.full
  | some known, some t => known ≠ some t

/-- The moment that a refused sender is told. -/
def shownMoment (v : Volume) : DiskMoment :=
  match baseMoment v with
  | .ok m => m
  | .error _ => .unknown

/-- A compare answer holds only while the disk is the same. -/
def checkBase (id : Name) (v : Volume) : Except Err Unit :=
  match (findSession v id).bind Session.base with
  | none => .ok ()
  | some saved => do
    let now ← baseMoment v
    if saved = some now then .ok () else .error .compareStale

/-- The data file; without records there need not be one. -/
def stagingData (id : Name) (segs : List Seg) (v : Volume) : Except Err Bytes :=
  match (findSession v id).bind Session.data with
  | some data => .ok data
  | none => if segs = [] then .ok [] else .error .notExist

/-- The restore point made from a disk whose moment is not known is dated at
the epoch. -/
def commitOptions {δ : Type} (req : CommitRequest δ) (disk : Option DiskFile) (now : Moment) :
    ApplyOptions where
  fromMoment :=
    match req.fromMoment with
    | some t => t
    | none => if disk.isSome then 0 else zeroTime
  toMoment := req.toMoment
  full := req.full
  keep := wrap (req.keepSeconds * 1000000000)
  now := now

def diskBytes (disk : Option DiskFile) : Bytes :=
  match disk with
  | some d => d.bytes
  | none => []

/-- The checks after the roll back; they give the copy to apply. An upload that
does not fit its digest is removed. -/
def checkCommit (id : Name) (req : CommitRequest δ) (now : Moment) :
    VolProg (CopySource × ApplyOptions) := do
  let disk ← Prog.inspect commitDisk
  let cur ← Prog.inspect (fun v => if disk.isSome then (moment v).map some else .ok none)
  Prog.inspect (fun v => if wrongBase cur req then .error (.conflict (shownMoment v)) else .ok ())
  Prog.inspect (checkBase id)
  let stored ← loadSession id
  Prog.inspect (fun _ =>
    checkSegs req.size.toNat (diskBytes disk).length 0 (sortSegs stored))
  let data ← Prog.inspect (stagingData id (sortSegs stored))
  match checkDigest hash data (sortSegs stored) req.digest with
  | .error e => do
    Prog.perform (.removeSession id)
    Prog.fail e
  | .ok _ =>
    return (receivedCopy req.size.toNat data (diskBytes disk) (sortSegs stored),
      commitOptions req disk now)

/-- The end of a commit whose copy is applied. -/
def recordCommit (id : Name) (req : CommitRequest δ) (res : ApplyResult) :
    VolProg CommitResponse := do
  writeMomentFile ⟨req.toMoment, req.vmGroup, 0, 0⟩
  Prog.perform (.removeSession id)
  match ← Prog.inspect (fun v => .ok (restorePoints v)) with
  | .ok points =>
    return ⟨res.changedBytes, res.rolledBack, points.length, points.head?, points⟩
  | .error _ => return ⟨res.changedBytes, res.rolledBack, 0, none, []⟩

/-- The commit up to the copy. -/
def prepareCommit (id : Name) (req : CommitRequest δ) (now : Moment) (stamp : ℤ) :
    VolProg (CopySource × ApplyOptions) := do
  let _ ← recover stamp
  checkCommit hash id req now

/-- The commit under its lease. -/
def applyCommit (id : Name) (req : CommitRequest δ) (now : Moment) (stamp : ℤ) (st : Stamps) :
    VolProg CommitResponse := do
  let x ← prepareCommit hash id req now stamp
  let res ← applyCopy x.1 x.2 st
  recordCommit id req res

/-- One hour. -/
def leaseTTL : ℤ := 3600000000000

def commit (limit : ℕ) (id : Name) (req : CommitRequest δ) (now : Moment) (stamp : ℤ)
    (st : Stamps) : VolProg CommitResponse :=
  if req.size ≤ 0 ∨ req.toMoment = zeroTime then Prog.fail .sizeAndToRequired
  else if limit < req.size then Prog.fail (.tooLarge req.size)
  else do
    Prog.perform (.writeLease (now + leaseTTL))
    let r ← (applyCommit hash id req now stamp st).attempt
    Prog.perform .removeLease
    Prog.inspect (fun _ => r)

end FilePool.CommitCopy
