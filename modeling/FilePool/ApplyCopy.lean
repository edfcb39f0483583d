import FilePool.DiskMoments

/-!
The programs that change a far-site disk: the roll back of a copy that stopped
half way, the copy itself, and the pruning of restore points. The times that
the file system stamps on the disk are arguments of each program.
-/
namespace FilePool.ApplyCopy

open ByteFiles UndoLog CopyChunks UndoWriter UndoFormat UndoNames VolumeSteps DurableSteps
  UndoFolder DiskMoments

/-- The modification times of the disk after a roll back and after a copy. -/
structure Stamps where
  rollBack : ℤ
  write : ℤ
  deriving DecidableEq, Repr

structure ApplyOptions where
  fromMoment : Moment
  toMoment : Moment
  full : Bool
  keep : ℤ
  now : Moment
  deriving DecidableEq, Repr

structure ApplyResult where
  changedBytes : ℕ
  rolledBack : Bool
  deriving DecidableEq, Repr

def parse (u : Name × Bytes) : Except Err (UndoHeader × List UndoRecord) :=
  (parseUndo u.2).mapError (Err.undo u.1)

/-- Take the disk itself back by an undo file and remove the file. -/
def rollBackBy (u : Name × Bytes) (stamp : ℤ) : VolProg Unit := do
  let _ ← Prog.inspect diskInfo
  let (h, rs) ← Prog.inspect (fun _ => parse u)
  Prog.perform (.changeDisk (rollBackChanges (rs.map UndoRecord.patch) h.oldSize.toNat) stamp)
  Prog.perform (.removeUndo u.1)

def recoverEntries (stamp : ℤ) : List (Name × Bytes) → Bool → VolProg Bool
  | [], rolled => return rolled
  | e :: es, rolled =>
    if hasSuffix e.1 undoPart then do
      Prog.perform (.removeUndo e.1)
      recoverEntries stamp es rolled
    else if hasSuffix e.1 undoReady then do
      rollBackBy e stamp
      recoverEntries stamp es true
    else recoverEntries stamp es rolled

/-- Roll the disk back if a copy stopped while it changed the disk, and delete
undo files that were never completed. -/
def recover (stamp : ℤ) : VolProg Bool := do
  let es ← Prog.inspect undoEntries
  let rolled ← recoverEntries stamp es false
  if rolled then reseal
  return rolled

/-- The data that a new disk is written from; only data extents are written. -/
def newDiskBytes (src : CopySource) : Bytes :=
  applyPatches ((src.extents.filter (fun e => e.kind = .data)).map
    (fun e => ⟨e.offset, e.reader⟩)) (List.replicate src.size 0)

def dataLength (src : CopySource) : ℕ :=
  ((src.extents.filter (fun e => e.kind = .data)).map (fun e => e.reader.length)).sum

/-- Make a new disk from a copy, in one step. -/
def writeNewDiskFrom (src : CopySource) (stamp : ℤ) : VolProg ℕ := do
  Prog.perform .removeNew
  Prog.perform (.writeNew (newDiskBytes src))
  Prog.perform (.placeNew stamp)
  return dataLength src

def undoHeader (opts : ApplyOptions) (oldSize newSize : ℕ) : UndoHeader :=
  ⟨opts.fromMoment, opts.toMoment, oldSize, newSize⟩

/-- Write the undo file for a copy and return the chunks of the copy. -/
def writeUndo (name : Name) (src : CopySource) (old : Bytes) (opts : ApplyOptions) :
    VolProg (List Patch) := do
  let es ← Prog.inspect undoEntries
  if es.any (fun e => e.1 = name) then Prog.fail (.undoExists name)
  else
    match forEachNewChunk src opts.full with
    | .error e => do
      Prog.perform (.putUndo name (encodeHeader (undoHeader opts old.length src.size)))
      Prog.perform (.removeUndo name)
      Prog.fail (.copy e)
    | .ok cs => do
      Prog.perform (.putUndo name
        (encodeUndo (undoHeader opts old.length src.size) (undoRecords old cs)))
      return cs

def makeUndoDir : VolProg Unit := do
  let _ ← Prog.inspect undoEntries
  Prog.perform .makeUndoDir

/-- Delete, oldest first, the undo files of copies made before the cutoff. -/
def pruneFiles (cutoff : Moment) : List UndoFile → VolProg Unit
  | [] => return ()
  | u :: us =>
    if u.hdr.toMoment < cutoff then do
      Prog.perform (.removeUndo u.name)
      pruneFiles cutoff us
    else return ()

def pruneUndo (cutoff : Moment) : VolProg Unit := do
  let files ← Prog.inspect appliedUndo
  pruneFiles cutoff files

/-- The stem of the next undo file's name. -/
def nextBase (es : List (Name × Bytes)) : Name := seqName (nextUndoSeq (es.map Prod.fst))

/-- Change a disk that exists: save, change, mark. -/
def changeDisk (src : CopySource) (opts : ApplyOptions) (stamp : ℤ) (d : DiskFile) :
    VolProg ℕ := do
  makeUndoDir
  let es ← Prog.inspect undoEntries
  let cs ← writeUndo (nextBase es ++ undoPart) src d.bytes opts
  Prog.perform (.renameUndo (nextBase es ++ undoPart) (nextBase es ++ undoReady))
  Prog.perform (.changeDisk (diskChanges d.bytes src.size cs) stamp)
  Prog.perform (.renameUndo (nextBase es ++ undoReady) (nextBase es ++ undoApplied))
  return (changedOffsets d.bytes src.size cs).length * compareChunk

/-- Write the copy; the flag says whether there was a disk to change. -/
def writeCopy (src : CopySource) (opts : ApplyOptions) (stamp : ℤ) : VolProg (ℕ × Bool) := do
  match ← Prog.inspect (fun v => .ok v.disk) with
  | none => do
    let n ← writeNewDiskFrom src stamp
    return (n, false)
  | some _ => do
    let d ← Prog.inspect diskInfo
    let n ← changeDisk src opts stamp d
    return (n, true)

/-- The pruning at the end of a copy; zero keeps all restore points. -/
def pruneFor (opts : ApplyOptions) (changed : Bool) : VolProg Unit :=
  if changed ∧ 0 < opts.keep then pruneUndo (opts.now - opts.keep) else return ()

/-- The copy without the pruning at its end. -/
def applyUnpruned (src : CopySource) (opts : ApplyOptions) (st : Stamps) :
    VolProg (ApplyResult × Bool) := do
  let rolled ← recover st.rollBack
  let (n, changed) ← writeCopy src opts st.write
  return (⟨n, rolled⟩, changed)

/-- Write a staged copy into the disk so that it is never left half changed.
If there is no disk yet, it is made in one step without a restore point. -/
def applyCopy (src : CopySource) (opts : ApplyOptions) (st : Stamps) : VolProg ApplyResult := do
  let (res, changed) ← applyUnpruned src opts st
  pruneFor opts changed
  return res

/-- Write a disk as it was at a restore point; the result is the new file. -/
def rewind (t : Moment) (outExists : Bool) (stamp : ℤ) : VolProg Bytes := do
  let _ ← recover stamp
  let files ← Prog.inspect appliedUndo
  match filesFrom t files with
  | none => Prog.fail (.noRestorePoint t)
  | some files => do
    let d ← Prog.inspect diskInfo
    if outExists then Prog.fail .outExists
    else Prog.inspect (fun _ => rewindFiles files d.bytes)

/-- Whether the disk already shows the copy that the options describe. -/
def copyApplied (v : Volume) (opts : ApplyOptions) : Except Err Bool :=
  match diskInfo v with
  | .error .notExist => .ok false
  | .error e => .error e
  | .ok _ => do
    let files ← appliedUndo v
    if files.any (fun u => u.hdr.toMoment = opts.toMoment) then return true
    else if opts.fromMoment ≠ zeroTime then return false
    else do
      let es ← undoEntries v
      return es = []

end FilePool.ApplyCopy
