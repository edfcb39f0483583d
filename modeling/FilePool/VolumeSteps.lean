import FilePool.UndoFormat
import FilePool.UndoNames
import FilePool.UndoWriter

/-!
The folder that holds a far-site disk, and the durable steps that the driver
makes in it: the disk, the undo folder, the moment file, the lease, the upload
sessions, and the staging file of a direct copy. A stop inside a step leaves
what its docstring says; every other step is atomic. Writes to the disk reach
the share only with the sync at their end, so a stop can leave any of them, or
a piece of one.
-/
namespace FilePool.VolumeSteps

open ByteFiles UndoLog CopyChunks UndoFormat UndoNames DurableSteps

/-- The file disk.img with its modification time in nanoseconds. -/
structure DiskFile where
  bytes : Bytes
  mtime : ℤ
  regular : Bool
  deriving DecidableEq, Repr

inductive UndoDir
  | missing
  | notFolder
  | folder (entries : List (Name × Bytes))
  deriving DecidableEq, Repr

/-- The moment file; the last two fields seal the disk as a copy left it. -/
structure MomentFile where
  moment : Moment
  vmGroup : Name
  diskMtimeNs : ℤ
  diskSize : ℕ
  deriving DecidableEq, Repr

/-- The moment a disk shows, as the receiver writes it for the sender. -/
inductive DiskMoment
  | none
  | unknown
  | at (t : Moment)
  deriving DecidableEq, Repr

/-- An upload folder. The base is the moment at the last compare call; a base
that was only partly written equals no moment. -/
structure Session where
  manifest : Option Bytes
  data : Option Bytes
  base : Option (Option DiskMoment)
  mtime : ℤ
  deriving DecidableEq, Repr

/-- The state on the share. A moment file or a lease of none inside is not readable. -/
structure Volume where
  disk : Option DiskFile
  newDisk : Option Bytes
  undo : UndoDir
  momentFile : Option (Option MomentFile)
  lease : Option (Option Moment)
  incoming : List (Name × Session)
  staging : Option CopySource
  deriving DecidableEq, Repr

def Volume.empty : Volume := ⟨none, none, .missing, none, none, [], none⟩

namespace UndoDir

def entries : UndoDir → List (Name × Bytes)
  | .folder es => es
  | _ => []

/-- Make the folder if it is missing. -/
def make : UndoDir → UndoDir
  | .missing => .folder []
  | d => d

def update (f : List (Name × Bytes) → List (Name × Bytes)) : UndoDir → UndoDir
  | .folder es => .folder (f es)
  | d => d

end UndoDir

def removeEntry (name : Name) (es : List (Name × Bytes)) : List (Name × Bytes) :=
  es.filter (fun e => e.1 ≠ name)

def renameEntry (old new : Name) (es : List (Name × Bytes)) : List (Name × Bytes) :=
  (removeEntry new es).map (fun e => if e.1 = old then (new, e.2) else e)

/-- Change the disk; a run without a change leaves its modification time. -/
def DiskFile.change (cs : List Change) (mtime : ℤ) (d : DiskFile) : DiskFile :=
  if cs = [] then d else { d with bytes := applyChanges cs d.bytes, mtime := mtime }

/-- A new file in a folder sets the folder's modification time. -/
def Session.createManifest (now : ℤ) (s : Session) : Session :=
  match s.manifest with
  | some _ => s
  | none => { s with manifest := some [], mtime := now }

def Session.createData (now : ℤ) (s : Session) : Session :=
  match s.data with
  | some _ => s
  | none => { s with data := some [], mtime := now }

def Session.writeBase (base : Option DiskMoment) (now : ℤ) (s : Session) : Session :=
  match s.base with
  | some _ => { s with base := some base }
  | none => { s with base := some base, mtime := now }

def Session.cut (size : ℕ) (s : Session) : Session :=
  { s with manifest := s.manifest.map (List.take size) }

def Session.append (data manifest : Bytes) (s : Session) : Session :=
  { s with data := s.data.map (fun b => b ++ data)
           manifest := s.manifest.map (fun b => b ++ manifest) }

/-- A session whose folder was being removed. -/
def Session.keepOnly (manifest data base : Bool) (mtime : ℤ) (s : Session) : Session :=
  { manifest := if manifest then s.manifest else none
    data := if data then s.data else none
    base := if base then s.base else none
    mtime := mtime }

def Volume.onSession (id : Name) (f : Session → Session) (v : Volume) : Volume :=
  { v with incoming := v.incoming.map (fun s => if s.1 = id then (s.1, f s.2) else s) }

inductive Step
  | makeUndoDir
  | putUndo (name : Name) (content : Bytes)
  | renameUndo (old new : Name)
  | removeUndo (name : Name)
  | changeDisk (cs : List Change) (mtime : ℤ)
  | removeNew
  | writeNew (content : Bytes)
  | placeNew (mtime : ℤ)
  | writeMoment (mf : MomentFile)
  | writeLease (expires : Moment)
  | removeLease
  | removeStaging
  | makeSession (id : Name) (now : ℤ)
  | removeSession (id : Name)
  | cutManifest (id : Name) (size : ℕ)
  | createManifest (id : Name) (now : ℤ)
  | createData (id : Name) (now : ℤ)
  | store (id : Name) (records : List (Bytes × Bytes)) (flushed : ℕ)
  | writeBase (id : Name) (base : DiskMoment) (now : ℤ)
  deriving DecidableEq, Repr

/-- The state after a whole step. -/
def Step.apply : Step → Volume → Volume
  | .makeUndoDir, v => { v with undo := v.undo.make }
  | .putUndo name content, v =>
    { v with undo := v.undo.update (fun es => es ++ [(name, content)]) }
  | .renameUndo old new, v => { v with undo := v.undo.update (renameEntry old new) }
  | .removeUndo name, v => { v with undo := v.undo.update (removeEntry name) }
  | .changeDisk cs mtime, v => { v with disk := v.disk.map (DiskFile.change cs mtime) }
  | .removeNew, v => { v with newDisk := none }
  | .writeNew content, v => { v with newDisk := some content }
  | .placeNew mtime, v =>
    { v with disk := v.newDisk.map (fun b => ⟨b, mtime, true⟩), newDisk := none }
  | .writeMoment mf, v => { v with momentFile := some (some mf) }
  | .writeLease expires, v => { v with lease := some (some expires) }
  | .removeLease, v => { v with lease := none }
  | .removeStaging, v => { v with staging := none }
  | .makeSession id now, v =>
    if v.incoming.any (fun s => s.1 = id) then v
    else { v with incoming := v.incoming ++ [(id, ⟨none, none, none, now⟩)] }
  | .removeSession id, v => { v with incoming := v.incoming.filter (fun s => s.1 ≠ id) }
  | .cutManifest id size, v => v.onSession id (Session.cut size)
  | .createManifest id now, v => v.onSession id (Session.createManifest now)
  | .createData id now, v => v.onSession id (Session.createData now)
  | .store id records flushed, v =>
    v.onSession id (Session.append (records.flatMap Prod.fst)
      ((records.flatMap Prod.snd).take flushed))
  | .writeBase id base now, v => v.onSession id (Session.writeBase (some base) now)

/-- What a stop inside a step can leave. A file that is being written is cut
off somewhere. The data of a record is synced before the record is written, so
the record file never gets ahead of the data. A folder that is being removed
has lost some of its files. -/
def Step.Torn : Step → Volume → Volume → Prop
  | .putUndo name content, v, v' => ∃ k, v' = (Step.putUndo name (content.take k)).apply v
  | .changeDisk cs mtime, v, v' =>
    ∃ ds, (∀ d ∈ ds, ∃ c ∈ cs, Piece d c) ∧ v' = (Step.changeDisk ds mtime).apply v
  | .writeNew _, v, v' => ∃ content, v' = { v with newDisk := some content }
  | .store id records _, v, v' =>
    ∃ j k n, v' = v.onSession id (Session.append
      ((records.take j).flatMap Prod.fst ++ ((records.drop j).flatMap Prod.fst).take k)
      (((records.take j).flatMap Prod.snd).take n))
  | .writeBase id _ now, v, v' => v' = v.onSession id (Session.writeBase none now)
  | .removeSession id, v, v' =>
    ∃ manifest data base mtime, v' = v.onSession id (Session.keepOnly manifest data base mtime)
  | _, _, _ => False

def device : Device Volume Step := ⟨Step.apply, Step.Torn⟩

inductive Err
  | notExist
  | notRegular
  | undoNotFolder
  | undoExists (name : Name)
  | undo (name : Name) (e : UndoError)
  | momentUnreadable
  | copy (e : CopyError)
  | noRestorePoint (t : Moment)
  | outExists
  | copyInProgress
  | diskModified
  | noBackup (asked : Moment) (oldest : Moment)
  | negativeOffset
  | diskChanged
  | readingUndo
  | tooManyUndoFiles
  | tooManyLayers (n : ℕ)
  | beforeAllPoints (oldest : Moment)
  | brokenChain (name : Name)
  | badRecord
  | pastLimit (off : ℕ)
  | badCompareList
  | outOfRange (off : ℕ)
  | sizeAndToRequired
  | tooLarge (size : ℤ)
  | conflict (shown : DiskMoment)
  | compareStale
  | recordsOverlap (off : ℕ)
  | pastEnd (off : ℕ)
  | pastOldEnd (off : ℕ)
  | readingStored (off : ℕ)
  | digestMismatch
  deriving DecidableEq, Repr

abbrev VolProg (α : Type) := Prog device Err α

/-- The disk's file; it must be a regular file. -/
def diskInfo (v : Volume) : Except Err DiskFile :=
  match v.disk with
  | none => .error .notExist
  | some d => if d.regular then .ok d else .error .notRegular

/-- The names in the undo folder; a missing folder is empty. -/
def undoEntries (v : Volume) : Except Err (List (Name × Bytes)) :=
  match v.undo with
  | .missing => .ok []
  | .notFolder => .error .undoNotFolder
  | .folder es => .ok es

end FilePool.VolumeSteps
