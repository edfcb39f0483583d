import FilePool.ApplyCopy

/-!
The upload sessions of the receiver. A session is a folder with a record file
and a data file. Each record of the record file names a range of the disk: data
in the data file, zeros, or a range that equals the far-site disk. Records are
only appended; for one offset the last record counts. A stop can cut off the
end of the record file, which the next call cuts back to whole records before
it appends.
-/
namespace FilePool.UploadSessions

open ByteFiles BigEndian CopyChunks UndoNames VolumeSteps DurableSteps DiskMoments

inductive SegKind
  | data
  | zero
  | same
  deriving DecidableEq, Repr

/-- One record of a session; pos is its place in the data file. -/
structure Seg where
  kind : SegKind
  off : ℕ
  length : ℕ
  pos : ℕ
  deriving DecidableEq, Repr

def manifestEntrySize : ℕ := 21

def SegKind.code : SegKind → UInt8
  | .data => 0
  | .zero => 1
  | .same => 2

def SegKind.ofCode (x : UInt8) : Option SegKind :=
  if x = 0 then some .data
  else if x = 1 then some .zero
  else if x = 2 then some .same
  else none

def appendSeg (s : Seg) : Bytes :=
  s.kind.code :: (bigEndian 8 s.off ++ (bigEndian 4 s.length ++ bigEndian 8 s.pos))

/-- Read one entry; none is an entry that appendSeg cannot have written. -/
def readSeg (buf : Bytes) : Option Seg :=
  let off := toSigned (ofBigEndian (readAt buf 1 8))
  let length := ofBigEndian (readAt buf 9 4)
  let pos := toSigned (ofBigEndian (readAt buf 13 8))
  match SegKind.ofCode (byteAt buf 0) with
  | none => none
  | some kind =>
    if 0 ≤ off ∧ 0 ≤ pos ∧ 0 < length ∧ length ≤ compareChunk then
      some ⟨kind, off.toNat, length, pos.toNat⟩
    else none

/-- The records by offset, at most one for each; a later one replaces it. -/
def putSeg (segs : List Seg) (s : Seg) : List Seg := segs.filter (fun x => x.off ≠ s.off) ++ [s]

/-- An entry whose data is not in the data file is dropped. -/
def Seg.dropped (dataSize : ℕ) (s : Seg) : Prop :=
  s.kind = .data ∧ (dataSize : ℤ) < wrap (s.pos + s.length)

instance (dataSize : ℕ) (s : Seg) : Decidable (s.dropped dataSize) :=
  inferInstanceAs (Decidable (s.kind = .data ∧ (dataSize : ℤ) < wrap (s.pos + s.length)))

/-- Read entries up to the first one that cannot be right, and count the bytes
before it. -/
def loadEntries (dataSize : ℕ) : ℕ → Bytes → ℕ → List Seg → ℕ × List Seg
  | 0, _, good, segs => (good, segs)
  | fuel + 1, rest, good, segs =>
    if rest.length < manifestEntrySize then (good, segs)
    else
      match readSeg (rest.take manifestEntrySize) with
      | none => (good, segs)
      | some s =>
        loadEntries dataSize fuel (rest.drop manifestEntrySize) (good + manifestEntrySize)
          (if s.dropped dataSize then segs else putSeg segs s)

def findSession (v : Volume) (id : Name) : Option Session :=
  (v.incoming.find? (fun s => s.1 = id)).map Prod.snd

def dataSize (s : Session) : ℕ := (s.data.getD []).length

def loadManifest (s : Session) (manifest : Bytes) : ℕ × List Seg :=
  loadEntries (dataSize s) (manifest.length + 1) manifest 0 []

/-- Read what is stored for the copy and cut off a damaged end. -/
def loadSession (id : Name) : VolProg (List Seg) := do
  match ← Prog.inspect (fun v => .ok (findSession v id)) with
  | none => return []
  | some s =>
    match s.manifest with
    | none => return []
    | some manifest =>
      if manifest.length ≠ (loadManifest s manifest).1 then do
        Prog.perform (.cutManifest id (loadManifest s manifest).1)
        return (loadManifest s manifest).2
      else return (loadManifest s manifest).2

/-- Open the session for appending, after a damaged end is cut off. -/
def openSession (id : Name) (now : ℤ) : VolProg Unit := do
  Prog.perform (.makeSession id now)
  let _ ← loadSession id
  Prog.perform (.createManifest id now)
  Prog.perform (.createData id now)

/-- One chunk of an upload: data, or a run of zeros. -/
structure UploadRecord where
  off : ℕ
  zero : Bool
  len : ℕ
  data : Bytes
  deriving DecidableEq, Repr

/-- The checks of the reader of one record. -/
def UploadRecord.readable (r : UploadRecord) : Bool :=
  decide (r.off ≤ 2 ^ 62 ∧ 0 < r.len ∧ r.len ≤ compareChunk) &&
    (r.zero || decide (r.data.length = r.len))

/-- What the request holds, and whether it ends cleanly. -/
structure UploadBody where
  records : List UploadRecord
  clean : Bool
  deriving DecidableEq, Repr

/-- The records before the first one that is refused, and the refusal. -/
def acceptRecords (limit : ℕ) : List UploadRecord → List UploadRecord × Option Err
  | [] => ([], none)
  | r :: rs =>
    if !r.readable then ([], some .badRecord)
    else if limit < r.off + r.len then ([], some (.pastLimit r.off))
    else (r :: (acceptRecords limit rs).1, (acceptRecords limit rs).2)

/-- The records with their places in the data file, which grows from pos. -/
def placeRecords : ℕ → List UploadRecord → List (Seg × Bytes)
  | _, [] => []
  | pos, r :: rs =>
    if r.zero then (⟨.zero, r.off, r.len, 0⟩, []) :: placeRecords pos rs
    else (⟨.data, r.off, r.len, pos⟩, r.data) :: placeRecords (pos + r.len) rs

def bufferSize : ℕ := 1048576

/-- What a buffered writer of entries has written out before its last flush. -/
def writtenOut (total : ℕ) : ℕ := (total - 1) / bufferSize * bufferSize

/-- Append the records: the data first, then the entry. After a refusal the
entries that are still in the buffer are lost. -/
def storeRecords (id : Name) (rs : List (Seg × Bytes)) (refused : Bool) : VolProg Unit :=
  Prog.perform (.store id (rs.map (fun x => (x.2, appendSeg x.1)))
    (if refused then writtenOut (rs.length * manifestEntrySize)
    else rs.length * manifestEntrySize))

def uploadRefusal (limit : ℕ) (body : UploadBody) : Option Err :=
  match (acceptRecords limit body.records).2 with
  | some e => some e
  | none => if body.clean then none else some .badRecord

/-- Store records. A record sent twice is stored twice. -/
def upload (limit : ℕ) (id : Name) (body : UploadBody) (now : ℤ) : VolProg Unit := do
  openSession id now
  let pos ← Prog.inspect (fun v => .ok ((findSession v id).elim 0 dataSize))
  storeRecords id (placeRecords pos (acceptRecords limit body.records).1)
    (uploadRefusal limit body).isSome
  match uploadRefusal limit body with
  | some e => Prog.fail e
  | none => return ()

/-- The moment the disk shows, as the sender is told. -/
def baseMoment (v : Volume) : Except Err DiskMoment :=
  match diskInfo v with
  | .error .notExist => .ok .none
  | .error e => .error e
  | .ok _ => do
    match ← moment v with
    | none => return .unknown
    | some t => return .at t

structure StatusResponse where
  offsets : List ℕ
  diskMoment : DiskMoment
  deriving DecidableEq, Repr

/-- The offsets of the data records stored so far. -/
def status (id : Name) : VolProg StatusResponse := do
  let segs ← loadSession id
  let shown ← Prog.inspect baseMoment
  return ⟨((segs.filter (fun s => s.kind = .data)).map Seg.off).mergeSort, shown⟩

/-- One chunk of a full copy, for the receiver to compare. -/
structure CompareEntry (δ : Type) where
  off : ℕ
  len : ℕ
  zero : Bool
  hash : δ
  deriving DecidableEq, Repr

/-- What the request holds, and whether it ends cleanly. -/
structure CompareBody (δ : Type) where
  entries : List (CompareEntry δ)
  clean : Bool
  deriving DecidableEq, Repr

variable {δ : Type} [DecidableEq δ] (hash : Bytes → δ)

/-- What a chunk of the sender is for the disk: zeros, equal, or different. -/
def compareKind (disk : Option Bytes) (e : CompareEntry δ) : Option SegKind :=
  if e.zero then some .zero
  else
    match disk with
    | none => none
    | some b =>
      if e.off + e.len ≤ b.length ∧ hash (readAt b e.off e.len) = e.hash then some .same else none

/-- The noted records and the offsets that differ, up to the first entry that is
refused. -/
def compareEntries (limit : ℕ) (disk : Option Bytes) :
    List (CompareEntry δ) → List Seg × List ℕ × Option Err
  | [] => ([], [], none)
  | e :: es =>
    if 2 ^ 62 < e.off then ([], [], some .badCompareList)
    else if e.len = 0 ∨ compareChunk < e.len ∨ limit < e.off + e.len then
      ([], [], some (.outOfRange e.off))
    else
      match compareKind hash disk e with
      | some kind => (⟨kind, e.off, e.len, 0⟩ :: (compareEntries limit disk es).1,
          (compareEntries limit disk es).2)
      | none => ((compareEntries limit disk es).1,
          e.off :: (compareEntries limit disk es).2.1, (compareEntries limit disk es).2.2)

def compareRefusal (limit : ℕ) (disk : Option Bytes) (body : CompareBody δ) : Option Err :=
  match (compareEntries hash limit disk body.entries).2.2 with
  | some e => some e
  | none => if body.clean then none else some .badCompareList

/-- The disk that chunks are compared with. -/
def comparedDisk (v : Volume) : Option Bytes :=
  match diskInfo v with
  | .ok d => some d.bytes
  | .error _ => none

/-- Note the chunks of a full copy that are zeros or equal the disk, and answer
which ones differ. -/
def compare (limit : ℕ) (id : Name) (body : CompareBody δ) (now stamp : ℤ) :
    VolProg (List ℕ × DiskMoment) := do
  let _ ← ApplyCopy.recover stamp
  let base ← Prog.inspect baseMoment
  let disk ← Prog.inspect (fun v => .ok (comparedDisk v))
  openSession id now
  storeRecords id ((compareEntries hash limit disk body.entries).1.map (fun s => (s, [])))
    (compareRefusal hash limit disk body).isSome
  match compareRefusal hash limit disk body with
  | some e => Prog.fail e
  | none => do
    Prog.perform (.writeBase id base now)
    return ((compareEntries hash limit disk body.entries).2.1, base)

/-- Remove the upload folders with a modification time of age or more ago. -/
def removeSessions (age now : ℤ) : List (Name × Session) → VolProg Unit
  | [] => return ()
  | s :: ss =>
    if now - s.2.mtime < age then removeSessions age now ss
    else do
      Prog.perform (.removeSession s.1)
      removeSessions age now ss

def removeOldUploads (age now : ℤ) : VolProg Unit := do
  let ss ← Prog.inspect (fun v => .ok v.incoming)
  removeSessions age now ss

/-- One day. -/
def incomingMaxAge : ℤ := 86400000000000

end FilePool.UploadSessions
