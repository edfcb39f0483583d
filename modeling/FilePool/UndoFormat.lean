import FilePool.BigEndian
import FilePool.CopyChunks
import FilePool.DurableSteps

/-!
The undo file: a header with two moments and two sizes, the records of the
changed chunks, and a trailer with their number. The reader checks the header,
then hands each record to a function as it is read, and checks the trailer last.
It accepts what the writer makes, up to the width of its 64-bit words, and what
it accepts has its records inside the old size and their bytes in the file.
-/
namespace FilePool.UndoFormat

open ByteFiles BigEndian UndoLog CopyChunks DurableSteps List

/-- A time in nanoseconds from the Unix epoch. -/
abbrev Moment := ℤ

def undoMagic : Bytes := [82, 69, 80, 76, 85, 78, 68, 49]

def undoEndMagic : Bytes := [82, 69, 80, 76, 69, 78, 68, 49]

/-- The largest disk size an undo file may claim: 1 PiB. -/
def maxDiskBytes : ℤ := 2 ^ 50

structure UndoHeader where
  fromMoment : Moment
  toMoment : Moment
  oldSize : ℤ
  newSize : ℤ
  deriving DecidableEq, Repr

/-- A record as the reader hands it on; pos is where its data starts. -/
structure UndoRecord where
  patch : Patch
  pos : ℕ
  deriving DecidableEq, Repr

inductive UndoError
  | noValidHeader
  | badHeader
  | cutShort
  | badRecord (off : ℤ)
  | notComplete
  | outOfOrder
  | tooManyRecords
  deriving DecidableEq, Repr

def encodeHeader (h : UndoHeader) : Bytes :=
  undoMagic ++ (bigEndian 8 (ofSigned h.fromMoment) ++ (bigEndian 8 (ofSigned h.toMoment) ++
    (bigEndian 8 (ofSigned h.oldSize) ++ bigEndian 8 (ofSigned h.newSize))))

def encodeRecord (p : Patch) : Bytes :=
  bigEndian 8 p.off ++ (bigEndian 8 p.data.length ++ p.data)

def encodeTrailer (records : ℕ) : Bytes := undoEndMagic ++ bigEndian 8 records

/-- The whole undo file that writeUndo makes. -/
def encodeUndo (h : UndoHeader) (ps : List Patch) : Bytes :=
  encodeHeader h ++ (ps.flatMap encodeRecord ++ encodeTrailer ps.length)

/-- The fields in the first 40 bytes of a file. -/
def headerFields (file : Bytes) : UndoHeader where
  fromMoment := toSigned (ofBigEndian (readAt file 8 8))
  toMoment := toSigned (ofBigEndian (readAt file 16 8))
  oldSize := toSigned (ofBigEndian (readAt file 24 8))
  newSize := toSigned (ofBigEndian (readAt file 32 8))

def UndoHeader.BadSizes (h : UndoHeader) : Prop :=
  h.oldSize < 0 ∨ h.newSize < 0 ∨ h.oldSize > maxDiskBytes ∨ h.newSize > maxDiskBytes

instance (h : UndoHeader) : Decidable h.BadSizes :=
  inferInstanceAs (Decidable (_ ∨ _ ∨ _ ∨ _))

variable {β : Type} {h : UndoHeader} {file : Bytes}

def recordOff (rest : Bytes) : ℤ := toSigned (ofBigEndian (readAt rest 0 8))

def recordLen (rest : Bytes) : ℤ := toSigned (ofBigEndian (readAt rest 8 8))

/-- The record that the rest of a file starts with. -/
def nextRecord (h : UndoHeader) (rest : Bytes) : Except UndoError Patch :=
  if rest.length < 16 then .error .cutShort
  else if recordOff rest < 0 ∨ recordLen rest ≤ 0 ∨ recordLen rest > compareChunk ∨
      recordOff rest > h.oldSize - recordLen rest then .error (.badRecord (recordOff rest))
  else if rest.length < 16 + (recordLen rest).toNat then .error .cutShort
  else .ok ⟨(recordOff rest).toNat, readAt rest 16 (recordLen rest).toNat⟩

/-- The record loop. remaining counts down the bytes of records that the size
of the file leaves; the fuel is never used up, since a record takes bytes. -/
def readRecords (h : UndoHeader) (fn : β → UndoRecord → Except UndoError β) :
    ℕ → Bytes → ℤ → ℕ → ℕ → β → Except UndoError (β × ℕ × ℤ × Bytes)
  | 0, _, _, _, _, _ => .error .cutShort
  | fuel + 1, rest, remaining, pos, records, st =>
    if remaining ≤ 0 then .ok (st, records, remaining, rest)
    else do
      let p ← nextRecord h rest
      let st' ← fn st ⟨p, pos + 16⟩
      readRecords h fn fuel (rest.drop (16 + p.data.length)) (remaining - (16 + p.data.length))
        (pos + (16 + p.data.length)) (records + 1) st'

/-- Check a whole undo file and call fn for each of its records. -/
def readUndoFrom (file : Bytes) (fn : β → UndoRecord → Except UndoError β) (init : β) :
    Except UndoError (UndoHeader × β) :=
  if file.length < 40 ∨ readAt file 0 8 ≠ undoMagic then .error .noValidHeader
  else if (headerFields file).BadSizes then .error .badHeader
  else
    match readRecords (headerFields file) fn (file.length + 1) (file.drop 40)
        (file.length - 56) 40 0 init with
    | .error e => .error e
    | .ok (st, records, remaining, rest) =>
      if rest.length < 16 ∨ readAt rest 0 8 ≠ undoEndMagic ∨
          ofBigEndian (readAt rest 8 8) ≠ records % 2 ^ 64 ∨ remaining ≠ 0 then
        .error .notComplete
      else .ok (headerFields file, st)

/-- Check a whole undo file, with nothing to call. -/
def checkUndo (file : Bytes) : Except UndoError UndoHeader :=
  (readUndoFrom file (fun _ _ => .ok ()) ()).map Prod.fst

/-- The header and trailer only, as a view reads them before it needs records. -/
def readUndoHeaderFrom (file : Bytes) : Except UndoError UndoHeader :=
  if file.length < 56 then .error .notComplete
  else if readAt file 0 8 ≠ undoMagic then .error .noValidHeader
  else if readAt file (file.length - 16) 8 ≠ undoEndMagic then .error .notComplete
  else if (headerFields file).BadSizes then .error .badHeader
  else .ok (headerFields file)

def collect (acc : List UndoRecord) (r : UndoRecord) : Except UndoError (List UndoRecord) :=
  .ok (acc ++ [r])

/-- The header and all the records of a file that passes the check. -/
def parseUndo (file : Bytes) : Except UndoError (UndoHeader × List UndoRecord) :=
  readUndoFrom file collect []

/-- The records of a file whose record part starts at pos. -/
def recordsAt : ℕ → List Patch → List UndoRecord
  | _, [] => []
  | pos, p :: ps => ⟨p, pos + 16⟩ :: recordsAt (pos + (16 + p.data.length)) ps

/-- The header as its 64-bit words keep it. -/
def UndoHeader.stored (h : UndoHeader) : UndoHeader :=
  ⟨wrap h.fromMoment, wrap h.toMoment, wrap h.oldSize, wrap h.newSize⟩

/-- A record that the reader lets pass. -/
def FitsIn (oldSize : ℤ) (p : Patch) : Prop :=
  0 < p.data.length ∧ p.data.length ≤ compareChunk ∧ (p.off + p.data.length : ℤ) ≤ oldSize

@[simp] theorem length_encodeHeader : (encodeHeader h).length = 40 := by
  simp [encodeHeader, undoMagic]

@[simp] theorem length_encodeRecord (p : Patch) :
    (encodeRecord p).length = 16 + p.data.length := by
  simp only [encodeRecord, length_append, length_bigEndian]
  omega

@[simp] theorem length_encodeTrailer (n : ℕ) : (encodeTrailer n).length = 16 := by
  simp [encodeTrailer, undoEndMagic]

theorem map_patch_recordsAt {pos : ℕ} {ps : List Patch} :
    (recordsAt pos ps).map UndoRecord.patch = ps := by
  induction ps generalizing pos with
  | nil => rfl
  | cons p ps ih => simp [recordsAt, ih]

theorem headerFields_encode {rest : Bytes} :
    headerFields (encodeHeader h ++ rest) = h.stored := by
  unfold headerFields encodeHeader UndoHeader.stored
  simp only [UndoHeader.mk.injEq]
  refine ⟨?_, ?_, ?_, ?_⟩
  · exact ofBigEndian_ofSigned
  · exact ofBigEndian_ofSigned
  · exact ofBigEndian_ofSigned
  · exact ofBigEndian_ofSigned

theorem toSigned_ofBigEndian (n : ℕ) (h : n < 2 ^ 63) :
    toSigned (ofBigEndian (bigEndian 8 n)) = n := by
  rw [ofBigEndian_eight (by omega)]
  have hs : ofSigned n = n := by
    unfold ofSigned
    omega
  have := toSigned_natCast h
  rwa [hs] at this

theorem encodeRecord_off (p : Patch) (tail : Bytes) :
    readAt (encodeRecord p ++ tail) 0 8 = bigEndian 8 p.off := by
  unfold encodeRecord
  simp only [append_assoc]
  exact readAt_append_left _ _ 8 (by simp)

theorem encodeRecord_length (p : Patch) (tail : Bytes) :
    readAt (encodeRecord p ++ tail) 8 8 = bigEndian 8 p.data.length := by
  unfold encodeRecord
  simp only [append_assoc]
  rw [readAt_append_right _ 8 0 8 (by simp)]
  exact readAt_append_left _ _ 8 (by simp)

theorem encodeRecord_data (p : Patch) (tail : Bytes) :
    readAt (encodeRecord p ++ tail) 16 p.data.length = p.data := by
  unfold encodeRecord
  simp only [append_assoc]
  exact readAt_append_left _ _ _ rfl

theorem nextRecord_encode (h : UndoHeader) (p : Patch) (tail : Bytes)
    (hsize : h.oldSize ≤ maxDiskBytes) (hp : FitsIn h.oldSize p) :
    nextRecord h (encodeRecord p ++ tail) = .ok p := by
  obtain ⟨hpos, hshort, hin⟩ := hp
  have hmax : maxDiskBytes = 2 ^ 50 := rfl
  have hoff : recordOff (encodeRecord p ++ tail) = p.off := by
    unfold recordOff
    rw [encodeRecord_off, toSigned_ofBigEndian _ (by omega)]
  have hlen : recordLen (encodeRecord p ++ tail) = p.data.length := by
    unfold recordLen
    rw [encodeRecord_length, toSigned_ofBigEndian _ (by omega)]
  unfold nextRecord
  simp only [hoff, hlen, Int.toNat_natCast, encodeRecord_data, length_append, length_encodeRecord]
  rw [if_neg (by omega), if_neg (by omega), if_neg (by omega)]

theorem nextRecord_ok (h : UndoHeader) (rest : Bytes) (p : Patch)
    (hok : nextRecord h rest = .ok p) :
    FitsIn h.oldSize p ∧ 16 + p.data.length ≤ rest.length ∧
      readAt rest 16 p.data.length = p.data := by
  obtain ⟨-, hok⟩ := except_unless_ok.mp hok
  obtain ⟨hgood, hok⟩ := except_unless_ok.mp hok
  obtain ⟨hwhole, hok⟩ := except_unless_ok.mp hok
  have hp := Except.ok.inj hok
  subst hp
  have hlen : (readAt rest 16 (recordLen rest).toNat).length = (recordLen rest).toNat := by
    rw [length_readAt]
    omega
  simp only [FitsIn, hlen]
  refine ⟨⟨?_, ?_, ?_⟩, by omega, trivial⟩
  · omega
  · omega
  · omega

/-- One pass of the loop over a record that fits. -/
theorem readRecords_cons (h : UndoHeader) (fn : β → UndoRecord → Except UndoError β)
    (p : Patch) (tail : Bytes) (fuel : ℕ) (remaining : ℤ) (pos records : ℕ) (st : β)
    (hrem : 0 < remaining) (hsize : h.oldSize ≤ maxDiskBytes) (hp : FitsIn h.oldSize p) :
    readRecords h fn (fuel + 1) (encodeRecord p ++ tail) remaining pos records st =
      fn st ⟨p, pos + 16⟩ >>= readRecords h fn fuel tail (remaining - (16 + p.data.length))
        (pos + (16 + p.data.length)) (records + 1) := by
  have hdrop : (encodeRecord p ++ tail).drop (16 + p.data.length) = tail := by
    rw [← length_encodeRecord p, drop_left]
  unfold readRecords
  rw [if_neg (by omega), nextRecord_encode h p tail hsize hp]
  change (fn st ⟨p, pos + 16⟩ >>= fun st' => readRecords h fn fuel
    ((encodeRecord p ++ tail).drop (16 + p.data.length)) _ _ _ st') = _
  rw [hdrop]

theorem readRecords_encode (h : UndoHeader) (fn : β → UndoRecord → Except UndoError β)
    (ps : List Patch) (tail : Bytes) (fuel pos records : ℕ) (st : β) (hfuel : ps.length < fuel)
    (hsize : h.oldSize ≤ maxDiskBytes) (hps : ∀ p ∈ ps, FitsIn h.oldSize p) :
    readRecords h fn fuel (ps.flatMap encodeRecord ++ tail) (ps.flatMap encodeRecord).length
        pos records st =
      (recordsAt pos ps).foldlM fn st >>= fun st' => .ok (st', records + ps.length, 0, tail) := by
  induction ps generalizing fuel pos records st with
  | nil =>
    obtain ⟨f, rfl⟩ : ∃ f, fuel = f + 1 := ⟨fuel - 1, by simp at hfuel; omega⟩
    rfl
  | cons p ps ih =>
    obtain ⟨f, rfl⟩ : ∃ f, fuel = f + 1 := ⟨fuel - 1, by simp at hfuel; omega⟩
    have hp := hps p (mem_cons_self ..)
    have hlen : ((p :: ps).flatMap encodeRecord).length =
        16 + p.data.length + (ps.flatMap encodeRecord).length := by
      simp
    rw [hlen, flatMap_cons, append_assoc,
      readRecords_cons h fn p _ f _ pos records st (by omega) hsize hp]
    simp only [recordsAt, foldlM_cons]
    cases hfn : fn st ⟨p, pos + 16⟩ with
    | error e => rfl
    | ok st' =>
      have hrec := ih f (pos + (16 + p.data.length)) (records + 1) st'
        (by simp only [length_cons] at hfuel; omega)
        (fun q hq => hps q (mem_cons_of_mem p hq))
      have hrem : ((16 + p.data.length + (ps.flatMap encodeRecord).length : ℕ) : ℤ) -
          (16 + p.data.length) = (ps.flatMap encodeRecord).length := by omega
      rw [hrem]
      change readRecords h fn f _ _ _ _ st' = _
      rw [hrec]
      have hcount : records + 1 + ps.length = records + (p :: ps).length := by
        simp only [length_cons]
        omega
      rw [hcount]
      rfl

theorem length_le_flatMap (ps : List Patch) :
    ps.length ≤ (ps.flatMap encodeRecord).length := by
  induction ps with
  | nil => simp
  | cons p ps ih =>
    simp only [flatMap_cons, length_append, length_cons, length_encodeRecord]
    omega

theorem length_encodeUndo (h : UndoHeader) (ps : List Patch) :
    (encodeUndo h ps).length = 56 + (ps.flatMap encodeRecord).length := by
  simp only [encodeUndo, length_append, length_encodeHeader, length_encodeTrailer]
  omega

theorem drop_encodeUndo (h : UndoHeader) (ps : List Patch) :
    (encodeUndo h ps).drop 40 = ps.flatMap encodeRecord ++ encodeTrailer ps.length := by
  unfold encodeUndo
  rw [← length_encodeHeader, drop_left]

theorem encodeUndo_magic (h : UndoHeader) (ps : List Patch) :
    readAt (encodeUndo h ps) 0 8 = undoMagic := by
  unfold encodeUndo encodeHeader
  simp only [append_assoc]
  exact readAt_append_left _ _ 8 rfl

/-- An undo file that claims too large a disk is refused whole. -/
theorem readUndoFrom_bad (h : UndoHeader) (ps : List Patch)
    (fn : β → UndoRecord → Except UndoError β) (init : β) (hbad : h.stored.BadSizes) :
    readUndoFrom (encodeUndo h ps) fn init = .error .badHeader := by
  have hlen := length_encodeUndo h ps
  unfold readUndoFrom
  rw [if_neg (by rw [encodeUndo_magic]; simp; omega)]
  unfold encodeUndo
  rw [headerFields_encode, if_pos hbad]

/-- The reader gives back what the writer wrote, record by record. -/
theorem readUndoFrom_encode (h : UndoHeader) (ps : List Patch)
    (fn : β → UndoRecord → Except UndoError β) (init : β) (hsizes : ¬ h.stored.BadSizes)
    (hps : ∀ p ∈ ps, FitsIn h.stored.oldSize p) :
    readUndoFrom (encodeUndo h ps) fn init =
      (recordsAt 40 ps).foldlM fn init >>= fun st => .ok (h.stored, st) := by
  have hlen := length_encodeUndo h ps
  have hle := length_le_flatMap ps
  have hfields : headerFields (encodeUndo h ps) = h.stored := headerFields_encode
  have hmax : h.stored.oldSize ≤ maxDiskBytes := by
    unfold UndoHeader.BadSizes at hsizes
    omega
  have hrem : ((encodeUndo h ps).length : ℤ) - 56 = (ps.flatMap encodeRecord).length := by
    omega
  unfold readUndoFrom
  rw [if_neg (by rw [encodeUndo_magic]; simp; omega), hfields, if_neg hsizes, hrem,
    drop_encodeUndo, readRecords_encode h.stored fn ps _ _ 40 0 init (by omega) hmax hps]
  cases (recordsAt 40 ps).foldlM fn init with
  | error e => rfl
  | ok st =>
    have hmagic : readAt (encodeTrailer ps.length) 0 8 = undoEndMagic :=
      readAt_append_left _ _ 8 rfl
    have hcount : ofBigEndian (readAt (encodeTrailer ps.length) 8 8) =
      (0 + ps.length) % 2 ^ 64 := by
      unfold encodeTrailer
      rw [readAt_append_right undoEndMagic 8 0 8 rfl]
      have := readAt_append_left (bigEndian 8 ps.length) [] 8 (by simp)
      rw [append_nil] at this
      rw [this, ofBigEndian_bigEndian, Nat.zero_add, show 256 ^ 8 = 2 ^ 64 by rfl]
    change (if _ then _ else _) = _
    rw [if_neg]
    · rfl
    · simp [hmagic, hcount]

theorem parseUndo_encode (h : UndoHeader) (ps : List Patch) (hsizes : ¬ h.stored.BadSizes)
    (hps : ∀ p ∈ ps, FitsIn h.stored.oldSize p) :
    parseUndo (encodeUndo h ps) = .ok (h.stored, recordsAt 40 ps) := by
  have hcollect : ∀ (rs acc : List UndoRecord), rs.foldlM collect acc = .ok (acc ++ rs) := by
    intro rs
    induction rs with
    | nil =>
      intro acc
      simp
      rfl
    | cons r rs ih =>
      intro acc
      change rs.foldlM collect (acc ++ [r]) = _
      rw [ih, append_assoc]
      rfl
  unfold parseUndo
  rw [readUndoFrom_encode h ps collect [] hsizes hps, hcollect]
  rfl

/-- What the loop over an accepted file does, for every function it calls. -/
theorem readRecords_collect (h : UndoHeader) (file : Bytes) (fuel pos records : ℕ)
    (remaining : ℤ) (acc : List UndoRecord) (out : List UndoRecord × ℕ × ℤ × Bytes)
    (hrem : remaining = file.length - 16 - pos)
    (hok : readRecords h collect fuel (file.drop pos) remaining pos records acc = .ok out) :
    ∃ (rs : List UndoRecord) (pos' : ℕ), pos ≤ pos' ∧
      out = (acc ++ rs, records + rs.length, file.length - 16 - (pos' : ℤ), file.drop pos') ∧
      (∀ r ∈ rs, FitsIn h.oldSize r.patch ∧
        readAt file r.pos r.patch.data.length = r.patch.data) ∧
      (∀ (β : Type) (fn : β → UndoRecord → Except UndoError β) (st : β),
        readRecords h fn fuel (file.drop pos) remaining pos records st =
          rs.foldlM fn st >>= fun st' => .ok (st', out.2)) := by
  induction fuel generalizing pos records remaining acc with
  | zero => simp [readRecords] at hok
  | succ fuel ih =>
    unfold readRecords at hok
    by_cases hdone : remaining ≤ 0
    · rw [if_pos hdone] at hok
      cases hok
      refine ⟨[], pos, Nat.le_refl _, by simp [hrem], by simp, ?_⟩
      intro β fn st
      unfold readRecords
      rw [if_pos hdone]
      rfl
    · rw [if_neg hdone] at hok
      cases hnext : nextRecord h (file.drop pos) with
      | error e => simp [hnext, bind, Except.bind] at hok
      | ok p =>
        obtain ⟨hfits, hlen, hdata⟩ := nextRecord_ok h _ p hnext
        rw [hnext] at hok
        change readRecords h collect fuel
          ((file.drop pos).drop (16 + p.data.length)) _ _ _ _ = _ at hok
        rw [drop_drop] at hok
        obtain ⟨rs, pos', hle, hout, hfacts, hfn⟩ := ih (pos + (16 + p.data.length)) (records + 1)
          (remaining - (16 + p.data.length)) _ (by push_cast; omega) hok
        refine ⟨⟨p, pos + 16⟩ :: rs, pos', by omega, ?_, ?_, ?_⟩
        · rw [hout]
          simp only [append_assoc, cons_append, nil_append, length_cons,
            Prod.mk.injEq, true_and, and_true]
          omega
        · intro r hr
          rcases mem_cons.mp hr with rfl | hr
          · refine ⟨hfits, ?_⟩
            rw [readAt_drop] at hdata
            exact hdata
          · exact hfacts r hr
        · intro β fn st
          unfold readRecords
          rw [if_neg hdone, hnext, foldlM_cons]
          change (fn st ⟨p, pos + 16⟩ >>= fun st' => readRecords h fn fuel
            ((file.drop pos).drop (16 + p.data.length)) _ _ _ st') = _
          rw [drop_drop]
          cases hst : fn st ⟨p, pos + 16⟩ with
          | error e => rfl
          | ok st' => exact hfn β fn st'

theorem readRecords_error (h : UndoHeader) (fuel pos records : ℕ) (rest : Bytes)
    (remaining : ℤ) (acc : List UndoRecord) (e : UndoError)
    (herr : readRecords h collect fuel rest remaining pos records acc = .error e)
    (fn : β → UndoRecord → Except UndoError β) (st : β) :
    ∃ e', readRecords h fn fuel rest remaining pos records st = .error e' := by
  induction fuel generalizing pos records rest remaining acc st with
  | zero => exact ⟨.cutShort, rfl⟩
  | succ fuel ih =>
    unfold readRecords at herr ⊢
    by_cases hdone : remaining ≤ 0
    · rw [if_pos hdone] at herr
      contradiction
    · rw [if_neg hdone] at herr ⊢
      cases hnext : nextRecord h rest with
      | error e' => exact ⟨e', rfl⟩
      | ok p =>
        rw [hnext] at herr
        change ∃ e', (fn st ⟨p, pos + 16⟩ >>= fun st' => readRecords h fn fuel _ _ _ _ st') = _
        cases hst : fn st ⟨p, pos + 16⟩ with
        | error e' => exact ⟨e', rfl⟩
        | ok st' => exact ih _ _ _ _ _ herr st'

/-- What a file that passes the check holds. -/
structure Accepted (file : Bytes) (h : UndoHeader) (rs : List UndoRecord) : Prop where
  header : h = headerFields file
  sizes : ¬ h.BadSizes
  magic : readAt file 0 8 = undoMagic
  length : 56 ≤ file.length
  trailer : readAt file (file.length - 16) 8 = undoEndMagic
  fits : ∀ r ∈ rs, FitsIn h.oldSize r.patch
  bytes : ∀ r ∈ rs, readAt file r.pos r.patch.data.length = r.patch.data
  read : ∀ (β : Type) (fn : β → UndoRecord → Except UndoError β) (init : β),
    readUndoFrom file fn init = rs.foldlM fn init >>= fun st => .ok (h, st)

theorem accepted_of_parseUndo (file : Bytes) (h : UndoHeader) (rs : List UndoRecord)
    (hok : parseUndo file = .ok (h, rs)) : Accepted file h rs := by
  obtain ⟨hhead, hok⟩ := except_unless_ok.mp hok
  obtain ⟨hbad, hok⟩ := except_unless_ok.mp hok
  cases hloop : readRecords (headerFields file) collect (file.length + 1) (file.drop 40)
      (file.length - 56) 40 0 [] with
  | error e => simp [hloop] at hok
  | ok out =>
    obtain ⟨rs', pos', hle, rfl, hfacts, hfn⟩ := readRecords_collect (headerFields file) file
      (file.length + 1) 40 0 (file.length - 56) [] out (by omega) hloop
    simp only [hloop, nil_append] at hok
    obtain ⟨hend, hok⟩ := except_unless_ok.mp hok
    obtain ⟨rfl, rfl⟩ := Prod.mk.inj (Except.ok.inj hok)
    have hpos : pos' = file.length - 16 := by omega
    have htrailer : readAt file (file.length - 16) 8 = undoEndMagic := by
      by_contra hne
      apply hend
      right
      left
      rw [hpos]
      exact hne
    refine ⟨rfl, hbad, ?_, ?_, htrailer, fun r hr => (hfacts r hr).1,
      fun r hr => (hfacts r hr).2, ?_⟩
    · by_contra hne
      exact hhead (.inr hne)
    · omega
    · intro β fn init
      unfold readUndoFrom
      rw [if_neg hhead, if_neg hbad, hfn β fn init]
      cases rs'.foldlM fn init with
      | error e => rfl
      | ok st =>
        change (if _ then _ else _) = _
        rw [if_neg (by simpa only [Nat.zero_add] using hend)]
        rfl

theorem readUndoFrom_error (file : Bytes) (e : UndoError) (herr : parseUndo file = .error e)
    (fn : β → UndoRecord → Except UndoError β) (init : β) :
    ∃ e', readUndoFrom file fn init = .error e' := by
  unfold parseUndo readUndoFrom at herr
  unfold readUndoFrom
  by_cases hhead : file.length < 40 ∨ readAt file 0 8 ≠ undoMagic
  · exact ⟨_, if_pos hhead⟩
  rw [if_neg hhead] at herr ⊢
  by_cases hbad : (headerFields file).BadSizes
  · exact ⟨_, if_pos hbad⟩
  rw [if_neg hbad] at herr ⊢
  cases hloop : readRecords (headerFields file) collect (file.length + 1) (file.drop 40)
      (file.length - 56) 40 0 [] with
  | error e' =>
    obtain ⟨e'', he⟩ := readRecords_error _ _ _ _ _ _ _ e' hloop fn init
    exact ⟨e'', by rw [he]⟩
  | ok out =>
    obtain ⟨rs', pos', hle, rfl, hfacts, hfn⟩ := readRecords_collect (headerFields file) file
      (file.length + 1) 40 0 (file.length - 56) [] out (by omega) hloop
    simp only [hloop] at herr
    split at herr
    · rename_i hend
      rw [hfn β fn init]
      cases rs'.foldlM fn init with
      | error e' => exact ⟨e', rfl⟩
      | ok st => exact ⟨_, if_pos hend⟩
    · contradiction

theorem checkUndo_iff :
    checkUndo file = .ok h ↔ ∃ rs, parseUndo file = .ok (h, rs) := by
  have hunit : ∀ rs : List UndoRecord,
      rs.foldlM (fun (_ : Unit) (_ : UndoRecord) => (.ok () : Except UndoError Unit)) () =
        .ok () := by
    intro rs
    induction rs with
    | nil => rfl
    | cons r rs ih =>
      exact ih
  unfold checkUndo
  cases hp : parseUndo file with
  | error e =>
    obtain ⟨e', he⟩ := readUndoFrom_error file e hp (fun (_ : Unit) _ => .ok ()) ()
    simp [he, Except.map]
  | ok out =>
    obtain ⟨h', rs⟩ := out
    have hacc := accepted_of_parseUndo file h' rs hp
    rw [hacc.read Unit (fun _ _ => .ok ()) (), hunit]
    constructor
    · intro heq
      cases heq
      exact ⟨rs, rfl⟩
    · rintro ⟨rs', heq⟩
      cases heq
      rfl

/-- A file that passes the whole check passes the check of its two ends. -/
theorem readUndoHeaderFrom_of_accepted {rs : List UndoRecord}
    (hacc : Accepted file h rs) : readUndoHeaderFrom file = .ok h := by
  unfold readUndoHeaderFrom
  have hlen := hacc.length
  have hsizes := hacc.sizes
  rw [hacc.header] at hsizes ⊢
  rw [if_neg (by omega), if_neg (by simp [hacc.magic]), if_neg (by simp [hacc.trailer]),
    if_neg hsizes]

end FilePool.UndoFormat
