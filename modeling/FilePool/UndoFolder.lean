import FilePool.VolumeSteps

/-!
What the undo folder says: its restore points in the order of their numbers,
the copies it holds a trace of, and the disk at a restore point, which is the
latest disk taken back by the undo files from the newest to the asked one.
-/
namespace FilePool.UndoFolder

open ByteFiles UndoLog UndoFormat UndoNames VolumeSteps DurableSteps List

/-- An undo file of a finished copy, with the bytes at its path. -/
structure UndoFile where
  seq : ℤ
  name : Name
  bytes : Bytes
  hdr : UndoHeader
  deriving DecidableEq, Repr

/-- The value of a time that was never set. -/
def zeroTime : Moment := -62135596800000000000

def readUndo (name : Name) (bytes : Bytes) : Except Err UndoHeader :=
  (checkUndo bytes).mapError (Err.undo name)

/-- The undo files of finished copies, each with the header that read gives. -/
def listUndo (read : Name → Bytes → Except Err UndoHeader) :
    List (Name × Bytes) → Except Err (List UndoFile)
  | [] => .ok []
  | e :: es =>
    match appliedSeq? e.1 with
    | none => listUndo read es
    | some seq => do
      let h ← read e.1 e.2
      let files ← listUndo read es
      return ⟨seq, e.1, e.2, h⟩ :: files

def sortFiles (files : List UndoFile) : List UndoFile :=
  files.insertionSort (fun f g => f.seq ≤ g.seq)

def undoFiles (read : Name → Bytes → Except Err UndoHeader) (v : Volume) :
    Except Err (List UndoFile) := do
  let es ← undoEntries v
  let files ← listUndo read es
  return sortFiles files

/-- The restore point undo files, oldest first. -/
def appliedUndo (v : Volume) : Except Err (List UndoFile) := undoFiles readUndo v

/-- The moments the disk can be rewound to, oldest first. -/
def restorePoints (v : Volume) : Except Err (List Moment) :=
  (appliedUndo v).map (fun files => files.map (fun u => u.hdr.fromMoment))

/-- Whether an undo file is complete and not marked as applied. -/
def hasUnfinishedCopy (v : Volume) : Except Err Bool := do
  let es ← undoEntries v
  return es.any (fun e => hasSuffix e.1 undoReady)

/-- The bytes of a disk file after an undo file is applied to it. -/
def applyUndo (u : Name × Bytes) (b : Bytes) : Except Err Bytes :=
  match parseUndo u.2 with
  | .error e => .error (.undo u.1 e)
  | .ok (h, rs) => .ok (rollBack (rs.map UndoRecord.patch) h.oldSize.toNat b)

/-- The files from the last one that starts at the moment on. -/
def filesFrom (t : Moment) : List UndoFile → Option (List UndoFile)
  | [] => none
  | u :: us =>
    match filesFrom t us with
    | some files => some files
    | none => if u.hdr.fromMoment = t then some (u :: us) else none

variable {t : Moment} {us : List UndoFile} {u : UndoFile}

theorem filesFrom_eq_none_iff {files : List UndoFile} :
    filesFrom t files = none ↔ ∀ u ∈ files, u.hdr.fromMoment ≠ t := by
  induction files with
  | nil => simp [filesFrom]
  | cons u files ih =>
    rw [forall_mem_cons, ← ih, filesFrom]
    cases filesFrom t files with
    | some us => simp
    | none => simp

theorem filesFrom_append {later : List UndoFile} (before : List UndoFile)
    (h : filesFrom t later = some us) : filesFrom t (before ++ later) = some us := by
  induction before with
  | nil => exact h
  | cons u before ih => rw [cons_append, filesFrom, ih]

/-- Take a disk back by all the files, the newest first. -/
def rewindFiles : List UndoFile → Bytes → Except Err Bytes
  | [], b => .ok b
  | u :: us, b => do
    let c ← rewindFiles us b
    applyUndo (u.name, u.bytes) c

theorem applyUndo_ok (u : Name × Bytes) (b : Bytes) (h : UndoHeader) (rs : List UndoRecord)
    (hp : parseUndo u.2 = .ok (h, rs)) :
    applyUndo u b = .ok (rollBack (rs.map UndoRecord.patch) h.oldSize.toNat b) := by
  unfold applyUndo
  rw [hp]

theorem rewindFiles_cons {b c : Bytes}
    (h : rewindFiles us b = .ok c) :
    rewindFiles (u :: us) b = applyUndo (u.name, u.bytes) c := by
  rw [rewindFiles, h]
  rfl

theorem readApplied_append (es fs : List (Name × Bytes)) :
    listUndo readUndo (es ++ fs) = (do
      let a ← listUndo readUndo es
      let b ← listUndo readUndo fs
      return a ++ b) := by
  induction es with
  | nil =>
    rw [nil_append]
    cases listUndo readUndo fs <;> rfl
  | cons e es ih =>
    simp only [cons_append, listUndo, ih]
    cases appliedSeq? e.1 with
    | none => rfl
    | some seq =>
      cases readUndo e.1 e.2 with
      | error x => rfl
      | ok h =>
        cases listUndo readUndo es with
        | error x => rfl
        | ok a =>
          cases listUndo readUndo fs <;> rfl

theorem readApplied_filter (p : Name × Bytes → Bool) (es : List (Name × Bytes))
    (h : ∀ e ∈ es, p e = false → appliedSeq? e.1 = none) :
    listUndo readUndo (es.filter p) = listUndo readUndo es := by
  induction es with
  | nil => rfl
  | cons e es ih =>
    have htail := ih (fun x hx => h x (mem_cons_of_mem e hx))
    cases hp : p e with
    | true => simp only [filter_cons, hp, if_true, listUndo, htail]
    | false =>
      have hnone := h e (mem_cons_self ..) hp
      simp only [filter_cons, hp, Bool.false_eq_true, if_false, listUndo, hnone, htail]

variable (read : Name → Bytes → Except Err UndoHeader) (es : List (Name × Bytes))
  (files : List UndoFile) {x : UndoFile}

theorem listUndo_mem (h : listUndo read es = .ok files) (u : UndoFile) (hu : u ∈ files) :
    (u.name, u.bytes) ∈ es ∧ appliedSeq? u.name = some u.seq ∧
      read u.name u.bytes = .ok u.hdr := by
  induction es generalizing files with
  | nil =>
    cases Except.ok.inj h
    simp at hu
  | cons e es ih =>
    unfold listUndo at h
    cases hseq : appliedSeq? e.1 with
    | none =>
      rw [hseq] at h
      obtain ⟨hmem, hs⟩ := ih files h hu
      exact ⟨mem_cons_of_mem e hmem, hs⟩
    | some seq =>
      rw [hseq] at h
      obtain ⟨hdr, hread, h⟩ := except_bind_ok.mp h
      obtain ⟨rest, hrest, h⟩ := except_bind_ok.mp h
      cases h
      rcases mem_cons.mp hu with rfl | hu
      · exact ⟨mem_cons_self .., hseq, hread⟩
      · obtain ⟨hmem, hs⟩ := ih rest hrest hu
        exact ⟨mem_cons_of_mem e hmem, hs⟩

theorem readUndo_of_appliedUndo (v : Volume) (files : List UndoFile)
    (h : appliedUndo v = .ok files) (u : UndoFile) (hu : u ∈ files) :
    readUndo u.name u.bytes = .ok u.hdr := by
  obtain ⟨es, -, h⟩ := except_bind_ok.mp h
  obtain ⟨listed, hlisted, h⟩ := except_bind_ok.mp h
  cases h
  exact (listUndo_mem readUndo es listed hlisted u
    ((perm_insertionSort _ listed).mem_iff.mp hu)).2.2

theorem listUndo_none (h : ∀ e ∈ es, appliedSeq? e.1 = none) : listUndo read es = .ok [] := by
  induction es with
  | nil => rfl
  | cons e es ih =>
    unfold listUndo
    rw [h e (mem_cons_self ..)]
    exact ih (fun x hx => h x (mem_cons_of_mem e hx))

theorem listUndo_complete (h : listUndo read es = .ok files)
    (e : Name × Bytes) (he : e ∈ es) (hseq : appliedSeq? e.1 ≠ none) :
    ∃ u ∈ files, u.name = e.1 ∧ u.bytes = e.2 := by
  induction es generalizing files with
  | nil => simp at he
  | cons x es ih =>
    unfold listUndo at h
    cases hx : appliedSeq? x.1 with
    | none =>
      rw [hx] at h
      rcases mem_cons.mp he with rfl | hmem
      · exact absurd hx hseq
      · exact ih files h hmem
    | some seq =>
      rw [hx] at h
      obtain ⟨hdr, -, h⟩ := except_bind_ok.mp h
      obtain ⟨rest, hrest, h⟩ := except_bind_ok.mp h
      cases h
      rcases mem_cons.mp he with rfl | hmem
      · exact ⟨_, mem_cons_self .., rfl, rfl⟩
      · obtain ⟨u, hu, hname⟩ := ih rest hrest hmem
        exact ⟨u, mem_cons_of_mem _ hu, hname⟩

theorem orderedInsert_append_last {files : List UndoFile} (h : u.seq ≤ x.seq) :
    (files ++ [x]).orderedInsert (fun f g => f.seq ≤ g.seq) u =
      files.orderedInsert (fun f g => f.seq ≤ g.seq) u ++ [x] := by
  induction files with
  | nil => simp [h]
  | cons f files ih =>
    simp only [cons_append, orderedInsert]
    split
    · rfl
    · rw [ih, cons_append]

theorem sortFiles_append_last {files : List UndoFile}
    (h : ∀ f ∈ files, f.seq ≤ x.seq) : sortFiles (files ++ [x]) = sortFiles files ++ [x] := by
  unfold sortFiles
  induction files with
  | nil => rfl
  | cons f files ih =>
    simp only [cons_append, insertionSort_cons]
    rw [ih (fun g hg => h g (mem_cons_of_mem f hg))]
    exact orderedInsert_append_last (h f (mem_cons_self ..))

theorem appliedUndo_of_folder {v : Volume} {es : List (Name × Bytes)} (h : undoEntries v = .ok es) :
    appliedUndo v = (listUndo readUndo es).map sortFiles := by
  unfold appliedUndo undoFiles
  rw [h]
  change (do let files ← listUndo readUndo es; return sortFiles files) = _
  cases listUndo readUndo es <;> rfl

end FilePool.UndoFolder
