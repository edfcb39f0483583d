import FilePool.LayerView
import FilePool.RestoreDisk

/-!
A read-only view of a backup disk at one moment. The view indexes the undo
files from the chosen restore point on, and builds each window that is read
from the latest disk and these files. It shows what a restore to the same
moment would write, as long as the records of the undo files are in order.
-/
namespace FilePool.DiskView

open UndoLog hiding rewind
open ByteFiles UndoFormat UndoNames VolumeSteps DurableSteps DurableSteps.Prog List
open UndoFolder DiskMoments ApplyCopy Recovery LayerView RestoreDisk

/-- How often a read looks for a change of the backup, in nanoseconds. -/
def checkEvery : ℤ := 2000000000

/-- The moment is the zero time if it is not known. A view on a source that
never changes has nothing to watch. -/
structure View where
  disk : Bytes
  diskMtime : ℤ
  layers : List ViewLayer
  size : ℕ
  moment : Moment
  momentKnown : Bool
  latest : Bool
  watched : Bool
  undoNames : List Name
  deriving DecidableEq, Repr

def readUndoHeader (name : Name) (bytes : Bytes) : Except Err UndoHeader :=
  (readUndoHeaderFrom bytes).mapError (Err.undo name)

/-- The restore point undo files, oldest first, from their two ends only. -/
def undoHeaders (v : Volume) : Except Err (List UndoFile) := undoFiles readUndoHeader v

def indexStep (st : ℕ × List ViewRec) (r : UndoRecord) : Except UndoError (ℕ × List ViewRec) :=
  if r.patch.off < st.1 then .error .outOfOrder
  else .ok (r.patch.off + r.patch.data.length,
    st.2 ++ [⟨r.patch.off, r.patch.data.length, r.pos⟩])

/-- Check a whole undo file and note where each record's data is. -/
def indexUndo (u : UndoFile) : Except Err ViewLayer :=
  match readUndoFrom u.bytes indexStep (0, []) with
  | .error e => .error (.undo u.name e)
  | .ok (h, st) => .ok ⟨u.bytes, st.2, h.oldSize.toNat⟩

def indexAll : List UndoFile → Except Err (List ViewLayer)
  | [] => .ok []
  | u :: us => do
    let l ← indexUndo u
    let ls ← indexAll us
    return l :: ls

/-- The layers of a view: none for the latest disk. -/
def viewLayers (chosen : Moment) (latest : Bool) (files : List UndoFile) :
    Except Err (List ViewLayer) :=
  if latest then .ok []
  else
    match filesFrom chosen files with
    | none => .error (.noRestorePoint chosen)
    | some us => indexAll us

def viewSize (disk : Bytes) (layers : List ViewLayer) : ℕ :=
  match layers with
  | [] => disk.length
  | l :: _ => l.oldSize

/-- The view of a disk in this state, at the chosen moment. -/
def newView (st : DiskState) (chosen : Moment) (latest : Bool) (d : DiskFile)
    (layers : List ViewLayer) (names : List Name) : View where
  disk := d.bytes
  diskMtime := d.mtime
  layers := layers
  size := viewSize d.bytes layers
  moment := if latest then st.moment.getD zeroTime else chosen
  momentKnown := if latest then st.moment.isSome else true
  latest := latest
  watched := true
  undoNames := names

/-- Open the backup disk at the newest moment at or before the asked one. -/
def openDiskView (v : Volume) (asked : Moment) : Except Err View := do
  let files ← undoHeaders v
  let st ← stateFrom v files
  if st.unfinished then .error .copyInProgress
  else if st.modified then .error .diskModified
  else do
    let c ← chooseMoment st asked
    let d ← diskInfo v
    let layers ← viewLayers c.1 c.2 files
    let es ← undoEntries v
    return newView st c.1 c.2 d layers (es.map Prod.fst)

/-- Look for a change of the backup, at most every checkEvery. -/
def check (d : View) (v : Volume) (since : ℤ) : Except Err Unit :=
  if !d.watched ∨ since < checkEvery then .ok ()
  else
    match v.disk, undoEntries v with
    | some f, .ok es =>
      if (es.map Prod.fst).Perm d.undoNames ∧ f.bytes.length = d.disk.length ∧
          f.mtime = d.diskMtime then .ok ()
      else .error .diskChanged
    | _, _ => .error .diskChanged

/-- The bytes that were read and whether the end was reached. -/
structure ReadResult where
  bytes : Bytes
  eof : Bool
  deriving DecidableEq, Repr

/-- Read the disk as it was at the moment of the view. -/
def View.readAt (d : View) (v : Volume) (since : ℤ) (len : ℕ) (off : ℤ) :
    Except Err ReadResult :=
  if off < 0 then .error .negativeOffset
  else do
    check d v since
    if d.size ≤ off.toNat then return ⟨[], true⟩
    else
      match fill d.disk d.layers off.toNat (min len (d.size - off.toNat)) with
      | none => .error .readingUndo
      | some w => return ⟨w, decide (d.size - off.toNat < len)⟩

/-- Read an ordinary file; a read that reaches past its end says so. -/
def readFileAt (b : Bytes) (len : ℕ) (off : ℤ) : Except Err ReadResult :=
  if off < 0 then .error .negativeOffset
  else .ok ⟨ByteFiles.readAt b off.toNat len,
    decide (b.length ≤ off.toNat ∨ b.length - off.toNat < len)⟩

/-- Whether an undo file passes the check. -/
def Passes (bytes : Bytes) : Prop := ∃ h, checkUndo bytes = .ok h

/-- Whether the records of an undo file are in order of offset, none over another. -/
def RecordsInOrder (bytes : Bytes) : Prop :=
  ∀ h rs, parseUndo bytes = .ok (h, rs) →
    rs.Pairwise (fun r q => r.patch.off + r.patch.data.length ≤ q.patch.off)

def toViewRec (r : UndoRecord) : ViewRec := ⟨r.patch.off, r.patch.data.length, r.pos⟩

theorem entries_of_ok (v : Volume) (es : List (Name × Bytes)) (h : undoEntries v = .ok es) :
    v.undo.entries = es := by
  unfold undoEntries at h
  cases hu : v.undo with
  | missing =>
    rw [hu] at h
    exact Except.ok.inj h
  | notFolder =>
    rw [hu] at h
    cases h
  | folder fs =>
    rw [hu] at h
    exact Except.ok.inj h

variable (prev : ℕ) (acc : List ViewRec) {us : List UndoFile}

theorem indexStep_ok (r : UndoRecord) (h : prev ≤ r.patch.off) :
    indexStep (prev, acc) r =
      .ok (r.patch.off + r.patch.data.length, acc ++ [toViewRec r]) := by
  unfold indexStep
  rw [if_neg (by simpa using h)]
  rfl

theorem foldlM_indexStep (rs : List UndoRecord)
    (hord : rs.Pairwise (fun r q => r.patch.off + r.patch.data.length ≤ q.patch.off))
    (hprev : ∀ r ∈ rs, prev ≤ r.patch.off) :
    ∃ last, rs.foldlM indexStep (prev, acc) = .ok (last, acc ++ rs.map toViewRec) := by
  induction rs generalizing prev acc with
  | nil => exact ⟨prev, by simp [pure, Except.pure]⟩
  | cons r rs ih =>
    obtain ⟨hr, hord'⟩ := pairwise_cons.mp hord
    obtain ⟨last, hlast⟩ := ih (r.patch.off + r.patch.data.length) (acc ++ [toViewRec r]) hord' hr
    refine ⟨last, ?_⟩
    rw [foldlM_cons, indexStep_ok prev acc r (hprev r (mem_cons_self ..))]
    change rs.foldlM indexStep _ = _
    rw [hlast, append_assoc]
    rfl

theorem inOrder_of_foldlM (rs : List UndoRecord) (st : ℕ × List ViewRec)
    (h : rs.foldlM indexStep (prev, acc) = .ok st) :
    rs.Pairwise (fun r q => r.patch.off + r.patch.data.length ≤ q.patch.off) ∧
      ∀ r ∈ rs, prev ≤ r.patch.off := by
  induction rs generalizing prev acc with
  | nil => simp
  | cons r rs ih =>
    rw [foldlM_cons] at h
    rcases Nat.lt_or_ge r.patch.off prev with hlt | hge
    · unfold indexStep at h
      rw [if_pos hlt] at h
      cases h
    · rw [indexStep_ok prev acc r hge] at h
      obtain ⟨hord, hbelow⟩ := ih _ _ h
      refine ⟨pairwise_cons.mpr ⟨hbelow, hord⟩, ?_⟩
      intro q hq
      rcases mem_cons.mp hq with rfl | hmem
      · exact hge
      · have hle := hbelow q hmem
        omega

/-- The index of an undo file with this header and these records. -/
def indexOfUndo (u : UndoFile) (h : UndoHeader) (rs : List UndoRecord) : ViewLayer :=
  ⟨u.bytes, rs.map toViewRec, h.oldSize.toNat⟩

/-- A file that passes the check is indexed if its records are in order. -/
theorem indexUndo_iff {u : UndoFile} {h : UndoHeader} {rs : List UndoRecord}
    (hparse : parseUndo u.bytes = .ok (h, rs)) {l : ViewLayer} :
    indexUndo u = .ok l ↔ RecordsInOrder u.bytes ∧ l = indexOfUndo u h rs := by
  have hread := (accepted_of_parseUndo u.bytes h rs hparse).read _ indexStep (0, [])
  unfold indexUndo
  rw [hread]
  constructor
  · intro hok
    cases hfold : rs.foldlM indexStep (0, []) with
    | error e =>
      rw [hfold] at hok
      cases hok
    | ok st =>
      obtain ⟨hord, hbelow⟩ := inOrder_of_foldlM 0 [] rs st hfold
      obtain ⟨last, hlast⟩ := foldlM_indexStep 0 [] rs hord hbelow
      cases hlast.symm.trans hfold
      rw [hfold] at hok
      cases hok
      refine ⟨?_, rfl⟩
      intro h' rs' hparse'
      cases hparse.symm.trans hparse'
      exact hord
  · rintro ⟨hord, rfl⟩
    obtain ⟨last, hlast⟩ := foldlM_indexStep 0 [] rs (hord h rs hparse) (fun _ _ => Nat.zero_le _)
    rw [hlast]
    rfl

/-- The index of an undo file undoes what the file does. -/
theorem indexUndo_sound (u : UndoFile) (hpass : Passes u.bytes) (l : ViewLayer)
    (hl : indexUndo u = .ok l) :
    l.Sound ∧ ∀ b, applyUndo (u.name, u.bytes) b = .ok (l.layer.undo b) := by
  obtain ⟨h, hcheck⟩ := hpass
  obtain ⟨rs, hparse⟩ := checkUndo_iff.mp hcheck
  obtain ⟨hord, rfl⟩ := (indexUndo_iff hparse).mp hl
  have hacc := accepted_of_parseUndo u.bytes h rs hparse
  refine ⟨⟨?_, ?_⟩, ?_⟩
  · exact pairwise_map.mpr (hord h rs hparse)
  · intro r hr
    obtain ⟨q, hq, rfl⟩ := mem_map.mp hr
    have hbytes := congrArg length (hacc.bytes q hq)
    have hpos := (hacc.fits q hq).1
    rw [length_readAt] at hbytes
    change q.pos + q.patch.data.length ≤ u.bytes.length
    omega
  · intro b
    have hpatches : (rs.map toViewRec).map (ViewRec.patch u.bytes) = rs.map UndoRecord.patch := by
      rw [map_map]
      apply map_congr_left
      intro q hq
      change Patch.mk q.patch.off (ByteFiles.readAt u.bytes q.pos q.patch.data.length) = q.patch
      rw [hacc.bytes q hq]
    rw [applyUndo_ok (u.name, u.bytes) b h rs hparse]
    unfold Layer.undo ViewLayer.layer indexOfUndo
    rw [hpatches]

theorem indexAll_cons (u : UndoFile) (us : List UndoFile) (ls : List ViewLayer) :
    indexAll (u :: us) = .ok ls ↔
      ∃ l ls', indexUndo u = .ok l ∧ indexAll us = .ok ls' ∧ ls = l :: ls' := by
  rw [indexAll, except_bind_ok]
  constructor
  · rintro ⟨l, hl, h⟩
    obtain ⟨ls', hls', h⟩ := except_bind_ok.mp h
    exact ⟨l, ls', hl, hls', (Except.ok.inj h).symm⟩
  · rintro ⟨l, ls', hl, hls', rfl⟩
    exact ⟨l, hl, except_bind_ok.mpr ⟨ls', hls', rfl⟩⟩

/-- The layers of a list of undo files rewind a disk as the files do. -/
theorem indexAll_sound (us : List UndoFile) (hpass : ∀ u ∈ us, Passes u.bytes)
    (ls : List ViewLayer) (hls : indexAll us = .ok ls) :
    ls.length = us.length ∧ (∀ l ∈ ls, l.Sound) ∧
      ∀ b, rewindFiles us b = .ok (UndoLog.rewind (ls.map ViewLayer.layer) b) := by
  induction us generalizing ls with
  | nil =>
    cases Except.ok.inj hls
    exact ⟨rfl, by simp, fun _ => rfl⟩
  | cons u us ih =>
    obtain ⟨l, ls', hl, hls', rfl⟩ := (indexAll_cons u us ls).mp hls
    obtain ⟨hlen, hsound, hrewind⟩ := ih (fun x hx => hpass x (mem_cons_of_mem u hx)) ls' hls'
    obtain ⟨hlsound, hundo⟩ := indexUndo_sound u (hpass u (mem_cons_self ..)) l hl
    refine ⟨by simp [hlen], ?_, ?_⟩
    · intro x hx
      rcases mem_cons.mp hx with rfl | hmem
      · exact hlsound
      · exact hsound x hmem
    · intro b
      rw [rewindFiles_cons (hrewind b), hundo, map_cons, rewind_cons]

theorem indexAll_iff (hpass : ∀ u ∈ us, Passes u.bytes) :
    (∃ ls, indexAll us = .ok ls) ↔ ∀ u ∈ us, RecordsInOrder u.bytes := by
  induction us with
  | nil => exact ⟨fun _ => by simp, fun _ => ⟨[], rfl⟩⟩
  | cons u us ih =>
    have hrest := ih (fun x hx => hpass x (mem_cons_of_mem u hx))
    obtain ⟨h, hcheck⟩ := hpass u (mem_cons_self ..)
    obtain ⟨rs, hparse⟩ := checkUndo_iff.mp hcheck
    rw [forall_mem_cons, ← hrest]
    constructor
    · rintro ⟨ls, hls⟩
      obtain ⟨l, ls', hl, hls', -⟩ := (indexAll_cons u us ls).mp hls
      exact ⟨((indexUndo_iff hparse).mp hl).1, ls', hls'⟩
    · rintro ⟨hord, ls, hls⟩
      have hu := (indexUndo_iff hparse).mpr ⟨hord, rfl⟩
      exact ⟨_, (indexAll_cons u us _).mpr ⟨_, ls, hu, hls, rfl⟩⟩

variable (v : Volume) {asked : Moment} {files : List UndoFile} {d : View} {chosen : Moment}
  {latest : Bool}

/-- What opening a view finds on the way. -/
theorem openDiskView_iff : openDiskView v asked = .ok d ↔
      ∃ files st c disk layers, undoHeaders v = .ok files ∧ stateFrom v files = .ok st ∧
        st.unfinished = false ∧ st.modified = false ∧ chooseMoment st asked = .ok c ∧
        diskInfo v = .ok disk ∧ viewLayers c.1 c.2 files = .ok layers ∧
        d = newView st c.1 c.2 disk layers (v.undo.entries.map Prod.fst) := by
  unfold openDiskView
  simp only [except_bind_ok, except_unless_ok, Bool.not_eq_true]
  constructor
  · rintro ⟨files, hfiles, st, hst, hun, hmod, c, hc, disk, hdisk, layers, hlayers, es, hes, h⟩
    have hentries := entries_of_ok v es hes
    subst hentries
    exact ⟨files, st, c, disk, layers, hfiles, hst, hun, hmod, hc, hdisk, hlayers,
      (Except.ok.inj h).symm⟩
  · rintro ⟨files, st, c, disk, layers, hfiles, hst, hun, hmod, hc, hdisk, hlayers, rfl⟩
    obtain ⟨es, hes, -⟩ := except_bind_ok.mp hfiles
    refine ⟨files, hfiles, st, hst, hun, hmod, c, hc, disk, hdisk, layers, hlayers, es, hes, ?_⟩
    rw [entries_of_ok v es hes]
    rfl

/-- All the undo files of finished copies pass the check. -/
def AllPass : Prop := ∀ e ∈ v.undo.entries, appliedSeq? e.1 ≠ none → Passes e.2

theorem listUndo_congr {read read' : Name → Bytes → Except Err UndoHeader}
    {es : List (Name × Bytes)}
    (h : ∀ e ∈ es, appliedSeq? e.1 ≠ none → read e.1 e.2 = read' e.1 e.2) :
    listUndo read es = listUndo read' es := by
  induction es with
  | nil => rfl
  | cons e es ih =>
    have htail := ih (fun x hx => h x (mem_cons_of_mem e hx))
    unfold listUndo
    cases hseq : appliedSeq? e.1 with
    | none => exact htail
    | some seq => rw [h e (mem_cons_self ..) (by simp [hseq]), htail]

theorem undoHeaders_eq (hpass : AllPass v) : undoHeaders v = appliedUndo v := by
  unfold undoHeaders appliedUndo undoFiles
  cases hes : undoEntries v with
  | error e => rfl
  | ok es =>
    change (listUndo readUndoHeader es >>= _) = (listUndo readUndo es >>= _)
    rw [listUndo_congr ?_]
    intro e he hseq
    rw [← entries_of_ok v es hes] at he
    obtain ⟨h, hcheck⟩ := hpass e he hseq
    obtain ⟨rs, hparse⟩ := checkUndo_iff.mp hcheck
    unfold readUndoHeader readUndo
    rw [readUndoHeaderFrom_of_accepted (accepted_of_parseUndo e.2 h rs hparse), hcheck]

theorem mem_of_appliedUndo (hfiles : appliedUndo v = .ok files)
    (u : UndoFile) (hu : u ∈ files) :
    (u.name, u.bytes) ∈ v.undo.entries ∧ appliedSeq? u.name ≠ none := by
  obtain ⟨es, hes, h⟩ := except_bind_ok.mp hfiles
  obtain ⟨listed, hlisted, h⟩ := except_bind_ok.mp h
  cases h
  obtain ⟨hmem, hseq, -⟩ := listUndo_mem readUndo es listed hlisted u ((mem_insertionSort _).mp hu)
  rw [entries_of_ok v es hes]
  exact ⟨hmem, by simp [hseq]⟩

theorem filesFrom_suffix {t : Moment} (h : filesFrom t files = some us) :
    us ≠ [] ∧ us <:+ files := by
  induction files with
  | nil => cases h
  | cons f files ih =>
    unfold filesFrom at h
    cases hf : filesFrom t files with
    | some us' =>
      rw [hf] at h
      cases h
      exact ⟨(ih hf).1, (ih hf).2.trans (suffix_cons f files)⟩
    | none =>
      rw [hf] at h
      obtain ⟨-, heq⟩ := Option.ite_none_right_eq_some.mp h
      cases heq
      exact ⟨by simp, suffix_rfl⟩

/-- The layers of a view rewind the disk to the bytes that a restore writes. -/
theorem viewLayers_sound
    (hpass : ∀ u ∈ files, Passes u.bytes) {ls : List ViewLayer}
    (hls : viewLayers chosen latest files = .ok ls) {b : Bytes} :
    (∀ l ∈ ls, l.Sound) ∧
      restoredBytes chosen latest files b =
        .ok (UndoLog.rewind (ls.map ViewLayer.layer) b) ∧
      viewSize b ls = (UndoLog.rewind (ls.map ViewLayer.layer) b).length := by
  unfold viewLayers at hls
  unfold restoredBytes
  cases latest with
  | true =>
    cases hls
    exact ⟨by simp, rfl, rfl⟩
  | false =>
    cases hfrom : filesFrom chosen files with
    | none =>
      rw [hfrom] at hls
      cases hls
    | some us =>
      rw [hfrom] at hls
      obtain ⟨hne, hmem⟩ := filesFrom_suffix hfrom
      obtain ⟨hlen, hsound, hrewind⟩ := indexAll_sound us (fun u hu => hpass u (hmem.mem hu)) ls hls
      refine ⟨hsound, hrewind b, ?_⟩
      cases ls with
      | nil =>
        exact absurd (length_eq_zero_iff.mp hlen.symm) hne
      | cons l ls =>
        exact (length_resize _).symm

/-- The undo files from the moment of a restore on have their records in order. -/
def LayersInOrder (v : Volume) (r : RestoreResult) : Prop :=
  r.latest = false → ∀ files us, appliedUndo v = .ok files →
    filesFrom r.moment files = some us → ∀ u ∈ us, RecordsInOrder u.bytes

/-- Where a restore writes a disk, a view has layers if the files it needs are in order. -/
theorem viewLayers_iff (hpass : ∀ u ∈ files, Passes u.bytes) {b out : Bytes}
    (hfiles : appliedUndo v = .ok files)
    (hout : restoredBytes chosen latest files b = .ok out) {known : Moment} :
    (∃ ls, viewLayers chosen latest files = .ok ls) ↔
      LayersInOrder v ⟨if latest then known else chosen, latest⟩ := by
  unfold viewLayers LayersInOrder
  unfold restoredBytes at hout
  cases latest with
  | true => simp
  | false =>
    cases hfrom : filesFrom chosen files with
    | none =>
      rw [hfrom] at hout
      cases hout
    | some us =>
      obtain ⟨-, hmem⟩ := filesFrom_suffix hfrom
      refine (indexAll_iff (fun u hu => hpass u (hmem.mem hu))).trans
        ⟨fun hord _ => ?_, fun h => ?_⟩
      · intro files' us' hfiles' hfrom'
        cases hfiles.symm.trans hfiles'
        cases hfrom.symm.trans hfrom'
        exact hord
      · exact h rfl files us hfiles hfrom

theorem readAt_view {v : Volume} {since : ℤ} (hcheck : check d v since = .ok ())
    (hsound : ∀ l ∈ d.layers, l.Sound) {out : Bytes}
    (hout : out = UndoLog.rewind (d.layers.map ViewLayer.layer) d.disk)
    (hsize : d.size = out.length) {len : ℕ} {off : ℤ} :
    d.readAt v since len off = readFileAt out len off := by
  unfold View.readAt readFileAt
  by_cases hneg : off < 0
  · rw [if_pos hneg, if_pos hneg]
  · rw [if_neg hneg, if_neg hneg, hcheck, hsize, fill_spec hsound, ← hout]
    rcases Nat.lt_or_ge off.toNat out.length with hlt | hge
    · have hwindow : window out off.toNat (min len (out.length - off.toNat)) =
          ByteFiles.readAt out off.toNat len := by
        unfold window
        have htake : ByteFiles.readAt out off.toNat (min len (out.length - off.toNat)) =
            ByteFiles.readAt out off.toNat len := by
          unfold ByteFiles.readAt
          rw [take_eq_take_iff, length_drop]
          omega
        have hlen : (ByteFiles.readAt out off.toNat len).length =
            min len (out.length - off.toNat) := by
          rw [length_readAt]
        rw [htake, ← hlen, resize_self]
      have heof : decide (out.length - off.toNat < len) =
          decide (out.length ≤ off.toNat ∨ out.length - off.toNat < len) := by
        rw [decide_eq_decide]
        omega
      rw [hwindow, ← heof]
      rw [if_neg (by omega)]
      rfl
    · have hnil : ByteFiles.readAt out off.toNat len = [] := by
        unfold ByteFiles.readAt
        rw [drop_eq_nil_of_le hge, take_nil]
      rw [hnil]
      rw [if_pos hge, decide_eq_true (.inl hge)]
      rfl

theorem check_unchanged (v : Volume) (since : ℤ) (st : DiskState) (chosen : Moment) (latest : Bool)
    (f : DiskFile) (hf : diskInfo v = .ok f) (hfolder : v.undo ≠ .notFolder)
    (ls : List ViewLayer) :
    check (newView st chosen latest f ls (v.undo.entries.map Prod.fst)) v since = .ok () := by
  have hdisk : v.disk = some f := by
    unfold diskInfo at hf
    cases hd : v.disk with
    | none =>
      rw [hd] at hf
      cases hf
    | some d =>
      simp only [hd] at hf
      split at hf
      · rw [Except.ok.inj hf]
      · cases hf
  unfold check
  rw [hdisk, undoEntries_ok v hfolder]
  split
  · rfl
  · simp [newView]

/-- A view shows what a restore to the same moment writes: the same moment, the
same size and the same bytes at every range. It can be opened exactly where a
restore succeeds and the undo files from its moment on have records in order. -/
theorem view_equals_restore (v : Volume) (asked : Moment) (stamp : ℤ) (hpass : AllPass v) :
    (∀ d, openDiskView v asked = .ok d →
      ∃ r out, (restoreDisk asked false stamp).result v = .ok (r, out) ∧
        d.moment = r.moment ∧ d.latest = r.latest ∧ d.size = out.length ∧
        ∀ since len off, d.readAt v since len off = readFileAt out len off) ∧
      ((∃ d, openDiskView v asked = .ok d) ↔
        ∃ r out, (restoreDisk asked false stamp).result v = .ok (r, out) ∧ LayersInOrder v r) := by
  rw [restoreDisk_result]
  have hpasses : ∀ files, appliedUndo v = .ok files → ∀ u ∈ files, Passes u.bytes :=
    fun files hfiles u hu =>
      hpass _ (mem_of_appliedUndo v hfiles u hu).1 (mem_of_appliedUndo v hfiles u hu).2
  have hopen : ∀ d, openDiskView v asked = .ok d → ∃ r out, restored v asked = .ok (r, out) ∧
      LayersInOrder v r ∧ d.moment = r.moment ∧ d.latest = r.latest ∧ d.size = out.length ∧
      ∀ since len off, d.readAt v since len off = readFileAt out len off := by
    intro d hd
    obtain ⟨files, st, c, disk, ls, hfiles, hst, hun, hmod, hc, hdisk, hls, rfl⟩ :=
      (openDiskView_iff v).mp hd
    rw [undoHeaders_eq v hpass] at hfiles
    have hfolder : v.undo ≠ .notFolder :=
      (idle_of_state (except_bind_ok.mpr ⟨files, hfiles, hst⟩) hun).1
    obtain ⟨hsound, hbytes, hsize⟩ := viewLayers_sound (hpasses files hfiles) hls
    refine ⟨_, _, restored_iff.mpr
      ⟨files, st, c, disk, hfiles, hst, hun, hmod, hc, hdisk, hbytes, rfl⟩,
      (viewLayers_iff v (hpasses files hfiles) hfiles hbytes).mp ⟨ls, hls⟩, rfl, rfl, hsize, ?_⟩
    intro since len off
    exact readAt_view (check_unchanged v since st c.1 c.2 disk hdisk hfolder ls) hsound rfl hsize
  refine ⟨fun d hd => ?_, ⟨?_, ?_⟩⟩
  · obtain ⟨r, out, hr, -, h⟩ := hopen d hd
    exact ⟨r, out, hr, h⟩
  · rintro ⟨d, hd⟩
    obtain ⟨r, out, hr, hord, -⟩ := hopen d hd
    exact ⟨r, out, hr, hord⟩
  · rintro ⟨r, out, hr, hord⟩
    obtain ⟨files, st, c, disk, hfiles, hst, hun, hmod, hc, hdisk, hbytes, rfl⟩ :=
      restored_iff.mp hr
    obtain ⟨ls, hls⟩ := (viewLayers_iff v (hpasses files hfiles) hfiles hbytes).mpr hord
    rw [← undoHeaders_eq v hpass] at hfiles
    exact ⟨_, (openDiskView_iff v).mpr
      ⟨files, st, c, disk, ls, hfiles, hst, hun, hmod, hc, hdisk, hls, rfl⟩⟩

/-- A disk of four bytes with one undo file, from second 2 to second 5, that
has these records. -/
def oneUndo (ps : List Patch) : Volume :=
  { Volume.empty with
    disk := some ⟨[5, 6, 7, 8], 1, true⟩
    undo := .folder [(seqName 1 ++ undoApplied,
      encodeUndo ⟨2000000000, 5000000000, 3, 4⟩ ps)] }

theorem allPass_oneUndo (ps : List Patch) (h : UndoHeader)
    (hcheck : checkUndo (encodeUndo ⟨2000000000, 5000000000, 3, 4⟩ ps) = .ok h) :
    AllPass (oneUndo ps) := by
  intro e he _
  cases mem_singleton.mp he
  exact ⟨h, hcheck⟩

theorem view_equals_restore_oneUndo :
    ∃ d out, openDiskView (oneUndo [⟨0, [1]⟩, ⟨2, [2]⟩]) 3000000000 = .ok d ∧
      (restoreDisk 3000000000 false 1).result (oneUndo [⟨0, [1]⟩, ⟨2, [2]⟩]) =
        .ok (⟨2000000000, false⟩, out) ∧
      ∀ since len off, d.readAt (oneUndo [⟨0, [1]⟩, ⟨2, [2]⟩]) since len off =
        readFileAt out len off := by
  have hpass := allPass_oneUndo [⟨0, [1]⟩, ⟨2, [2]⟩] ⟨2000000000, 5000000000, 3, 4⟩
    (by decide +kernel)
  obtain ⟨hview, -⟩ := view_equals_restore (oneUndo [⟨0, [1]⟩, ⟨2, [2]⟩]) 3000000000 1 hpass
  have hopen : (openDiskView (oneUndo [⟨0, [1]⟩, ⟨2, [2]⟩]) 3000000000).toOption.isSome = true := by
    decide +kernel
  have hrestore : (restoreDisk 3000000000 false 1).result (oneUndo [⟨0, [1]⟩, ⟨2, [2]⟩]) =
      .ok (⟨2000000000, false⟩, [1, 6, 2]) := by decide +kernel
  cases hd : openDiskView (oneUndo [⟨0, [1]⟩, ⟨2, [2]⟩]) 3000000000 with
  | error e =>
    rw [hd] at hopen
    cases hopen
  | ok d =>
    obtain ⟨r, out, hout, -, -, -, hread⟩ := hview d hd
    cases hrestore.symm.trans hout
    exact ⟨d, _, rfl, hrestore, hread⟩

/-- With its two records the other way round the file passes the check and a
restore uses it, but no view can be opened. -/
theorem records_out_of_order_no_view :
    AllPass (oneUndo [⟨2, [2]⟩, ⟨0, [1]⟩]) ∧
      (restoreDisk 3000000000 false 1).result (oneUndo [⟨2, [2]⟩, ⟨0, [1]⟩]) =
        .ok (⟨2000000000, false⟩, [1, 6, 2]) ∧
      openDiskView (oneUndo [⟨2, [2]⟩, ⟨0, [1]⟩]) 3000000000 =
        .error (.undo (seqName 1 ++ undoApplied) .outOfOrder) :=
  ⟨allPass_oneUndo _ ⟨2000000000, 5000000000, 3, 4⟩ (by decide +kernel), by decide +kernel,
    by decide +kernel⟩

end FilePool.DiskView
