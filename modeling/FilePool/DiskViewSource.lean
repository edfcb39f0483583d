import FilePool.DiskView

/-!
A view of a backup disk that is not on a share: the names and the undo files
come from a source that is not trusted. The view takes only names that the
writer makes, wants the files to form a chain, and has limits on what it
indexes. Within these limits it is the view that the folder gives.
-/
namespace FilePool.DiskViewSource

open UndoLog hiding rewind
open ByteFiles UndoFormat UndoNames VolumeSteps DurableSteps List
open UndoFolder DiskMoments LayerView RestoreDisk DiskView

def maxViewRecords : ℤ := 2097152

def maxViewLayers : ℕ := 1024

def maxUndoFiles : ℕ := 100000

/-- The undo folder of a backup disk. Its files do not change. -/
structure UndoSource where
  names : Except Err (List Name)
  openFile : Name → Except Err Bytes

/-- Whether a name is in the one form the writer makes. -/
def validUndoName (name : Name) : Bool :=
  hasSuffix name undoApplied &&
    (trimSuffix name undoApplied).all (fun c => (digit? c).isSome) &&
    decide (10 ≤ (trimSuffix name undoApplied).length ∧
      (trimSuffix name undoApplied).length ≤ 18) &&
    match atoi (trimSuffix name undoApplied) with
    | none => false
    | some n => decide (1 ≤ n ∧ seqName n.toNat ++ undoApplied = name)

/-- The number and the name of a file that a view may open. -/
def sourceName? (name : Name) : Option (ℤ × Name) :=
  if validUndoName name then (atoi (trimSuffix name undoApplied)).map (fun n => (n, name))
  else none

/-- The header of one file of the source. -/
def readHeaderOf (src : UndoSource) (f : ℤ × Name) : Except Err UndoFile := do
  let bytes ← src.openFile f.2
  let h ← readUndoHeader f.2 bytes
  return ⟨f.1, f.2, bytes, h⟩

/-- Read the headers; each file starts at the moment where the one before ends. -/
def readHeaders (src : UndoSource) : Option Moment → List (ℤ × Name) → Except Err (List UndoFile)
  | _, [] => .ok []
  | prev, f :: fs => do
    let u ← readHeaderOf src f
    if prev.all (fun t => u.hdr.fromMoment = t) then do
      let us ← readHeaders src (some u.hdr.toMoment) fs
      return u :: us
    else .error (.brokenChain f.2)

def sortNames (fs : List (ℤ × Name)) : List (ℤ × Name) :=
  fs.insertionSort (fun f g => f.1 ≤ g.1)

/-- The undo files of the source, oldest first, with their headers. -/
def headersFrom (src : UndoSource) : Except Err (List UndoFile) := do
  let names ← src.names
  let fs := names.filterMap sourceName?
  if maxUndoFiles < fs.length then .error .tooManyUndoFiles
  else readHeaders src none (sortNames fs)

def indexFromStep (st : (ℕ × List ViewRec) × ℤ) (r : UndoRecord) :
    Except UndoError ((ℕ × List ViewRec) × ℤ) :=
  if r.patch.off < st.1.1 then .error .outOfOrder
  else if st.2 - 1 < 0 then .error .tooManyRecords
  else .ok ((r.patch.off + r.patch.data.length,
    st.1.2 ++ [⟨r.patch.off, r.patch.data.length, r.pos⟩]), st.2 - 1)

/-- Check a whole undo file and note where each record's data is; the records
are taken off the budget. -/
def indexFrom (src : UndoSource) (name : Name) (budget : ℤ) : Except Err (ViewLayer × ℤ) := do
  let bytes ← src.openFile name
  match readUndoFrom bytes indexFromStep ((0, []), budget) with
  | .error e => .error (.undo name e)
  | .ok (h, st) => .ok (⟨bytes, st.1.2, h.oldSize.toNat⟩, st.2)

def indexAllFrom (src : UndoSource) : ℤ → List UndoFile → Except Err (List ViewLayer)
  | _, [] => .ok []
  | budget, u :: us => do
    let x ← indexFrom src u.name budget
    let ls ← indexAllFrom src x.2 us
    return x.1 :: ls

def sourceView (disk : Bytes) (layers : List ViewLayer) (moment : Moment) (latest : Bool) :
    View where
  disk := disk
  diskMtime := 0
  layers := layers
  size := viewSize disk layers
  moment := moment
  momentKnown := true
  latest := latest
  watched := false
  undoNames := []

/-- The layers of a view back to the chosen restore point. -/
def sourceLayers (src : UndoSource) (chosen : Moment) (files : List UndoFile) :
    Except Err (List ViewLayer) :=
  match filesFrom chosen files with
  | none => .error (.noRestorePoint chosen)
  | some us =>
    if maxViewLayers < us.length then .error (.tooManyLayers us.length)
    else indexAllFrom src maxViewRecords us

/-- The moments that the undo files reach back to. -/
def reached (files : List UndoFile) : List Moment :=
  (files.filter (fun u => u.hdr.fromMoment / 1000000000 > 0)).map (fun u => u.hdr.fromMoment)

/-- Open the disk as it was at the newest restore point at or before the asked
moment. The disk's bytes show the latest moment. -/
def openDiskViewFrom (disk : Bytes) (latest : Moment) (src : UndoSource) (asked : Moment) :
    Except Err View := do
  let files ← headersFrom src
  if asked = zeroTime ∨ ¬ asked < latest then .ok (sourceView disk [] latest true)
  else
    let chosen := (reached files).foldl (fun c p => if asked < p then c else p) zeroTime
    if chosen = zeroTime then .error (.beforeAllPoints ((reached files).headD latest))
    else do
      let layers ← sourceLayers src chosen files
      return sourceView disk layers chosen false

/-- A name in the form the writer makes, with a number that a view accepts. -/
def WriterName (name : Name) : Prop :=
  ∃ k : ℕ, 1 ≤ k ∧ k < 10 ^ 18 ∧ name = seqName k ++ undoApplied

theorem length_seqName_le {k : ℕ} (hk : k < 10 ^ 18) : (seqName k).length ≤ 18 := by
  rw [length_seqName]
  unfold decimalWidth
  split
  · decide
  · have hlog : Nat.log 10 k < 18 := Nat.log_lt_of_lt_pow (by omega) hk
    omega

/-- The names that the writer makes are the ones that a view opens. -/
theorem sourceName?_writer {k : ℕ} (h1 : 1 ≤ k) (hk : k < 10 ^ 18) :
    sourceName? (seqName k ++ undoApplied) = some ((k : ℤ), seqName k ++ undoApplied) := by
  have hvalid : validUndoName (seqName k ++ undoApplied) = true := by
    have hdigits : (seqName k).all (fun c => (digit? c).isSome) = true := by
      rw [all_eq_true]
      intro c hc
      exact Option.isSome_iff_ne_none.mpr (seqName_digits hc)
    have hlow : 10 ≤ (seqName k).length := by
      rw [length_seqName]
      exact decimalWidth_pos k
    have hhigh := length_seqName_le hk
    unfold validUndoName
    rw [hasSuffix_append, trimSuffix_append, hdigits, atoi_seqName]
    simp only [Bool.true_and, Bool.and_eq_true, decide_eq_true_eq, Int.toNat_natCast, and_true]
    omega
  unfold sourceName?
  rw [if_pos hvalid, trimSuffix_append, atoi_seqName]
  rfl

theorem sourceName?_some {name : Name} {f : ℤ × Name} (h : sourceName? name = some f) :
    f.2 = seqName f.1.toNat ++ undoApplied ∧ appliedSeq? name = some f.1 ∧ f.2 = name := by
  unfold sourceName? at h
  cases hv : validUndoName name with
  | false => simp [hv] at h
  | true =>
    rw [if_pos hv] at h
    obtain ⟨n, hn, rfl⟩ := Option.map_eq_some_iff.mp h
    unfold validUndoName at hv
    rw [hn] at hv
    simp only [Bool.and_eq_true, decide_eq_true_eq] at hv
    refine ⟨hv.2.2.symm, ?_, rfl⟩
    unfold appliedSeq?
    rw [if_pos hv.1.1.1, hn]

theorem sourceName?_eq {name : Name} (h : appliedSeq? name ≠ none → WriterName name) :
    sourceName? name = (appliedSeq? name).map (fun n => (n, name)) := by
  cases hseq : appliedSeq? name with
  | some n =>
    obtain ⟨k, h1, hk, rfl⟩ := h (by simp [hseq])
    rw [appliedSeq?_seqName] at hseq
    cases hseq
    exact sourceName?_writer h1 hk
  | none =>
    cases hs : sourceName? name with
    | none => rfl
    | some f =>
      have hsome := (sourceName?_some hs).2.1
      rw [hseq] at hsome
      cases hsome

def fileKey (u : UndoFile) : ℤ × Name := (u.seq, u.name)

theorem map_fileKey (read : Name → Bytes → Except Err UndoHeader) (es : List (Name × Bytes))
    (hnames : ∀ e ∈ es, appliedSeq? e.1 ≠ none → WriterName e.1) (files : List UndoFile)
    (h : listUndo read es = .ok files) :
    files.map fileKey = (es.map Prod.fst).filterMap sourceName? := by
  induction es generalizing files with
  | nil =>
    cases Except.ok.inj h
    rfl
  | cons e es ih =>
    have htail := ih (fun x hx => hnames x (mem_cons_of_mem e hx))
    have hname := sourceName?_eq (hnames e (mem_cons_self ..))
    unfold listUndo at h
    rw [map_cons]
    cases hseq : appliedSeq? e.1 with
    | none =>
      rw [hseq] at h hname
      rw [filterMap_cons_none hname]
      exact htail files h
    | some n =>
      rw [hseq] at h hname
      rw [filterMap_cons_some hname]
      obtain ⟨hdr, -, h⟩ := except_bind_ok.mp h
      obtain ⟨rest, hrest, h⟩ := except_bind_ok.mp h
      cases h
      rw [map_cons, htail rest hrest]
      rfl

theorem sortNames_perm (names names' : List Name) (h : names.Perm names') :
    sortNames (names.filterMap sourceName?) = sortNames (names'.filterMap sourceName?) := by
  have hperm : (sortNames (names.filterMap sourceName?)).Perm
      (sortNames (names'.filterMap sourceName?)) :=
    (perm_insertionSort _ _).trans ((h.filterMap _).trans (perm_insertionSort _ _).symm)
  have hwriter : ∀ (ns : List Name), ∀ f ∈ sortNames (ns.filterMap sourceName?),
      f.2 = seqName f.1.toNat ++ undoApplied := by
    intro ns f hf
    obtain ⟨n, -, hn⟩ := mem_filterMap.mp ((mem_insertionSort _).mp hf)
    exact (sourceName?_some hn).1
  refine hperm.eq_of_pairwise ?_ (pairwise_insertionSort _ _) (pairwise_insertionSort _ _)
  intro f g hf hg hfg hgf
  have hseq : f.1 = g.1 := Int.le_antisymm hfg hgf
  refine Prod.ext hseq ?_
  rw [hwriter names f hf, hwriter names' g hg, hseq]

theorem sortNames_map_fileKey (files : List UndoFile) :
    sortNames (files.map fileKey) = (sortFiles files).map fileKey := by
  exact (map_insertionSort _ _ fileKey files (fun _ _ _ _ => Iff.rfl)).symm

/-- Whether each file starts at the moment where the one before ends. -/
def Chained (files : List UndoFile) : Prop :=
  files.IsChain (fun f g => g.hdr.fromMoment = f.hdr.toMoment)

theorem readHeaders_ok (src : UndoSource) (files : List UndoFile) (hchain : Chained files)
    (hread : ∀ u ∈ files, src.openFile u.name = .ok u.bytes ∧
      readUndoHeader u.name u.bytes = .ok u.hdr)
    (prev : Option Moment) (hprev : ∀ u ∈ files.head?, prev.all (fun t => u.hdr.fromMoment = t)) :
    readHeaders src prev (files.map fileKey) = .ok files := by
  induction files generalizing prev with
  | nil => rfl
  | cons u us ih =>
    obtain ⟨hopen, hhdr⟩ := hread u (mem_cons_self ..)
    have hu : readHeaderOf src (fileKey u) = .ok u := by
      unfold readHeaderOf fileKey
      rw [hopen, except_bind_ok]
      exact ⟨u.bytes, rfl, except_bind_ok.mpr ⟨u.hdr, hhdr, rfl⟩⟩
    have hnext : ∀ w ∈ us.head?, (some u.hdr.toMoment).all (fun t => w.hdr.fromMoment = t) := by
      intro w hw
      have hlink := (isChain_cons.mp hchain).1 w hw
      simpa using hlink
    have hrest := ih (isChain_cons.mp hchain).2 (fun w hw => hread w (mem_cons_of_mem u hw)) _ hnext
    rw [map_cons, readHeaders, except_bind_ok]
    refine ⟨u, hu, ?_⟩
    rw [if_pos (hprev u rfl), except_bind_ok]
    exact ⟨us, hrest, rfl⟩

/-- A source that serves the undo folder of a disk, in any order. -/
structure Serves (src : UndoSource) (v : Volume) : Prop where
  names : ∃ names, src.names = .ok names ∧ names.Perm (v.undo.entries.map Prod.fst)
  files : ∀ e ∈ v.undo.entries, src.openFile e.1 = .ok e.2

/-- The files of the source, read by its names, are the files of the folder. -/
theorem headersFrom_eq (src : UndoSource) (v : Volume) (hserves : Serves src v)
    (hnames : ∀ e ∈ v.undo.entries, appliedSeq? e.1 ≠ none → WriterName e.1)
    (files : List UndoFile) (hfiles : undoHeaders v = .ok files) (hchain : Chained files)
    (hcount : files.length ≤ maxUndoFiles) : headersFrom src = .ok files := by
  obtain ⟨es, hes, h⟩ := except_bind_ok.mp hfiles
  obtain ⟨listed, hlisted, h⟩ := except_bind_ok.mp h
  cases h
  have hentries := entries_of_ok v es hes
  subst hentries
  obtain ⟨names, hsrc, hperm⟩ := hserves.names
  have hkeys := map_fileKey readUndoHeader v.undo.entries hnames listed hlisted
  have hsort : sortNames (names.filterMap sourceName?) = (sortFiles listed).map fileKey := by
    rw [sortNames_perm names _ hperm, ← hkeys, sortNames_map_fileKey]
  have hlen : (names.filterMap sourceName?).length ≤ maxUndoFiles := by
    have hsame := congrArg length hsort
    rw [length_map] at hsame
    unfold sortNames at hsame
    rw [length_insertionSort] at hsame
    omega
  unfold headersFrom
  rw [except_bind_ok]
  refine ⟨names, hsrc, ?_⟩
  rw [if_neg (by omega), hsort]
  apply readHeaders_ok src _ hchain
  · intro u hu
    obtain ⟨hmem, -, hread⟩ := listUndo_mem readUndoHeader _ listed hlisted u
      ((mem_insertionSort _).mp hu)
    exact ⟨hserves.files _ hmem, hread⟩
  · intro u _
    rfl

/-- Within the budget the records are indexed as they are without one. -/
theorem foldlM_indexFromStep (rs : List UndoRecord) (st : ℕ × List ViewRec) (budget : ℤ)
    (h : rs.length ≤ budget) :
    rs.foldlM indexFromStep (st, budget) =
      (rs.foldlM indexStep st).map (fun st' => (st', budget - rs.length)) := by
  induction rs generalizing st budget with
  | nil => simp [pure, Except.pure, Except.map]
  | cons r rs ih =>
    rw [length_cons] at h ⊢
    rw [foldlM_cons, foldlM_cons]
    unfold indexFromStep indexStep
    by_cases hlt : r.patch.off < st.1
    · rw [if_pos hlt, if_pos hlt]
      rfl
    · rw [if_neg hlt, if_neg hlt, if_neg (by push_cast at h; omega)]
      change rs.foldlM indexFromStep _ = (rs.foldlM indexStep _).map _
      rw [ih _ (budget - 1) (by push_cast at h; omega)]
      congr 1
      funext st'
      congr 1
      omega

/-- The number of records of an undo file that passes the check. -/
def recordCount (bytes : Bytes) : ℕ :=
  match parseUndo bytes with
  | .error _ => 0
  | .ok (_, rs) => rs.length

variable (src : UndoSource)

theorem indexFrom_iff (u : UndoFile) (hopen : src.openFile u.name = .ok u.bytes) (budget : ℤ)
    (h : recordCount u.bytes ≤ budget) (l : ViewLayer) (rest : ℤ) :
    indexFrom src u.name budget = .ok (l, rest) ↔
      indexUndo u = .ok l ∧ rest = budget - recordCount u.bytes := by
  unfold indexFrom indexUndo
  rw [hopen]
  simp only [bind, Except.bind]
  cases hparse : parseUndo u.bytes with
  | error e =>
    obtain ⟨e₁, he₁⟩ := readUndoFrom_error u.bytes e hparse indexFromStep ((0, []), budget)
    obtain ⟨e₂, he₂⟩ := readUndoFrom_error u.bytes e hparse indexStep (0, [])
    simp [he₁, he₂]
  | ok out =>
    obtain ⟨hdr, rs⟩ := out
    have hcount : recordCount u.bytes = rs.length := by
      unfold recordCount
      rw [hparse]
    have hacc := accepted_of_parseUndo u.bytes hdr rs hparse
    rw [hcount] at h ⊢
    rw [hacc.read _ indexFromStep, hacc.read _ indexStep, foldlM_indexFromStep rs (0, []) budget h]
    cases rs.foldlM indexStep (0, []) with
    | error e => simp [Except.map, bind, Except.bind]
    | ok st =>
      simp only [Except.map, bind, Except.bind, Except.ok.injEq, Prod.mk.injEq]
      constructor
      · rintro ⟨hl, hrest⟩
        exact ⟨hl, hrest.symm⟩
      · rintro ⟨hl, hrest⟩
        exact ⟨hl, hrest.symm⟩

/-- Within the budget the files of a source are indexed as the folder's are. -/
theorem indexAllFrom_iff (us : List UndoFile)
    (hopen : ∀ u ∈ us, src.openFile u.name = .ok u.bytes) (budget : ℤ)
    (h : ((us.map (fun u => recordCount u.bytes)).sum : ℤ) ≤ budget) (ls : List ViewLayer) :
    indexAllFrom src budget us = .ok ls ↔ indexAll us = .ok ls := by
  induction us generalizing budget ls with
  | nil => exact Iff.rfl
  | cons u us ih =>
    rw [map_cons, sum_cons] at h
    have hu := indexFrom_iff src u (hopen u (mem_cons_self ..)) budget (by omega)
    have hus := ih (fun x hx => hopen x (mem_cons_of_mem u hx))
      (budget - recordCount u.bytes) (by omega)
    rw [indexAll_cons, indexAllFrom, except_bind_ok]
    constructor
    · rintro ⟨⟨l, rest⟩, hl, h⟩
      obtain ⟨hindex, rfl⟩ := (hu l rest).mp hl
      obtain ⟨ls', hls', h⟩ := except_bind_ok.mp h
      cases h
      exact ⟨l, ls', hindex, (hus ls').mp hls', rfl⟩
    · rintro ⟨l, ls', hl, hls', rfl⟩
      refine ⟨(l, _), (hu l _).mpr ⟨hl, rfl⟩, except_bind_ok.mpr ⟨ls', ?_, rfl⟩⟩
      exact (hus ls').mpr hls'

/-- The files that a view at this restore point needs are within the limits. -/
def WithinLimits (files : List UndoFile) (chosen : Moment) : Prop :=
  ∀ us, filesFrom chosen files = some us →
    us.length ≤ maxViewLayers ∧
      ((us.map (fun u => recordCount u.bytes)).sum : ℤ) ≤ maxViewRecords

variable (files : List UndoFile)

theorem sourceLayers_iff (hopen : ∀ u ∈ files, src.openFile u.name = .ok u.bytes)
    {chosen : Moment} (hlimits : WithinLimits files chosen) (ls : List ViewLayer) :
    sourceLayers src chosen files = .ok ls ↔ viewLayers chosen false files = .ok ls := by
  unfold sourceLayers viewLayers
  cases hfrom : filesFrom chosen files with
  | none => simp
  | some us =>
    obtain ⟨hlayers, hrecords⟩ := hlimits us hfrom
    have hmem := (filesFrom_suffix hfrom).2
    simp only
    rw [if_neg (by omega)]
    exact indexAllFrom_iff src us (fun u hu => hopen u (hmem.mem hu)) _ hrecords ls

theorem restorePoints_stateFrom (v : Volume) (st : DiskState) (hst : stateFrom v files = .ok st) :
    st.restorePoints = reached files := by
  obtain ⟨t, -, h⟩ := except_bind_ok.mp hst
  obtain ⟨mf, -, h⟩ := except_bind_ok.mp h
  obtain ⟨un, -, h⟩ := except_bind_ok.mp h
  cases h
  rfl

/-- Within the limits a view on the source finds the moment and the layers that
a view on the folder finds. -/
theorem openDiskViewFrom_iff (st : DiskState) (latest asked : Moment)
    (hmoment : st.moment = some latest) (hpoints : st.restorePoints = reached files)
    (hheaders : headersFrom src = .ok files)
    (hopen : ∀ u ∈ files, src.openFile u.name = .ok u.bytes)
    (hlimits : ∀ chosen, chooseMoment st asked = .ok (chosen, false) → WithinLimits files chosen)
    (disk : Bytes) (d : View) :
    openDiskViewFrom disk latest src asked = .ok d ↔
      ∃ c ls, chooseMoment st asked = .ok c ∧ viewLayers c.1 c.2 files = .ok ls ∧
        d = sourceView disk ls (if c.2 then latest else c.1) c.2 := by
  have hchoose := chooseMoment.eq_def st asked
  simp only [hmoment, hpoints] at hchoose
  unfold openDiskViewFrom
  rw [hheaders]
  change (if _ then _ else _) = _ ↔ _
  by_cases hlatest : asked = zeroTime ∨ ¬ asked < latest
  · rw [if_pos hlatest] at hchoose ⊢
    constructor
    · intro h
      exact ⟨_, [], hchoose, rfl, (Except.ok.inj h).symm⟩
    · rintro ⟨c, ls, hc, hls, rfl⟩
      cases hchoose.symm.trans hc
      cases hls
      rfl
  · rw [if_neg hlatest] at hchoose ⊢
    generalize (reached files).foldl (fun c p => if asked < p then c else p) zeroTime = chosen
      at hchoose
    by_cases hzero : chosen = zeroTime
    · rw [if_pos hzero] at hchoose ⊢
      simp [hchoose]
    · rw [if_neg hzero] at hchoose ⊢
      have hlayers := sourceLayers_iff src files hopen (hlimits chosen hchoose)
      rw [except_bind_ok]
      constructor
      · rintro ⟨ls, hls, h⟩
        exact ⟨_, ls, hchoose, (hlayers ls).mp hls, (Except.ok.inj h).symm⟩
      · rintro ⟨c, ls, hc, hls, rfl⟩
        cases hchoose.symm.trans hc
        exact ⟨ls, (hlayers ls).mpr hls, rfl⟩

/-- Within the limits, a view on a source that serves the undo folder of a disk
is the view on the folder. -/
theorem source_view_equals_folder_view (v : Volume) (src : UndoSource) (asked latest : Moment)
    (files : List UndoFile) (st : DiskState) (disk : DiskFile) (hserves : Serves src v)
    (hfiles : undoHeaders v = .ok files) (hst : stateFrom v files = .ok st)
    (hdisk : diskInfo v = .ok disk) (hfinished : st.unfinished = false)
    (hmodified : st.modified = false) (hmoment : st.moment = some latest)
    (hchain : Chained files)
    (hnames : ∀ e ∈ v.undo.entries, appliedSeq? e.1 ≠ none → WriterName e.1)
    (hcount : files.length ≤ maxUndoFiles)
    (hlimits : ∀ chosen, chooseMoment st asked = .ok (chosen, false) →
      WithinLimits files chosen) :
    ((∃ d, openDiskViewFrom disk.bytes latest src asked = .ok d) ↔
        ∃ d, openDiskView v asked = .ok d) ∧
      ∀ d d', openDiskView v asked = .ok d →
        openDiskViewFrom disk.bytes latest src asked = .ok d' →
        d'.moment = d.moment ∧ d'.momentKnown = d.momentKnown ∧ d'.latest = d.latest ∧
          d'.size = d.size ∧
          ∀ since len off, d'.readAt v since len off = d.readAt v since len off := by
  have hheaders := headersFrom_eq src v hserves hnames files hfiles hchain hcount
  obtain ⟨es, hes, hlist⟩ := except_bind_ok.mp hfiles
  obtain ⟨listed, hlisted, hlist⟩ := except_bind_ok.mp hlist
  have hopen : ∀ u ∈ files, src.openFile u.name = .ok u.bytes := by
    intro u hu
    cases hlist
    have hmem := (listUndo_mem readUndoHeader es listed hlisted u ((mem_insertionSort _).mp hu)).1
    rw [← entries_of_ok v es hes] at hmem
    exact hserves.files _ hmem
  have hsource := openDiskViewFrom_iff src files st latest asked hmoment
    (restorePoints_stateFrom files v st hst) hheaders hopen hlimits disk.bytes
  have hfolder : ∀ d, openDiskView v asked = .ok d ↔
      ∃ c ls, chooseMoment st asked = .ok c ∧ viewLayers c.1 c.2 files = .ok ls ∧
        d = newView st c.1 c.2 disk ls (v.undo.entries.map Prod.fst) := by
    intro d
    rw [openDiskView_iff]
    constructor
    · rintro ⟨files', st', c, disk', ls, hfiles', hst', -, -, hc, hdisk', hls, rfl⟩
      cases hfiles.symm.trans hfiles'
      cases hst.symm.trans hst'
      cases hdisk.symm.trans hdisk'
      exact ⟨c, ls, hc, hls, rfl⟩
    · rintro ⟨c, ls, hc, hls, rfl⟩
      exact ⟨files, st, c, disk, ls, hfiles, hst, hfinished, hmodified, hc, hdisk, hls, rfl⟩
  refine ⟨?_, ?_⟩
  · constructor
    · rintro ⟨d, hd⟩
      obtain ⟨c, ls, hc, hls, -⟩ := (hsource d).mp hd
      exact ⟨_, (hfolder _).mpr ⟨c, ls, hc, hls, rfl⟩⟩
    · rintro ⟨d, hd⟩
      obtain ⟨c, ls, hc, hls, -⟩ := (hfolder d).mp hd
      exact ⟨_, (hsource _).mpr ⟨c, ls, hc, hls, rfl⟩⟩
  · intro d d' hd hd'
    obtain ⟨c, ls, hc, hls, rfl⟩ := (hfolder d).mp hd
    obtain ⟨c', ls', hc', hls', rfl⟩ := (hsource d').mp hd'
    cases hc.symm.trans hc'
    cases hls.symm.trans hls'
    have hundo : v.undo ≠ .notFolder := by
      intro hbad
      unfold undoEntries at hes
      rw [hbad] at hes
      cases hes
    refine ⟨?_, ?_, rfl, rfl, ?_⟩
    · unfold newView sourceView
      rw [hmoment]
      rfl
    · unfold newView sourceView
      simp only [hmoment, Option.isSome_some, ite_self]
    · intro since len off
      have hcheck := check_unchanged v since st c.1 c.2 disk hdisk hundo ls
      unfold View.readAt
      rw [hcheck]
      rfl

/-- The source that serves the undo folder of a disk. -/
def folderSource (v : Volume) : UndoSource where
  names := .ok (v.undo.entries.map Prod.fst)
  openFile name :=
    match v.undo.entries.find? (fun e => e.1 = name) with
    | none => .error .notExist
    | some e => .ok e.2

theorem serves_folderSource {v : Volume} {e : Name × Bytes} (h : v.undo.entries = [e]) :
    Serves (folderSource v) v := by
  refine ⟨⟨_, rfl, Perm.refl _⟩, ?_⟩
  intro x hx
  rw [h, mem_singleton] at hx
  subst hx
  unfold folderSource
  rw [h]
  simp

theorem source_view_equals_folder_view_oneUndo :
    ∃ d d', openDiskView (oneUndo [⟨0, [1]⟩]) 3000000000 = .ok d ∧
      openDiskViewFrom [5, 6, 7, 8] 5000000000 (folderSource (oneUndo [⟨0, [1]⟩])) 3000000000 =
        .ok d' ∧
      d'.moment = d.moment ∧ d'.size = d.size := by
  have hfiles : undoHeaders (oneUndo [⟨0, [1]⟩]) =
      .ok [⟨1, seqName 1 ++ undoApplied, encodeUndo ⟨2000000000, 5000000000, 3, 4⟩ [⟨0, [1]⟩],
        ⟨2000000000, 5000000000, 3, 4⟩⟩] := by decide +kernel
  obtain ⟨hiff, hsame⟩ := source_view_equals_folder_view (oneUndo [⟨0, [1]⟩])
    (folderSource (oneUndo [⟨0, [1]⟩])) 3000000000 5000000000 _
    ⟨some 5000000000, [], [2000000000], false, false⟩ ⟨[5, 6, 7, 8], 1, true⟩
    (serves_folderSource rfl) hfiles (by decide +kernel) (by decide +kernel) rfl rfl rfl
    (isChain_singleton _) (by
      intro e he _
      cases mem_singleton.mp he
      exact ⟨1, by decide, by decide, rfl⟩)
    (by decide) (by
      intro chosen _ us hus
      unfold filesFrom filesFrom at hus
      simp only at hus
      split at hus
      · cases hus
        decide +kernel
      · cases hus)
  have hopen : (openDiskView (oneUndo [⟨0, [1]⟩]) 3000000000).toOption.isSome = true := by
    decide +kernel
  cases hd : openDiskView (oneUndo [⟨0, [1]⟩]) 3000000000 with
  | error e =>
    rw [hd] at hopen
    cases hopen
  | ok d =>
    obtain ⟨d', hd'⟩ := hiff.mpr ⟨d, hd⟩
    obtain ⟨hmoment, -, -, hsize, -⟩ := hsame d d' hd hd'
    exact ⟨d, d', rfl, hd', hmoment, hsize⟩

/-- The same undo file under a name that the writer does not make. -/
def shortNamed : Volume :=
  { oneUndo [] with
    undo := .folder [(['1'] ++ undoApplied,
      encodeUndo ⟨2000000000, 5000000000, 3, 4⟩ [⟨0, [1]⟩])] }

/-- The folder's view uses such a file and the source's view does not. -/
theorem short_name_no_source_view :
    Serves (folderSource shortNamed) shortNamed ∧
      readDiskState shortNamed = .ok ⟨some 5000000000, [], [2000000000], false, false⟩ ∧
      (openDiskView shortNamed 3000000000).toOption.isSome = true ∧
      openDiskViewFrom [5, 6, 7, 8] 5000000000 (folderSource shortNamed) 3000000000 =
        .error (.beforeAllPoints 5000000000) :=
  ⟨serves_folderSource rfl, by decide +kernel, by decide +kernel, by decide +kernel⟩

end FilePool.DiskViewSource
