import FilePool.Recovery

/-!
The durable steps of one copy, from a folder with nothing to roll back. A copy
onto a disk saves the old blocks, changes the disk and marks the undo file. A
stop before the mark leaves a state between, from which the roll back leads to
the old disk, as long as the copy cuts off nothing but zeros; the mark makes
the undo file a restore point of the old disk.
-/
namespace FilePool.CopySteps

open ByteFiles BigEndian UndoLog CopyChunks UndoWriter UndoFormat UndoNames List VolumeSteps
  DurableSteps DurableSteps.Prog UndoFolder ApplyCopy Recovery

def undoBytes (src : CopySource) (opts : ApplyOptions) (old : Bytes) (cs : List Patch) : Bytes :=
  encodeUndo (undoHeader opts old.length src.size) (undoRecords old cs)

/-- The restore point that a copy leaves. -/
def restorePoint (S : List (Name × Bytes)) (src : CopySource) (opts : ApplyOptions)
    (old : Bytes) (cs : List Patch) : Name × Bytes :=
  (nextBase S ++ undoApplied, undoBytes src opts old cs)

/-- The same undo file before the mark. -/
def readyFile (S : List (Name × Bytes)) (src : CopySource) (opts : ApplyOptions)
    (old : Bytes) (cs : List Patch) : Name × Bytes :=
  (nextBase S ++ undoReady, undoBytes src opts old cs)

/-- The steps of a copy onto a disk. -/
def copySteps (S : List (Name × Bytes)) (src : CopySource) (opts : ApplyOptions)
    (old : Bytes) (cs : List Patch) (stamp : ℤ) : List Step :=
  [.makeUndoDir,
    .putUndo (nextBase S ++ undoPart) (undoBytes src opts old cs),
    .renameUndo (nextBase S ++ undoPart) (nextBase S ++ undoReady),
    .changeDisk (diskChanges old src.size cs) stamp,
    .renameUndo (nextBase S ++ undoReady) (nextBase S ++ undoApplied)]

theorem not_mem_next {S : List (Name × Bytes)} (rest : Name) (e : Name × Bytes) (he : e ∈ S) :
    e.1 ≠ nextBase S ++ (undoApplied ++ rest) := by
  intro heq
  apply next_not_mem (S.map Prod.fst) rest
  exact heq ▸ mem_map_of_mem he

/-- The folder with these undo files. -/
def withUndo (v : Volume) (es : List (Name × Bytes)) : Volume := { v with undo := .folder es }

theorem makeUndoDir_apply {v : Volume} (h : v.undo ≠ .notFolder) :
    Step.makeUndoDir.apply v = withUndo v v.undo.entries := by
  have hmake : v.undo.make = .folder v.undo.entries := by
    cases hu : v.undo with
    | missing => rfl
    | notFolder => exact absurd hu h
    | folder es => rfl
  simp only [Step.apply, hmake, withUndo]

theorem removeEntry_of_not_mem (name : Name) (es : List (Name × Bytes))
    (h : ∀ e ∈ es, e.1 ≠ name) : removeEntry name es = es := by
  apply filter_eq_self.mpr
  intro e he
  simpa using h e he

variable {content : Bytes} {base : Name}

theorem renameEntry_last {es : List (Name × Bytes)} {old new : Name}
    (hold : ∀ e ∈ es, e.1 ≠ old) (hnew : ∀ e ∈ es, e.1 ≠ new) (hne : old ≠ new) :
    renameEntry old new (es ++ [(old, content)]) = es ++ [(new, content)] := by
  unfold renameEntry
  rw [removeEntry_of_not_mem]
  · rw [map_append, map_singleton, if_pos rfl]
    congr 1
    conv_rhs => rw [← map_id es]
    apply map_congr_left
    intro e he
    rw [if_neg (hold e he)]
    rfl
  · intro e he
    rcases mem_append.mp he with h | h
    · exact hnew e h
    · rw [mem_singleton] at h
      subst h
      exact hne

theorem part_ne_ready : base ++ undoPart ≠ base ++ undoReady := by
  intro h
  exact absurd (append_cancel_left h) (by decide)

theorem ready_ne_applied : base ++ undoReady ≠ base ++ undoApplied := by
  intro h
  exact absurd (append_cancel_left h) (by decide)

variable (S : List (Name × Bytes)) (src : CopySource) (opts : ApplyOptions) (b : Bytes)
  (cs : List Patch) (stamp : ℤ)

theorem renames : renameEntry (nextBase S ++ undoPart) (nextBase S ++ undoReady)
        (S ++ [(nextBase S ++ undoPart, content)]) = S ++ [(nextBase S ++ undoReady, content)] ∧
      renameEntry (nextBase S ++ undoReady) (nextBase S ++ undoApplied)
        (S ++ [(nextBase S ++ undoReady, content)]) =
          S ++ [(nextBase S ++ undoApplied, content)] := by
  have happlied : ∀ e ∈ S, e.1 ≠ nextBase S ++ undoApplied := by
    intro e he
    simpa using not_mem_next [] e he
  exact ⟨renameEntry_last (not_mem_next _) (not_mem_next _) part_ne_ready,
    renameEntry_last (not_mem_next _) happlied ready_ne_applied⟩

/-- The steps of a copy onto a disk, from a folder with nothing to roll back. -/
theorem writeCopy_steps {v : Volume} (h : Rests S (some b) v)
    (hcs : forEachNewChunk src opts.full = .ok cs) :
    writeCopy src opts stamp v = (copySteps S src opts b cs stamp,
      .ok ((changedOffsets b src.size cs).length * compareChunk, true)) := by
  obtain ⟨d, hd, hbytes⟩ := diskInfo_of_holds h.disk
  obtain ⟨hdisk, _⟩ := diskInfo_ok v d hd
  have hlook : (inspect undoEntries : VolProg _) v = ([], .ok v.undo.entries) :=
    congrArg (Prod.mk []) (undoEntries_ok v h.folder)
  have hdir : makeUndoDir v = ([.makeUndoDir], .ok ()) := by
    unfold makeUndoDir
    rw [bind_look _ _ v hlook]
    rfl
  have hafter : device.applyAll [.makeUndoDir] v = withUndo v S := by
    change Step.makeUndoDir.apply v = _
    rw [makeUndoDir_apply h.folder, h.entries]
  have hfresh : S.any (fun e => decide (e.1 = nextBase S ++ undoPart)) = false := by
    rw [any_eq_false]
    intro e he
    exact decide_eq_false (not_mem_next _ e he) ▸ Bool.false_ne_true
  have hput : writeUndo (nextBase S ++ undoPart) src b opts (withUndo v S) =
      ([.putUndo (nextBase S ++ undoPart) (undoBytes src opts b cs)], .ok cs) := by
    unfold writeUndo
    rw [bind_look _ _ (withUndo v S) (show _ = ([], Except.ok S) from rfl)]
    rw [hfresh, hcs]
    rfl
  unfold writeCopy
  rw [bind_look _ _ v (congrArg (fun x => ([], Except.ok x)) hdisk)]
  simp only
  rw [bind_look _ _ v (congrArg (Prod.mk []) hd)]
  have hchange : changeDisk src opts stamp d v = (copySteps S src opts b cs stamp,
      .ok ((changedOffsets b src.size cs).length * compareChunk)) := by
    unfold changeDisk
    rw [bind_eq _ _ v hdir, hafter]
    rw [bind_look _ _ (withUndo v S) (show _ = ([], Except.ok S) from rfl), hbytes]
    rw [bind_eq _ _ (withUndo v S) hput]
    rfl
  rw [bind_eq _ _ v hchange]
  rfl

/-- The state after a copy onto a disk. -/
def copiedState (v : Volume) : Volume :=
  withUndo ((Step.changeDisk (diskChanges b src.size cs) stamp).apply v)
    (S ++ [restorePoint S src opts b cs])

/-- Everything that a stop of a copy onto a disk can leave. -/
inductive CopyStop (v : Volume) : Volume → Prop
  | start : CopyStop v v
  | saving (parts : List (Name × Bytes)) (hp : ∀ e ∈ parts, hasSuffix e.1 undoPart = true) :
      CopyStop v (withUndo v (S ++ parts))
  | changing (ds : List Change)
      (hd : ∀ c ∈ ds, ∃ d ∈ diskChanges b src.size cs, Piece c d) :
      CopyStop v (withUndo ((Step.changeDisk ds stamp).apply v)
        (S ++ [readyFile S src opts b cs]))
  | marked : CopyStop v (copiedState S src opts b cs stamp v)

theorem changeDisk_nil (v : Volume) : (Step.changeDisk [] stamp).apply v = v := by
  have hid : (DiskFile.change [] stamp) = id := funext (fun d => if_pos rfl)
  simp only [Step.apply, hid, Option.map_id, id]

/-- The states between the steps of a copy onto a disk. -/
theorem copy_states (v : Volume) (h : Rests S (some b) v) (content : Bytes) (ds : List Change) :
    device.apply .makeUndoDir v = withUndo v S ∧
      device.apply (.putUndo (nextBase S ++ undoPart) content) (withUndo v S) =
        withUndo v (S ++ [(nextBase S ++ undoPart, content)]) ∧
      device.apply (.renameUndo (nextBase S ++ undoPart) (nextBase S ++ undoReady))
          (withUndo v (S ++ [(nextBase S ++ undoPart, content)])) =
        withUndo v (S ++ [(nextBase S ++ undoReady, content)]) ∧
      device.apply (.changeDisk ds stamp)
          (withUndo v (S ++ [(nextBase S ++ undoReady, content)])) =
        withUndo ((Step.changeDisk ds stamp).apply v)
          (S ++ [(nextBase S ++ undoReady, content)]) ∧
      device.apply (.renameUndo (nextBase S ++ undoReady) (nextBase S ++ undoApplied))
          (withUndo ((Step.changeDisk ds stamp).apply v)
            (S ++ [(nextBase S ++ undoReady, content)])) =
        withUndo ((Step.changeDisk ds stamp).apply v)
          (S ++ [(nextBase S ++ undoApplied, content)]) := by
  obtain ⟨hready, happlied⟩ := renames S
  have hdir := makeUndoDir_apply h.folder
  rw [h.entries] at hdir
  exact ⟨hdir, rfl, congrArg (withUndo v) hready, rfl, congrArg (withUndo _) happlied⟩

theorem applyAll_copySteps {v : Volume} (h : Rests S (some b) v) :
    device.applyAll (copySteps S src opts b cs stamp) v = copiedState S src opts b cs stamp v := by
  obtain ⟨h1, h2, h3, h4, h5⟩ := copy_states S b stamp v h (undoBytes src opts b cs)
    (diskChanges b src.size cs)
  simp only [copySteps, Device.applyAll_cons, h1, h2, h3, h4, h5]
  rfl

theorem stopped_copySteps {v s : Volume} (h : Rests S (some b) v)
    (hs : device.StoppedIn (copySteps S src opts b cs stamp) v s) :
    CopyStop S src opts b cs stamp v s := by
  have hpart : ∀ content : Bytes, ∀ e ∈ [(nextBase S ++ undoPart, content)],
      hasSuffix e.1 undoPart = true := by
    intro content e he
    rw [mem_singleton] at he
    subst he
    exact hasSuffix_append
  have hnone : CopyStop S src opts b cs stamp v (withUndo v S) := by
    have hs : CopyStop S src opts b cs stamp v (withUndo v (S ++ [])) := .saving [] (by simp)
    rwa [append_nil] at hs
  have hfirst : CopyStop S src opts b cs stamp v
      (withUndo v (S ++ [readyFile S src opts b cs])) := by
    have hs : CopyStop S src opts b cs stamp v (withUndo
        ((Step.changeDisk [] stamp).apply v) (S ++ [readyFile S src opts b cs])) :=
      .changing [] (by simp)
    rwa [changeDisk_nil] at hs
  obtain ⟨h1, h2, h3, h4, h5⟩ := copy_states S b stamp v h (undoBytes src opts b cs)
    (diskChanges b src.size cs)
  simp only [copySteps, Device.stoppedIn_cons, h1, h2, h3, h4, h5] at hs
  rcases hs with rfl | htorn | rfl | ⟨k, rfl⟩ | rfl | htorn | rfl | ⟨ds, hds, rfl⟩ | rfl |
    htorn | rfl
  · exact .start
  · exact htorn.elim
  · exact hnone
  · exact .saving _ (hpart _)
  · exact .saving _ (hpart _)
  · exact htorn.elim
  · exact hfirst
  · exact .changing ds hds
  · exact .changing _ (fun c hc => ⟨c, hc, .whole c⟩)
  · exact htorn.elim
  · exact .marked

section Staged

variable (S : List (Name × Bytes)) (src : StagedCopy) (opts : ApplyOptions) (b : Bytes)
  (cs : List Patch) (stamp : ℤ) (hcs : forEachNewChunk src.toCopySource opts.full = .ok cs)
  (hb : b.length < 2 ^ 63) {name : Name}

include hcs

theorem undoRecords_fit {p : Patch} (hp : p ∈ undoRecords b cs) : FitsIn b.length p := by
  have hd := describes_of_chunks src opts.full cs hcs
  obtain ⟨c, hc, hrec⟩ := mem_filterMap.mp hp
  obtain ⟨hlt, rfl⟩ := undoRecord_eq_some b c p hrec
  have hne := hd.nonempty c hc
  have hshort := hd.short c hc
  have hlen := length_readAt b c.off (min c.data.length (b.length - c.off))
  refine ⟨?_, ?_, ?_⟩
  · change 0 < (readAt b c.off _).length
    omega
  · change (readAt b c.off _).length ≤ compareChunk
    omega
  · change (c.off + (readAt b c.off _).length : ℤ) ≤ b.length
    omega

include hb

omit hcs in
theorem stored_header : (undoHeader opts b.length src.size).stored =
    ⟨wrap opts.fromMoment, wrap opts.toMoment, b.length, src.size⟩ := by
  have hs := src.size_lt
  have hin : ∀ n : ℕ, n < 2 ^ 63 → wrap n = n := by
    intro n hn
    apply wrap_of_inRange
    unfold InRange
    omega
  simp only [undoHeader, UndoHeader.stored, hin b.length hb, hin src.size hs]

theorem parseUndo_undoBytes (hsize : b.length ≤ 2 ^ 50 ∧ src.size ≤ 2 ^ 50) :
    parseUndo (undoBytes src.toCopySource opts b cs) =
      .ok ((undoHeader opts b.length src.size).stored, recordsAt 40 (undoRecords b cs)) := by
  have hstored := stored_header src opts b hb
  apply parseUndo_encode
  · rw [hstored]
    unfold UndoHeader.BadSizes maxDiskBytes
    simp only
    omega
  · intro p hp
    rw [hstored]
    exact undoRecords_fit src opts b cs hcs hp

theorem readUndo_undoBytes (hsize : b.length ≤ 2 ^ 50 ∧ src.size ≤ 2 ^ 50) :
    readUndo name (undoBytes src.toCopySource opts b cs) =
      .ok (undoHeader opts b.length src.size).stored := by
  have hcheck := checkUndo_iff.mpr ⟨_, parseUndo_undoBytes src opts b cs hcs hb hsize⟩
  unfold readUndo
  rw [hcheck]
  rfl

omit hcs in
/-- An undo file for too large a disk is refused by every reader. -/
theorem readUndoFrom_undoBytes_large {β : Type} {fn : β → UndoRecord → Except UndoError β}
    {init : β} (hsize : 2 ^ 50 < b.length ∨ 2 ^ 50 < src.size) :
    readUndoFrom (undoBytes src.toCopySource opts b cs) fn init = .error .badHeader := by
  apply readUndoFrom_bad
  rw [stored_header src opts b hb]
  unfold UndoHeader.BadSizes maxDiskBytes
  simp only
  omega

/-- The undo file takes the half changed disk back. -/
theorem rollsBack_ready (name : Name) :
    RollsBack (name, undoBytes src.toCopySource opts b cs) (undoRecords b cs) b where
  saves := saves_undoRecords b
  parsed h rs hok := by
    by_cases hsize : b.length ≤ 2 ^ 50 ∧ src.size ≤ 2 ^ 50
    · unfold parse at hok
      rw [parseUndo_undoBytes src opts b cs hcs hb hsize] at hok
      obtain ⟨rfl, rfl⟩ := Prod.mk.inj (Except.ok.inj hok)
      rw [stored_header src opts b hb]
      exact ⟨map_patch_recordsAt, Int.toNat_natCast _⟩
    · unfold parse parseUndo at hok
      rw [readUndoFrom_undoBytes_large src opts b cs hb (by omega)] at hok
      cases hok

omit hb

theorem holds_copied {v : Volume} (h : Holds v (some b)) :
    Holds ((Step.changeDisk (diskChanges b src.size cs) stamp).apply v)
      (some (copied src.toCopySource opts.full b)) := by
  obtain ⟨d, hd, hreg, hbytes⟩ := h
  refine ⟨_, disk_change hd, ?_, ?_⟩
  · rw [change_regular, hreg]
  · rw [change_bytes, hbytes]
    exact applyChanges_diskChanges src opts.full b cs hcs

omit hcs in
theorem restorePoint_settled {e : Name × Bytes}
    (he : e = restorePoint S src.toCopySource opts b cs) : unsettled e = false := by
  subst he
  have hpart : hasSuffix (nextBase S ++ undoApplied) undoPart = false :=
    not_hasSuffix (by decide) (by decide) (by decide)
  have hready : hasSuffix (nextBase S ++ undoApplied) undoReady = false :=
    not_hasSuffix (by decide) (by decide) (by decide)
  simp [unsettled, restorePoint, hpart, hready]

theorem rests_copiedState (v : Volume) (h : Rests S (some b) v) :
    Rests (S ++ [restorePoint S src.toCopySource opts b cs])
      (some (copied src.toCopySource opts.full b))
      (copiedState S src.toCopySource opts b cs stamp v) where
  folder := by simp [copiedState, withUndo]
  entries := rfl
  clean e he := by
    rcases mem_append.mp he with hmem | hmem
    · exact h.clean e hmem
    · rw [mem_singleton] at hmem
      exact restorePoint_settled S src opts b cs hmem
  disk := holds_copied src opts b cs stamp hcs h.disk

/-- Before the mark a stop leaves a state that the undo file takes back; past
the size of the copy the disk may then have zeros. -/
theorem between_of_stop {v s : Volume} (h : Rests S (some b) v)
    (hs : CopyStop S src.toCopySource opts b cs stamp v s) :
    (∃ b', (b' = b ∨ b' = zeroFrom b src.size) ∧
      Between S (some (readyFile S src.toCopySource opts b cs)) (undoRecords b cs) (some b') s) ∨
      s = copiedState S src.toCopySource opts b cs stamp v := by
  have hnot := not_ready_of_clean h.clean
  cases hs with
  | start =>
    refine .inl ⟨b, .inl rfl, h.folder, ?_, ?_, .inl h.disk⟩
    · rw [h.entries, settled_of_clean h.clean]
    · intro e he hr
      rw [h.entries] at he
      rw [hnot e he] at hr
      cases hr
  | saving parts hp =>
    refine .inl ⟨b, .inl rfl, by simp [withUndo], ?_, ?_, .inl h.disk⟩
    · exact settled_append h.clean (fun e he => by simp [unsettled, hp e he])
    · intro e he hr
      rcases mem_append.mp (show e ∈ S ++ parts from he) with hmem | hmem
      · rw [hnot e hmem] at hr
        cases hr
      · rw [not_ready_of_part (hp e hmem)] at hr
        cases hr
  | changing ds hd =>
    have hready : hasSuffix (readyFile S src.toCopySource opts b cs).1 undoReady = true :=
      hasSuffix_append
    obtain ⟨b', hb', hguard⟩ := guarded_cut (undoRecords b cs) b
      (diskChanges_cases src opts.full b cs hcs) hd
    refine .inl ⟨b', hb', by simp [withUndo], ?_, ?_, .inr ?_⟩
    · apply settled_append h.clean
      intro e he
      rw [mem_singleton.mp he]
      simp [unsettled, hready]
    · intro e he hr
      rcases mem_append.mp (show e ∈ S ++ [readyFile S _ opts b cs] from he) with hmem | hmem
      · rw [hnot e hmem] at hr
        cases hr
      · rw [mem_singleton.mp hmem]
    · obtain ⟨d, hdisk, hreg, hbytes⟩ := h.disk
      refine ⟨b', _, readyFile S src.toCopySource opts b cs, rfl, rfl, ?_, hready,
        disk_change hdisk, ?_, ?_⟩
      · exact mem_append_right S (mem_singleton.mpr rfl)
      · rw [change_regular, hreg]
      · rw [change_bytes, hbytes]
        exact hguard
  | marked => exact .inr rfl

/-- The undo file is the same, whatever the disk has past the size of the copy. -/
theorem undoBytes_zeroFrom : undoBytes src.toCopySource opts (zeroFrom b src.size) cs =
    undoBytes src.toCopySource opts b cs := by
  unfold undoBytes
  rw [undoRecords_zeroFrom src opts.full b cs hcs, length_zeroFrom]

include hb in
theorem rollsBack_zeroFrom {b' : Bytes} (hb' : b' = b ∨ b' = zeroFrom b src.size) :
    RollsBack (name, undoBytes src.toCopySource opts b cs) (undoRecords b cs) b' := by
  rcases hb' with rfl | rfl
  · exact rollsBack_ready src opts b' cs hcs hb name
  · have h := rollsBack_ready src opts (zeroFrom b src.size) cs hcs (by simpa using hb) name
    rwa [undoBytes_zeroFrom src opts b cs hcs, undoRecords_zeroFrom src opts.full b cs hcs] at h

end Staged

section NewDisk

variable (src : StagedCopy) (full : Bool)

/-- The patches that a new disk is written with. -/
def newPatches (es : List Extent) : List Patch :=
  (es.filter (fun e => e.kind = .data)).map (fun e => ⟨e.offset, e.reader⟩)

theorem mem_newPatches {p : Patch} (hp : p ∈ newPatches src.extents) :
    ∃ e ∈ src.extents, e.kind = .data ∧ p = ⟨e.offset, e.reader⟩ ∧
      e.reader.length = e.length := by
  obtain ⟨e, he, rfl⟩ := mem_map.mp hp
  obtain ⟨hmem, hk⟩ := mem_filter.mp he
  have hkind : e.kind = .data := by simpa using hk
  exact ⟨e, hmem, hkind, rfl, src.whole e hmem hkind⟩

theorem saves_newPatches : Saves (newPatches src.extents) (copied src.toCopySource full []) := by
  intro p hp
  obtain ⟨e, he, hk, rfl, hlen⟩ := mem_newPatches src hp
  have hin := src.inside e he
  apply ext_byteAt
  · rw [length_readAt, length_copied]
    change e.reader.length = min e.reader.length (src.size - e.offset)
    omega
  · intro i hi
    change i < e.reader.length at hi
    change byteAt e.reader i = byteAt (readAt _ e.offset e.reader.length) i
    rw [byteAt_readAt, if_pos hi, byteAt_copied, if_pos (by omega)]
    have hholds : e.Holds (e.offset + i) := ⟨by omega, by omega⟩
    unfold newByte
    rw [byte?_of_mem src.ordered he hholds]
    simp [Extent.byte, hk]

theorem newDiskBytes_eq : newDiskBytes src.toCopySource = copied src.toCopySource full [] := by
  have hs := saves_newPatches src full
  change applyPatches (newPatches src.extents) (replicate src.size 0) = _
  apply ext_byteAt
  · rw [length_copied]
    apply length_applyPatches _ _ _ (by simp)
    intro p hp
    obtain ⟨e, he, _, rfl, hlen⟩ := mem_newPatches src hp
    have hin := src.inside e he
    change e.offset + e.reader.length ≤ src.size
    omega
  · intro i _
    obtain ⟨hcov, hnot⟩ := byteAt_applyPatches _ (replicate src.size 0) hs i
    by_cases hc : Covered (newPatches src.extents) i
    · exact hcov hc
    · rw [hnot hc, byteAt_replicate_zero, byteAt_copied]
      split
      · unfold newByte
        cases hb : byte? src.extents i with
        | none => simp [byteAt]
        | some x =>
          obtain ⟨e, he, hh, rfl⟩ := holds_of_byte? hb
          cases hk : e.kind with
          | zero => simp [Extent.byte, hk]
          | data =>
            have hlen := src.whole e he hk
            have h1 := hh.1
            have h2 := hh.2
            refine absurd ⟨⟨e.offset, e.reader⟩, ?_, ?_⟩ hc
            · exact mem_map.mpr ⟨e, mem_filter.mpr ⟨he, by simp [hk]⟩, rfl⟩
            · exact ⟨h1, by change i < e.offset + e.reader.length; omega⟩
      · rfl

end NewDisk

section OntoNothing

variable {S : List (Name × Bytes)} (src : StagedCopy) {opts : ApplyOptions} (stamp : ℤ)

def newSteps : List Step :=
  [.removeNew, .writeNew (newDiskBytes src.toCopySource), .placeNew stamp]

theorem writeCopy_new {v : Volume} (h : Rests S none v) : writeCopy src.toCopySource opts stamp v =
      (newSteps src stamp, .ok (dataLength src.toCopySource, false)) := by
  have hd : v.disk = none := h.disk
  unfold writeCopy
  rw [bind_look _ _ v (congrArg (fun x => ([], Except.ok x)) hd)]
  rfl

/-- The state after a copy made the disk. -/
def newState (v : Volume) : Volume :=
  { v with disk := some ⟨newDiskBytes src.toCopySource, stamp, true⟩, newDisk := none }

theorem stopped_newSteps {v s : Volume} (hs : device.StoppedIn (newSteps src stamp) v s) :
    (∃ content, s = { v with newDisk := content }) ∨ s = newState src stamp v := by
  rcases hs with rfl | htorn | rfl | ⟨content, rfl⟩ | rfl | htorn | rfl
  · exact .inl ⟨s.newDisk, rfl⟩
  · exact htorn.elim
  · exact .inl ⟨none, rfl⟩
  · exact .inl ⟨some content, rfl⟩
  · exact .inl ⟨_, rfl⟩
  · exact htorn.elim
  · exact .inr rfl

theorem rests_newState {v : Volume} (h : Rests S none v) :
    Rests S (some (copied src.toCopySource opts.full [])) (newState src stamp v) :=
  ⟨h.folder, h.entries, h.clean, _, rfl, rfl, newDiskBytes_eq src opts.full⟩

end OntoNothing

section Whole

variable (S : List (Name × Bytes)) (src : StagedCopy) (opts : ApplyOptions) (b : Bytes)
  (st : Stamps)

theorem applyUnpruned_eq (v : Volume) (rolled : Bool)
    (hrec : (recover st.rollBack).result v = .ok rolled)
    (hmid : Rests S (some b) ((recover st.rollBack).exec v)) :
    applyUnpruned src.toCopySource opts st v =
      ((recover st.rollBack).steps v ++
          copySteps S src.toCopySource opts b (src.chunks opts.full) st.write,
        .ok (⟨(changedOffsets b src.size (src.chunks opts.full)).length * compareChunk, rolled⟩,
          true)) := by
  have hwrite := writeCopy_steps S src.toCopySource opts b (src.chunks opts.full) st.write hmid
    (forEachNewChunk_chunks src opts.full)
  have hrest : (writeCopy src.toCopySource opts st.write >>= fun x =>
      (pure (⟨x.1, rolled⟩, x.2) : VolProg (ApplyResult × Bool))) ((recover st.rollBack).exec v) =
        (copySteps S src.toCopySource opts b (src.chunks opts.full) st.write,
          .ok (⟨(changedOffsets b src.size (src.chunks opts.full)).length * compareChunk, rolled⟩,
            true)) := by
    rw [bind_eq _ _ _ hwrite]
    rfl
  unfold applyUnpruned
  rw [bind_ok _ _ v hrec]
  exact congrArg (fun r : List Step × Except Err (ApplyResult × Bool) =>
    ((recover st.rollBack).steps v ++ r.1, r.2)) hrest

theorem exec_applyUnpruned (v : Volume) (rolled : Bool)
    (hrec : (recover st.rollBack).result v = .ok rolled)
    (hmid : Rests S (some b) ((recover st.rollBack).exec v)) :
    (applyUnpruned src.toCopySource opts st).exec v =
      copiedState S src.toCopySource opts b (src.chunks opts.full) st.write
        ((recover st.rollBack).exec v) := by
  unfold Prog.exec Prog.steps
  rw [applyUnpruned_eq S src opts b st v rolled hrec hmid, Device.applyAll_append]
  exact applyAll_copySteps S src.toCopySource opts b (src.chunks opts.full) st.write hmid

/-- Every stop of a copy leaves the old disk within reach of a roll back, with
zeros at most past the size of the copy, or the whole new state. -/
theorem applyUnpruned_stops (hb : b.length < 2 ^ 63) {v s : Volume} (hv : Recoverable S (some b) v)
    (hs : (applyUnpruned src.toCopySource opts st).Stopped v s) :
    (∃ b', (b' = b ∨ b' = zeroFrom b src.size) ∧ Recoverable S (some b') s) ∨
      ∃ r mid, Rests S (some b) mid ∧
        (applyUnpruned src.toCopySource opts st).result v = .ok (r, true) ∧
        (applyUnpruned src.toCopySource opts st).exec v = s ∧
        s = copiedState S src.toCopySource opts b (src.chunks opts.full) st.write mid := by
  have hchunks := forEachNewChunk_chunks src opts.full
  obtain ⟨hend, hstop⟩ := safe_recover_recoverable S (some b) st.rollBack v hv
  cases hrec : (recover st.rollBack).result v with
  | error e =>
    unfold applyUnpruned at hs
    rw [stopped_bind_error _ _ v hrec] at hs
    exact .inl ⟨b, .inl rfl, hstop s hs⟩
  | ok rolled =>
    have hmid := hend rolled hrec
    have heq := applyUnpruned_eq S src opts b st v rolled hrec hmid
    have hs' : device.StoppedIn ((recover st.rollBack).steps v ++
        copySteps S src.toCopySource opts b (src.chunks opts.full) st.write) v s := by
      have hsteps := congrArg Prod.fst heq
      change device.StoppedIn (applyUnpruned src.toCopySource opts st v).1 v s at hs
      rwa [hsteps] at hs
    rw [Device.stoppedIn_append] at hs'
    rcases hs' with hs' | hs'
    · exact .inl ⟨b, .inl rfl, hstop s hs'⟩
    · have hclass := stopped_copySteps S src.toCopySource opts b
        (src.chunks opts.full) st.write hmid hs'
      rcases between_of_stop S src opts b (src.chunks opts.full) st.write hchunks hmid
        hclass with ⟨b', hb', hbet⟩ | hdone
      · refine .inl ⟨b', hb', _, _, ?_, hbet⟩
        intro e x he hx
        cases Option.some.inj he
        cases Option.some.inj hx
        exact rollsBack_zeroFrom src opts b _ hchunks hb hb'
      · refine .inr ⟨_, _, hmid, congrArg Prod.snd heq, ?_, hdone⟩
        rw [exec_applyUnpruned S src opts b st v rolled hrec hmid, hdone]

end Whole

section Exec

variable {src : CopySource} (opts : ApplyOptions) (st : Stamps) (v : Volume)

theorem exec_applyCopy {r : ApplyResult × Bool} (h : (applyUnpruned src opts st).result v = .ok r) :
    (applyCopy src opts st).exec v =
      (pruneFor opts r.2).exec ((applyUnpruned src opts st).exec v) := by
  unfold applyCopy
  rw [exec_bind_ok _ _ v h]
  unfold Prog.exec
  rw [← steps_bind_pure (pruneFor opts r.2) _ r.1]

theorem recover_rests_exec {S : List (Name × Bytes)} {old : Option Bytes} (h : Rests S old v)
    (stamp : ℤ) : (recover stamp).result v = .ok false ∧ (recover stamp).exec v = v := by
  have heq := recover_rests S old v h stamp
  refine ⟨congrArg Prod.snd heq, ?_⟩
  unfold Prog.exec Prog.steps
  rw [heq]
  rfl

theorem applyUnpruned_new (S : List (Name × Bytes)) (src : StagedCopy) (h : Rests S none v) :
    applyUnpruned src.toCopySource opts st v =
      (newSteps src st.write, .ok (⟨dataLength src.toCopySource, false⟩, false)) := by
  unfold applyUnpruned
  rw [bind_look _ _ v (recover_rests S none v h st.rollBack),
    bind_eq _ _ v (writeCopy_new src st.write h)]
  rfl

end Exec

variable {old : Option Bytes}

/-- Pruning takes undo files away and touches nothing else. -/
theorem safe_pruneFiles {cutoff : Moment} {files : List UndoFile} :
    Safe (fun v => ∃ S, Rests S old v) (pruneFiles cutoff files)
      (fun _ v => ∃ S, Rests S old v) (fun v => ∃ S, Rests S old v) := by
  induction files with
  | nil => exact safe_pure () (fun v hv => ⟨hv, hv⟩)
  | cons u us ih =>
    unfold pruneFiles
    split
    · refine safe_bind (Q := fun _ v => ∃ S, Rests S old v) ?_
        (fun _ => safe_from ih (fun v hv => hv.1))
      refine safe_atomic _ (fun _ _ => id) (fun v hv => hv) ?_
      rintro v ⟨S, hv⟩
      have hrest : Rests (removeEntry u.name S) old ((Step.removeUndo u.name).apply v) := by
        refine ⟨update_ne_notFolder _ _ hv.folder, ?_, ?_, hv.disk⟩
        · rw [entries_removeUndo, hv.entries]
        · intro e he
          exact hv.clean e (mem_removeEntry.mp he).1
      exact ⟨⟨_, hrest⟩, ⟨_, hrest⟩⟩
    · exact safe_pure () (fun v hv => ⟨hv, hv⟩)

theorem safe_pruneFor {opts : ApplyOptions} {changed : Bool} :
    Safe (fun v => ∃ S, Rests S old v) (pruneFor opts changed)
      (fun _ v => ∃ S, Rests S old v) (fun v => ∃ S, Rests S old v) := by
  unfold pruneFor
  split
  · refine safe_bind
      (safe_inspect _ (fun v hv => ⟨hv, fun _ _ => trivial⟩)) ?_
    intro files
    exact safe_from safe_pruneFiles (fun v hv => hv.1)
  · exact safe_pure () (fun v hv => ⟨hv, hv⟩)

end FilePool.CopySteps
