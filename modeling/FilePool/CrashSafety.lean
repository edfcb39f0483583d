import FilePool.CopySteps

/-!
A copy is stopped at any durable step, and any number of roll backs follow, each
of them stopped anywhere. Once a roll back ends, the disk and the restore
points are those before the copy, or those after it if its undo file had been
marked. The undo file of a disk above maxDiskBytes is written but never read
again, so the restore points of such a disk cannot be listed.
-/
namespace FilePool.CrashSafety

open ByteFiles BigEndian UndoLog CopyChunks UndoWriter UndoFormat UndoNames VolumeSteps DurableSteps
  DurableSteps.Prog UndoFolder ApplyCopy Recovery CopySteps

theorem appliedSeq?_unsettled (e : Name × Bytes) (h : unsettled e = true) :
    appliedSeq? e.1 = none := by
  have hnot : hasSuffix e.1 undoApplied = false := by
    simp only [unsettled, Bool.or_eq_true] at h
    rcases h with h | h
    · obtain ⟨stem, hs⟩ := (hasSuffix_iff _ _).mp h
      rw [hs]
      exact not_hasSuffix (by decide) (by decide) (by decide)
    · obtain ⟨stem, hs⟩ := (hasSuffix_iff _ _).mp h
      rw [hs]
      exact not_hasSuffix (by decide) (by decide) (by decide)
  unfold appliedSeq?
  rw [if_neg (by simp [hnot])]

theorem readApplied_settled (es : List (Name × Bytes)) :
    listUndo readUndo (settled es) = listUndo readUndo es := by
  apply readApplied_filter
  intro e _ he
  exact appliedSeq?_unsettled e (by simpa using he)

def points (files : List UndoFile) : List Moment :=
  (sortFiles files).map (fun u => u.hdr.fromMoment)

theorem points_perm {files : List UndoFile} :
    (points files).Perm (files.map (fun u => u.hdr.fromMoment)) :=
  (List.perm_insertionSort _ files).map _

theorem restorePoints_settled {v : Volume} (h : v.undo ≠ .notFolder) :
    restorePoints v = (listUndo readUndo (settled v.undo.entries)).map points := by
  unfold restorePoints
  rw [appliedUndo_of_folder (undoEntries_ok v h), readApplied_settled]
  cases listUndo readUndo v.undo.entries <;> rfl

theorem restorePoints_recoverable {S : List (Name × Bytes)} {old : Option Bytes} {v : Volume}
    (h : Recoverable S old v) : restorePoints v = (listUndo readUndo S).map points := by
  obtain ⟨u, ps, _, hbet⟩ := h
  rw [restorePoints_settled hbet.folder, hbet.settled]

variable (S : List (Name × Bytes)) (src : StagedCopy) (opts : ApplyOptions) (b : Bytes)
  (cs : List Patch)

theorem seq_lt_next {files : List UndoFile} (h : listUndo readUndo S = .ok files) {f : UndoFile}
    (hf : f ∈ files) : f.seq < nextUndoSeq (S.map Prod.fst) := by
  obtain ⟨hmem, hseq, -⟩ := listUndo_mem readUndo S files h f hf
  exact lt_nextUndoSeq (List.mem_map_of_mem hmem) (entrySeq?_of_applied hseq)

theorem readApplied_restorePoint :
    listUndo readUndo [restorePoint S src.toCopySource opts b cs] =
      (readUndo (nextBase S ++ undoApplied) (undoBytes src.toCopySource opts b cs)).map
        (fun hdr => [⟨nextUndoSeq (S.map Prod.fst), nextBase S ++ undoApplied,
          undoBytes src.toCopySource opts b cs, hdr⟩]) := by
  simp only [restorePoint, nextBase, listUndo, appliedSeq?_seqName]
  cases readUndo _ _ <;> rfl

/-- The undo file of a copy adds one restore point at the end of the list. -/
theorem points_snoc (hcs : forEachNewChunk src.toCopySource opts.full = .ok cs)
    (hb : b.length < 2 ^ 63) (hsize : b.length ≤ 2 ^ 50 ∧ src.size ≤ 2 ^ 50) :
    (listUndo readUndo (S ++ [restorePoint S src.toCopySource opts b cs])).map points =
      ((listUndo readUndo S).map points).map (fun l => l ++ [wrap opts.fromMoment]) := by
  rw [readApplied_append, readApplied_restorePoint, readUndo_undoBytes src opts b cs hcs hb hsize]
  cases hS : listUndo readUndo S with
  | error e => rfl
  | ok files =>
    change Except.ok (points (files ++ [_])) = Except.ok (points files ++ [_])
    unfold points
    rw [sortFiles_append_last (fun f hf => le_of_lt (seq_lt_next S hS hf))]
    rw [List.map_append, List.map_singleton, stored_header src opts b hb]

/-- With the undo file of too large a disk the restore points cannot be listed. -/
theorem points_large (hb : b.length < 2 ^ 63) (hsize : 2 ^ 50 < b.length ∨ 2 ^ 50 < src.size)
    (files : List UndoFile) (hS : listUndo readUndo S = .ok files) :
    (listUndo readUndo (S ++ [restorePoint S src.toCopySource opts b cs])).map points =
      .error (.undo (nextBase S ++ undoApplied) .badHeader) := by
  rw [readApplied_append, readApplied_restorePoint, hS]
  unfold readUndo checkUndo
  rw [readUndoFrom_undoBytes_large src opts b cs hb hsize]
  rfl

/-- The stop came after the rename that marks the copy's undo file. -/
def Marked (src : CopySource) (opts : ApplyOptions) (st : Stamps) (v stop : Volume) : Prop :=
  ∃ r, (applyUnpruned src opts st).result v = .ok r ∧
    (pruneFor opts r.2).Stopped ((applyUnpruned src opts st).exec v) stop

theorem marked_unpruned {src : CopySource} {opts : ApplyOptions} {st : Stamps} {v stop : Volume}
    (hkeep : opts.keep ≤ 0) (h : Marked src opts st v stop) :
    stop = (applyUnpruned src opts st).exec v := by
  obtain ⟨r, -, hprune⟩ := h
  rw [pruneFor, if_neg (fun hpos => absurd hpos.2 hkeep.not_gt)] at hprune
  exact hprune

section Crash

variable (S : List (Name × Bytes)) (src : StagedCopy) (opts : ApplyOptions) (st : Stamps)
  (b : Bytes) (v stop : Volume)

theorem applyCopy_stops (hstop : (applyCopy src.toCopySource opts st).Stopped v stop) :
    (applyUnpruned src.toCopySource opts st).Stopped v stop ∨
      Marked src.toCopySource opts st v stop := by
  unfold applyCopy at hstop
  cases hr : (applyUnpruned src.toCopySource opts st).result v with
  | error e =>
    rw [stopped_bind_error _ _ v hr] at hstop
    exact .inl hstop
  | ok r =>
    rw [stopped_bind_ok _ _ v hr] at hstop
    rcases hstop with h | h
    · exact .inl h
    · refine .inr ⟨r, hr, ?_⟩
      unfold Prog.Stopped at h ⊢
      rw [← steps_bind_pure (pruneFor opts r.2) _ r.1]
      exact h

/-- A stop before the mark leaves the old disk within reach, with zeros at most
past the size of the copy. -/
theorem recoverable_of_unmarked (hb : b.length < 2 ^ 63) (hv : Recoverable S (some b) v)
    (hstop : (applyCopy src.toCopySource opts st).Stopped v stop)
    (hnot : ¬ Marked src.toCopySource opts st v stop) :
    ∃ b', (b' = b ∨ b' = zeroFrom b src.size) ∧ Recoverable S (some b') stop := by
  rcases applyCopy_stops src opts st v stop hstop with h | h
  · rcases applyUnpruned_stops S src opts b st hb hv h with hrec | ⟨r, mid, _, hr, he, _⟩
    · exact hrec
    · refine absurd ⟨_, hr, ?_⟩ hnot
      rw [he]
      exact device.stoppedIn_start _ stop
  · exact absurd h hnot

/-- A stop after the mark leaves the new disk. -/
theorem rests_of_marked (hv : Recoverable S (some b) v)
    (hmark : Marked src.toCopySource opts st v stop) :
    (∃ S', Rests S' (some (copied src.toCopySource opts.full b)) stop) ∧
      (stop = (applyUnpruned src.toCopySource opts st).exec v →
        Rests (S ++ [restorePoint S src.toCopySource opts b (src.chunks opts.full)])
          (some (copied src.toCopySource opts.full b)) stop) := by
  obtain ⟨r, hr, hprune⟩ := hmark
  obtain ⟨hend, _⟩ := safe_recover_recoverable S (some b) st.rollBack v hv
  cases hrec : (recover st.rollBack).result v with
  | error e =>
    unfold applyUnpruned at hr
    rw [result_bind_error _ _ v hrec] at hr
    cases hr
  | ok rolled =>
    have hmid := hend rolled hrec
    have hnew := rests_copiedState S src opts b _ st.write
      (forEachNewChunk_chunks src opts.full) _ hmid
    rw [← exec_applyUnpruned S src opts b st v rolled hrec hmid] at hnew
    refine ⟨?_, fun heq => heq ▸ hnew⟩
    exact (safe_pruneFor _ ⟨_, hnew⟩).2 stop hprune

end Crash

/-- A copy that does not shrink the disk, stopped anywhere and followed by any
roll backs, leaves the disk and the restore points before it or after it. -/
theorem stopped_copy_recovers (S : List (Name × Bytes)) (src : StagedCopy) (opts : ApplyOptions)
    (st : Stamps) (b : Bytes) (v stop s : Volume) (stamp : ℤ) (rolled : Bool)
    (hv : Recoverable S (some b) v) (hgrow : b.length ≤ src.size)
    (hstop : (applyCopy src.toCopySource opts st).Stopped v stop)
    (hruns : Relation.ReflTransGen RecoveryRun stop s)
    (hend : (recover stamp).result s = .ok rolled) :
    (∀ e ∈ ((recover stamp).exec s).undo.entries, unsettled e = false) ∧
      (¬ Marked src.toCopySource opts st v stop →
        Holds ((recover stamp).exec s) (some b) ∧
          restorePoints ((recover stamp).exec s) = restorePoints v) ∧
      (Marked src.toCopySource opts st v stop →
        Holds ((recover stamp).exec s) (some (copied src.toCopySource opts.full b)) ∧
          (stop = (applyUnpruned src.toCopySource opts st).exec v →
            ((src.size : ℤ) ≤ maxDiskBytes → restorePoints ((recover stamp).exec s) =
              (restorePoints v).map (fun l => l ++ [wrap opts.fromMoment])) ∧
            (maxDiskBytes < src.size →
              ∃ e, restorePoints ((recover stamp).exec s) = .error e))) := by
  have hsize := src.size_lt
  have hz := cutsZeros_of_le hgrow
  have hfinal : ∀ S' old, Recoverable S' old stop → Rests S' old ((recover stamp).exec s) :=
    fun S' old h => (safe_recover_recoverable S' old stamp s
      (recoverable_runs h hruns)).1 rolled hend
  have hpoints : ∀ S' old, Rests S' old ((recover stamp).exec s) →
      restorePoints ((recover stamp).exec s) = (listUndo readUndo S').map points :=
    fun S' old h => restorePoints_recoverable (recoverable_of_rests h)
  have hearlier := restorePoints_recoverable hv
  by_cases hmark : Marked src.toCopySource opts st v stop
  · obtain ⟨⟨S', hS'⟩, hexact⟩ := rests_of_marked S src opts st b v stop hv hmark
    have hrest := hfinal _ _ (recoverable_of_rests hS')
    refine ⟨?_, fun h => absurd hmark h, fun _ => ⟨hrest.disk, ?_⟩⟩
    · rw [hrest.entries]
      exact hrest.clean
    · intro heq
      have hrest' := hfinal _ _ (recoverable_of_rests (hexact heq))
      rw [hpoints _ _ hrest', hearlier]
      unfold maxDiskBytes
      refine ⟨fun hmax => ?_, fun hmax => ?_⟩
      · exact points_snoc S src opts b _ (forEachNewChunk_chunks src opts.full) (by omega)
          ⟨by omega, by omega⟩
      · cases hS : listUndo readUndo S with
        | ok files => exact ⟨_, points_large S src opts b _ (by omega) (.inr (by omega)) files hS⟩
        | error e =>
          rw [readApplied_append, hS]
          exact ⟨e, rfl⟩
  · obtain ⟨b', hb', hrec⟩ :=
      recoverable_of_unmarked S src opts st b v stop (by omega) hv hstop hmark
    have hold : b' = b := by
      rcases hb' with h | h
      · exact h
      · rw [h, zeroFrom_of_cutsZeros b src.size hz]
    subst hold
    have hrest := hfinal _ _ hrec
    refine ⟨?_, fun _ => ⟨hrest.disk, ?_⟩, fun h => absurd h hmark⟩
    · rw [hrest.entries]
      exact hrest.clean
    · rw [hpoints _ _ hrest, hearlier]

/-- A folder with a disk and nothing else. -/
def diskOnly (b : Bytes) : Volume := { Volume.empty with disk := some ⟨b, 0, true⟩ }

theorem rests_diskOnly (b : Bytes) : Rests [] (some b) (diskOnly b) :=
  ⟨by simp [diskOnly, Volume.empty], rfl, by simp, _, rfl, rfl, rfl⟩

/-- A change copy of two bytes that writes the first. -/
def twoBytes : StagedCopy where
  size := 2
  extents := [⟨0, 1, .data, [7]⟩]
  size_lt := by decide
  ordered := by decide
  inside := by decide
  whole := by decide

def plainOptions : ApplyOptions := ⟨5, 6, false, 0, 9⟩

def twoBytesSteps : List Step :=
  (applyCopy twoBytes.toCopySource plainOptions ⟨1, 2⟩).steps (diskOnly [1])

/-- The copy is stopped inside its writes: the first byte is new, the size is old. -/
def halfCopied : Volume :=
  (Step.changeDisk [.write ⟨0, [7]⟩] 2).apply
    (device.applyAll (twoBytesSteps.take 3) (diskOnly [1]))

/-- The first roll back is stopped before it removes the undo file. -/
def halfRolledBack : Volume := device.applyAll (((recover 3).steps halfCopied).take 1) halfCopied

theorem halfCopied_stopped :
    (applyCopy twoBytes.toCopySource plainOptions ⟨1, 2⟩).Stopped (diskOnly [1]) halfCopied := by
  refine (device.stoppedIn_append (twoBytesSteps.take 3) (twoBytesSteps.drop 3) _ _).mpr
    (.inr (.inr (.inl ⟨[.write ⟨0, [7]⟩], fun d hd => ?_, rfl⟩)))
  rw [List.mem_singleton.mp hd]
  exact ⟨_, by decide, .whole _⟩

theorem stopped_copy_recovers_twoBytes :
    Holds halfCopied (some [7]) ∧ (∃ e ∈ halfRolledBack.undo.entries, unsettled e = true) ∧
      Holds ((recover 4).exec halfRolledBack) (some [1]) ∧
      restorePoints ((recover 4).exec halfRolledBack) = .ok [] := by
  have h := stopped_copy_recovers [] twoBytes plainOptions ⟨1, 2⟩ [1] (diskOnly [1])
    halfCopied halfRolledBack 4 true (recoverable_of_rests (rests_diskOnly [1])) (by decide)
    halfCopied_stopped (.single ⟨3, device.stoppedIn_take _ _ _⟩) (by rfl)
  have hnot : ¬ Marked twoBytes.toCopySource plainOptions ⟨1, 2⟩ (diskOnly [1]) halfCopied :=
    fun hmark => absurd (congrArg Volume.undo (marked_unpruned le_rfl hmark)) (by decide)
  obtain ⟨hdisk, hpoints⟩ := h.2.1 hnot
  exact ⟨⟨_, rfl, rfl, rfl⟩, by decide, hdisk, hpoints⟩

/-- A change copy that grows the disk past the size an undo file may claim. -/
def oversized : StagedCopy where
  size := 2 ^ 50 + 1
  extents := []
  size_lt := by decide
  ordered := List.Pairwise.nil
  inside := by simp
  whole := by simp

/-- After the mark of such a copy the restore points cannot be listed. -/
theorem oversized_restorePoints_fail :
    restorePoints (diskOnly []) = .ok [] ∧
      (applyCopy oversized.toCopySource plainOptions ⟨1, 2⟩).Stopped (diskOnly [])
        ((applyUnpruned oversized.toCopySource plainOptions ⟨1, 2⟩).exec (diskOnly [])) ∧
      (recover 3).result ((applyUnpruned oversized.toCopySource plainOptions ⟨1, 2⟩).exec
        (diskOnly [])) = .ok false ∧
      restorePoints ((recover 3).exec ((applyUnpruned oversized.toCopySource plainOptions
        ⟨1, 2⟩).exec (diskOnly []))) =
          .error (.undo (nextBase [] ++ undoApplied) .badHeader) := by
  have hrests := rests_diskOnly []
  have hrec := recover_rests [] (some []) (diskOnly []) hrests 1
  have hresult : (recover 1).result (diskOnly []) = .ok false := congrArg Prod.snd hrec
  have hexec : (recover 1).exec (diskOnly []) = diskOnly [] := by
    unfold Prog.exec Prog.steps
    rfl
  have hstate := exec_applyUnpruned [] oversized plainOptions [] ⟨1, 2⟩ (diskOnly []) false
    hresult (hexec ▸ hrests)
  have hnew := rests_copiedState [] oversized plainOptions [] _ 2
    (forEachNewChunk_chunks oversized _) _ (hexec ▸ hrests : Rests [] (some []) _)
  rw [← hstate] at hnew
  have hagain := recover_rests _ _ _ hnew 3
  have hexec' : (recover 3).exec ((applyUnpruned oversized.toCopySource plainOptions
      ⟨1, 2⟩).exec (diskOnly [])) = (applyUnpruned oversized.toCopySource plainOptions
      ⟨1, 2⟩).exec (diskOnly []) := by
    change device.applyAll (recover 3 _).1 _ = _
    rfl
  refine ⟨rfl, ?_, congrArg Prod.snd hagain, ?_⟩
  · have hok : (applyUnpruned oversized.toCopySource plainOptions ⟨1, 2⟩).result (diskOnly []) =
        .ok _ := congrArg Prod.snd (applyUnpruned_eq [] oversized plainOptions [] ⟨1, 2⟩ _ false
          hresult (hexec ▸ hrests))
    exact (stopped_bind_ok _ _ _ hok _).mpr (.inl (stopped_exec _ _))
  · rw [hexec', restorePoints_recoverable (recoverable_of_rests hnew)]
    exact points_large [] oversized plainOptions [] _ (by simp) (.inr (by decide)) [] rfl

end FilePool.CrashSafety
