import FilePool.Pruning
import FilePool.SavedLayers

/-!
The restore point that a copy leaves for itself. It has the largest number, so
it is the last one listed, and its copy's moment is the one that the disk shows.
The pruning keeps it, unless the copy is older than what is kept; then the
moment file says what the disk shows.
-/
namespace FilePool.OwnPoint

open ByteFiles BigEndian UndoLog CopyChunks UndoFormat UndoNames List VolumeSteps DurableSteps
  DurableSteps.Prog UndoFolder DiskMoments ApplyCopy Recovery CopySteps CrashSafety Pruning
  SavedLayers

variable {v : Volume}

theorem pruneFor_stops {opts : ApplyOptions} {changed : Bool} {T : List (Name × Bytes)}
    {cur : Option Bytes} (h : Rests T cur v) {s : Volume}
    (hs : (pruneFor opts changed).Stopped v s) :
    ∃ names, s = { v with undo := v.undo.update (removeNames names) } ∧
      (names = [] ∨ 0 < opts.keep ∧ ∃ files, listUndo readUndo T = .ok files ∧
        ∀ n ∈ names, n ∈ prunedNames (opts.now - opts.keep) (sortFiles files)) := by
  have hnothing : v = { v with undo := v.undo.update (removeNames []) } :=
    applyAll_removeUndo [] v
  by_cases hkeep : changed = true ∧ 0 < opts.keep
  · have hprog : pruneFor opts changed = pruneUndo (opts.now - opts.keep) := if_pos hkeep
    rw [hprog] at hs
    unfold pruneUndo at hs
    cases hlist : listUndo readUndo T with
    | error e =>
      have happ : (inspect appliedUndo : VolProg _).result v = .error e := by
        rw [result_inspect, appliedUndo_rests T cur v h, hlist]
        rfl
      rw [stopped_bind_error _ _ v happ] at hs
      have hsame : s = v := hs
      exact ⟨[], hsame.trans hnothing, .inl rfl⟩
    | ok files =>
      have happ : (inspect appliedUndo : VolProg _) v = ([], .ok (sortFiles files)) := by
        refine congrArg (Prod.mk []) ?_
        rw [appliedUndo_rests T cur v h, hlist]
        rfl
      unfold Prog.Stopped Prog.steps at hs
      rw [bind_look _ _ v happ, pruneFiles_eq] at hs
      obtain ⟨k, rfl⟩ := stopped_removeUndo _ v s hs
      exact ⟨_, rfl, .inr ⟨hkeep.2, files, rfl, fun n hn => mem_of_mem_take hn⟩⟩
  · have hprog : pruneFor opts changed = pure () := if_neg hkeep
    rw [hprog] at hs
    have hsame : s = v := hs
    exact ⟨[], hsame.trans hnothing, .inl rfl⟩

/-- The moment in the moment file. -/
def fileMoment (v : Volume) : Except Err (Option Moment) :=
  (readMomentFile v).map (fun mf => mf.map MomentFile.moment)

/-- The moment that settled undo files and a moment file show. -/
def momentOf (S : List (Name × Bytes)) (m : Except Err (Option Moment)) :
    Except Err (Option Moment) := do
  let files ← listUndo readUndo S
  match (sortFiles files).getLast? with
  | some u => return some u.hdr.toMoment
  | none => do
    match ← m with
    | none => return none
    | some t => if t = zeroTime then return none else return some t

theorem momentFrom_eq {files : List UndoFile} : momentFrom v files =
      match files.getLast? with
      | some u => .ok (some u.hdr.toMoment)
      | none => do
        match ← fileMoment v with
        | none => return none
        | some t => if t = zeroTime then return none else return some t := by
  unfold momentFrom fileMoment
  cases files.getLast? with
  | some u => rfl
  | none =>
    cases readMomentFile v with
    | error e => rfl
    | ok mf => cases mf <;> rfl

/-- The moment depends on the settled undo files and the moment file only. -/
theorem moment_recoverable {S : List (Name × Bytes)} {old : Option Bytes}
    (h : Recoverable S old v) : moment v = momentOf S (fileMoment v) := by
  obtain ⟨u, ps, -, hbet⟩ := h
  have happ : appliedUndo v = (listUndo readUndo S).map sortFiles := by
    rw [appliedUndo_of_folder (undoEntries_ok v hbet.folder), ← hbet.settled, readApplied_settled]
  unfold moment momentOf
  rw [happ]
  cases listUndo readUndo S with
  | error e => rfl
  | ok files => exact momentFrom_eq

theorem momentOf_cases {S : List (Name × Bytes)} {m : Except Err (Option Moment)} {t : Moment}
    (h : momentOf S m = .ok (some t)) :
    (∀ m', momentOf S m' = .ok (some t)) ∨ m = .ok (some t) := by
  unfold momentOf at h ⊢
  obtain ⟨files, hfiles, h⟩ := except_bind_ok.mp h
  rw [hfiles]
  cases hlast : (sortFiles files).getLast? with
  | some u =>
    left
    intro m'
    rw [hlast] at h
    change (match (sortFiles files).getLast? with
      | some u => Except.ok (some u.hdr.toMoment)
      | none => _) = _
    rw [hlast]
    exact h
  | none =>
    right
    rw [hlast] at h
    obtain ⟨x, hx, h⟩ := except_bind_ok.mp h
    cases x with
    | none => cases h
    | some t' =>
      simp only at h
      split at h
      · cases h
      · rw [hx, Except.ok.inj h]

section Own

variable (S : List (Name × Bytes)) (src : StagedCopy) (copy : ApplyOptions) (b : Bytes)
  {files : List UndoFile}

/-- The undo files after the copy, before any pruning. -/
def afterCopy : List (Name × Bytes) :=
  S ++ [restorePoint S src.toCopySource copy b (src.chunks copy.full)]

theorem rests_applyCopy {st : Stamps} {u : Volume} (hu : Recoverable S (some b) u)
    {res : ApplyResult} (hok : (applyCopy src.toCopySource copy st).result u = .ok res) :
    Marked src.toCopySource copy st u ((applyCopy src.toCopySource copy st).exec u) ∧
      Rests (keptEntries copy (afterCopy S src copy b))
        (some (copied src.toCopySource copy.full b))
        ((applyCopy src.toCopySource copy st).exec u) ∧
      (0 < copy.keep → ∃ files, listUndo readUndo (afterCopy S src copy b) = .ok files) := by
  obtain ⟨hend, -⟩ := safe_recover_recoverable S (some b) st.rollBack u hu
  cases hrec : (recover st.rollBack).result u with
  | error e =>
    unfold applyCopy applyUnpruned at hok
    rw [result_bind_error _ _ u (result_bind_error _ _ u hrec)] at hok
    cases hok
  | ok rolled =>
    have hr : (applyUnpruned src.toCopySource copy st).result u = .ok _ :=
      congrArg Prod.snd (applyUnpruned_eq S src copy b st u rolled hrec (hend rolled hrec))
    have hprune : (pruneFor copy true).result
        ((applyUnpruned src.toCopySource copy st).exec u) = .ok () := by
      unfold applyCopy at hok
      rw [result_bind_ok _ _ u hr, result_bind] at hok
      obtain ⟨_, hp, -⟩ := except_bind_ok.mp hok
      exact hp
    have hstart : Marked src.toCopySource copy st u
        ((applyUnpruned src.toCopySource copy st).exec u) := ⟨_, hr, device.stoppedIn_start _ _⟩
    have hrests := (rests_of_marked S src copy st b u _ hu hstart).2 rfl
    rw [exec_applyCopy copy st u hr]
    exact ⟨⟨_, hr, stopped_exec _ _⟩, rests_pruneFor _ _ _ hrests hprune⟩

variable (hb : b.length < 2 ^ 63) {cutoff : Moment} {opts : ApplyOptions} {S' : List (Name × Bytes)}

/-- What the copy saves, as a layer of the folder. -/
def own : Saved := ⟨nextUndoSeq (S.map Prod.fst), src, copy, b, hb⟩

/-- The pruning keeps the copy's own restore point, unless the copy is older
than what is kept. -/
theorem own_not_pruned (hto : cutoff ≤ wrap copy.toMoment)
    (hfiles : listUndo readUndo (afterCopy S src copy b) = .ok files) :
    (own S src copy b hb).entry.1 ∉ prunedNames cutoff (sortFiles files) := by
  intro hin
  obtain ⟨f, hf, hname⟩ := mem_map.mp hin
  have hold : f.hdr.toMoment < cutoff := by simpa using mem_takeWhile_imp hf
  have hmem : f ∈ files := (mem_insertionSort _).mp ((takeWhile_sublist _).subset hf)
  obtain ⟨hentry, -, hread⟩ := listUndo_mem readUndo _ files hfiles f hmem
  have heq : (f.name, f.bytes) = (own S src copy b hb).entry := by
    rcases mem_append.mp hentry with h | h
    · refine absurd hname ?_
      have hne := not_mem_next [] _ h
      exact hne
    · exact mem_singleton.mp h
  obtain ⟨hfst, hsnd⟩ := Prod.mk.inj heq
  rw [hfst, hsnd] at hread
  have hhdr := header_of_readUndo hread
  have hstored : f.hdr.toMoment = wrap copy.toMoment := by
    rw [hhdr]
    rfl
  rw [hstored] at hold
  exact absurd hold (Int.not_lt.mpr hto)

theorem removeNames_own {names : List Name} (h : (own S src copy b hb).entry.1 ∉ names) :
    removeNames names (afterCopy S src copy b) =
      removeNames names S ++ [(own S src copy b hb).entry] := by
  change removeNames names (S ++ [(own S src copy b hb).entry]) = _
  unfold removeNames
  rw [filter_append, filter_cons, if_pos (by simpa using h)]
  rfl

theorem keptEntries_own (opts : ApplyOptions)
    (hto : 0 < opts.keep → opts.now - opts.keep ≤ wrap copy.toMoment) :
    ∃ S', (∀ e ∈ S', e ∈ S) ∧
      keptEntries opts (afterCopy S src copy b) = S' ++ [(own S src copy b hb).entry] := by
  have hall : ∃ S', (∀ e ∈ S', e ∈ S) ∧
      afterCopy S src copy b = S' ++ [(own S src copy b hb).entry] := ⟨S, fun _ h => h, rfl⟩
  unfold keptEntries
  split
  · next hkeep =>
    cases hlist : listUndo readUndo (afterCopy S src copy b) with
    | error e => exact hall
    | ok files =>
      have hnot := own_not_pruned S src copy b hb (hto hkeep) hlist
      exact ⟨_, fun e he => (mem_filter.mp he).1, removeNames_own S src copy b hb hnot⟩
  · exact hall

/-- Any stop of the pruning leaves some of the earlier undo files, and the
copy's own one at the end. -/
theorem rests_pruning_own {changed : Bool} {cur : Option Bytes}
    (hto : 0 < opts.keep → opts.now - opts.keep ≤ wrap copy.toMoment) {v s : Volume}
    (hv : Rests (afterCopy S src copy b) cur v) (hs : (pruneFor opts changed).Stopped v s) :
    ∃ S', (∀ e ∈ S', e ∈ S) ∧ Rests (S' ++ [(own S src copy b hb).entry]) cur s := by
  obtain ⟨names, rfl, hnames⟩ := pruneFor_stops hv hs
  have hnot : (own S src copy b hb).entry.1 ∉ names := by
    rcases hnames with rfl | ⟨hkeep, files, hfiles, hsub⟩
    · simp
    · exact fun hin => own_not_pruned S src copy b hb (hto hkeep) hfiles (hsub _ hin)
  refine ⟨removeNames names S, fun e he => (mem_filter.mp he).1, ?_⟩
  rw [← removeNames_own S src copy b hb hnot]
  exact rests_removeNames _ cur v hv

theorem sortFiles_own (hS' : ∀ e ∈ S', e ∈ S)
    (h : listUndo readUndo (S' ++ [(own S src copy b hb).entry]) = .ok files) :
    ∃ kept hdr, listUndo readUndo S' = .ok kept ∧ hdr.toMoment = wrap copy.toMoment ∧
      sortFiles files = sortFiles kept ++ [⟨(own S src copy b hb).seq,
        (own S src copy b hb).entry.1, (own S src copy b hb).entry.2, hdr⟩] := by
  rw [readApplied_append] at h
  obtain ⟨kept, hkept, h⟩ := except_bind_ok.mp h
  obtain ⟨last, hlast, h⟩ := except_bind_ok.mp h
  cases h
  rw [readApplied_cons] at hlast
  obtain ⟨hdr, hhdr, hlast⟩ := except_bind_ok.mp hlast
  cases hlast
  have hle : ∀ f ∈ kept, f.seq ≤ ((own S src copy b hb).seq : ℤ) := by
    intro f hf
    obtain ⟨hmem, hseq, -⟩ := listUndo_mem readUndo S' kept hkept f hf
    exact le_of_lt (lt_nextUndoSeq (mem_map_of_mem (hS' _ hmem)) (entrySeq?_of_applied hseq))
  refine ⟨kept, hdr, hkept, ?_, sortFiles_append_last hle⟩
  rw [header_of_readUndo hhdr]
  rfl

theorem momentOf_own (hS' : ∀ e ∈ S', e ∈ S)
    {m : Except Err (Option Moment)} {t : Option Moment}
    (h : momentOf (S' ++ [(own S src copy b hb).entry]) m = .ok t) :
    t = some (wrap copy.toMoment) := by
  obtain ⟨files, hfiles, h⟩ := except_bind_ok.mp h
  obtain ⟨kept, hdr, -, hto, hsort⟩ := sortFiles_own S src copy b hb hS' hfiles
  rw [hsort, getLast?_concat] at h
  rw [← Except.ok.inj h, ← hto]

/-- A pruning that removes the copy's own undo file removes all of them. -/
theorem listUndo_pruned
    (hfiles : listUndo readUndo (afterCopy S src copy b) = .ok files)
    (hin : (own S src copy b hb).entry.1 ∈ prunedNames cutoff (sortFiles files)) :
    listUndo readUndo (removeNames (prunedNames cutoff (sortFiles files))
      (afterCopy S src copy b)) = .ok [] := by
  obtain ⟨kept, hdr, hkept, -, hsort⟩ := sortFiles_own S src copy b hb (fun _ h => h) hfiles
  have hall : prunedNames cutoff (sortFiles files) = (sortFiles files).map UndoFile.name := by
    unfold prunedNames at hin ⊢
    rw [hsort] at hin ⊢
    obtain ⟨f, hf, hname⟩ := mem_map.mp hin
    have hnot : f ∉ sortFiles kept := by
      intro hmem
      obtain ⟨hentry, -, -⟩ := listUndo_mem readUndo S kept hkept f ((mem_insertionSort _).mp hmem)
      have hne := not_mem_next [] _ hentry
      exact hne hname
    rw [takeWhile_append] at hf ⊢
    split at hf
    · next hwhole =>
      rw [if_pos hwhole]
      rcases mem_append.mp hf with hmem | hmem
      · exact absurd hmem hnot
      · rw [takeWhile_cons] at hmem ⊢
        split at hmem
        · next hold =>
          rw [if_pos hold, takeWhile_nil]
        · cases hmem
    · exact absurd ((takeWhile_sublist _).subset hf) hnot
  apply listUndo_none
  intro e he
  obtain ⟨hmem, hnot⟩ := mem_filter.mp he
  by_contra hseq
  obtain ⟨u, hu, hname, -⟩ := listUndo_complete readUndo _ files hfiles e hmem hseq
  rw [hall] at hnot
  have hin' : e.1 ∈ (sortFiles files).map UndoFile.name :=
    hname ▸ mem_map_of_mem ((mem_insertionSort _).mpr hu)
  simp [hin'] at hnot

include hb in
/-- After a whole pruning and with the copy's moment in the moment file, the
disk shows the copy's moment, whatever is kept. -/
theorem momentOf_kept (hrange : InRange copy.toMoment) {t : Moment}
    (h : momentOf (keptEntries opts (afterCopy S src copy b)) (.ok (some copy.toMoment)) =
      .ok (some t)) : t = copy.toMoment := by
  have hwrap := wrap_of_inRange _ hrange
  have hown : ∀ names, (own S src copy b hb).entry.1 ∉ names →
      momentOf (removeNames names (afterCopy S src copy b)) (.ok (some copy.toMoment)) =
        .ok (some t) → t = copy.toMoment := by
    intro names hnot h
    rw [removeNames_own S src copy b hb hnot] at h
    have hto := momentOf_own S src copy b hb (fun e he => (mem_filter.mp he).1) h
    rw [Option.some.inj hto, hwrap]
  have hnone : removeNames [] (afterCopy S src copy b) = afterCopy S src copy b := by
    simp [removeNames]
  unfold keptEntries at h
  split at h
  · cases hlist : listUndo readUndo (afterCopy S src copy b) with
    | error e =>
      rw [hlist, ← hnone] at h
      exact hown [] (by simp) h
    | ok files =>
      rw [hlist] at h
      by_cases hin : (own S src copy b hb).entry.1 ∈
          prunedNames (opts.now - opts.keep) (sortFiles files)
      · have hempty := listUndo_pruned S src copy b hb hlist hin
        rcases momentOf_cases h with h | h
        · have hnone := h (.ok none)
          unfold momentOf at hnone
          rw [hempty] at hnone
          cases hnone
        · exact (Option.some.inj (Except.ok.inj h)).symm
      · exact hown _ hin h
  · rw [← hnone] at h
    exact hown [] (by simp) h

end Own

end FilePool.OwnPoint
