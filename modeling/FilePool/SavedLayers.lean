import FilePool.CrashSafety

/-!
A folder that only copies wrote: its undo files are the layers that copies
saved, with rising numbers. The list of restore points, the pruning and the
rewind are computed from the layers. Where each layer takes the disk after its
copy back to the disk before it, a rewind gives the disk before the chosen copy.
-/
namespace FilePool.SavedLayers

open ByteFiles BigEndian UndoLog CopyChunks UndoWriter UndoFormat UndoNames List VolumeSteps
  DurableSteps DurableSteps.Prog UndoFolder ApplyCopy Recovery CopySteps

/-- What one copy saved: its number, the copy and the disk before it. -/
structure Saved where
  seq : ℕ
  src : StagedCopy
  opts : ApplyOptions
  old : Bytes
  old_lt : old.length < 2 ^ 63

namespace Saved

def chunks (x : Saved) : List Patch := x.src.chunks x.opts.full

def entry (x : Saved) : Name × Bytes :=
  (seqName x.seq ++ undoApplied, undoBytes x.src.toCopySource x.opts x.old x.chunks)

def header (x : Saved) : UndoHeader := (undoHeader x.opts x.old.length x.src.size).stored

def file (x : Saved) : UndoFile := ⟨x.seq, x.entry.1, x.entry.2, x.header⟩

def layer (x : Saved) : Layer := ⟨undoRecords x.old x.chunks, x.old.length⟩

/-- The disk sizes are within what an undo file may claim. -/
def Readable (x : Saved) : Prop := x.old.length ≤ 2 ^ 50 ∧ x.src.size ≤ 2 ^ 50

end Saved

/-- The undo files are the layers, oldest first, and the disk is cur. -/
structure Layered (saves : List Saved) (cur : Option Bytes) (v : Volume) : Prop where
  rests : Rests (saves.map Saved.entry) cur v
  rising : saves.Pairwise (fun x y => x.seq < y.seq)

theorem readUndo_saved (x : Saved) (h : x.Readable) : readUndo x.entry.1 x.entry.2 = .ok x.header :=
  readUndo_undoBytes x.src x.opts x.old _ (forEachNewChunk_chunks x.src x.opts.full) x.old_lt h

theorem readUndo_large (x : Saved) (h : ¬ x.Readable) :
    readUndo x.entry.1 x.entry.2 = .error (.undo x.entry.1 .badHeader) := by
  unfold Saved.Readable at h
  change ((readUndoFrom (undoBytes _ _ _ _) _ _).map _).mapError _ = _
  rw [readUndoFrom_undoBytes_large x.src x.opts x.old _ x.old_lt (by omega)]
  rfl

theorem header_eq (x : Saved) : x.header =
    ⟨wrap x.opts.fromMoment, wrap x.opts.toMoment, x.old.length, x.src.size⟩ :=
  stored_header x.src x.opts x.old x.old_lt

variable {x : Saved}

theorem header_of_readUndo {h : UndoHeader}
    (hok : readUndo x.entry.1 x.entry.2 = .ok h) : h = x.header := by
  by_cases hx : x.Readable
  · rw [readUndo_saved x hx] at hok
    exact (Except.ok.inj hok).symm
  · rw [readUndo_large x hx] at hok
    cases hok

theorem readApplied_cons (x : Saved) (es : List (Name × Bytes)) :
    listUndo readUndo (x.entry :: es) = (do
      let h ← readUndo x.entry.1 x.entry.2
      let files ← listUndo readUndo es
      return ⟨x.seq, x.entry.1, x.entry.2, h⟩ :: files) := by
  have hseq : appliedSeq? x.entry.1 = some (x.seq : ℤ) := appliedSeq?_seqName
  conv_lhs => unfold listUndo
  simp only [hseq]

theorem readApplied_saves (saves : List Saved) (h : ∀ x ∈ saves, x.Readable) :
    listUndo readUndo (saves.map Saved.entry) = .ok (saves.map Saved.file) := by
  induction saves with
  | nil => rfl
  | cons x saves ih =>
    rw [map_cons, readApplied_cons, readUndo_saved x (h x (mem_cons_self ..)),
      ih (fun y hy => h y (mem_cons_of_mem x hy))]
    rfl

theorem readable_of_readApplied (saves : List Saved) (files : List UndoFile)
    (h : listUndo readUndo (saves.map Saved.entry) = .ok files) : ∀ x ∈ saves, x.Readable := by
  induction saves generalizing files with
  | nil => simp
  | cons x saves ih =>
    rw [map_cons, readApplied_cons] at h
    by_cases hx : x.Readable
    · rw [readUndo_saved x hx] at h
      cases hr : listUndo readUndo (saves.map Saved.entry) with
      | error e =>
        rw [hr] at h
        cases h
      | ok rest =>
        intro y hy
        rcases mem_cons.mp hy with rfl | hmem
        · exact hx
        · exact ih rest hr y hmem
    · rw [readUndo_large x hx] at h
      cases h

theorem sortFiles_saves {saves : List Saved} (h : saves.Pairwise (fun x y => x.seq < y.seq)) :
    sortFiles (saves.map Saved.file) = saves.map Saved.file := by
  apply Pairwise.insertionSort_eq
  rw [pairwise_map]
  refine h.imp ?_
  intro x y hxy
  change (x.seq : ℤ) ≤ y.seq
  omega

section Folder

variable {saves : List Saved} {cur : Option Bytes} {v : Volume} (h : Layered saves cur v)

include h

theorem appliedUndo_layered (hr : ∀ x ∈ saves, x.Readable) :
    appliedUndo v = .ok (saves.map Saved.file) := by
  have hes := undoEntries_ok v h.rests.folder
  rw [h.rests.entries] at hes
  rw [appliedUndo_of_folder hes, readApplied_saves saves hr]
  exact congrArg Except.ok (sortFiles_saves h.rising)

theorem readable_of_appliedUndo {files : List UndoFile} (hok : appliedUndo v = .ok files) :
    ∀ x ∈ saves, x.Readable := by
  have hes := undoEntries_ok v h.rests.folder
  rw [h.rests.entries] at hes
  rw [appliedUndo_of_folder hes] at hok
  cases hr : listUndo readUndo (saves.map Saved.entry) with
  | error e =>
    rw [hr] at hok
    cases hok
  | ok fs => exact readable_of_readApplied saves fs hr

theorem restorePoints_layered {pts : List Moment} (hok : restorePoints v = .ok pts) :
    (∀ x ∈ saves, x.Readable) ∧ pts = saves.map (fun x => x.header.fromMoment) := by
  unfold restorePoints at hok
  cases ha : appliedUndo v with
  | error e =>
    rw [ha] at hok
    cases hok
  | ok files =>
    have hr := readable_of_appliedUndo h ha
    rw [appliedUndo_layered h hr] at hok
    refine ⟨hr, ?_⟩
    rw [← Except.ok.inj hok]
    exact map_map

end Folder

/-- The next undo file has a larger number than every layer. -/
theorem seq_lt_nextSeq {saves : List Saved} (hx : x ∈ saves) :
    x.seq < nextUndoSeq ((saves.map Saved.entry).map Prod.fst) := by
  have hmem : x.entry.1 ∈ (saves.map Saved.entry).map Prod.fst := mem_map_of_mem (mem_map_of_mem hx)
  have hseq : entrySeq? x.entry.1 = some (x.seq : ℤ) := entrySeq?_of_applied appliedSeq?_seqName
  exact_mod_cast lt_nextUndoSeq hmem hseq

variable (saves : List Saved) (src : StagedCopy) (opts : ApplyOptions)

/-- What a copy onto the disk b saves next. -/
def nextSaved (b : Bytes) (hb : b.length < 2 ^ 63) : Saved :=
  ⟨nextUndoSeq ((saves.map Saved.entry).map Prod.fst), src, opts, b, hb⟩

theorem layered_copiedState (v : Volume) (b : Bytes) (hb : b.length < 2 ^ 63) (stamp : ℤ)
    (h : Layered saves (some b) v) :
    Layered (saves ++ [nextSaved saves src opts b hb])
      (some (copied src.toCopySource opts.full b))
      (copiedState (saves.map Saved.entry) src.toCopySource opts b (src.chunks opts.full)
        stamp v) where
  rests := by
    rw [map_append]
    exact rests_copiedState _ src opts b _ stamp (forEachNewChunk_chunks src opts.full) v h.rests
  rising := by
    rw [pairwise_append]
    refine ⟨h.rising, pairwise_singleton _ _, ?_⟩
    intro x hx y hy
    rw [mem_singleton] at hy
    subst hy
    exact seq_lt_nextSeq hx

variable (cur : Option Bytes) (cutoff : Moment)

theorem layered_removeUndo (x : Saved) (saves : List Saved) (v : Volume)
    (h : Layered (x :: saves) cur v) :
    Layered saves cur ((Step.removeUndo x.entry.1).apply v) := by
  obtain ⟨hx, hrising⟩ := pairwise_cons.mp h.rising
  have hne : ∀ e ∈ saves.map Saved.entry, e.1 ≠ x.entry.1 := by
    intro e he heq
    obtain ⟨y, hy, rfl⟩ := mem_map.mp he
    have hseq := seqName_injective _ _ (append_cancel_right heq)
    have hlt := hx y hy
    omega
  have hremove : removeEntry x.entry.1 ((x :: saves).map Saved.entry) = saves.map Saved.entry := by
    rw [map_cons, removeEntry, filter_cons, if_neg (by simp)]
    exact removeEntry_of_not_mem _ _ hne
  refine ⟨⟨update_ne_notFolder _ _ h.rests.folder, ?_, ?_, h.rests.disk⟩, hrising⟩
  · rw [entries_removeUndo, h.rests.entries, hremove]
  · intro e he
    exact h.rests.clean e (mem_cons_of_mem _ he)

/-- Pruning takes layers away from the old end, all of them before the cutoff. -/
theorem stopped_pruneFiles (saves : List Saved) (v s : Volume) (h : Layered saves cur v)
    (hs : (pruneFiles cutoff (saves.map Saved.file)).Stopped v s) :
    ∃ k, Layered (saves.drop k) cur s ∧ s = { v with undo := s.undo } ∧
      ∀ x ∈ saves.take k, x.header.toMoment < cutoff := by
  induction saves generalizing v with
  | nil =>
    have heq : s = v := hs
    subst heq
    exact ⟨0, h, rfl, by simp⟩
  | cons x saves ih =>
    by_cases hto : x.header.toMoment < cutoff
    · have hprog : pruneFiles cutoff ((x :: saves).map Saved.file) =
          (perform (.removeUndo x.entry.1) >>= fun _ =>
            pruneFiles cutoff (saves.map Saved.file)) := by
        exact if_pos hto
      rw [hprog, stopped_bind_ok _ _ v (result_perform _ _)] at hs
      rcases hs with hs | hs
      · rcases hs with rfl | htorn | rfl
        · exact ⟨0, h, rfl, by simp⟩
        · exact htorn.elim
        · exact ⟨1, layered_removeUndo cur x saves v h, rfl, by simpa using hto⟩
      · obtain ⟨k, hk, hframe, hold⟩ :=
          ih (device.apply (.removeUndo x.entry.1) v) (layered_removeUndo cur x saves v h) hs
        refine ⟨k + 1, hk, hframe, ?_⟩
        intro y hy
        rw [take_succ_cons, mem_cons] at hy
        rcases hy with rfl | hy
        · exact hto
        · exact hold y hy
    · have hprog : pruneFiles cutoff ((x :: saves).map Saved.file) = pure () := by
        exact if_neg hto
      rw [hprog] at hs
      have heq : s = v := hs
      subst heq
      exact ⟨0, h, rfl, by simp⟩

theorem stopped_pruneFor {opts : ApplyOptions} {changed : Bool} {saves : List Saved}
    {v s : Volume} (h : Layered saves cur v) (hs : (pruneFor opts changed).Stopped v s) :
    ∃ k, Layered (saves.drop k) cur s ∧ s = { v with undo := s.undo } ∧
      ∀ x ∈ saves.take k, x.header.toMoment < opts.now - opts.keep := by
  have hsame : ∃ k, Layered (saves.drop k) cur v ∧ v = { v with undo := v.undo } ∧
      ∀ x ∈ saves.take k, x.header.toMoment < opts.now - opts.keep := ⟨0, h, rfl, by simp⟩
  unfold pruneFor at hs
  split at hs
  · unfold pruneUndo at hs
    cases ha : appliedUndo v with
    | error e =>
      rw [stopped_bind_error _ _ v (show (inspect appliedUndo : VolProg _).result v = _ from ha)]
        at hs
      have heq : s = v := hs
      exact heq ▸ hsame
    | ok files =>
      have hr := readable_of_appliedUndo h ha
      rw [appliedUndo_layered h hr] at ha
      rw [stopped_bind_ok _ _ v (show (inspect appliedUndo : VolProg _).result v = _ from
        appliedUndo_layered h hr)] at hs
      rcases hs with hs | hs
      · have heq : s = v := hs
        exact heq ▸ hsame
      · exact stopped_pruneFiles cur _ saves v s h hs
  · have heq : s = v := hs
    exact heq ▸ hsame

variable (st : Stamps) (v : Volume)

/-- A copy onto a disk adds its layer, and its pruning drops old ones. -/
theorem layered_applyCopy {b : Bytes} (hb : b.length < 2 ^ 63) (h : Layered saves (some b) v) :
    ∃ k, Layered ((saves ++ [nextSaved saves src opts b hb]).drop k)
      (some (copied src.toCopySource opts.full b))
      ((applyCopy src.toCopySource opts st).exec v) := by
  obtain ⟨hresult, hexec⟩ := recover_rests_exec v h.rests st.rollBack
  have hmid : Rests (saves.map Saved.entry) (some b) ((recover st.rollBack).exec v) :=
    hexec.symm ▸ h.rests
  have heq := applyUnpruned_eq _ src opts b st v false hresult hmid
  have hstate := exec_applyUnpruned _ src opts b st v false hresult hmid
  rw [hexec] at hstate
  have hlayer := layered_copiedState saves src opts v b hb st.write h
  rw [← hstate] at hlayer
  rw [exec_applyCopy opts st v (congrArg Prod.snd heq)]
  obtain ⟨k, hk, _⟩ := stopped_pruneFor _ hlayer (stopped_exec _ _)
  exact ⟨k, hk⟩

theorem layered_applyCopy_new (h : Layered saves none v) :
    Layered saves (some (copied src.toCopySource opts.full []))
      ((applyCopy src.toCopySource opts st).exec v) := by
  have heq := applyUnpruned_new opts st v _ src h.rests
  rw [exec_applyCopy opts st v (congrArg Prod.snd heq)]
  have hstate : (applyUnpruned src.toCopySource opts st).exec v = newState src st.write v := by
    unfold Prog.exec Prog.steps
    rw [heq]
    rfl
  rw [hstate]
  exact ⟨rests_newState src st.write h.rests, h.rising⟩

theorem parseUndo_saved (h : x.Readable) :
    parseUndo x.entry.2 = .ok (x.header, recordsAt 40 (undoRecords x.old x.chunks)) :=
  parseUndo_undoBytes x.src x.opts x.old _ (forEachNewChunk_chunks x.src x.opts.full) x.old_lt h

theorem oldSize_saved (x : Saved) : x.header.oldSize.toNat = x.old.length := by
  rw [header_eq]
  exact Int.toNat_natCast _

theorem applyUndo_saved (h : x.Readable) {b : Bytes} :
    applyUndo x.entry b = .ok (x.layer.undo b) := by
  rw [applyUndo_ok x.entry b _ _ (parseUndo_saved h), map_patch_recordsAt, oldSize_saved]
  rfl

theorem rewindFiles_saves {saves : List Saved} (h : ∀ x ∈ saves, x.Readable) (b : Bytes) :
    rewindFiles (saves.map Saved.file) b = .ok (UndoLog.rewind (saves.map Saved.layer) b) := by
  induction saves with
  | nil => rfl
  | cons x saves ih =>
    rw [map_cons, map_cons, rewindFiles_cons (ih (fun y hy => h y (mem_cons_of_mem x hy)))]
    exact applyUndo_saved (h x (mem_cons_self ..))

theorem filesFrom_none {t : Moment} {saves : List Saved}
    (h : ∀ y ∈ saves, y.header.fromMoment ≠ t) : filesFrom t (saves.map Saved.file) = none := by
  rw [filesFrom_eq_none_iff, forall_mem_map]
  exact h

/-- The rewind starts at the last layer that starts at the moment. -/
theorem filesFrom_saves (before : List Saved) (x : Saved) (after : List Saved)
    (h : ∀ y ∈ after, y.header.fromMoment ≠ x.header.fromMoment) :
    filesFrom x.header.fromMoment ((before ++ x :: after).map Saved.file) =
      some ((x :: after).map Saved.file) := by
  rw [map_append]
  apply filesFrom_append
  rw [map_cons, filesFrom, filesFrom_none h]
  exact if_pos rfl

theorem rewind_layered (before : List Saved) (x : Saved) (after : List Saved) (b : Bytes)
    {v : Volume} (h : Layered (before ++ x :: after) (some b) v)
    (hr : ∀ y ∈ before ++ x :: after, y.Readable)
    (hleads : Leads ((before ++ x :: after).map Saved.layer)
      ((before ++ x :: after).map Saved.old) b)
    (hlast : ∀ y ∈ after, y.header.fromMoment ≠ x.header.fromMoment) (stamp : ℤ) :
    ApplyCopy.rewind x.header.fromMoment false stamp v = ([], .ok x.old) := by
  obtain ⟨d, hd, hbytes⟩ := diskInfo_of_holds h.rests.disk
  have hfiles := appliedUndo_layered h hr
  have hback : UndoLog.rewind ((x :: after).map Saved.layer) b = x.old := by
    have hi : before.length < ((before ++ x :: after).map Saved.old).length := by simp
    have hat := leads_rewind _ _ b hleads hi
    simpa using hat
  unfold ApplyCopy.rewind
  rw [bind_look _ _ v (recover_rests _ _ v h.rests stamp)]
  rw [bind_look _ _ v (congrArg (Prod.mk []) hfiles)]
  rw [filesFrom_saves before x after hlast]
  simp only
  rw [bind_look _ _ v (congrArg (Prod.mk []) hd)]
  simp only [Bool.false_eq_true, if_false, hbytes, inspect]
  rw [rewindFiles_saves (fun y hy => hr y (mem_append_right before hy)), hback]

end FilePool.SavedLayers
