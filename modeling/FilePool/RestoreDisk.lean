import FilePool.SavedLayers
import FilePool.Pruning

/-!
A restore writes the backup disk as it was at the newest moment at or before
the one that was asked for. The latest disk is copied block by block, with
holes for zeros; an older one is rewound. A restore needs a disk that is
finished and not modified, so the roll back inside the rewind only removes
undo files that were never completed.
-/
namespace FilePool.RestoreDisk

open UndoLog hiding rewind
open ByteFiles UndoFormat UndoNames VolumeSteps DurableSteps DurableSteps.Prog List
open UndoFolder DiskMoments ApplyCopy Recovery CrashSafety Pruning

/-- Which moment to show: the moment and whether it is the disk itself. -/
def chooseMoment (st : DiskState) (asked : Moment) : Except Err (Moment × Bool) :=
  match st.moment with
  | none => .ok (zeroTime, true)
  | some t =>
    if asked = zeroTime ∨ ¬ asked < t then .ok (zeroTime, true)
    else
      let chosen := st.restorePoints.foldl (fun c p => if asked < p then c else p) zeroTime
      if chosen = zeroTime then .error (.noBackup asked (st.restorePoints.headD t))
      else .ok (chosen, false)

def sparseBlock : ℕ := 1048576

/-- The blocks that a sparse copy writes. -/
def sparseWrites : ℕ → ℕ → Bytes → List Patch
  | 0, _, _ => []
  | fuel + 1, off, rest =>
    if rest = [] then []
    else (if AllZero (rest.take sparseBlock) then [] else [⟨off, rest.take sparseBlock⟩]) ++
      sparseWrites fuel (off + sparseBlock) (rest.drop sparseBlock)

/-- The new file that a sparse copy makes. -/
def copySparse (b : Bytes) : Bytes :=
  resize (applyPatches (sparseWrites (b.length + 1) 0 b) []) b.length

structure RestoreResult where
  moment : Moment
  latest : Bool
  deriving DecidableEq, Repr

/-- Restore to a new file; the second value is what the file holds. -/
def restoreDisk (asked : Moment) (outExists : Bool) (stamp : ℤ) :
    VolProg (RestoreResult × Bytes) :=
  if outExists then Prog.fail .outExists
  else do
    let st ← Prog.inspect readDiskState
    if st.unfinished then Prog.fail .copyInProgress
    else if st.modified then Prog.fail .diskModified
    else do
      let (chosen, latest) ← Prog.inspect (fun _ => chooseMoment st asked)
      if latest then do
        let d ← Prog.inspect diskInfo
        return (⟨st.moment.getD zeroTime, true⟩, copySparse d.bytes)
      else do
        let out ← rewind chosen false stamp
        return (⟨chosen, false⟩, out)

/-- A sparse copy writes bytes of the file and leaves out zeros only. -/
theorem sparseWrites_spec (b : Bytes) (fuel off : ℕ) (rest : Bytes) (hrest : rest = b.drop off)
    (hfuel : rest.length < fuel) :
    (∀ p ∈ sparseWrites fuel off rest, p.data = readAt b p.off p.data.length) ∧
      ∀ i, off ≤ i → ¬ Covered (sparseWrites fuel off rest) i → byteAt b i = 0 := by
  induction fuel generalizing off rest with
  | zero => omega
  | succ fuel ih =>
    unfold sparseWrites
    by_cases hnil : rest = []
    · rw [if_pos hnil]
      refine ⟨by simp, ?_⟩
      intro i hi _
      apply byteAt_of_length_le
      have hlen := congrArg length hrest
      rw [hnil, length_nil, length_drop] at hlen
      omega
    · rw [if_neg hnil]
      have hpos := length_pos_iff.mpr hnil
      have hblock : sparseBlock = 1048576 := rfl
      obtain ⟨hsaves, hzero⟩ := ih (off + sparseBlock) (rest.drop sparseBlock)
        (by rw [hrest, drop_drop]) (by rw [length_drop]; omega)
      have htake : rest.take sparseBlock = readAt b off sparseBlock := by
        rw [hrest]
        rfl
      rw [htake]
      refine ⟨?_, ?_⟩
      · intro p hp
        rcases mem_append.mp hp with hmem | hmem
        · split at hmem
          · simp at hmem
          · rw [mem_singleton] at hmem
            subst hmem
            exact (readAt_length b).symm
        · exact hsaves p hmem
      · intro i hi hnot
        rcases Nat.lt_or_ge i (off + sparseBlock) with hlt | hge
        · have hbyte : byteAt (readAt b off sparseBlock) (i - off) = byteAt b i := by
            rw [byteAt_readAt, if_pos (by omega)]
            congr 1
            omega
          rcases Nat.lt_or_ge i b.length with hin | hout
          · by_cases hz : AllZero (readAt b off sparseBlock)
            · rw [← hbyte]
              exact (allZero_iff _).mp hz _
            · refine absurd ⟨⟨off, readAt b off sparseBlock⟩, ?_, hi, ?_⟩ hnot
              · rw [if_neg hz]
                exact mem_append_left _ (mem_singleton.mpr rfl)
              · change i < off + (readAt b off sparseBlock).length
                rw [length_readAt]
                omega
          · exact byteAt_of_length_le b i hout
        · apply hzero i hge
          rintro ⟨p, hp, hpi⟩
          exact hnot ⟨p, mem_append_right _ hp, hpi⟩

theorem copySparse_eq (b : Bytes) : copySparse b = b := by
  obtain ⟨hsaves, hzero⟩ := sparseWrites_spec b (b.length + 1) 0 b rfl (by omega)
  apply ext_byteAt
  · exact length_resize _
  · intro i hi
    unfold copySparse at hi ⊢
    rw [length_resize] at hi
    rw [byteAt_resize, if_pos hi]
    obtain ⟨hcov, hnot⟩ := byteAt_applyPatches _ [] hsaves i
    by_cases hc : Covered (sparseWrites (b.length + 1) 0 b) i
    · exact hcov hc
    · rw [hnot hc, hzero i (Nat.zero_le i) hc]
      rfl

def partNames (es : List (Name × Bytes)) : List Name :=
  (es.filter (fun e => hasSuffix e.1 undoPart)).map Prod.fst

/-- Without a complete undo file the roll back only removes incomplete ones. -/
theorem recoverEntries_idle (stamp : ℤ) (es : List (Name × Bytes))
    (hno : ∀ e ∈ es, hasSuffix e.1 undoReady = false) (rolled : Bool) (v : Volume) :
    recoverEntries stamp es rolled v =
      ((partNames es).map Step.removeUndo, .ok rolled) := by
  induction es generalizing v with
  | nil => rfl
  | cons e es ih =>
    have hrest := ih (fun x hx => hno x (mem_cons_of_mem e hx))
    unfold recoverEntries partNames
    by_cases hpart : hasSuffix e.1 undoPart = true
    · rw [if_pos hpart, filter_cons, if_pos hpart,
        bind_eq _ _ v (show perform (Step.removeUndo e.1) v = ([.removeUndo e.1], .ok ()) from rfl),
        hrest]
      rfl
    · rw [if_neg hpart, if_neg (by simp [hno e (mem_cons_self ..)]), filter_cons, if_neg hpart]
      exact hrest v

/-- The state after a roll back that found nothing to roll back. -/
def swept (v : Volume) : Volume :=
  { v with undo := v.undo.update (removeNames (partNames v.undo.entries)) }

variable {v : Volume} {stamp : ℤ}

theorem recover_idle (hfolder : v.undo ≠ .notFolder)
    (hno : ∀ e ∈ v.undo.entries, hasSuffix e.1 undoReady = false) :
    (recover stamp).result v = .ok false ∧ (recover stamp).exec v = swept v := by
  have hrun := recoverEntries_idle stamp v.undo.entries hno false v
  have heq : recover stamp v = ((partNames v.undo.entries).map .removeUndo, .ok false) := by
    unfold recover
    rw [bind_look _ _ v (congrArg (Prod.mk []) (undoEntries_ok v hfolder)), bind_eq _ _ v hrun]
    exact Prod.ext (append_nil _) rfl
  refine ⟨congrArg Prod.snd heq, ?_⟩
  unfold Prog.exec Prog.steps
  rw [heq]
  exact applyAll_removeUndo _ v

theorem appliedUndo_swept (hfolder : v.undo ≠ .notFolder) :
    appliedUndo (swept v) = appliedUndo v := by
  have hentries : (swept v).undo.entries = removeNames (partNames v.undo.entries) v.undo.entries :=
    entries_update rfl
  have hlist : listUndo readUndo (removeNames (partNames v.undo.entries) v.undo.entries) =
      listUndo readUndo v.undo.entries := by
    apply readApplied_filter
    intro e _ hin
    apply appliedSeq?_unsettled
    have hmem : e.1 ∈ partNames v.undo.entries := by simpa using hin
    obtain ⟨x, hx, hname⟩ := mem_map.mp hmem
    have hpart := (mem_filter.mp hx).2
    rw [hname] at hpart
    simp [unsettled, hpart]
  rw [appliedUndo_of_folder (undoEntries_ok _ (update_ne_notFolder _ _ hfolder)),
    appliedUndo_of_folder (undoEntries_ok v hfolder)]
  rw [hentries, hlist]

/-- What a restore to a new file gives, read off the folder. -/
def restored (v : Volume) (asked : Moment) : Except Err (RestoreResult × Bytes) := do
  let st ← readDiskState v
  if st.unfinished then .error .copyInProgress
  else if st.modified then .error .diskModified
  else do
    let (chosen, latest) ← chooseMoment st asked
    if latest then do
      let d ← diskInfo v
      return (⟨st.moment.getD zeroTime, true⟩, d.bytes)
    else do
      let files ← appliedUndo v
      match filesFrom chosen files with
      | none => .error (.noRestorePoint chosen)
      | some files => do
        let d ← diskInfo v
        let out ← rewindFiles files d.bytes
        return (⟨chosen, false⟩, out)

/-- A disk whose state can be read and is finished has nothing to roll back. -/
theorem idle_of_state {st : DiskState} (h : readDiskState v = .ok st)
    (hfin : st.unfinished = false) :
    v.undo ≠ .notFolder ∧ ∀ e ∈ v.undo.entries, hasSuffix e.1 undoReady = false := by
  have hfolder : v.undo ≠ .notFolder := by
    intro hbad
    have herr : undoEntries v = .error .undoNotFolder := by
      unfold undoEntries
      rw [hbad]
    unfold readDiskState appliedUndo undoFiles at h
    rw [herr] at h
    cases h
  refine ⟨hfolder, ?_⟩
  have hun : hasUnfinishedCopy v =
      .ok (v.undo.entries.any (fun e => hasSuffix e.1 undoReady)) := by
    unfold hasUnfinishedCopy
    rw [undoEntries_ok v hfolder]
    rfl
  obtain ⟨files, -, h⟩ := except_bind_ok.mp h
  obtain ⟨t, -, h⟩ := except_bind_ok.mp h
  obtain ⟨mf, -, h⟩ := except_bind_ok.mp h
  obtain ⟨_, hun', h⟩ := except_bind_ok.mp h
  cases hun.symm.trans hun'
  cases h
  intro e he
  have hall := any_eq_false.mp hfin e he
  simpa using hall

theorem rewind_idle {t : Moment} (hfolder : v.undo ≠ .notFolder)
    (hno : ∀ e ∈ v.undo.entries, hasSuffix e.1 undoReady = false) :
    (rewind t false stamp).result v = (do
      let files ← appliedUndo v
      match filesFrom t files with
      | none => .error (.noRestorePoint t)
      | some files => do
        let d ← diskInfo v
        rewindFiles files d.bytes) := by
  obtain ⟨hres, hexec⟩ := recover_idle hfolder hno
  unfold ApplyCopy.rewind
  rw [result_bind_ok _ _ v hres, hexec, result_bind, result_inspect, appliedUndo_swept hfolder]
  refine bind_congr ?_
  intro files
  cases filesFrom t files with
  | none => rfl
  | some fs =>
    rw [result_bind]
    rfl

theorem restoreDisk_result (v : Volume) (asked : Moment) (stamp : ℤ) :
    (restoreDisk asked false stamp).result v = restored v asked := by
  unfold restoreDisk restored
  rw [if_neg (by simp), result_bind]
  change (readDiskState v >>= _) = _
  cases hst : readDiskState v with
  | error e => rfl
  | ok st =>
    cases hun : st.unfinished with
    | true =>
      simp only [bind, Except.bind, hun]
      rfl
    | false =>
      obtain ⟨hfolder, hno⟩ := idle_of_state hst hun
      cases hmod : st.modified with
      | true =>
        simp only [bind, Except.bind, hun, hmod, if_true]
        rfl
      | false =>
        change (if st.unfinished = true then _ else _ : VolProg _).result v =
          if st.unfinished = true then _ else _
        rw [hun, hmod]
        simp only [Bool.false_eq_true, if_false]
        rw [result_bind]
        refine bind_congr ?_
        rintro ⟨chosen, latest⟩
        cases latest with
        | true =>
          simp only [if_true]
          rw [result_bind]
          refine bind_congr ?_
          intro d
          rw [copySparse_eq]
          rfl
        | false =>
          simp only [Bool.false_eq_true, if_false]
          rw [result_bind]
          change ((rewind chosen false stamp).result v >>= _) = _
          rw [rewind_idle hfolder hno]
          cases appliedUndo v with
          | error e => rfl
          | ok files =>
            cases hf : filesFrom chosen files with
            | none => simp only [bind, Except.bind, hf]
            | some fs =>
              simp only [bind, Except.bind, hf]
              cases diskInfo v with
              | error e => rfl
              | ok d =>
                cases rewindFiles fs d.bytes <;> rfl

/-- The bytes that a restore to the chosen moment writes. -/
def restoredBytes (chosen : Moment) (latest : Bool) (files : List UndoFile) (b : Bytes) :
    Except Err Bytes :=
  if latest then .ok b
  else
    match filesFrom chosen files with
    | none => .error (.noRestorePoint chosen)
    | some us => rewindFiles us b

/-- What a restore finds on the way. -/
theorem restored_iff {asked : Moment} {r : RestoreResult} {out : Bytes} :
    restored v asked = .ok (r, out) ↔
      ∃ files st c disk, appliedUndo v = .ok files ∧ stateFrom v files = .ok st ∧
        st.unfinished = false ∧ st.modified = false ∧ chooseMoment st asked = .ok c ∧
        diskInfo v = .ok disk ∧ restoredBytes c.1 c.2 files disk.bytes = .ok out ∧
        r = ⟨if c.2 then st.moment.getD zeroTime else c.1, c.2⟩ := by
  unfold restored restoredBytes readDiskState
  simp only [bind_assoc, except_bind_ok, except_unless_ok, Bool.not_eq_true]
  constructor
  · rintro ⟨files, hfiles, st, hst, hun, hmod, ⟨chosen, latest⟩, hc, h⟩
    refine ⟨files, st, (chosen, latest), ?_⟩
    cases latest with
    | true =>
      obtain ⟨disk, hdisk, h⟩ := except_bind_ok.mp h
      cases h
      exact ⟨disk, hfiles, hst, hun, hmod, hc, hdisk, rfl, rfl⟩
    | false =>
      obtain ⟨files', hfiles', h⟩ := except_bind_ok.mp h
      cases hfiles.symm.trans hfiles'
      cases hfrom : filesFrom chosen files with
      | none =>
        rw [hfrom] at h
        cases h
      | some us =>
        rw [hfrom] at h
        obtain ⟨disk, hdisk, h⟩ := except_bind_ok.mp h
        obtain ⟨out', hout, h⟩ := except_bind_ok.mp h
        cases h
        exact ⟨disk, hfiles, hst, hun, hmod, hc, hdisk, hout, rfl⟩
  · rintro ⟨files, st, ⟨chosen, latest⟩, disk, hfiles, hst, hun, hmod, hc, hdisk, hout, rfl⟩
    refine ⟨files, hfiles, st, hst, hun, hmod, (chosen, latest), hc, ?_⟩
    cases latest with
    | true =>
      cases hout
      exact except_bind_ok.mpr ⟨disk, hdisk, rfl⟩
    | false =>
      refine except_bind_ok.mpr ⟨files, hfiles, ?_⟩
      cases hfrom : filesFrom chosen files with
      | none =>
        rw [hfrom] at hout
        cases hout
      | some us =>
        rw [hfrom] at hout
        refine except_bind_ok.mpr ⟨disk, hdisk, ?_⟩
        exact except_bind_ok.mpr ⟨out, hout, rfl⟩

end FilePool.RestoreDisk
