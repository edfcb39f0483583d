import FilePool.CrashSafety

/-!
What a copy leaves alone, and what the pruning at its end removes. The steps of
a copy touch the disk, the undo folder and the moment file only. The pruning
removes, oldest first, the undo files of copies made before the cutoff, and
stops at the first one that is not.
-/
namespace FilePool.Pruning

open ByteFiles CopyChunks UndoFormat UndoNames List VolumeSteps DurableSteps DurableSteps.Prog
  UndoFolder DiskMoments ApplyCopy Recovery CrashSafety

/-- The steps that change the disk or the undo folder. -/
def OnUndo : Step → Prop
  | .makeUndoDir | .putUndo _ _ | .renameUndo _ _ | .removeUndo _ | .changeDisk _ _ => True
  | .removeNew | .writeNew _ | .placeNew _ => True
  | _ => False

/-- The steps that a copy or a roll back makes. -/
def OnDisk : Step → Prop
  | .makeUndoDir | .putUndo _ _ | .renameUndo _ _ | .removeUndo _ | .changeDisk _ _ => True
  | .removeNew | .writeNew _ | .placeNew _ | .writeMoment _ => True
  | _ => False

theorem onDisk_of_onUndo (t : Step) (h : OnUndo t) : OnDisk t := by
  cases t <;> first | exact h | exact h.elim

theorem only_reseal : Only OnDisk reseal := by
  refine only_bind (only_inspect _) ?_
  intro mf
  cases mf with
  | none => exact only_pure ()
  | some mf => exact only_bind (only_inspect _) (fun _ => only_perform _ trivial)

theorem only_rollBackBy (u : Name × Bytes) (stamp : ℤ) : Only OnUndo (rollBackBy u stamp) := by
  refine only_bind (only_inspect _) (fun _ => only_bind (only_inspect _) ?_)
  rintro ⟨h, rs⟩
  exact only_bind (only_perform _ trivial) (fun _ => only_perform _ trivial)

theorem only_recoverEntries (stamp : ℤ) (es : List (Name × Bytes)) (rolled : Bool) :
    Only OnUndo (recoverEntries stamp es rolled) := by
  induction es generalizing rolled with
  | nil => exact only_pure rolled
  | cons e es ih =>
    unfold recoverEntries
    split
    · exact only_bind (only_perform _ trivial) (fun _ => ih rolled)
    · split
      · exact only_bind (only_rollBackBy e stamp) (fun _ => ih true)
      · exact ih rolled

theorem only_recover (stamp : ℤ) : Only OnDisk (recover stamp) := by
  refine only_bind (only_inspect _) (fun es => only_bind
    (only_weaken (only_recoverEntries stamp es false) onDisk_of_onUndo) ?_)
  intro rolled
  cases rolled with
  | true => exact only_map only_reseal
  | false => exact only_pure _

variable {opts : ApplyOptions} {src : CopySource} {stamp : ℤ}

theorem only_writeUndo {name : Name} {old : Bytes} :
    Only OnUndo (writeUndo name src old opts) := by
  refine only_bind (only_inspect _) ?_
  intro es
  split
  · exact only_fail _
  · cases forEachNewChunk src opts.full with
    | error e =>
      exact only_bind (only_perform _ trivial)
        (fun _ => only_bind (only_perform _ trivial) (fun _ => only_fail _))
    | ok cs => exact only_map (only_perform _ trivial)

theorem only_changeDisk {d : DiskFile} :
    Only OnUndo (ApplyCopy.changeDisk src opts stamp d) := by
  refine only_bind (only_bind (only_inspect _) (fun _ => only_perform _ trivial)) ?_
  refine fun _ => only_bind (only_inspect _) (fun es => only_bind only_writeUndo ?_)
  intro cs
  refine only_bind (only_perform _ trivial) (fun _ => only_bind (only_perform _ trivial) ?_)
  exact fun _ => only_map (only_perform _ trivial)

theorem only_writeCopy :
    Only OnUndo (writeCopy src opts stamp) := by
  refine only_bind (only_inspect _) ?_
  intro d
  cases d with
  | none =>
    refine only_map (only_bind (only_perform _ trivial) ?_)
    refine fun _ => only_bind (only_perform _ trivial) ?_
    exact fun _ => only_map (only_perform _ trivial)
  | some d =>
    refine only_bind (only_inspect _) ?_
    exact fun d => only_map only_changeDisk

theorem only_pruneFiles {cutoff : Moment} {files : List UndoFile} :
    Only OnUndo (pruneFiles cutoff files) := by
  induction files with
  | nil => exact only_pure ()
  | cons u us ih =>
    unfold pruneFiles
    split
    · exact only_bind (only_perform _ trivial) (fun _ => ih)
    · exact only_pure ()

theorem only_pruneFor {changed : Bool} :
    Only OnUndo (pruneFor opts changed) := by
  unfold pruneFor pruneUndo
  split
  · exact only_bind (only_inspect _) (fun files => only_pruneFiles)
  · exact only_pure ()

theorem only_applyCopy {st : Stamps} :
    Only OnDisk (applyCopy src opts st) := by
  refine only_bind (only_bind (only_recover _) (fun rolled => only_bind
    (only_weaken only_writeCopy onDisk_of_onUndo) (fun x => only_pure _))) ?_
  rintro ⟨res, changed⟩
  exact only_map (only_weaken only_pruneFor onDisk_of_onUndo)

/-- The lease, the uploads and the staging file are those of another state. -/
def SameRest (v s : Volume) : Prop :=
  s.lease = v.lease ∧ s.incoming = v.incoming ∧ s.staging = v.staging

theorem sameRest_of_only {α : Type} {p : VolProg α} (h : Only OnDisk p) {v s : Volume}
    (hs : p.Stopped v s) : SameRest v s := by
  refine stopped_of_only h (SameRest v) ?_ ?_ v s ⟨rfl, rfl, rfl⟩ hs
  · intro t ht x hx
    cases t <;> first | exact hx | exact ht.elim
  · intro t ht x y hx hy
    cases t with
    | putUndo name content =>
      obtain ⟨k, rfl⟩ := hy
      exact hx
    | changeDisk cs mtime =>
      obtain ⟨ds, -, rfl⟩ := hy
      exact hx
    | writeNew content =>
      obtain ⟨content', rfl⟩ := hy
      exact hx
    | _ => first | exact hy.elim | exact ht.elim

/-- The folder without the files of these names. -/
def removeNames (names : List Name) (es : List (Name × Bytes)) : List (Name × Bytes) :=
  es.filter (fun e => e.1 ∉ names)

theorem removeNames_removeEntry (name : Name) (names : List Name) (es : List (Name × Bytes)) :
    removeNames names (removeEntry name es) = removeNames (name :: names) es := by
  unfold removeNames removeEntry
  rw [filter_filter]
  apply filter_congr
  intro e _
  simp only [mem_cons, not_or, Bool.decide_and]
  rw [Bool.and_comm]

theorem applyAll_removeUndo (names : List Name) (v : Volume) :
    device.applyAll (names.map Step.removeUndo) v =
      { v with undo := v.undo.update (removeNames names) } := by
  induction names generalizing v with
  | nil =>
    have hid : v.undo.update (removeNames []) = v.undo := by
      cases v.undo with
      | missing => rfl
      | notFolder => rfl
      | folder es => simp [UndoDir.update, removeNames]
    rw [hid]
    rfl
  | cons name names ih =>
    rw [map_cons, Device.applyAll_cons, ih]
    have hundo : (v.undo.update (removeEntry name)).update (removeNames names) =
        v.undo.update (removeNames (name :: names)) := by
      cases v.undo with
      | missing => rfl
      | notFolder => rfl
      | folder es => simp only [UndoDir.update, removeNames_removeEntry]
    change { v with undo := (v.undo.update (removeEntry name)).update (removeNames names) } = _
    rw [hundo]

theorem stopped_removeUndo (names : List Name) (v s : Volume)
    (h : device.StoppedIn (names.map Step.removeUndo) v s) :
    ∃ k, s = { v with undo := v.undo.update (removeNames (names.take k)) } := by
  induction names generalizing v with
  | nil =>
    refine ⟨0, ?_⟩
    rw [← applyAll_removeUndo]
    exact h
  | cons name names ih =>
    rcases (device.stoppedIn_cons _ _ v s).mp h with rfl | htorn | hrest
    · refine ⟨0, ?_⟩
      rw [← applyAll_removeUndo]
      rfl
    · exact htorn.elim
    · obtain ⟨k, rfl⟩ := ih _ hrest
      refine ⟨k + 1, ?_⟩
      rw [← applyAll_removeUndo, ← applyAll_removeUndo]
      rfl

/-- The names that the pruning removes from listed files. -/
def prunedNames (cutoff : Moment) (files : List UndoFile) : List Name :=
  (files.takeWhile (fun u => u.hdr.toMoment < cutoff)).map (fun u => u.name)

theorem pruneFiles_eq (cutoff : Moment) (files : List UndoFile) (v : Volume) :
    pruneFiles cutoff files v = ((prunedNames cutoff files).map Step.removeUndo, .ok ()) := by
  induction files generalizing v with
  | nil => rfl
  | cons u us ih =>
    unfold pruneFiles prunedNames
    by_cases hto : u.hdr.toMoment < cutoff
    · rw [if_pos hto, takeWhile_cons_of_pos (by simpa using hto),
        bind_eq _ _ v (show perform (Step.removeUndo u.name) v = ([.removeUndo u.name], .ok ())
          from rfl), ih]
      rfl
    · rw [if_neg hto, takeWhile_cons_of_neg (by simpa using hto)]
      rfl

/-- The undo files that are left of the listed ones after the pruning. -/
def keptEntries (opts : ApplyOptions) (T : List (Name × Bytes)) : List (Name × Bytes) :=
  if 0 < opts.keep then
    match listUndo readUndo T with
    | .ok files => removeNames (prunedNames (opts.now - opts.keep) (sortFiles files)) T
    | .error _ => T
  else T

section Kept

variable {opts : ApplyOptions} (T : List (Name × Bytes)) (cur : Option Bytes) (v : Volume)
  (h : Rests T cur v)

include h

theorem rests_removeNames {names : List Name} :
    Rests (removeNames names T) cur { v with undo := v.undo.update (removeNames names) } where
  folder := update_ne_notFolder _ _ h.folder
  entries := by
    rw [entries_update rfl, h.entries]
  clean e he := h.clean e (mem_filter.mp he).1
  disk := h.disk

theorem appliedUndo_rests : appliedUndo v = (listUndo readUndo T).map sortFiles := by
  have hes := undoEntries_ok v h.folder
  rw [h.entries] at hes
  exact appliedUndo_of_folder hes

/-- The pruning that ends leaves the kept undo files, and all files were read. -/
theorem rests_pruneFor (hok : (pruneFor opts true).result v = .ok ()) :
    Rests (keptEntries opts T) cur ((pruneFor opts true).exec v) ∧
      (0 < opts.keep → ∃ files, listUndo readUndo T = .ok files) := by
  unfold keptEntries
  by_cases hkeep : 0 < opts.keep
  · have hprog : pruneFor opts true = pruneUndo (opts.now - opts.keep) := if_pos ⟨rfl, hkeep⟩
    rw [hprog] at hok ⊢
    rw [if_pos hkeep]
    cases hlist : listUndo readUndo T with
    | error e =>
      have happ : (inspect appliedUndo : VolProg _).result v = .error e := by
        rw [result_inspect, appliedUndo_rests T cur v h, hlist]
        rfl
      unfold pruneUndo at hok
      rw [result_bind_error _ _ v happ] at hok
      cases hok
    | ok files =>
      have happ : (inspect appliedUndo : VolProg _) v = ([], .ok (sortFiles files)) := by
        refine congrArg (Prod.mk []) ?_
        rw [appliedUndo_rests T cur v h, hlist]
        rfl
      refine ⟨?_, fun _ => ⟨files, rfl⟩⟩
      unfold pruneUndo Prog.exec Prog.steps
      rw [bind_look _ _ v happ, pruneFiles_eq, applyAll_removeUndo]
      exact rests_removeNames T cur v h
  · have hprog : pruneFor opts true = pure () := if_neg (fun hc => hkeep hc.2)
    rw [hprog, if_neg hkeep]
    exact ⟨h, fun hpos => absurd hpos hkeep⟩

theorem restorePoints_rests : restorePoints v = (listUndo readUndo T).map points :=
  restorePoints_recoverable (recoverable_of_rests h)

end Kept

end FilePool.Pruning
