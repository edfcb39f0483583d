import FilePool.StepRuns
import FilePool.VolumeCalls

/-!
Who removes the folder of a volume. The files of instant snapshots are in it, so the delete of
the volume leaves it to the last snapshot. The deletes of a volume and of its snapshots hold
the volume's lock, so they come one after another; each may fail at any of its steps and is
called again. The records are read from a cache, which can be behind.
-/
namespace FilePool.FolderDuty

open UndoNames StepRuns List

/-- A snapshot of the volume: its method, and whether its file in the folder is recorded. -/
structure Snapshot where
  name : Name
  instant : Bool
  chainFile : Bool
  deriving DecidableEq, Repr

/-- The records: whether the volume is there, and its snapshots. -/
structure Records where
  volume : Bool
  snapshots : List Snapshot
  deriving DecidableEq, Repr

/-- The records, the folder, and the records as they were before, which a cache can still have. -/
structure State where
  now : Records
  folder : Bool
  past : List Records
  deriving DecidableEq, Repr

def State.to (r : Records) (folder : Bool) (s : State) : State := ⟨r, folder, s.now :: s.past⟩

/-- How far the removal of the folder has come when a call asks for it. -/
inductive Removal
  | waits
  | goes
  | done
  deriving DecidableEq, Repr

def Removal.leaves (r : Removal) (folder : Bool) : Bool := folder && r = .waits

def hasInstantSnapshots (snapshots : List Snapshot) : Bool :=
  snapshots.any (fun o => o.instant && o.chainFile)

/-- The folder stays for the snapshots whose files are recorded. The record of the volume goes
last, unless its removal fails. -/
def deallocate (seen : Records) (removal : Removal) (deleted : Bool) (s : State) : Option State :=
  let left (gone : Bool) : Records := { s.now with volume := s.now.volume && !gone }
  if !seen.volume then none
  else if hasInstantSnapshots seen.snapshots then some (s.to (left deleted) s.folder)
  else some (s.to (left (removal = .done && deleted)) (removal.leaves s.folder))

def dropRecord (name : Name) (deleted : Bool) (snapshots : List Snapshot) : List Snapshot :=
  if deleted then snapshots.filter (fun o => o.name ≠ name) else snapshots

/-- The file of a snapshot whose take was not recorded is found in the volume's chain. -/
def track (name : Name) (found : Bool) (snapshots : List Snapshot) : List Snapshot :=
  snapshots.map (fun o =>
    if o.name = name && o.instant && found then { o with chainFile := true } else o)

/-- The volume is gone. Any other snapshot of it, of whatever method, keeps the folder. -/
def deleteInstantOfGoneVolume (name : Name) (listed : List Snapshot) (removal : Removal)
    (deleted : Bool) (s : State) : State :=
  if listed.any (fun o => o.name ≠ name) then
    s.to { s.now with snapshots := dropRecord name deleted s.now.snapshots } s.folder
  else s.to
    { s.now with snapshots := dropRecord name (removal = .done && deleted) s.now.snapshots }
    (removal.leaves s.folder)

/-- A copied snapshot has a folder of its own, and an instant one of a volume that exists is
merged inside the volume's folder. One without a recorded file is taken for one that never
was, once its volume is gone. -/
def deleteSnapshot (name : Name) (seen : Records) (found : Bool) (removal : Removal)
    (deleted : Bool) (s : State) : Option State :=
  let left (ss : List Snapshot) : State :=
    s.to { s.now with snapshots := dropRecord name deleted ss } s.folder
  (seen.snapshots.find? (fun o => o.name = name)).map (fun o =>
    if !o.instant then left s.now.snapshots
    else if seen.volume then left (track name found s.now.snapshots)
    else if !o.chainFile then left s.now.snapshots
    else deleteInstantOfGoneVolume name seen.snapshots removal deleted s)

inductive Call
  | deallocate (removal : Removal) (deleted : Bool)
  | deleteSnapshot (name : Name) (found : Bool) (removal : Removal) (deleted : Bool)
  deriving DecidableEq, Repr

/-- A call and the records as it reads them. -/
structure Event where
  call : Call
  seen : Records
  deriving DecidableEq, Repr

def step (s : State) (e : Event) : Option State :=
  if e.seen ∉ s.now :: s.past then none
  else match e.call with
    | .deallocate removal deleted => deallocate e.seen removal deleted s
    | .deleteSnapshot name found removal deleted =>
      deleteSnapshot name e.seen found removal deleted s

/-- The cache is not behind. -/
def Fitting (s : State) (e : Event) : Prop := e.seen = s.now

instance (s : State) (e : Event) : Decidable (Fitting s e) := inferInstanceAs (Decidable (_ = _))

section Calls

open PoolRecords PoolWorld Threads Proc InstantSnapshots VolumeCalls

/-- A snapshot's record as the deletes look at it. -/
def ofRecord (s : PoolRecords.Snapshot) : Snapshot :=
  ⟨s.name, s.method = .instant, s.chainFile ≠ []⟩

/-- How far a call is with the folder: it has listed the snapshots and keeps the folder for
them, or may remove it, or has removed it. -/
inductive Turn
  | begun
  | keeps
  | removes
  | removed
  deriving DecidableEq, Repr

/-- The folder is removed only if the list that was read does not keep it, and the volume's
record goes after that. -/
def duty (keeps : List Snapshot → Bool) : Protocol Turn Query Answer where
  answers _ _ := True
  step turn q := match q with
    | .listSnapshotsBySource _ => fun (r : Except ApiErr (List PoolRecords.Snapshot)) after =>
      ∀ ss, r = .ok ss → after = if keeps (ss.map ofRecord) then .keeps else .removes
    | .job _ (.removeDir _) => fun (done : Except JobErr Bool) after =>
      turn = .removes ∧ after = if done = .ok true then .removed else turn
    | .deleteSubVolume _ => fun _ after => after = turn ∧ (turn = .keeps ∨ turn = .removed)
    | _ => fun _ after => after = turn

variable {keeps : List Snapshot → Bool}

theorem meets_removeDir {key : Name} {folder : Folder} :
    Meets (duty keeps) (do
        let done : Bool ← orFail (fun _ => Err.api) (← PoolWorld.ask (.job key (.removeDir folder)))
        if done then return () else fail .operationInProgress : Driver Unit)
      (fun _ after => after = .keeps ∨ after = .removed) (fun _ => True) .removes := by
  refine meets_ask fun r _ => ⟨_, ⟨rfl, rfl⟩, meets_value fun done hdone => ?_⟩
  obtain rfl : r = .ok done := hdone
  cases done with
  | true => exact meets_pure _ (.inr rfl)
  | false => exact meets_fail _ trivial

/-- A call goes on with the removal unless the list keeps the folder. -/
theorem meets_unlessKept {k : Bool} {listed : List Snapshot} (hk : k = keeps listed)
    {p : Driver Unit} (hp : Meets (duty keeps) p
      (fun _ after => after = .keeps ∨ after = .removed) (fun _ => True) .removes) :
    Meets (duty keeps) (if k then return () else p)
      (fun _ after => after = .keeps ∨ after = .removed) (fun _ => True)
      (if keeps listed then .keeps else .removes) := by
  rw [← hk]
  cases k with
  | true => exact meets_pure _ (.inl rfl)
  | false => exact hp

/-- The delete of a volume looks at the list before it removes the folder, and its record goes
after that. -/
theorem deallocateBody_duty (cfg : ShareCreation.Config) (volume : Name) :
    Meets (duty hasInstantSnapshots) (deallocateBody cfg volume) (fun _ _ => True)
      (fun _ => True) .begun := by
  refine meets_ask fun v _ => ⟨_, rfl, meets_value fun v _ => ?_⟩
  refine meets_ask fun p _ => ⟨_, rfl, meets_value fun p _ => ?_⟩
  refine meets_unless trivial fun _ => ?_
  have hstop : Meets (duty hasInstantSnapshots) (stopDataCopy v) (fun _ _ => True)
      (fun _ => True) .begun := by
    unfold stopDataCopy
    cases dataCopyKey v with
    | none => exact meets_pure _ trivial
    | some key =>
      refine meets_ask fun _ _ => ⟨_, rfl, meets_value fun stopped _ => ?_⟩
      cases stopped with
      | true => exact meets_pure _ trivial
      | false => exact meets_fail _ trivial
  have hremove (turn : Turn) : Meets (duty hasInstantSnapshots) (removeFolder v)
      (fun _ after => after = .keeps ∨ after = .removed) (fun _ => True) turn := by
    refine meets_bind (meets_ask fun r _ => ?_)
    cases r with
    | error e => exact ⟨turn, nofun, meets_fail _ trivial⟩
    | ok ss =>
      refine ⟨_, fun _ h => by cases h; rfl, meets_pure _ (meets_unlessKept ?_ meets_removeDir)⟩
      simp [hasInstantSnapshots, ofRecord, Function.comp_def]
  refine meets_then hstop fun _ turn _ => meets_then (hremove turn) fun _ turn hturn => ?_
  refine meets_ask fun _ _ => ⟨turn, ⟨rfl, hturn⟩, meets_value fun _ _ => ?_⟩
  exact meets_ask fun _ _ => ⟨turn, rfl, meets_pure _ trivial⟩

/-- A snapshot of a deleted volume keeps the folder for every other snapshot that is listed. -/
theorem deleteInstantOfGoneVolume_duty (s : PoolRecords.Snapshot) (p : Pool) :
    Meets (duty (fun ss => ss.any (fun o => o.name ≠ s.name)))
      (InstantSnapshots.deleteInstantOfGoneVolume s p)
      (fun _ after => after = .keeps ∨ after = .removed) (fun _ => True) .begun := by
  refine meets_ask fun r _ => ?_
  cases r with
  | error e => exact ⟨.begun, nofun, meets_fail _ trivial⟩
  | ok ss =>
    refine ⟨_, fun _ h => by cases h; rfl, meets_unlessKept ?_ ?_⟩
    · simp [ofRecord, Function.comp_def]
    · exact meets_value fun _ _ => meets_removeDir

end Calls

variable {s s' : State} {deleted : Bool} {snapshots : List Snapshot} {o : Snapshot}
  {removal : Removal} {name : Name} {found : Bool} {seen : Records}

def NoInstant (s : State) : Prop := ∀ o ∈ s.now.snapshots, o.instant = false

/-- No snapshot is an instant one, or all are and their files are recorded. -/
def OneKind (s : State) : Prop :=
  NoInstant s ∨ ∀ o ∈ s.now.snapshots, o.instant = true ∧ o.chainFile = true

/-- The folder of a deleted volume is gone once no instant snapshot is left. -/
def Freed (s : State) : Prop := s.now.volume = false → NoInstant s → s.folder = false

/-- A step that removes the folder finds no instant snapshot but the one that it deletes. -/
def LeavesInstant (s s' : State) : Call → Prop
  | .deallocate _ _ => s.folder = true → s'.folder = false → NoInstant s
  | .deleteSnapshot name _ _ _ => s.folder = true → s'.folder = false →
      ∀ o ∈ s.now.snapshots, o.instant = true → o.name = name

structure Kept (s : State) : Prop where
  kind : OneKind s
  freed : Freed s

theorem mem_dropRecord
    (h : o ∈ dropRecord name deleted snapshots) : o ∈ snapshots := by
  unfold dropRecord at h
  split at h
  · exact mem_of_mem_filter h
  · exact h

theorem mem_dropRecord_of_ne (ho : o ∈ snapshots) (hne : o.name ≠ name) :
    o ∈ dropRecord name deleted snapshots := by
  unfold dropRecord
  split
  · exact mem_filter.mpr ⟨ho, by simpa using hne⟩
  · exact ho

/-- Every snapshot is one of before, perhaps with its file recorded. -/
def Fewer (snapshots snapshots' : List Snapshot) : Prop :=
  ∀ o ∈ snapshots', ∃ o₀ ∈ snapshots, o.instant = o₀.instant ∧
    (o₀.chainFile = true → o.chainFile = true)

theorem fewer_dropRecord :
    Fewer snapshots (dropRecord name deleted snapshots) :=
  fun o ho => ⟨o, mem_dropRecord ho, rfl, id⟩

theorem fewer_track :
    Fewer snapshots (track name found snapshots) := by
  intro o ho
  obtain ⟨o₀, ho₀, rfl⟩ := mem_map.mp ho
  refine ⟨o₀, ho₀, ?_, ?_⟩
  · split <;> rfl
  · intro hfile
    split
    · rfl
    · exact hfile

theorem OneKind.fewer (h : OneKind s) (hfew : Fewer s.now.snapshots s'.now.snapshots) :
    OneKind s' := by
  obtain hnone | hall := h
  · refine .inl (fun o ho => ?_)
    obtain ⟨o₀, ho₀, hinst, -⟩ := hfew o ho
    rw [hinst, hnone o₀ ho₀]
  · refine .inr (fun o ho => ?_)
    obtain ⟨o₀, ho₀, hinst, hfile⟩ := hfew o ho
    exact ⟨hinst.trans (hall o₀ ho₀).1, hfile (hall o₀ ho₀).2⟩

/-- If no file is recorded there is no instant snapshot at all. -/
theorem OneKind.noInstant (h : OneKind s) (hnot : hasInstantSnapshots s.now.snapshots = false) :
    NoInstant s := by
  obtain hnone | hall := h
  · exact hnone
  · intro o ho
    have hboth := hall o ho
    have hno := any_eq_false.mp hnot o ho
    simp [hboth.1, hboth.2] at hno

theorem leaves_done (folder : Bool) : Removal.done.leaves folder = false := by
  simp [Removal.leaves]

theorem Kept.deallocated (h : Kept s) (hs : deallocate s.now removal deleted s = some s') :
    Kept s' ∧ LeavesInstant s s' (.deallocate removal deleted) := by
  unfold deallocate at hs
  dsimp only at hs
  split at hs
  · cases hs
  split at hs
  · rename_i hkeep
    cases hs
    refine ⟨⟨h.kind, fun _ hnone => ?_⟩, fun hfolder hgone => opposed hfolder hgone⟩
    -- the snapshot that keeps the folder is an instant one
    obtain ⟨o, ho, hboth⟩ := any_eq_true.mp hkeep
    simp [show o.instant = false from hnone o ho] at hboth
  · rename_i hvolume hkeep
    cases hs
    have hnone : NoInstant s := h.kind.noInstant (by simpa using hkeep)
    refine ⟨⟨h.kind, fun hgone _ => ?_⟩, fun _ _ => hnone⟩
    have hdone : removal = .done := by
      have hvolume : s.now.volume = true := by simpa using hvolume
      have hgone : (s.now.volume && !(removal = .done && deleted)) = false := hgone
      simp only [hvolume, Bool.true_and, Bool.not_eq_false', Bool.and_eq_true,
        decide_eq_true_eq] at hgone
      exact hgone.1
    simp [State.to, hdone, leaves_done]

/-- A record goes while the volume exists, or no instant snapshot was there before. -/
theorem Kept.dropped (h : Kept s) (hfew : Fewer s.now.snapshots snapshots)
    (hfreed : s.now.volume = true ∨ NoInstant s) :
    Kept (s.to { s.now with snapshots := snapshots } s.folder) where
  kind := h.kind.fewer hfew
  freed hgone _ := by
    obtain hvolume | hnone := hfreed
    · exact opposed hvolume hgone
    · exact h.freed hgone hnone

theorem Kept.goneVolume (h : Kept s) (hall : ∀ o ∈ s.now.snapshots, o.instant = true)
    (ho : o ∈ s.now.snapshots) (removal : Removal) (deleted : Bool) :
    Kept (deleteInstantOfGoneVolume o.name s.now.snapshots removal deleted s) := by
  unfold deleteInstantOfGoneVolume
  split
  · rename_i hother
    -- another snapshot is left, and it is an instant one
    obtain ⟨u, hu, hne⟩ := any_eq_true.mp hother
    refine ⟨h.kind.fewer fewer_dropRecord, fun _ hnone => ?_⟩
    exact opposed (hall u hu) (hnone u (mem_dropRecord_of_ne hu (by simpa using hne)))
  · refine ⟨h.kind.fewer fewer_dropRecord, fun _ hnone => ?_⟩
    by_cases hdone : removal = .done
    · simp [State.to, hdone, leaves_done]
    · -- the folder is not gone yet, so the record of the snapshot stays
      exact opposed (hall o ho) (hnone o (by simpa [State.to, dropRecord, hdone] using ho))

theorem names_of_gone (hfolder : s.folder = true)
    (hgone : (deleteInstantOfGoneVolume name s.now.snapshots removal deleted s).folder = false) :
    ∀ o ∈ s.now.snapshots, o.name = name := by
  unfold deleteInstantOfGoneVolume at hgone
  split at hgone
  · exact opposed hfolder hgone
  · rename_i hother
    simpa using hother

theorem Kept.snapshotDeleted (h : Kept s)
    (hs : deleteSnapshot name s.now found removal deleted s = some s') :
    Kept s' ∧ LeavesInstant s s' (.deleteSnapshot name found removal deleted) := by
  obtain ⟨o, hfind, rfl⟩ := Option.map_eq_some_iff.mp hs
  have ho : o ∈ s.now.snapshots := mem_of_find?_eq_some hfind
  have hname : o.name = name := by simpa using find?_some hfind
  split
  · rename_i hcopied
    -- with one copied snapshot there is no instant one
    have hnone : NoInstant s := h.kind.resolve_right
      (fun hall => by simp [(hall o ho).1] at hcopied)
    exact ⟨h.dropped fewer_dropRecord (.inr hnone), fun hf hg => opposed hf hg⟩
  · rename_i hinstant
    have hall : ∀ u ∈ s.now.snapshots, u.instant = true ∧ u.chainFile = true :=
      h.kind.resolve_left (fun hnone => hinstant (by simp [hnone o ho]))
    split
    · rename_i hvolume
      refine ⟨h.dropped (fun u hu => ?_) (.inl hvolume), fun hf hg => opposed hf hg⟩
      exact fewer_track u (mem_dropRecord hu)
    · split
      · rename_i hfile
        simp [(hall o ho).2] at hfile
      · subst hname
        exact ⟨h.goneVolume (fun u hu => (hall u hu).1) ho removal deleted,
          fun hfolder hgone u hu _ => names_of_gone hfolder hgone u hu⟩

theorem step_both {e : Event} (hfit : Fitting s e) (h : Kept s) (hs : step s e = some s') :
    Kept s' ∧ LeavesInstant s s' e.call := by
  obtain ⟨call, seen⟩ := e
  obtain rfl : seen = s.now := hfit
  simp only [step, mem_cons, true_or, not_true_eq_false, if_false] at hs
  cases call with
  | deallocate removal deleted => exact h.deallocated hs
  | deleteSnapshot name found removal deleted => exact h.snapshotDeleted hs

/-- In every order of deletes of a volume and of snapshots of one kind, which read the records
as they are, the folder is gone once the volume and its instant snapshots are, and no step
removes it from under another one. -/
theorem folder_removed_in_time (s₀ s : State) (hvolume : s₀.now.volume = true)
    (hkind : OneKind s₀) (hrun : Run step Fitting s₀ s) :
    Freed s ∧ ∀ e s', Fitting s e → step s e = some s' → LeavesInstant s s' e.call := by
  have hstart : Kept s₀ := ⟨hkind, fun hgone => opposed hvolume hgone⟩
  have h : Kept s :=
    hrun.keeps (I := Kept) (fun _ _ _ hfit hk hs => (step_both hfit hk hs).1) hstart
  exact ⟨h.freed, fun _ _ hfit hs => (step_both hfit h hs).2⟩

def instantNamed (name : Name) (chainFile : Bool) : Snapshot := ⟨name, true, chainFile⟩

def withSnapshots (snapshots : List Snapshot) : State := ⟨⟨true, snapshots⟩, true, []⟩

def deleteOf (name : Name) (volume : Bool) (snapshots : List Snapshot) : Event :=
  ⟨.deleteSnapshot name false .done true, volume, snapshots⟩

/-- The volume is deleted first, then one snapshot and then another, and the records are read
as given. -/
def deletes (n m : Name) (snapshots listed : List Snapshot) : List Event :=
  [⟨.deallocate .done true, true, snapshots⟩, deleteOf n false snapshots,
    deleteOf m false listed]

/-- Everything is deleted and the folder is left. -/
def FolderLeft (s : State) : Prop := s.now = ⟨false, []⟩ ∧ s.folder = true

instance : DecidablePred FolderLeft := fun _ => inferInstanceAs (Decidable (_ ∧ _))

def twoInstant : List Snapshot := [instantNamed ['i'] true, instantNamed ['j'] true]

def copied : Snapshot := ⟨['c'], false, false⟩

/-- The folder is left after all deletes if an instant snapshot leaves it to a copied one, or if
the last one still finds the one before it in the cache; and it is removed while an instant
snapshot whose file was not recorded exists. -/
theorem folder_left_and_taken :
    (∃ s, Run step Fitting (withSnapshots [instantNamed ['i'] true, copied]) s ∧ FolderLeft s) ∧
      (∃ s, Run step (fun _ _ => True) (withSnapshots twoInstant) s ∧ FolderLeft s) ∧
      ∃ s, Run step Fitting (withSnapshots [instantNamed ['i'] false]) s ∧
        s.folder = false ∧ instantNamed ['i'] false ∈ s.now.snapshots := by
  refine ⟨?_, ?_, ?_⟩
  · exact free_run (deletes ['i'] ['c'] [instantNamed ['i'] true, copied] [copied]) _
      (by decide +kernel)
  · exact free_run (deletes ['i'] ['j'] twoInstant twoInstant) _ (by decide +kernel)
  · exact free_run [⟨.deallocate .done true, true, [instantNamed ['i'] false]⟩] _
      (by decide +kernel)

/-- The volume goes first and the second of its two instant snapshots removes the folder. -/
theorem folder_removed_in_time_two : ∃ s, Run step Fitting (withSnapshots twoInstant) s ∧
    s.now = ⟨false, []⟩ ∧ Freed s ∧ s.folder = false := by
  obtain ⟨s, hrun, hnow⟩ : ∃ s, Run step Fitting (withSnapshots twoInstant) s ∧
      s.now = ⟨false, []⟩ :=
    free_run (deletes ['i'] ['j'] twoInstant [instantNamed ['j'] true]) _ (by decide +kernel)
  have hfreed := (folder_removed_in_time _ _ rfl (.inr (by decide)) hrun).1
  exact ⟨s, hrun, hnow, hfreed, hfreed (by rw [hnow]) (by simp [NoInstant, hnow])⟩

end FilePool.FolderDuty
