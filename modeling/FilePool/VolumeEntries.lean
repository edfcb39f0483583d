import FilePool.UndoNames

/-!
The volume entries of a BackupPolicy's status, and who reads which. The gateway judges a request
by the first entry of the claim that has a folder; each controller opens the claim's last entry.
-/
namespace FilePool.VolumeEntries

open UndoNames List

/-- BackupVolumeStatus, the fields that a lookup or its caller reads. -/
structure Entry where
  pvcNamespace : Name
  pvcName : Name
  subVolumeName : Name
  vmName : Name
  subPath : Name
  consistency : Name
  restorePoints : ℕ
  exportedTime : Option ℤ
  lastBackupTime : Option ℤ
  oldestBackupTime : Option ℤ
  retained : Bool
  deriving DecidableEq, Repr

structure Policy where
  volumes : List Entry

/-- An entry for the claim. -/
def Entry.IsFor (ns pvc : Name) (v : Entry) : Prop := v.pvcNamespace = ns ∧ v.pvcName = pvc

instance (ns pvc : Name) (v : Entry) : Decidable (v.IsFor ns pvc) :=
  inferInstanceAs (Decidable (_ ∧ _))

/-- The gateway's lookup: the first entry for the claim that has a folder. -/
def findVolume (p : Policy) (ns pvc : Name) : Option Entry :=
  p.volumes.find? fun v => decide (v.IsFor ns pvc) && decide (v.subPath ≠ [])

/-- The claim that a session or a restore names. -/
structure Spec where
  ns : Name
  pvc : Name
  deriving DecidableEq

/-- The controllers' loop: each entry for the claim replaces the one found before it. -/
def lastEntry (ns pvc : Name) (vs : List Entry) : Option Entry :=
  vs.foldl (fun entry v => if v.IsFor ns pvc then some v else entry) none

/-- The loop with the test after it: no entry, or one without a folder, is no backup. -/
def entryOf (p : Policy) (ns pvc : Name) : Option Entry :=
  (lastEntry ns pvc p.volumes).filter fun v => decide (v.subPath ≠ [])

/-- The entry that browseRequest opens for a session on the snapshot pool. -/
def browseEntry (p : Policy) (sp : Spec) : Option Entry := entryOf p sp.ns sp.pvc

/-- The entry that reconcileFileRestore opens on the snapshot pool. -/
def fileRestoreEntry (p : Policy) (sp : Spec) : Option Entry := entryOf p sp.ns sp.pvc

/-- The entry that reconcileRestore opens for a restore of a whole backup. -/
def restoreEntry (p : Policy) (sp : Spec) : Option Entry := entryOf p sp.ns sp.pvc

/-- The entry that cosLocationOf finds for a session or a restore from COS. -/
def cosEntry (p : Policy) (sp : Spec) : Option Entry := entryOf p sp.ns sp.pvc

/-- The four ways in which a controller opens a claim's backup. -/
inductive Opener where
  | browse | fileRestore | cos | backupRestore
  deriving DecidableEq, Repr

/-- The entry an opener takes from the policy. -/
def Opener.entry (p : Policy) (sp : Spec) : Opener → Option Entry
  | .browse => browseEntry p sp
  | .fileRestore => fileRestoreEntry p sp
  | .cos => cosEntry p sp
  | .backupRestore => restoreEntry p sp

/-- The first entry for the claim that has a folder. -/
def FirstWithFolder (ns pvc : Name) (vs : List Entry) (v : Entry) : Prop :=
  ∃ before after, vs = before ++ v :: after ∧ v.IsFor ns pvc ∧ v.subPath ≠ [] ∧
    ∀ u ∈ before, u.IsFor ns pvc → u.subPath = []

/-- The last entry for the claim, with or without a folder. -/
def Last (ns pvc : Name) (vs : List Entry) (v : Entry) : Prop :=
  ∃ before after, vs = before ++ v :: after ∧ v.IsFor ns pvc ∧ ∀ u ∈ after, ¬ u.IsFor ns pvc

variable {p : Policy} {ns pvc : Name} {v : Entry}

theorem findVolume_eq_some_iff :
    findVolume p ns pvc = some v ↔ FirstWithFolder ns pvc p.volumes v := by
  unfold findVolume FirstWithFolder
  rw [find?_eq_some_iff_append]
  constructor
  · rintro ⟨hv, before, after, hsplit, hbefore⟩
    simp only [Bool.and_eq_true, decide_eq_true_eq] at hv
    refine ⟨before, after, hsplit, hv.1, hv.2, fun u hu hfor => ?_⟩
    have hno := hbefore u hu
    simpa [hfor] using hno
  · rintro ⟨before, after, hsplit, hfor, hfolder, hbefore⟩
    refine ⟨by simp [hfor, hfolder], before, after, hsplit, fun u hu => ?_⟩
    by_cases hu' : u.IsFor ns pvc
    · simp [hbefore u hu hu']
    · simp [hu']

theorem lastEntry_append (ns pvc : Name) (vs : List Entry) (v : Entry) :
    lastEntry ns pvc (vs ++ [v]) = if v.IsFor ns pvc then some v else lastEntry ns pvc vs := by
  simp [lastEntry]

theorem lastEntry_eq_find?_reverse (ns pvc : Name) (vs : List Entry) :
    lastEntry ns pvc vs = vs.reverse.find? fun v => decide (v.IsFor ns pvc) := by
  induction vs using reverseRecOn with
  | nil => rfl
  | append_singleton vs v ih =>
    rw [lastEntry_append, ih, reverse_append, reverse_singleton, singleton_append]
    by_cases hfor : v.IsFor ns pvc <;> simp [hfor]

theorem lastEntry_eq_some_iff (ns pvc : Name) (vs : List Entry) (v : Entry) :
    lastEntry ns pvc vs = some v ↔ Last ns pvc vs v := by
  rw [lastEntry_eq_find?_reverse, find?_eq_some_iff_append]
  constructor
  · rintro ⟨hv, after, before, hsplit, hafter⟩
    refine ⟨before.reverse, after.reverse, ?_, by simpa using hv, fun u hu => ?_⟩
    · have hvs := congrArg reverse hsplit
      simpa using hvs
    · have hno := hafter u (mem_reverse.mp hu)
      simpa using hno
  · rintro ⟨before, after, rfl, hfor, hafter⟩
    refine ⟨by simp [hfor], after.reverse, before.reverse, by simp, fun u hu => ?_⟩
    simpa using hafter u (mem_reverse.mp hu)

theorem Last.isFor {vs : List Entry} (h : Last ns pvc vs v) :
    v ∈ vs ∧ v.IsFor ns pvc := by
  obtain ⟨before, after, rfl, hfor, -⟩ := h
  exact ⟨by simp, hfor⟩

theorem entryOf_eq_some_iff (p : Policy) (ns pvc : Name) (v : Entry) :
    entryOf p ns pvc = some v ↔ Last ns pvc p.volumes v ∧ v.subPath ≠ [] := by
  unfold entryOf
  rw [Option.filter_eq_some_iff, lastEntry_eq_some_iff, decide_eq_true_eq]

/-- With no folder for the claim the gateway finds nothing, and no controller opens anything. -/
theorem entryOf_none_of_findVolume_none
    (h : findVolume p ns pvc = none) : entryOf p ns pvc = none := by
  cases hentry : entryOf p ns pvc with
  | none => rfl
  | some v =>
    obtain ⟨hlast, hfolder⟩ := (entryOf_eq_some_iff p ns pvc v).mp hentry
    obtain ⟨hmem, hfor⟩ := hlast.isFor
    have hno := find?_eq_none.mp h v hmem
    simp [hfor, hfolder] at hno

theorem entryOf_eq_findVolume_iff (p : Policy) (ns pvc : Name) :
    entryOf p ns pvc = findVolume p ns pvc ↔
      ∀ v, FirstWithFolder ns pvc p.volumes v → Last ns pvc p.volumes v := by
  constructor
  · intro heq v hfirst
    rw [findVolume_eq_some_iff.mpr hfirst] at heq
    exact ((entryOf_eq_some_iff p ns pvc v).mp heq).1
  · intro hsame
    cases hfind : findVolume p ns pvc with
    | none => exact entryOf_none_of_findVolume_none hfind
    | some v =>
      have hfirst := findVolume_eq_some_iff.mp hfind
      obtain ⟨-, -, -, -, hfolder, -⟩ := id hfirst
      exact (entryOf_eq_some_iff p ns pvc v).mpr ⟨hsame v hfirst, hfolder⟩

/-- The gateway's entry is the one that all four openers take, exactly when the first entry of the
claim that has a folder is also the claim's last entry. -/
theorem openers_take_judged_entry_iff (p : Policy) (sp : Spec) :
    (∀ o : Opener, o.entry p sp = findVolume p sp.ns sp.pvc) ↔
      ∀ v, FirstWithFolder sp.ns sp.pvc p.volumes v → Last sp.ns sp.pvc p.volumes v := by
  rw [← entryOf_eq_findVolume_iff]
  constructor
  · intro h
    exact h .browse
  · intro h o
    cases o <;> exact h

/-- The volumes that a policy backed up before and does not any more: their entries stay, marked,
until the keep time has passed since the last backup. -/
def retainedVolumes (keep now : ℤ) (current : List Name) (old : List Entry) : List Entry :=
  (old.filter fun v => decide (v.subVolumeName ∉ current) &&
    v.lastBackupTime.any fun t => decide (now - t ≤ keep)).map fun v => { v with retained := true }

/-- A volume that the pass backs up. -/
structure Target where
  pvcNamespace : Name
  pvcName : Name
  subVolumeName : Name
  vmName : Name
  subPath : Name

/-- What a ReplicationPolicy reports of a volume. -/
structure Report where
  lastSyncTime : Option ℤ
  oldestRestorePoint : Option ℤ
  restorePoints : ℕ
  consistency : Name

/-- What a pass reads for the status: the keep time, the time of the pass, whether the policy
exports, the volumes that wait, the reports and the entries of the last status. -/
structure PassView where
  keep : ℤ
  now : ℤ
  exports : Bool
  waiting : List Name
  report : Name → Option Report
  old : List Entry

section Status

variable (w : PassView) (targets : List Target)

/-- The last entry of the old status for the volume that the test takes. -/
def PassView.oldEntry (t : Target) (test : Entry → Bool) : Option Entry :=
  w.old.foldl (fun last o =>
    if o.subVolumeName = t.subVolumeName && test o then some o else last) none

def PassView.entry (t : Target) : Entry :=
  let v : Entry :=
    { pvcNamespace := t.pvcNamespace, pvcName := t.pvcName, subVolumeName := t.subVolumeName
      vmName := t.vmName, subPath := t.subPath, consistency := [], restorePoints := 0
      exportedTime := none, lastBackupTime := none, oldestBackupTime := none, retained := false }
  if t.subVolumeName ∈ w.waiting then v
  else
    let v := if w.exports
      then { v with exportedTime := (w.oldEntry t fun _ => true).bind Entry.exportedTime } else v
    match w.report t.subVolumeName with
    | none => (w.oldEntry t fun o => !o.retained).elim v fun o =>
      { v with
        lastBackupTime := o.lastBackupTime, oldestBackupTime := o.oldestBackupTime
        restorePoints := o.restorePoints, consistency := o.consistency }
    | some rs =>
      { v with
        lastBackupTime := rs.lastSyncTime, oldestBackupTime := rs.oldestRestorePoint
        restorePoints := rs.restorePoints
        consistency := if rs.consistency = [] ∧ rs.lastSyncTime ≠ none
          then "FileCopy".toList else rs.consistency }

def PassView.retained : List Entry :=
  retainedVolumes w.keep w.now (targets.map Target.subVolumeName) w.old

/-- The volumes of the status that a pass builds: the retained entries after the current ones. -/
def buildStatus : Policy := ⟨targets.map w.entry ++ w.retained targets⟩

theorem Last.append {u : Entry} {vs us : List Entry} (h : Last ns pvc us u) :
    Last ns pvc (vs ++ us) u := by
  obtain ⟨before, after, rfl, hfor, hafter⟩ := h
  exact ⟨vs ++ before, after, by rw [append_assoc], hfor, hafter⟩

end Status

/-- A claim of files, made under the name that a VM disk had before. -/
def currentTarget : Target :=
  ⟨"shop".toList, "data".toList, "sv-new".toList, [], "/new".toList⟩

/-- The entry of the VM disk, as the pass before the change listed it. -/
def oldEntry : Entry where
  pvcNamespace := "shop".toList
  pvcName := "data".toList
  subVolumeName := "sv-old".toList
  vmName := "web".toList
  subPath := "/old".toList
  consistency := "Agent".toList
  restorePoints := 1
  exportedTime := none
  lastBackupTime := some 90
  oldestBackupTime := some 80
  retained := false

def recreatedView : PassView where
  keep := 100
  now := 95
  exports := false
  waiting := []
  report n := if n = "sv-new".toList then some ⟨some 94, some 94, 1, []⟩ else none
  old := [oldEntry]

def claimSpec : Spec := ⟨"shop".toList, "data".toList⟩

/-- The gateway judges the claim of files, and every opener takes the retained VM disk. -/
theorem recreated_claim_opens_old_disk :
    findVolume (buildStatus recreatedView [currentTarget]) claimSpec.ns claimSpec.pvc =
        some (recreatedView.entry currentTarget) ∧
      ∀ o : Opener, o.entry (buildStatus recreatedView [currentTarget]) claimSpec =
        some { oldEntry with retained := true } := by
  refine ⟨by decide +kernel, fun o => ?_⟩
  cases o <;> decide +kernel

end FilePool.VolumeEntries
