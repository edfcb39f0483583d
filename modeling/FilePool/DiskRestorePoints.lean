import FilePool.DiskViewSource
import FilePool.MomentPicks

/-!
The restore points of a VM disk in an export. Some are folders of the moments snapshot with
a whole copy of the disk, some are reached by the undo files beside the disk, and one is the
export's own. The server lists all of them, one for each second. When it opens an older one
it looks at the folders first, and at the undo files only if no folder is old enough. So an
undo file's restore point is not found behind an older folder.
-/
namespace FilePool.DiskRestorePoints

open ByteFiles UndoFormat UndoNames VolumeSteps UndoFolder DiskView List DiskViewSource
  NewestEntry

/-- A folder of the moments snapshot that is named after a restore point. -/
structure RestorePointFolder where
  moment : Moment
  disk : Except Err Bytes

/-- An export of a VM disk: the disk at the export's own moment, the restore point folders
of its moments snapshot, and the undo files beside the disk. -/
structure DiskExport where
  own : Moment
  disk : Bytes
  folders : Except Err (List RestorePointFolder)
  undo : UndoSource

def nanos : ℤ := 1000000000

/-- The second that a listed moment is printed with. -/
def second (t : Moment) : ℤ := t / nanos

def atEndOfSecond (t : Moment) : Moment :=
  if t = zeroTime then t else second t * nanos + (nanos - 1)

/-- The folders of the moments snapshot, oldest first. -/
def listRestorePointFolders (x : DiskExport) : Except Err (List RestorePointFolder) :=
  x.folders.map (fun fs => fs.insertionSort (fun f g => f.moment ≤ g.moment))

def listedFolders (x : DiskExport) : List RestorePointFolder :=
  (listRestorePointFolders x).toOption.getD []

def pickRestorePointFolder (folders : List RestorePointFolder) (t : Moment) :
    Option RestorePointFolder :=
  MomentPicks.pickRestorePointFolder RestorePointFolder.moment folders t

def openFolder (f : RestorePointFolder) : Except Err View := do
  let disk ← f.disk
  return sourceView disk [] f.moment true

/-- Open the disk at a restore point that is not after the time. -/
def openOlder (x : DiskExport) (t : Moment) : Except Err View :=
  match pickRestorePointFolder (listedFolders x) t with
  | some f => openFolder f
  | none =>
    match openDiskViewFrom x.disk x.own x.undo t, listRestorePointFolders x with
    | .error (.beforeAllPoints _), .error e => .error e
    | r, _ => r

/-- Whether the time is before the export's own restore point. -/
def older (x : DiskExport) (t : Moment) : Prop := t ≠ zeroTime ∧ t < x.own

instance (x : DiskExport) (t : Moment) : Decidable (older x t) :=
  inferInstanceAs (Decidable (_ ∧ _))

/-- What the disk server serves when it is asked for a time. -/
def runCOSDisk (x : DiskExport) (asked : Moment) : Except Err View :=
  if older x (atEndOfSecond asked) then openOlder x (atEndOfSecond asked)
  else .ok (sourceView x.disk [] x.own true)

def folderPoints (x : DiskExport) : List Moment :=
  (listedFolders x).map RestorePointFolder.moment

def restorePointsFrom (src : UndoSource) : Except Err (List Moment) :=
  (headersFrom src).map reached

def undoPoints (x : DiskExport) : List Moment := (restorePointsFrom x.undo).toOption.getD []

/-- The restore points of both kinds. -/
def olderPoints (x : DiskExport) : List Moment := folderPoints x ++ undoPoints x

/-- One round of the listing, newest first: a second is listed once. A moment with
nanoseconds and the export's own replace the one listed for their second. -/
def listStep (own : Moment) : List Moment → Moment → List Moment
  | [], t => [t]
  | l :: ls, t =>
    if second l = second t then
      if t % nanos ≠ 0 ∨ t = own then t :: ls else l :: ls
    else t :: l :: ls

/-- The restore points that the server lists. -/
def restorePointsOf (x : DiskExport) : List Moment :=
  (((x.own :: olderPoints x).insertionSort (· ≤ ·)).foldl (listStep x.own) []).reverse

variable {own : Moment} {done out : List Moment}

/-- What is listed after the moments up to some point of the order. -/
structure Listed (own : Moment) (done out : List Moment) : Prop where
  mem : ∀ t ∈ out, t ∈ done
  filled : out = [] → done = []
  last : ∀ l ∈ out.head?, ∀ p ∈ done, second p ≤ second l
  descending : out.Pairwise (fun a b => second b < second a)
  newest : ∀ t ∈ out, ∀ p ∈ done, second p = second t → second t ≠ second own → p ≤ t

theorem second_mono {a b : Moment} (h : a ≤ b) : second a ≤ second b :=
  Int.ediv_le_ediv (by decide) h

/-- A moment of a whole second is the first one of its second. -/
theorem whole_second_le {a b : ℤ} (hsame : second b = second a) (h : a % nanos = 0) : a ≤ b := by
  unfold second nanos at hsame
  unfold nanos at h
  omega

/-- The step for a moment of a later second than the last one listed. -/
theorem Listed.append (h : Listed own done out) (t : Moment)
    (hlater : ∀ l ∈ out.head?, second l < second t) : Listed own (done ++ [t]) (t :: out) := by
  have hdone : ∀ p ∈ done, second p < second t := by
    intro p hp
    cases out with
    | nil =>
      rw [h.filled rfl] at hp
      cases hp
    | cons l ls => exact lt_of_le_of_lt (h.last l rfl p hp) (hlater l rfl)
  have hout : ∀ u ∈ out, second u < second t := fun u hu => hdone u (h.mem u hu)
  refine ⟨?_, nofun, ?_, pairwise_cons.mpr ⟨hout, h.descending⟩, ?_⟩
  · intro u hu
    rcases mem_cons.mp hu with rfl | hu
    · simp
    · exact mem_append_left _ (h.mem u hu)
  · intro l hl p hp
    cases hl
    rcases mem_append.mp hp with hp | hp
    · exact (hdone p hp).le
    · rw [mem_singleton.mp hp]
  · intro u hu p hp hsame hown
    rcases mem_cons.mp hu with rfl | hu <;> rcases mem_append.mp hp with hp | hp
    · exact absurd hsame (hdone p hp).ne
    · rw [mem_singleton.mp hp]
    · exact h.newest u hu p hp hsame hown
    · rw [mem_singleton.mp hp] at hsame
      exact absurd hsame.symm (hout u hu).ne

/-- The step for a moment of the second that is listed last: the newer one of the
two stays. -/
theorem Listed.replace {l : Moment} {ls : List Moment} (h : Listed own done (l :: ls))
    (t u : Moment) (hsame : second l = second t) (hu : u = l ∨ u = t)
    (hnewest : second t ≠ second own → ∀ p ∈ done ++ [t], p ≤ t → p ≤ u)
    (horder : ∀ p ∈ done, p ≤ t) : Listed own (done ++ [t]) (u :: ls) := by
  have hsecond : second u = second l := by rcases hu with rfl | rfl <;> simp [hsame]
  obtain ⟨hlast, htail⟩ := pairwise_cons.mp h.descending
  refine ⟨?_, nofun, ?_, pairwise_cons.mpr ⟨fun a ha => ?_, htail⟩, ?_⟩
  · intro a ha
    rcases mem_cons.mp ha with rfl | ha
    · rcases hu with rfl | rfl
      · exact mem_append_left _ (h.mem a (mem_cons_self ..))
      · simp
    · exact mem_append_left _ (h.mem a (mem_cons_of_mem l ha))
  · intro a ha p hp
    cases ha
    rw [hsecond]
    rcases mem_append.mp hp with hp | hp
    · exact h.last l rfl p hp
    · rw [mem_singleton.mp hp, hsame]
  · rw [hsecond]
    exact hlast a ha
  · intro a ha p hp hpa hown
    rcases mem_cons.mp ha with rfl | ha
    · refine hnewest (by rw [← hsame, ← hsecond]; exact hown) p hp ?_
      rcases mem_append.mp hp with hp | hp
      · exact horder p hp
      · exact (mem_singleton.mp hp).le
    · rcases mem_append.mp hp with hp | hp
      · exact h.newest a (mem_cons_of_mem l ha) p hp hpa hown
      · rw [mem_singleton.mp hp, ← hsame] at hpa
        exact absurd hpa.symm (hlast a ha).ne

theorem Listed.next (h : Listed own done out) (t : Moment) (horder : ∀ p ∈ done, p ≤ t) :
    Listed own (done ++ [t]) (listStep own out t) := by
  cases out with
  | nil => exact h.append t nofun
  | cons l ls =>
    rw [listStep]
    have hl : l ≤ t := horder l (h.mem l (mem_cons_self ..))
    by_cases hsame : second l = second t
    · rw [if_pos hsame]
      by_cases hkeep : t % nanos ≠ 0 ∨ t = own
      · rw [if_pos hkeep]
        exact h.replace t t hsame (.inr rfl) (fun _ p _ hp => hp) horder
      · rw [if_neg hkeep]
        push Not at hkeep
        have hle : t ≤ l := whole_second_le hsame hkeep.1
        exact h.replace t l hsame (.inl rfl) (fun _ p _ hp => hp.trans hle) horder
    · rw [if_neg hsame]
      refine h.append t ?_
      intro a ha
      cases ha
      exact lt_of_le_of_ne (second_mono hl) hsame

theorem Listed.all (l : List Moment) (hsorted : (done ++ l).Pairwise (· ≤ ·))
    (h : Listed own done out) : Listed own (done ++ l) (l.foldl (listStep own) out) := by
  induction l generalizing done out with
  | nil => simpa using h
  | cons t l ih =>
    rw [← singleton_append, ← append_assoc] at *
    refine ih hsorted (h.next t ?_)
    intro p hp
    exact (pairwise_append.mp (pairwise_append.mp hsorted).1).2.2 p hp t (by simp)

theorem listed_restorePointsOf {x : DiskExport} :
    Listed x.own ((x.own :: olderPoints x).insertionSort (· ≤ ·)) (restorePointsOf x).reverse := by
  unfold restorePointsOf
  rw [reverse_reverse]
  have hstart : Listed x.own [] [] := ⟨nofun, fun _ => rfl, nofun, .nil, nofun⟩
  have hsorted := pairwise_insertionSort (· ≤ ·) (x.own :: olderPoints x)
  exact hstart.all _ hsorted

theorem mem_of_listed {x : DiskExport} {t : Moment} (h : t ∈ restorePointsOf x) :
    t = x.own ∨ t ∈ olderPoints x := by
  have hmem := listed_restorePointsOf.mem t (mem_reverse.mpr h)
  rw [mem_insertionSort] at hmem
  exact mem_cons.mp hmem

/-- Apart from the second of the export's own moment, the newest restore point of a
second is the one listed for it. -/
theorem newest_of_listed {x : DiskExport} {t : Moment} (h : t ∈ restorePointsOf x)
    (hown : second t ≠ second x.own) {p : Moment} (hp : p ∈ olderPoints x)
    (hsame : second p = second t) : p ≤ t := by
  refine listed_restorePointsOf.newest t (mem_reverse.mpr h) p ?_ hsame hown
  rw [mem_insertionSort]
  exact mem_cons_of_mem _ hp

variable (x : DiskExport) (t : Moment) {files : List UndoFile}

/-- A result that is the newest restore point of both kinds that is not after the time,
or a failure when there is none. -/
def Newest : Except Err View → Prop
  | .ok v => IsGreatest (upTo (olderPoints x) t) v.moment
  | .error _ => upTo (olderPoints x) t = ∅

/-- The undo files reach back to the newest undo restore point that is not after the time:
it is the last one in the order of the files, and its files can be read and are within the
limits of a view. -/
def UndoOpens : Prop :=
  ∃ files c ls, headersFrom x.undo = .ok files ∧ lastNotAfter id t (reached files) = some c ∧
    IsGreatest (upTo (undoPoints x) t) c ∧ sourceLayers x.undo c files = .ok ls

/-- The restore points are such that the folders may be tried first. -/
structure FoldersFirst : Prop where
  folder : ∀ f, pickRestorePointFolder (listedFolders x) t = some f →
    f.disk.toOption.isSome ∧ ∀ u ∈ undoPoints x, u ≤ t → u ≤ f.moment
  undo : (∀ f ∈ folderPoints x, ¬ f ≤ t) → ∀ u ∈ undoPoints x, u ≤ t → UndoOpens x t

theorem sorted_listedFolders :
    (listedFolders x).Pairwise (fun f g => f.moment ≤ g.moment) := by
  unfold listedFolders listRestorePointFolders
  cases x.folders with
  | error e => exact .nil
  | ok fs => exact pairwise_insertionSort _ _

theorem pick_eq_none_iff :
    pickRestorePointFolder (listedFolders x) t = none ↔ ∀ f ∈ folderPoints x, ¬ f ≤ t := by
  unfold folderPoints
  rw [pickRestorePointFolder, MomentPicks.pickRestorePointFolder, lastNotAfter_eq_none_iff,
    forall_mem_map]

theorem reached_ne_zeroTime {c : Moment} (h : c ∈ reached files) :
    c ≠ zeroTime := by
  obtain ⟨u, hu, rfl⟩ := mem_map.mp h
  have hpos := of_decide_eq_true (mem_filter.mp hu).2
  intro hzero
  rw [hzero] at hpos
  exact absurd hpos (by decide)

theorem foldl_restorePoints (ps : List Moment) (t : Moment) :
    ps.foldl (fun c p => if t < p then c else p) zeroTime =
      (lastNotAfter id t ps).getD zeroTime := by
  have hkeep := foldl_keep id t id zeroTime ps
  rwa [Option.map_id] at hkeep

/-- What the view from the undo files does with a time before the latest moment. -/
theorem openDiskViewFrom_older (h : older x t)
    (hfiles : headersFrom x.undo = .ok files) :
    openDiskViewFrom x.disk x.own x.undo t =
      match lastNotAfter id t (reached files) with
      | none => .error (.beforeAllPoints ((reached files).headD x.own))
      | some c => do
        let ls ← sourceLayers x.undo c files
        return sourceView x.disk ls c false := by
  unfold openDiskViewFrom
  rw [hfiles]
  change (if _ then _ else _) = _
  rw [if_neg (by rintro (hz | hl); exacts [h.1 hz, hl h.2])]
  simp only [foldl_restorePoints]
  cases hlast : lastNotAfter id t (reached files) with
  | none => simp
  | some c =>
    have hc := reached_ne_zeroTime (lastNotAfter_mem _ _ hlast).1
    simp [hc]

theorem undoPoints_eq {r : Except Err (List UndoFile)} (h : headersFrom x.undo = r) :
    undoPoints x = (r.map reached).toOption.getD [] := by
  rw [← h]
  rfl

theorem openFolder_newest_iff {f : RestorePointFolder}
    (h : pickRestorePointFolder (listedFolders x) t = some f) :
    Newest x t (openFolder f) ↔
      f.disk.toOption.isSome ∧ ∀ u ∈ undoPoints x, u ≤ t → u ≤ f.moment := by
  obtain ⟨⟨hmem, hle⟩, hgreatest⟩ := lastNotAfter_newest _ _ (sorted_listedFolders x) h
  have hf : f.moment ∈ olderPoints x := mem_append_left _ hmem
  unfold openFolder
  cases f.disk with
  | error e =>
    constructor
    · intro hempty
      exact absurd hle ((upTo_eq_empty_iff t).mp hempty f.moment hf)
    · rintro ⟨hread, -⟩
      cases hread
  | ok disk =>
    constructor
    · rintro ⟨-, hall⟩
      exact ⟨rfl, fun u hu hut => hall ⟨mem_append_right _ hu, hut⟩⟩
    · rintro ⟨-, hundo⟩
      refine ⟨⟨hf, hle⟩, ?_⟩
      rintro k ⟨hk, hkt⟩
      rcases mem_append.mp hk with hk | hk
      · exact hgreatest ⟨hk, hkt⟩
      · exact hundo k hk hkt

theorem upTo_olderPoints (h : ∀ f ∈ folderPoints x, ¬ f ≤ t) :
    upTo (olderPoints x) t = upTo (undoPoints x) t := by
  ext k
  constructor
  · rintro ⟨hk, hkt⟩
    rcases mem_append.mp hk with hk | hk
    · exact absurd hkt (h k hk)
    · exact ⟨hk, hkt⟩
  · rintro ⟨hk, hkt⟩
    exact ⟨mem_append_right _ hk, hkt⟩

theorem openDiskViewFrom_newest_iff (h : older x t) (hfolders : ∀ f ∈ folderPoints x, ¬ f ≤ t) :
    Newest x t (openDiskViewFrom x.disk x.own x.undo t) ↔
      ∀ u ∈ undoPoints x, u ≤ t → UndoOpens x t := by
  have hpoints := upTo_olderPoints x t hfolders
  cases hfiles : headersFrom x.undo with
  | error e =>
    have hopen : openDiskViewFrom x.disk x.own x.undo t = .error e := by
      unfold openDiskViewFrom
      rw [hfiles]
      rfl
    have hnone : undoPoints x = [] := undoPoints_eq x hfiles
    rw [hopen, Newest, hpoints, hnone]
    simp [upTo]
  | ok files =>
    rw [openDiskViewFrom_older x t h hfiles]
    have hundo : undoPoints x = reached files := undoPoints_eq x hfiles
    cases hlast : lastNotAfter id t (reached files) with
    | none =>
      have hall := (lastNotAfter_eq_none_iff id t _).mp hlast
      rw [← hundo] at hall
      constructor
      · intro _ u hu hut
        exact absurd hut (hall u hu)
      · intro _
        change upTo (olderPoints x) t = ∅
        rw [hpoints, upTo_eq_empty_iff]
        exact hall
    | some c =>
      have hc := lastNotAfter_mem id t hlast
      rw [← hundo] at hc
      have hiff : (∀ u ∈ undoPoints x, u ≤ t → UndoOpens x t) ↔
          IsGreatest (upTo (undoPoints x) t) c ∧ ∃ ls, sourceLayers x.undo c files = .ok ls := by
        constructor
        · intro hall
          obtain ⟨files', c', ls, hfiles', hlast', hgreatest, hls⟩ := hall c hc.1 hc.2
          cases hfiles.symm.trans hfiles'
          cases hlast.symm.trans hlast'
          exact ⟨hgreatest, ls, hls⟩
        · rintro ⟨hgreatest, ls, hls⟩ _ _ _
          exact ⟨files, c, ls, hfiles, hlast, hgreatest, hls⟩
      rw [hiff]
      change Newest x t (sourceLayers x.undo c files >>= fun ls =>
        pure (sourceView x.disk ls c false)) ↔ _
      cases hls : sourceLayers x.undo c files with
      | error e =>
        constructor
        · intro hempty
          have hempty : upTo (olderPoints x) t = ∅ := hempty
          rw [hpoints, upTo_eq_empty_iff] at hempty
          exact absurd hc.2 (hempty c hc.1)
        · rintro ⟨-, ls, hls⟩
          cases hls
      | ok ls =>
        change IsGreatest (upTo (olderPoints x) t) c ↔ _
        rw [hpoints]
        exact ⟨fun hg => ⟨hg, ls, rfl⟩, fun hg => hg.1⟩

theorem openOlder_newest_iff (h : older x t) : Newest x t (openOlder x t) ↔ FoldersFirst x t := by
  unfold openOlder
  cases hpick : pickRestorePointFolder (listedFolders x) t with
  | some f =>
    have hiff := openFolder_newest_iff x t hpick
    have hsome : ¬ ∀ f ∈ folderPoints x, ¬ f ≤ t := by
      rw [← pick_eq_none_iff, hpick]
      nofun
    constructor
    · intro hnewest
      refine ⟨?_, fun hnone => absurd hnone hsome⟩
      intro g hg
      cases hpick.symm.trans hg
      exact hiff.mp hnewest
    · intro hfirst
      exact hiff.mpr (hfirst.folder f hpick)
  | none =>
    have hfolders := (pick_eq_none_iff x t).mp hpick
    have hiff := openDiskViewFrom_newest_iff x t h hfolders
    have hsame : Newest x t (match openDiskViewFrom x.disk x.own x.undo t,
        listRestorePointFolders x with
      | .error (.beforeAllPoints _), .error e => .error e
      | r, _ => r) ↔ Newest x t (openDiskViewFrom x.disk x.own x.undo t) := by
      split
      · rename_i heq _
        rw [heq]
        exact Iff.rfl
      · exact Iff.rfl
    rw [hsame, hiff]
    constructor
    · intro hundo
      refine ⟨?_, fun _ => hundo⟩
      intro f hf
      rw [hpick] at hf
      cases hf
    · intro hfirst
      exact hfirst.undo hfolders

/-- The time that a listed moment is asked for by. -/
def listedSecond (t : Moment) : Moment := second t * nanos

theorem second_listedSecond : second (listedSecond t) = second t :=
  Int.mul_ediv_cancel _ (by decide)

/-- A moment is not after the end of a second exactly when its own second is not. -/
theorem le_endOfSecond_iff {s : ℤ} : t ≤ s * nanos + (nanos - 1) ↔ second t ≤ s := by
  unfold second
  rw [show s * nanos + (nanos - 1) = (s + 1) * nanos - 1 by ring, Int.le_sub_one_iff,
    ← Int.ediv_lt_iff_lt_mul (by decide), Int.lt_add_one_iff]

/-- When a listed moment is before the second of the export's own, it is the newest
restore point that is not after the end of its second. -/
theorem listed_newest (h : t ∈ restorePointsOf x)
    (holder : older x (atEndOfSecond (listedSecond t))) :
    IsGreatest (upTo (olderPoints x) (atEndOfSecond (listedSecond t))) t := by
  obtain ⟨hzero, hown⟩ := holder
  have hasked : listedSecond t ≠ zeroTime := by
    intro hz
    rw [atEndOfSecond, if_pos hz] at hzero
    exact hzero hz
  have hend : atEndOfSecond (listedSecond t) = second t * nanos + (nanos - 1) := by
    rw [atEndOfSecond, if_neg hasked, second_listedSecond]
  rw [hend] at hown ⊢
  have hlater : second t < second x.own := by
    rw [← not_le] at hown ⊢
    rwa [← le_endOfSecond_iff]
  have hmem : t ∈ olderPoints x := by
    rcases mem_of_listed h with rfl | hmem
    · exact absurd hlater (lt_irrefl _)
    · exact hmem
  refine ⟨⟨hmem, (le_endOfSecond_iff t).mpr le_rfl⟩, ?_⟩
  rintro p ⟨hp, hle⟩
  rcases lt_or_eq_of_le ((le_endOfSecond_iff p).mp hle) with hlt | heq
  · by_contra hcon
    exact absurd (second_mono (not_le.mp hcon).le) (not_le.mpr hlt)
  · exact newest_of_listed h hlater.ne hp heq

/-- A listed moment that is asked for by its second is the one served exactly when the
folders may be tried first at the end of that second, or it is the export's own if that
second is not before it. -/
theorem listed_served_iff (h : t ∈ restorePointsOf x) :
    (∃ v, runCOSDisk x (listedSecond t) = .ok v ∧ v.moment = t) ↔
      if older x (atEndOfSecond (listedSecond t)) then
        FoldersFirst x (atEndOfSecond (listedSecond t))
      else t = x.own := by
  unfold runCOSDisk
  by_cases holder : older x (atEndOfSecond (listedSecond t))
  · have hnewest := listed_newest x t h holder
    rw [if_pos holder, if_pos holder, ← openOlder_newest_iff x _ holder]
    cases openOlder x (atEndOfSecond (listedSecond t)) with
    | error e =>
      constructor
      · rintro ⟨v, hv, -⟩
        cases hv
      · intro hempty
        exact absurd hnewest.1.2 ((upTo_eq_empty_iff _).mp hempty t hnewest.1.1)
    | ok v =>
      constructor
      · rintro ⟨w, hw, hmoment⟩
        cases hw
        rw [Newest, hmoment]
        exact hnewest
      · intro hv
        exact ⟨v, rfl, hv.unique hnewest⟩
  · rw [if_neg holder, if_neg holder]
    constructor
    · rintro ⟨v, hv, rfl⟩
      cases hv
      rfl
    · rintro rfl
      exact ⟨_, rfl, rfl⟩

/-- Each listed restore point is served when its second is asked for, and an older time
opens the newest restore point of both kinds that is not after it, exactly when the folders
may be tried first at that time. -/
theorem disk_server_finds_newest_iff :
    (∀ t ∈ restorePointsOf x,
      ((∃ v, runCOSDisk x (listedSecond t) = .ok v ∧ v.moment = t) ↔
        if older x (atEndOfSecond (listedSecond t)) then
          FoldersFirst x (atEndOfSecond (listedSecond t))
        else t = x.own)) ∧
      ∀ t, older x t → (Newest x t (openOlder x t) ↔ FoldersFirst x t) :=
  ⟨fun t h => listed_served_iff x t h, fun t h => openOlder_newest_iff x t h⟩

/-- A backup of second 100 with a folder of second 10 and an undo file back to second 20. -/
def mixedExport : DiskExport where
  own := 100000000000
  disk := [5, 6, 7, 8]
  folders := .ok [⟨10000000000, .ok [1, 2, 3]⟩]
  undo :=
    { names := .ok [seqName 1 ++ undoApplied]
      openFile := fun _ => .ok (encodeUndo ⟨20000000000, 100000000000, 3, 4⟩ [⟨0, [1]⟩]) }

/-- The restore point of the undo file is listed, and its second opens the older folder. -/
theorem older_folder_hides_undo_point :
    20000000000 ∈ restorePointsOf mixedExport ∧
      (runCOSDisk mixedExport (listedSecond 20000000000)).toOption.map View.moment =
        some 10000000000 ∧
      ¬ Newest mixedExport 20000000000 (openOlder mixedExport 20000000000) := by
  refine ⟨by decide +kernel, by decide +kernel, ?_⟩
  have hopen : (openOlder mixedExport 20000000000).toOption.map View.moment =
      some 10000000000 := by decide +kernel
  cases hview : openOlder mixedExport 20000000000 with
  | error e =>
    rw [hview] at hopen
    cases hopen
  | ok v =>
    rw [hview] at hopen
    have hmoment : v.moment = 10000000000 := Option.some.inj hopen
    rintro ⟨-, hall⟩
    have hle := hall ⟨by decide +kernel, le_rfl⟩
    rw [hmoment] at hle
    exact absurd hle (by decide)

end FilePool.DiskRestorePoints
