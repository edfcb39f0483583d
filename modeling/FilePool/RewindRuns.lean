import FilePool.RewindSteps

/-!
Runs of failovers of a VM, each stopped anywhere and repeated, with copies that arrive in
between. The name of a rewound folder tells the second of its moment and nothing more, so
the disk that a failover serves is the one of the plan's moment as long as no two moments
of one second were asked for.
-/
namespace FilePool.RewindRuns

open ByteFiles UndoFormat UndoNames VolumeSteps DurableSteps DurableSteps.Prog List
open UndoLog hiding rewind
open CrashSafety ApplyCopy CopyHistory
open FailoverPlan PathNames RewoundFolders RewindSteps

section Runs

variable (C : Name → Moment → Bytes) (disks : Set Name)

/-- Runs of failovers of the disks, each stopped anywhere, with anything in between that
leaves the disks' folders truthful and the rewound folders alone. The set collects the
moments that were asked for. -/
inductive FailoverRun : Set (Name × Moment) → Share → Prop
  | start (s : Share) (htrue : ∀ d ∈ disks, ∀ v, s d = some v → Truthful (C d) v)
      (hnone : ∀ d ∈ disks, ∀ t, hasDisk s (d ++ rewindSuffix t) = false) : FailoverRun ∅ s
  | arrive (M : Set (Name × Moment)) (s s' : Share) (h : FailoverRun M s)
      (htrue : ∀ d ∈ disks, ∀ v, s' d = some v → Truthful (C d) v)
      (hkeep : ∀ d ∈ disks, ∀ t, s' (d ++ rewindSuffix t) = s (d ++ rewindSuffix t)) :
      FailoverRun M s'
  | failover (M : Set (Name × Moment)) (s s' : Share) (env : Surroundings)
      (svs : List PlanEntry) (h : FailoverRun M s)
      (hdisk : ∀ sv ∈ svs, sv.vmGroup ≠ [] → sv.localDir ∈ disks)
      (hstop : (materializeVMs env svs).Stopped s s') : FailoverRun (M ∪ marked svs) s'

/-- Moments of one disk that were asked for in the same second are the same. -/
def SameSecond (M : Set (Name × Moment)) : Prop :=
  ∀ d t t', (d, t) ∈ M → (d, t') ∈ M → unix t = unix t' → t = t'

variable (hapart : Apart disks)

include hapart

theorem sound_run {M : Set (Name × Moment)} {s : Share} (h : FailoverRun C disks M s) :
    Sound C disks M ∅ s := by
  induction h with
  | start s htrue hnone =>
    refine ⟨htrue, ?_, fun x hx => hx.elim⟩
    intro d hd t v f hv hf
    have hno := hnone d hd t
    unfold hasDisk at hno
    rw [hv] at hno
    simp [hf] at hno
  | arrive M s s' _ htrue hkeep ih =>
    refine ⟨htrue, ?_, fun x hx => hx.elim⟩
    intro d hd t v f hv hf
    rw [hkeep d hd t] at hv
    exact ih.asked d hd t v f hv hf
  | failover M s s' env svs _ hdisk hstop ih =>
    have hstart := sound_subset M ∅ (M ∪ marked svs) ∅ s Set.subset_union_left (fun _ h => h) ih
    exact (safe_materializeVMs hapart _ ∅ env svs hdisk Set.subset_union_right s hstart).2 s' hstop

/-- The entry's folder is the one at its path under the mounted share, a clean path from the
root, and not the one of a folder rewound to the entry's own moment. -/
structure Placed (base : Name) (sv : PlanEntry) : Prop where
  rooted : sv.subPath.head? = some '/'
  clean : pathClean sv.subPath = sv.subPath
  mounted : sv.localDir = base ++ sv.subPath
  unrewound : hasSuffix sv.subPath (rewindSuffix sv.vmMoment) = false

omit hapart in
theorem served_path {base : Name} {sv : PlanEntry} (h : Placed base sv)
    (hgroup : sv.vmGroup ≠ []) (hrewind : sv.rewind = true) :
    base ++ (served sv).subPath = sv.localDir ++ rewindSuffix sv.vmMoment := by
  have hpath := rewoundSubPath_eq h.rooted (h.clean.symm ▸ h.unrewound)
  have hserved : (served sv).subPath = rewoundSubPath sv.subPath sv.vmMoment := by
    unfold served
    rw [if_pos ⟨hgroup, hrewind⟩]
  rw [h.clean] at hpath
  rw [hserved, h.mounted, hpath, append_assoc]

/-- After a failover that succeeds, every disk marked for rewind is served from a folder
that holds its content at the plan's moment. -/
theorem rewound_disk_shows_moment (M : Set (Name × Moment)) (s : Share)
    (hrun : FailoverRun C disks M s) (env : Surroundings) (base : Name) (svs : List PlanEntry)
    (hdisk : ∀ sv ∈ svs, sv.vmGroup ≠ [] → sv.localDir ∈ disks ∧ Placed base sv)
    (hsecond : SameSecond (M ∪ marked svs)) (svs' : List PlanEntry)
    (hok : (materializeVMs env svs).result s = .ok svs') :
    svs' = svs.map served ∧ ∀ sv ∈ svs, sv.vmGroup ≠ [] → sv.rewind = true →
      ∃ v f, (materializeVMs env svs).exec s (base ++ (served sv).subPath) = some v ∧
        v.disk = some f ∧ f.bytes = C sv.localDir sv.vmMoment := by
  have hstart := sound_subset M ∅ (M ∪ marked svs) ∅ s Set.subset_union_left
    (fun _ h => h) (sound_run C disks hapart hrun)
  obtain ⟨hsound, heq⟩ := (safe_materializeVMs hapart _ ∅ env svs
    (fun sv hsv hgroup => (hdisk sv hsv hgroup).1) Set.subset_union_right s hstart).1 svs' hok
  refine ⟨heq, ?_⟩
  intro sv hsv hgroup hrewind
  have hmark : (sv.localDir, sv.vmMoment) ∈ marked svs := ⟨sv, hsv, hgroup, hrewind, rfl⟩
  obtain ⟨hd, hfin⟩ := hsound.finished _ (.inr hmark)
  rw [served_path (hdisk sv hsv hgroup).2 hgroup hrewind]
  unfold hasDisk at hfin
  cases hv : (materializeVMs env svs).exec s (sv.localDir ++ rewindSuffix sv.vmMoment) with
  | none =>
    simp only [hv] at hfin
    cases hfin
  | some v =>
    simp only [hv] at hfin
    obtain ⟨f, hf⟩ := Option.isSome_iff_exists.mp hfin
    obtain ⟨t', ht', hunix, hbytes⟩ := hsound.asked _ hd _ v f hv hf
    obtain rfl := hsecond _ _ _ ht' (.inr hmark) hunix
    exact ⟨v, f, rfl, hf, hbytes⟩

end Runs

/-- Two copies to one disk, which start in the same second. -/
def twoCopies : List Copy :=
  [⟨twoBytes, ⟨5100000000, 5200000000, false, 0, 9⟩, ⟨1, 2⟩⟩,
    ⟨firstByte, ⟨5200000000, 6000000000, false, 0, 9⟩, ⟨3, 4⟩⟩]

/-- The disk before each of the copies. -/
def contentAt (_ : Name) (t : Moment) : Bytes := if t = 5100000000 then [1] else [7, 0]

def diskFolder : Name := ['/', 'p', '/', 'a']

def farShare : Share := fun dir =>
  if dir = diskFolder then some (runCopies twoCopies (diskOnly [1])) else none

def rewindEntry (t : Moment) : PlanEntry :=
  ⟨['a'], diskFolder, t, diskFolder, ['n', '/', 'v'], t, true⟩

def granted : Surroundings := ⟨8, fun _ => true⟩

theorem run_farShare : FailoverRun contentAt {diskFolder} ∅ farShare := by
  have htrue : Truthful (contentAt diskFolder) (runCopies twoCopies (diskOnly [1])) := by
    have hsplit : ∀ before op after, twoCopies = before ++ op :: after →
        (before = [] ∧ some op = twoCopies.head?) ∨
          (before = twoCopies.take 1 ∧ [op] = twoCopies.drop 1) := by
      intro before op after heq
      rcases before with _ | ⟨x, _ | ⟨y, before⟩⟩
      · obtain ⟨rfl, -⟩ := cons.inj heq
        exact .inl ⟨rfl, rfl⟩
      · obtain ⟨rfl, hrest⟩ := cons.inj heq
        obtain ⟨rfl, -⟩ := cons.inj hrest
        exact .inr ⟨rfl, rfl⟩
      · have hlen := congrArg length heq
        simp [twoCopies] at hlen
    refine truthful_runCopies _ (rests_diskOnly [1]) (by simp) (by decide) ?_ (by decide) ?_
    · intro before op after b heq hb
      obtain ⟨rfl, hop⟩ | ⟨rfl, hop⟩ := hsplit before op after heq
      · cases hop
        cases hb
        decide +kernel
      · cases hop
        cases hb
        decide +kernel
    · intro before op after b heq hb
      obtain ⟨rfl, hop⟩ | ⟨rfl, hop⟩ := hsplit before op after heq
      · cases hop
        cases hb
        decide
      · cases hop
        cases hb
        decide +kernel
  refine FailoverRun.start farShare ?_ ?_
  · rintro d rfl v hv
    cases hv
    exact htrue
  · rintro d rfl t
    have hne : diskFolder ++ rewindSuffix t ≠ diskFolder := by
      intro h
      cases self_eq_append_right.mp h.symm
    unfold hasDisk farShare
    rw [if_neg hne]

theorem apart_diskFolder : Apart {diskFolder} := by
  rintro d rfl d' rfl t
  refine ⟨?_, ?_⟩
  · intro h
    cases self_eq_append_right.mp h
  · intro h
    cases self_eq_append_right.mp h

/-- The share after a failover to the earlier of the two moments. -/
def firstFailover : Share :=
  (materializeVMs granted [rewindEntry 5100000000]).exec farShare

/-- The share after that failover was stopped with the disk written and the part folder not yet
renamed. -/
def cutFailover : Share :=
  site.applyAll ((materializeVMs granted [rewindEntry 5100000000] farShare).1.take 3) farShare

theorem run_failover {s : Share}
    (hstop : (materializeVMs granted [rewindEntry 5100000000]).Stopped farShare s) :
    FailoverRun contentAt {diskFolder} (∅ ∪ marked [rewindEntry 5100000000]) s := by
  refine FailoverRun.failover ∅ farShare s granted _ run_farShare ?_ hstop
  intro sv hsv _
  obtain rfl := mem_singleton.mp hsv
  rfl

theorem marked_rewindEntry {t t' : Moment} {d : Name} (h : (d, t') ∈ marked [rewindEntry t]) :
    t' = t := by
  obtain ⟨sv, hsv, -, -, heq⟩ := h
  obtain rfl := mem_singleton.mp hsv
  exact (Prod.mk.inj heq).2

theorem rewound_disk_shows_moment_repeated :
    (cutFailover (diskFolder ++ rewindSuffix 5100000000) = none ∧
      (cutFailover (diskFolder ++ rewindSuffix 5100000000 ++ partSuffix)).isSome) ∧
    ∃ v f, (materializeVMs granted [rewindEntry 5100000000]).exec cutFailover
        (diskFolder ++ rewindSuffix 5100000000) = some v ∧ v.disk = some f ∧ f.bytes = [1] := by
  refine ⟨by decide +kernel, ?_⟩
  obtain ⟨-, hdisks⟩ := rewound_disk_shows_moment contentAt {diskFolder} apart_diskFolder _
    cutFailover (run_failover (site.stoppedIn_take _ 3 farShare)) granted []
    [rewindEntry 5100000000]
    (by
      intro sv hsv _
      obtain rfl := mem_singleton.mp hsv
      exact ⟨rfl, rfl, by decide, rfl, by decide +kernel⟩)
    (by
      rintro d t t' ((h | h) | h) ((h' | h') | h') _
      all_goals first
        | exact h.elim
        | exact h'.elim
        | exact (marked_rewindEntry h).trans (marked_rewindEntry h').symm)
    _ (show (materializeVMs granted [rewindEntry 5100000000]).result cutFailover =
      .ok [served (rewindEntry 5100000000)] by decide +kernel)
  exact hdisks _ (mem_singleton_self _) (by decide) rfl

/-- A second failover, to the other moment of the same second, takes the folder of the
first: the disk that it serves does not hold the content at the plan's moment. -/
theorem same_second_reuses_folder :
    FailoverRun contentAt {diskFolder} (∅ ∪ marked [rewindEntry 5100000000]) firstFailover ∧
      (materializeVMs granted [rewindEntry 5200000000]).result firstFailover =
        .ok [served (rewindEntry 5200000000)] ∧
      ((materializeVMs granted [rewindEntry 5200000000]).exec firstFailover
        (served (rewindEntry 5200000000)).subPath).map (fun v => v.disk.map DiskFile.bytes) =
          some (some [1]) ∧
      contentAt diskFolder 5200000000 = [7, 0] := by
  exact ⟨run_failover (stopped_exec _ _), by decide +kernel, by decide +kernel, by decide⟩

end FilePool.RewindRuns
