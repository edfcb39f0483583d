import FilePool.RewoundFolders
import FilePool.CopyHistory
import FilePool.Pruning

/-!
What the steps of a failover keep on the share. The disks' folders stay truthful: their
undo files lead back to the contents of the disk. A rewound folder that holds a disk was
renamed from a complete part folder, so the disk is the one of a moment that was asked
for; the part folders may hold anything.
-/
namespace FilePool.RewindSteps

open ByteFiles UndoFormat UndoNames VolumeSteps DurableSteps DurableSteps.Prog UndoFolder Function
  List
open UndoLog hiding rewind
open BigEndian ApplyCopy Recovery Pruning SavedLayers CopyHistory
open FailoverPlan RewoundFolders

variable {α : Type} (dir : Name) (w : Err → SiteErr) (p : VolProg α)

theorem stoppedIn_inFolder (ts : List Step) (v : Volume) (s s' : Share) (hv : s dir = some v)
    (h : site.StoppedIn (ts.map (SiteStep.inFolder dir)) s s') :
    ∃ v', device.StoppedIn ts v v' ∧ s' = update s dir (some v') := by
  induction ts generalizing v s with
  | nil =>
    have heq : s' = s := h
    exact ⟨v, rfl, by rw [heq, ← hv, update_eq_self]⟩
  | cons t ts ih =>
    rcases (site.stoppedIn_cons _ _ s s').mp h with heq | ⟨x, v', hx, htorn, rfl⟩ | hrest
    · exact ⟨v, .inl rfl, by rw [heq, ← hv, update_eq_self]⟩
    · rw [hv] at hx
      cases hx
      exact ⟨v', .inr (.inl htorn), rfl⟩
    · have hstep : site.apply (.inFolder dir t) s = update s dir (some (t.apply v)) := by
        change update s dir ((s dir).map t.apply) = _
        rw [hv]
        rfl
      rw [hstep] at hrest
      obtain ⟨v', hstop, rfl⟩ := ih (t.apply v) _ (update_self ..) hrest
      exact ⟨v', .inr (.inr hstop), update_idem ..⟩

theorem inFolder_missing (s : Share) (h : s dir = none) :
    inFolder dir w p s = ([], .error .notExist) := by
  unfold inFolder
  rw [h]

theorem inFolder_found (s : Share) (v : Volume) (h : s dir = some v) :
    inFolder dir w p s =
      ((p.steps v).map (SiteStep.inFolder dir), (p.result v).mapError w) := by
  unfold inFolder
  rw [h]
  rfl

/-- What a program keeps of a disk's folder, it keeps on the share. -/
theorem safe_inFolder {I : Share → Prop} {Pv Cv : Volume → Prop} {Q : α → Prop}
    (hp : Safe Pv p (fun a _ => Q a) Cv) (hpre : ∀ s v, I s → s dir = some v → Pv v)
    (hpost : ∀ s v v', I s → s dir = some v → Cv v' → I (update s dir (some v'))) :
    Safe I (inFolder dir w p) (fun a _ => Q a) I := by
  intro s hs
  cases hv : s dir with
  | none =>
    have hrun := inFolder_missing dir w p s hv
    refine ⟨?_, ?_⟩
    · intro a ha
      have herr : (inFolder dir w p).result s = .error .notExist := congrArg Prod.snd hrun
      rw [herr] at ha
      cases ha
    · intro s' hstop
      unfold Prog.Stopped Prog.steps at hstop
      rw [hrun] at hstop
      have heq : s' = s := hstop
      exact heq ▸ hs
  | some v =>
    have hrun := inFolder_found dir w p s v hv
    obtain ⟨hend, hstop⟩ := hp v (hpre s v hs hv)
    refine ⟨?_, ?_⟩
    · intro a ha
      have hres : (inFolder dir w p).result s = (p.result v).mapError w := congrArg Prod.snd hrun
      rw [hres] at ha
      apply hend a
      cases hr : p.result v with
      | error e =>
        rw [hr] at ha
        cases ha
      | ok b =>
        rw [hr] at ha
        cases ha
        rfl
    · intro s' hs'
      unfold Prog.Stopped Prog.steps at hs'
      rw [hrun] at hs'
      obtain ⟨v', hv', rfl⟩ := stoppedIn_inFolder dir _ v s s' hv hs'
      exact hpost s v v' hs hv (hstop v' hv')

/-- Each restore point of the undo files takes the disk back to its content then. -/
def Describes (C : Moment → Bytes) (S : List (Name × Bytes)) (old : Option Bytes) : Prop :=
  ∀ files t fs b r, listUndo readUndo S = .ok files → filesFrom t (sortFiles files) = some fs →
    old = some b → rewindFiles fs b = .ok r → r = C t

/-- The folder holds a disk, finished or to be rolled back, and undo files that lead to
the contents of the disk at the moments. -/
def Truthful (C : Moment → Bytes) (v : Volume) : Prop :=
  ∃ S old, Recoverable S old v ∧ Describes C S old

variable (C : Moment → Bytes)

theorem safe_recover_truthful (stamp : ℤ) :
    Safe (Truthful C) (recover stamp) (fun _ _ => True) (Truthful C) := by
  rintro v ⟨S, old, hrec, hdesc⟩
  obtain ⟨-, hstop⟩ := safe_recover_recoverable S old stamp v hrec
  exact ⟨fun _ _ => trivial, fun s hs => ⟨S, old, hstop s hs, hdesc⟩⟩

theorem holds_diskInfo (v : Volume) (old : Option Bytes) (d : DiskFile) (h : Holds v old)
    (hd : diskInfo v = .ok d) : old = some d.bytes := by
  have hdisk := (diskInfo_ok v d hd).1
  cases old with
  | none =>
    rw [show v.disk = none from h] at hdisk
    cases hdisk
  | some b =>
    obtain ⟨d', hd', -, hbytes⟩ := h
    rw [hd'] at hdisk
    cases hdisk
    rw [hbytes]

/-- A rewind gives the content of the disk at the moment. -/
theorem safe_rewind_truthful {t : Moment} {stamp : ℤ} :
    Safe (Truthful C) (rewind t false stamp) (fun b _ => b = C t) (Truthful C) := by
  rintro v ⟨S, old, hrec, hdesc⟩
  have hrecover := safe_recover_recoverable S old stamp
  have hwhole : Safe (Recoverable S old) (rewind t false stamp) (fun b _ => b = C t)
      (Recoverable S old) := by
    refine safe_bind hrecover ?_
    intro _
    refine safe_bind (Q := fun files v => Rests S old v ∧
      (listUndo readUndo S).map sortFiles = .ok files) (safe_inspect _ ?_) ?_
    · rintro v ⟨hv, hrests⟩
      refine ⟨hv, ?_⟩
      intro files hfiles
      rw [appliedUndo_rests S old v hrests] at hfiles
      exact ⟨hrests, hfiles⟩
    intro files
    cases hfrom : filesFrom t files with
    | none => exact safe_fail (fun v hv => hv.1)
    | some fs =>
      refine safe_bind (Q := fun d _ => (listUndo readUndo S).map sortFiles = .ok files ∧
        old = some d.bytes) (safe_inspect _ ?_) ?_
      · rintro v ⟨hv, hrests, hfiles⟩
        exact ⟨hv, fun d hd => ⟨hfiles, holds_diskInfo v old d hrests.disk hd⟩⟩
      intro d
      refine safe_inspect _ ?_
      rintro v ⟨hv, hfiles, hold⟩
      refine ⟨hv, ?_⟩
      intro r hr
      cases hlist : listUndo readUndo S with
      | error e =>
        rw [hlist] at hfiles
        cases hfiles
      | ok list =>
        rw [hlist] at hfiles
        cases hfiles
        exact hdesc list t fs d.bytes r hlist hfrom hold hr
  obtain ⟨hend, hstop⟩ := hwhole v hrec
  exact ⟨hend, fun s hs => ⟨S, old, hstop s hs, hdesc⟩⟩

/-- A history of copies that cut off zeros only leaves a truthful folder: the content at
a moment is the disk before the copy that starts there. -/
theorem truthful_runCopies {start : Option Bytes} {ops : List Copy} {v : Volume}
    (hv : Rests [] start v) (hstart : ∀ b, start = some b → b.length < 2 ^ 63)
    (hdistinct : (ops.map (fun op => op.opts.fromMoment)).Nodup)
    (hcuts : CutsOnlyZeros start ops) (hrange : ∀ op ∈ ops, InRange op.opts.fromMoment)
    (hcontent : ∀ before op after b, ops = before ++ op :: after →
      modelDisk start before = some b → C op.opts.fromMoment = b) :
    Truthful C (runCopies ops v) := by
  obtain ⟨saves, hlayered, htracks, hleads⟩ := history_invariant start ops hv hstart
  refine ⟨_, _, recoverable_of_rests hlayered.rests, ?_⟩
  intro files t fs b r hfiles hfrom hold hr
  have hread := readable_of_readApplied saves files hfiles
  have hsorted : sortFiles files = saves.map Saved.file := by
    rw [readApplied_saves saves hread] at hfiles
    cases hfiles
    exact sortFiles_saves hlayered.rising
  rw [hsorted] at hfrom
  have hthere : ∃ x ∈ saves, x.header.fromMoment = t := by
    by_contra hno
    push Not at hno
    rw [filesFrom_none hno] at hfrom
    cases hfrom
  obtain ⟨x, hx, rfl⟩ := hthere
  obtain ⟨pre, post, rfl⟩ := append_of_mem hx
  obtain ⟨before, op, after, heq, hop, hold'⟩ := htracks.origin x hx
  rw [filesFrom_saves pre x post (htracks.last hrange hdistinct)] at hfrom
  cases hfrom
  have hi : pre.length < ((pre ++ x :: post).map Saved.old).length := by simp
  have hback := leads_rewind _ _ b (hleads hcuts b hold) hi
  rw [rewindFiles_saves (fun y hy => hread y (mem_append_right pre hy))] at hr
  rw [htracks.stored hrange hx, ← hop, hcontent before op after x.old heq hold', ← Except.ok.inj hr]
  simpa using hback

section Sound

variable (C : Name → Moment → Bytes) (disks : Set Name)

/-- No disk has its folder where another one's rewound folder or part folder goes. -/
def Apart : Prop :=
  ∀ d ∈ disks, ∀ d' ∈ disks, ∀ t,
    d' ≠ d ++ rewindSuffix t ∧ d' ≠ d ++ rewindSuffix t ++ partSuffix

/-- The disks' folders are truthful, a rewound folder with a disk holds the content at a
moment of its second that was asked for, and the folders of W are finished. -/
structure Sound (M W : Set (Name × Moment)) (s : Share) : Prop where
  truthful : ∀ d ∈ disks, ∀ v, s d = some v → Truthful (C d) v
  asked : ∀ d ∈ disks, ∀ t v f, s (d ++ rewindSuffix t) = some v → v.disk = some f →
    ∃ t', (d, t') ∈ M ∧ unix t' = unix t ∧ f.bytes = C d t'
  finished : ∀ x ∈ W, x.1 ∈ disks ∧ hasDisk s (x.1 ++ rewindSuffix x.2) = true

variable {C disks} {M W : Set (Name × Moment)} {s : Share} (hapart : Apart disks)
  (h : Sound C disks M W s) {d : Name} {v : Volume} {t : Moment}

include hapart h

theorem sound_disk (hd : d ∈ disks) (hv : Truthful (C d) v) :
    Sound C disks M W (update s d (some v)) where
  truthful d' hd' v' hv' := by
    by_cases heq : d' = d
    · subst heq
      rw [update_self] at hv'
      cases hv'
      exact hv
    · rw [update_of_ne heq] at hv'
      exact h.truthful d' hd' v' hv'
  asked d' hd' t v' f hv' hf := by
    rw [update_of_ne (Ne.symm (hapart d' hd' d hd t).1)] at hv'
    exact h.asked d' hd' t v' f hv' hf
  finished x hx := by
    obtain ⟨hmem, hdisk⟩ := h.finished x hx
    refine ⟨hmem, ?_⟩
    unfold hasDisk
    rw [update_of_ne (Ne.symm (hapart x.1 hmem d hd x.2).1)]
    exact hdisk

theorem sound_part (hd : d ∈ disks) {o : Option Volume} :
    Sound C disks M W (update s (d ++ rewindSuffix t ++ partSuffix) o) where
  truthful d' hd' v' hv' := by
    rw [update_of_ne (hapart d hd d' hd' t).2] at hv'
    exact h.truthful d' hd' v' hv'
  asked d' hd' t' v' f hv' hf := by
    rw [update_of_ne (Ne.symm part_ne_rewound)] at hv'
    exact h.asked d' hd' t' v' f hv' hf
  finished x hx := by
    obtain ⟨hmem, hdisk⟩ := h.finished x hx
    refine ⟨hmem, ?_⟩
    unfold hasDisk
    rw [update_of_ne (Ne.symm part_ne_rewound)]
    exact hdisk

theorem sound_rename (hd : d ∈ disks) (ht : (d, t) ∈ M)
    {f : DiskFile} (hf : v.disk = some f) (hcontent : f.bytes = C d t)
    (hpart : s (d ++ rewindSuffix t ++ partSuffix) = some v) :
    Sound C disks M W ((SiteStep.rename (d ++ rewindSuffix t ++ partSuffix)
      (d ++ rewindSuffix t)).apply s) := by
  have hplaced : Sound C disks M W (update s (d ++ rewindSuffix t) (some v)) := by
    refine ⟨?_, ?_, ?_⟩
    · intro d' hd' v' hv'
      rw [update_of_ne (hapart d hd d' hd' t).1] at hv'
      exact h.truthful d' hd' v' hv'
    · intro d' hd' t' v' f' hv' hf'
      by_cases heq : d' ++ rewindSuffix t' = d ++ rewindSuffix t
      · rw [heq, update_self] at hv'
        cases hv'
        obtain ⟨rfl, hsec⟩ := rewound_name_inj heq
        rw [hf] at hf'
        cases hf'
        exact ⟨t, ht, hsec.symm, hcontent⟩
      · rw [update_of_ne heq] at hv'
        exact h.asked d' hd' t' v' f' hv' hf'
    · intro x hx
      obtain ⟨hmem, hdisk⟩ := h.finished x hx
      refine ⟨hmem, ?_⟩
      unfold hasDisk at hdisk ⊢
      by_cases heq : x.1 ++ rewindSuffix x.2 = d ++ rewindSuffix t
      · rw [heq, update_self]
        exact congrArg Option.isSome hf
      · rw [update_of_ne heq]
        exact hdisk
  change Sound C disks M W (update (update s (d ++ rewindSuffix t)
    (s (d ++ rewindSuffix t ++ partSuffix))) _ none)
  rw [hpart]
  exact sound_part hapart hplaced hd

end Sound

section Steps

variable {C : Name → Moment → Bytes} {disks : Set Name} (hapart : Apart disks)
  (M W : Set (Name × Moment)) (env : Surroundings)

include hapart

/-- While the part folder is being written, it holds what it should and the rest is sound. -/
theorem safe_writeRewound {name d : Name} (hd : d ∈ disks) {t : Moment} (ht : (d, t) ∈ M) :
    Safe (Sound C disks M W) (writeRewound env name d t (d ++ rewindSuffix t))
      (fun _ s => hasDisk s (d ++ rewindSuffix t) = true) (Sound C disks M W) := by
  have hclear : Safe (Sound C disks M W)
      (perform (.removeAll (d ++ rewindSuffix t ++ partSuffix)) : SiteProg Unit)
      (fun _ _ => True) (Sound C disks M W) := by
    refine safe_perform _ (fun s hs => hs) ?_ ?_
    · intro s hs
      exact ⟨sound_part hapart hs hd, trivial⟩
    · rintro s s' hs ⟨o, rfl⟩
      exact sound_part hapart hs hd
  have hmake : Safe (fun s => Sound C disks M W s ∧ True)
      (perform (.mkdir (d ++ rewindSuffix t ++ partSuffix)) : SiteProg Unit)
      (fun _ s => s (d ++ rewindSuffix t ++ partSuffix) = some Volume.empty)
      (Sound C disks M W) := by
    refine safe_atomic _ (fun s s' h => h) (fun s hs => hs.1) ?_
    intro s hs
    exact ⟨sound_part hapart hs.1 hd, update_self ..⟩
  have hrewind : Safe (fun s => Sound C disks M W s ∧
        s (d ++ rewindSuffix t ++ partSuffix) = some Volume.empty)
      (inFolder d (.rewind name t) (rewind t false env.stamp))
      (fun b _ => b = C d t) (fun s => Sound C disks M W s ∧
        s (d ++ rewindSuffix t ++ partSuffix) = some Volume.empty) := by
    refine safe_inFolder d _ _ (safe_rewind_truthful (C d)) ?_ ?_
    · intro s v hs hv
      exact hs.1.truthful d hd v hv
    · intro s v v' hs hv hv'
      refine ⟨sound_disk hapart hs.1 hd hv', ?_⟩
      rw [update_of_ne (Ne.symm (hapart d hd d hd t).2)]
      exact hs.2
  refine safe_bind hclear (fun _ => safe_bind hmake (fun _ => safe_bind (safe_weaken
    (safe_attempt hrewind) (fun s hs => hs) (fun r s hr => hr) (fun s hs => hs.1)) ?_))
  intro r
  cases r with
  | error e =>
    refine safe_bind (safe_weaken hclear (fun s hs => hs.1) (fun _ _ h => h) (fun s hs => hs)) ?_
    intro _
    exact safe_fail (fun s hs => hs.1)
  | ok content =>
    refine safe_bind (Q := fun _ s => ∃ v f, s (d ++ rewindSuffix t ++ partSuffix) = some v ∧
      v.disk = some f ∧ f.bytes = C d t) (safe_perform _ (fun s hs => hs.1) ?_ ?_) ?_
    · rintro s ⟨hs, ⟨-, hpart⟩, hcontent⟩
      refine ⟨sound_part hapart hs hd, { Volume.empty with
        disk := some ⟨content, env.stamp, true⟩ }, _, ?_, rfl, hcontent content rfl⟩
      change update s _ ((s _).map _) _ = _
      rw [update_self, hpart]
      rfl
    · rintro s s' ⟨hs, -⟩ ⟨o, rfl⟩
      exact sound_part hapart hs hd
    intro _
    cases env.granted (d ++ rewindSuffix t) with
    | false => exact safe_fail (fun s hs => hs.1)
    | true =>
      refine safe_bind (Q := fun _ s => ∃ v f, s (d ++ rewindSuffix t ++ partSuffix) = some v ∧
        v.disk = some f ∧ f.bytes = C d t) (safe_inspect _ (fun s hs => ⟨hs.1, fun _ _ => hs.2⟩)) ?_
      intro _
      refine safe_atomic _ (fun s s' h => h) (fun s hs => hs.1) ?_
      rintro s ⟨hs, v, f, hpart, hf, hcontent⟩
      refine ⟨sound_rename hapart hs hd ht hf hcontent hpart, ?_⟩
      have hne : d ++ rewindSuffix t ≠ d ++ rewindSuffix t ++ partSuffix := Ne.symm part_ne_rewound
      change hasDisk (update (update s _ _) _ none) _ = true
      unfold hasDisk
      rw [update_of_ne hne, update_self, hpart]
      exact congrArg Option.isSome hf

/-- The disks of a plan that are to be rewound, with their moments. -/
def marked (svs : List PlanEntry) : Set (Name × Moment) :=
  {x | ∃ sv ∈ svs, sv.vmGroup ≠ [] ∧ sv.rewind = true ∧ x = (sv.localDir, sv.vmMoment)}

/-- The entry with the path of its rewound folder. -/
def served (sv : PlanEntry) : PlanEntry :=
  if sv.vmGroup ≠ [] ∧ sv.rewind = true then
    { sv with subPath := rewoundSubPath sv.subPath sv.vmMoment }
  else sv

omit hapart in
theorem sound_subset (M' W' : Set (Name × Moment)) (s : Share) (hM : M ⊆ M') (hW : W' ⊆ W)
    (h : Sound C disks M W s) : Sound C disks M' W' s where
  truthful := h.truthful
  asked d hd t v f hv hf := by
    obtain ⟨t', ht', hrest⟩ := h.asked d hd t v f hv hf
    exact ⟨t', hM ht', hrest⟩
  finished x hx := h.finished x (hW hx)

theorem safe_materialize {sv : PlanEntry} (hdisk : sv.vmGroup ≠ [] → sv.localDir ∈ disks)
    (hM : marked [sv] ⊆ M) :
    Safe (Sound C disks M W) (materialize env sv)
      (fun sv' s => Sound C disks M (W ∪ marked [sv]) s ∧ sv' = served sv)
      (Sound C disks M W) := by
  unfold materialize
  by_cases hgroup : sv.vmGroup = []
  · have hnone : marked [sv] = ∅ := by
      simp [marked, hgroup]
    have hserved : served sv = sv := if_neg (fun h => h.1 hgroup)
    rw [if_pos hgroup, hnone, Set.union_empty, hserved]
    exact safe_pure sv (fun s hs => ⟨hs, hs, rfl⟩)
  rw [if_neg hgroup]
  have hd := hdisk hgroup
  by_cases hrewind : sv.rewind = true
  · have hone : marked [sv] = {(sv.localDir, sv.vmMoment)} := by
      simp [marked, hgroup, hrewind]
    have hserved : served sv = { sv with subPath := rewoundSubPath sv.subPath sv.vmMoment } :=
      if_pos ⟨hgroup, hrewind⟩
    have hadd : ∀ s, Sound C disks M W s →
        hasDisk s (sv.localDir ++ rewindSuffix sv.vmMoment) = true →
        Sound C disks M (W ∪ {(sv.localDir, sv.vmMoment)}) s := by
      intro s hs hfin
      refine ⟨hs.truthful, hs.asked, ?_⟩
      rintro x (hx | rfl)
      · exact hs.finished x hx
      · exact ⟨hd, hfin⟩
    rw [if_pos hrewind, hone, hserved]
    refine safe_bind (Q := fun fin s => fin = hasDisk s (sv.localDir ++ rewindSuffix sv.vmMoment))
      (safe_inspect _ (fun s hs => ⟨hs, fun fin hfin => (Except.ok.inj hfin).symm⟩)) ?_
    intro fin
    cases fin with
    | true =>
      exact safe_pure _ (fun s hs => ⟨hs.1, hadd s hs.1 hs.2.symm, rfl⟩)
    | false =>
      refine safe_bind (safe_weaken (safe_writeRewound hapart M W env hd (hM (hone ▸ rfl)))
        (fun s hs => hs.1) (fun _ _ h => h)
        (fun s hs => hs)) ?_
      intro _
      exact safe_pure _ (fun s hs => ⟨hs.1, hadd s hs.1 hs.2, rfl⟩)
  · have hnone : marked [sv] = ∅ := by
      simp [marked, hrewind]
    have hserved : served sv = sv := if_neg (fun h => hrewind h.2)
    rw [if_neg hrewind, hnone, Set.union_empty, hserved]
    refine safe_bind (safe_inFolder sv.localDir _ _
      (safe_recover_truthful (C sv.localDir) env.stamp) ?_ ?_) ?_
    · intro s v hs hv
      exact hs.truthful sv.localDir hd v hv
    · intro s v v' hs hv hv'
      exact sound_disk hapart hs hd hv'
    · intro _
      exact safe_pure sv (fun s hs => ⟨hs.1, hs.1, rfl⟩)

omit hapart in
theorem marked_cons (sv : PlanEntry) (svs : List PlanEntry) :
    marked (sv :: svs) = marked [sv] ∪ marked svs := by
  ext x
  simp only [marked, mem_cons, not_mem_nil, or_false]
  constructor
  · rintro ⟨e, rfl | he, hrest⟩
    · exact .inl ⟨e, rfl, hrest⟩
    · exact .inr ⟨e, he, hrest⟩
  · rintro (⟨e, rfl, hrest⟩ | ⟨e, he, hrest⟩)
    · exact ⟨e, .inl rfl, hrest⟩
    · exact ⟨e, .inr he, hrest⟩

theorem safe_materializeVMs (svs : List PlanEntry)
    (hdisk : ∀ sv ∈ svs, sv.vmGroup ≠ [] → sv.localDir ∈ disks) (hM : marked svs ⊆ M) :
    Safe (Sound C disks M W) (materializeVMs env svs)
      (fun svs' s => Sound C disks M (W ∪ marked svs) s ∧ svs' = svs.map served)
      (Sound C disks M W) := by
  induction svs generalizing W with
  | nil =>
    have hnone : marked [] = ∅ := by
      simp [marked]
    rw [hnone, Set.union_empty]
    exact safe_pure [] (fun s hs => ⟨hs, hs, rfl⟩)
  | cons sv svs ih =>
    rw [marked_cons] at hM ⊢
    refine safe_bind (safe_materialize hapart M W env
      (hdisk sv mem_cons_self) (Set.subset_union_left.trans hM)) ?_
    intro sv'
    have htail := ih (W ∪ marked [sv]) (fun e he => hdisk e (mem_cons_of_mem sv he))
      (Set.subset_union_right.trans hM)
    refine safe_bind (Q := fun svs' s => Sound C disks M (W ∪ marked [sv] ∪ marked svs) s ∧
      sv' = served sv ∧ svs' = svs.map served) ?_ ?_
    · intro s hs
      obtain ⟨hend, hstop⟩ := htail s hs.2.1
      refine ⟨?_, ?_⟩
      · intro svs' hsvs'
        obtain ⟨hsound, heq⟩ := hend svs' hsvs'
        exact ⟨hsound, hs.2.2, heq⟩
      · intro s' hs'
        exact sound_subset M _ M W s' (fun _ h => h) Set.subset_union_left (hstop s' hs')
    · intro svs'
      refine safe_pure _ ?_
      rintro s ⟨hs, hsound, rfl, rfl⟩
      rw [Set.union_assoc] at hsound
      exact ⟨hs, hsound, rfl⟩

end Steps

end FilePool.RewindSteps
