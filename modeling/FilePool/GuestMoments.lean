import FilePool.DiskRestorePoints

/-!
The moments of a VM disk that a file browser lists and opens. A moment is listed by its second
and opened at the end of that second. So of two moments in one second only the later one is
opened, also when the later one is the disk itself.
-/
namespace FilePool.GuestMoments

open UndoFormat UndoNames VolumeSteps DurableSteps UndoFolder DiskMoments RestoreDisk DiskView
  LayerView DiskViewSource DiskRestorePoints NewestEntry List

/-- The moments of a disk, each named by its second: the restore points, then the moment that
the disk shows. -/
def moments (v : Volume) : Except Err (List ℤ) :=
  (readDiskState v).map (fun st => (st.restorePoints ++ st.moment.toList).map second)

/-- The disk as it is opened by the name of a moment. -/
def openListed (v : Volume) (name : ℤ) : Except Err View :=
  openDiskView v (atEndOfSecond (name * nanos))

variable {v : Volume} {files before later us : List UndoFile} {u : UndoFile} {st : DiskState}
  {t : Moment}

theorem undoHeaders_of_applied (hfiles : appliedUndo v = .ok files) :
    undoHeaders v = .ok files := by
  rw [undoHeaders_eq v ?_, hfiles]
  intro e he hseq
  obtain ⟨es, hes, h⟩ := except_bind_ok.mp hfiles
  obtain ⟨listed, hlisted, -⟩ := except_bind_ok.mp h
  rw [entries_of_ok v es hes] at he
  obtain ⟨u, hu, -, hbytes⟩ := listUndo_complete readUndo es listed hlisted e he hseq
  have hread := (listUndo_mem readUndo es listed hlisted u hu).2.2
  unfold readUndo at hread
  rw [hbytes] at hread
  cases hcheck : checkUndo e.2 with
  | ok h => exact ⟨h, hcheck⟩
  | error err =>
    rw [hcheck] at hread
    cases hread

theorem indexAll_length {ls : List ViewLayer} (h : indexAll us = .ok ls) :
    ls.length = us.length := by
  induction us generalizing ls with
  | nil =>
    cases h
    rfl
  | cons u us ih =>
    obtain ⟨l, ls', -, hls, rfl⟩ := (indexAll_cons u us ls).mp h
    rw [length_cons, length_cons, ih hls]

theorem mem_reached {p : Moment} :
    p ∈ reached files ↔ ∃ w ∈ files, 0 < second p ∧ w.hdr.fromMoment = p := by
  simp only [reached, mem_map, mem_filter, decide_eq_true_eq, and_assoc]
  refine exists_congr fun w => and_congr_right fun _ => ?_
  constructor
  · rintro ⟨hpos, rfl⟩
    exact ⟨hpos, rfl⟩
  · rintro ⟨hpos, rfl⟩
    exact ⟨hpos, rfl⟩

theorem moment_stateFrom (hst : stateFrom v (before ++ u :: later) = .ok st) :
    ∃ t, st.moment = some t := by
  obtain ⟨t, ht, hst⟩ := except_bind_ok.mp hst
  obtain ⟨mf, -, hst⟩ := except_bind_ok.mp hst
  obtain ⟨un, -, hst⟩ := except_bind_ok.mp hst
  cases hst
  unfold momentFrom at ht
  cases hlast : (before ++ u :: later).getLast? with
  | none => simp at hlast
  | some w =>
    rw [hlast] at ht
    exact ⟨_, (Except.ok.inj ht).symm⟩

/-- The end of the second of a restore point finds the disk itself, or the last restore
point up to that second. -/
theorem chooseMoment_listed (hmoment : st.moment = some t)
    (hpoints : st.restorePoints = reached (before ++ u :: later))
    (hpos : 0 < second u.hdr.fromMoment) :
    chooseMoment st (atEndOfSecond (second u.hdr.fromMoment * nanos)) =
      if second t ≤ second u.hdr.fromMoment then .ok (zeroTime, true)
      else .ok ((lastNotAfter id (second u.hdr.fromMoment * nanos + (nanos - 1))
        (reached later)).getD u.hdr.fromMoment, false) := by
  have hzero {p : Moment} (hp : 0 < second p) : p ≠ zeroTime := by
    rintro rfl
    exact absurd hp (by decide)
  have hsecond : second (second u.hdr.fromMoment * nanos) = second u.hdr.fromMoment :=
    second_listedSecond _
  have hend : atEndOfSecond (second u.hdr.fromMoment * nanos) =
      second u.hdr.fromMoment * nanos + (nanos - 1) := by
    rw [atEndOfSecond, if_neg (hzero (by rwa [hsecond])), hsecond]
  rw [hend]
  generalize hs : second u.hdr.fromMoment * nanos + (nanos - 1) = e
  have hle (p : Moment) : p ≤ e ↔ second p ≤ second u.hdr.fromMoment := hs ▸ le_endOfSecond_iff p
  have he : e ≠ zeroTime := by
    apply hzero
    exact lt_of_lt_of_le hpos (second_mono ((hle _).mpr le_rfl))
  have hfold : st.restorePoints.foldl (fun c p => if e < p then c else p) zeroTime =
      (lastNotAfter id e (reached later)).getD u.hdr.fromMoment := by
    have hsplit : reached (before ++ u :: later) =
        reached before ++ u.hdr.fromMoment :: reached later := by
      have hu : decide (u.hdr.fromMoment / 1000000000 > 0) = true := decide_eq_true hpos
      simp only [reached, filter_append, filter_cons, hu, if_true, map_append, map_cons]
    rw [foldl_restorePoints, hpoints, hsplit]
    unfold lastNotAfter
    rw [reverse_append, reverse_cons, append_assoc, find?_append,
      singleton_append, find?_cons]
    have hu : decide (id u.hdr.fromMoment ≤ e) = true := decide_eq_true ((hle _).mpr le_rfl)
    rw [hu]
    cases (reached later).reverse.find? (fun b => decide (id b ≤ e)) <;> rfl
  unfold chooseMoment
  rw [hmoment]
  simp only [he, false_or, not_lt, hle, hfold]
  split
  · rfl
  · rw [if_neg]
    cases hlast : lastNotAfter id e (reached later) with
    | none => exact hzero hpos
    | some p =>
      obtain ⟨-, -, hp, -⟩ := mem_reached.mp (lastNotAfter_mem id e hlast).1
      exact hzero hp

/-- No copy is under way and the disk is there as the last copy left it. -/
def Openable (v : Volume) (st : DiskState) : Prop :=
  st.unfinished = false ∧ st.modified = false ∧ ∃ disk, diskInfo v = .ok disk

section

variable (hfiles : appliedUndo v = .ok files) (hst : stateFrom v files = .ok st) {asked : Moment}
  {d : View}
include hfiles hst

theorem openDiskView_of_state :
    openDiskView v asked = .ok d ↔ Openable v st ∧ ∃ c layers disk,
      chooseMoment st asked = .ok c ∧ viewLayers c.1 c.2 files = .ok layers ∧
        diskInfo v = .ok disk ∧
          d = newView st c.1 c.2 disk layers (v.undo.entries.map Prod.fst) := by
  rw [openDiskView_iff]
  constructor
  · rintro ⟨files', st', c, disk, layers, happlied, hst', hun, hmod, hc, hdisk, hlayers, rfl⟩
    cases happlied.symm.trans (undoHeaders_of_applied hfiles)
    cases hst'.symm.trans hst
    exact ⟨⟨hun, hmod, disk, hdisk⟩, c, layers, disk, hc, hlayers, hdisk, rfl⟩
  · rintro ⟨⟨hun, hmod, -⟩, c, layers, disk, hc, hlayers, hdisk, rfl⟩
    exact ⟨files, st, c, disk, layers, undoHeaders_of_applied hfiles, hst, hun, hmod, hc, hdisk,
      hlayers, rfl⟩

/-- The layers that a chosen moment shows. -/
theorem shows_iff {chosen : Moment} {latest : Bool} {layers : List ViewLayer}
    (hc : chooseMoment st asked = .ok (chosen, latest)) :
    (∃ d, openDiskView v asked = .ok d ∧ d.layers = layers) ↔
      Openable v st ∧ viewLayers chosen latest files = .ok layers := by
  simp only [openDiskView_of_state hfiles hst, hc]
  constructor
  · rintro ⟨d, ⟨hopen, c, ls, disk, hc', hls, -, rfl⟩, rfl⟩
    cases hc'
    exact ⟨hopen, hls⟩
  · rintro ⟨hopen, hls⟩
    obtain ⟨disk, hdisk⟩ := hopen.2.2
    exact ⟨_, ⟨hopen, _, layers, disk, rfl, hls, hdisk, rfl⟩, rfl⟩

theorem moment_opens_iff (ht : st.moment = some t) :
    (∃ d, openListed v (second t) = .ok d ∧ d.moment = t ∧ d.layers = []) ↔ Openable v st := by
  have hchoose : chooseMoment st (atEndOfSecond (second t * nanos)) = .ok (zeroTime, true) := by
    have hle := (le_endOfSecond_iff t).mpr le_rfl
    have hsecond : second (second t * nanos) = second t := second_listedSecond _
    unfold chooseMoment atEndOfSecond
    rw [ht, hsecond]
    by_cases hzero : second t * nanos = zeroTime
    · simp [hzero]
    · simp [hzero, not_lt.mpr hle]
  simp only [openListed, openDiskView_of_state hfiles hst, hchoose]
  constructor
  · rintro ⟨d, ⟨hopen, -⟩, -⟩
    exact hopen
  · intro hopen
    obtain ⟨disk, hdisk⟩ := hopen.2.2
    refine ⟨_, ⟨hopen, _, [], disk, rfl, rfl, hdisk, rfl⟩, ?_, rfl⟩
    simp [newView, ht]

theorem opened_listed (hd : openDiskView v asked = .ok d)
    (hknown : d.momentKnown = true) : d.moment ∈ reached files ++ st.moment.toList := by
  obtain ⟨-, c, layers, disk, hc, -, -, rfl⟩ := (openDiskView_of_state hfiles hst).mp hd
  unfold chooseMoment at hc
  cases ht : st.moment with
  | none =>
    rw [ht] at hc
    cases hc
    simp [newView, ht] at hknown
  | some t =>
    rw [ht] at hc
    by_cases hlatest : asked = zeroTime ∨ ¬ asked < t
    · simp only [if_pos hlatest] at hc
      cases hc
      simp [newView, ht]
    · simp only [if_neg hlatest] at hc
      rw [foldl_restorePoints, restorePoints_stateFrom _ v st hst] at hc
      cases hlast : lastNotAfter id asked (reached files) with
      | none => simp [hlast] at hc
      | some p =>
        simp only [hlast] at hc
        split at hc
        · cases hc
        · cases hc
          exact mem_append_left _ (lastNotAfter_mem id asked hlast).1

end

/-- The name of a restore point opens it exactly if no moment that is listed after it has its
second or an earlier one. -/
theorem point_opens_iff (hfiles : appliedUndo v = .ok (before ++ u :: later))
    (hst : stateFrom v (before ++ u :: later) = .ok st) (hpos : 0 < second u.hdr.fromMoment)
    {layers : List ViewLayer} (hlayers : indexAll (u :: later) = .ok layers) :
    (∃ d, openListed v (second u.hdr.fromMoment) = .ok d ∧ d.layers = layers) ↔ Openable v st ∧
        ∀ p ∈ reached later ++ st.moment.toList, second u.hdr.fromMoment < second p := by
  obtain ⟨t, ht⟩ := moment_stateFrom hst
  have hlen := indexAll_length hlayers
  have hchoose := chooseMoment_listed ht (restorePoints_stateFrom _ v st hst) hpos
  rw [ht, Option.toList_some, forall_mem_append, forall_mem_singleton]
  unfold openListed
  by_cases hlatest : second t ≤ second u.hdr.fromMoment
  · rw [if_pos hlatest] at hchoose
    rw [shows_iff hfiles hst hchoose]
    refine iff_of_false ?_ (fun hall => not_lt.mpr hlatest hall.2.2)
    rintro ⟨-, hls⟩
    cases hls
    cases hlen
  · rw [if_neg hlatest] at hchoose
    rw [shows_iff hfiles hst hchoose, and_iff_left (not_le.mp hlatest)]
    refine and_congr_right fun _ => ?_
    unfold viewLayers
    cases hlast : lastNotAfter id (second u.hdr.fromMoment * nanos + (nanos - 1))
        (reached later) with
    | none =>
      rw [lastNotAfter_eq_none_iff] at hlast
      simp only [le_endOfSecond_iff, not_le] at hlast
      have hnone : filesFrom u.hdr.fromMoment later = none := by
        rw [filesFrom_eq_none_iff]
        intro w hw hfrom
        exact lt_irrefl _ (hlast _ (mem_reached.mpr ⟨w, hw, hpos, hfrom⟩))
      have hfrom : filesFrom u.hdr.fromMoment (u :: later) = some (u :: later) := by
        rw [filesFrom, hnone]
        exact if_pos rfl
      rw [Option.getD_none, filesFrom_append before hfrom]
      exact iff_of_true hlayers hlast
    | some p =>
      obtain ⟨hp, hle⟩ := lastNotAfter_mem id _ hlast
      rw [le_endOfSecond_iff] at hle
      refine iff_of_false ?_ (fun hall => not_lt.mpr hle (hall p hp))
      intro hls
      obtain ⟨w, hw, -, rfl⟩ := mem_reached.mp hp
      obtain ⟨us, hus⟩ := Option.ne_none_iff_exists'.mp
        (fun hnone => filesFrom_eq_none_iff.mp hnone w hw rfl)
      have hshort := (filesFrom_suffix hus).2.length_le
      rw [Option.getD_some, append_cons, filesFrom_append (before ++ [u]) hus] at hls
      rw [indexAll_length hls, length_cons] at hlen
      omega

/-- The moments of a disk are its restore points and the moment that it shows. A restore
point opens by its listed name exactly if the disk can be opened and no moment that is listed
after it has its second or an earlier one. The moment that the disk shows always does, and
each moment that any time opens is listed. -/
theorem listed_moments_open_iff (hfiles : appliedUndo v = .ok files)
    (hst : stateFrom v files = .ok st) :
    moments v = .ok ((reached files ++ st.moment.toList).map second) ∧
      (∀ before u later layers, files = before ++ u :: later → 0 < second u.hdr.fromMoment →
        indexAll (u :: later) = .ok layers →
        ((∃ d, openListed v (second u.hdr.fromMoment) = .ok d ∧ d.layers = layers) ↔ Openable v st ∧
            ∀ p ∈ reached later ++ st.moment.toList, second u.hdr.fromMoment < second p)) ∧
      (∀ t, st.moment = some t →
        ((∃ d, openListed v (second t) = .ok d ∧ d.moment = t ∧ d.layers = []) ↔ Openable v st)) ∧
      ∀ asked d, openDiskView v asked = .ok d → d.momentKnown = true →
        d.moment ∈ reached files ++ st.moment.toList := by
  refine ⟨?_, ?_, fun t ht => moment_opens_iff hfiles hst ht,
    fun asked d hd hknown => opened_listed hfiles hst hd hknown⟩
  · have hread : readDiskState v = .ok st := except_bind_ok.mpr ⟨files, hfiles, hst⟩
    rw [moments, hread, ← restorePoints_stateFrom files v st hst]
    rfl
  · rintro before u later layers rfl hpos hlayers
    exact point_opens_iff hfiles hst hpos hlayers

/-- A restore point and the moment that the disk shows are listed, and both open. -/
theorem listed_moments_open_oneUndo : moments (oneUndo [⟨0, [1]⟩]) = .ok [2, 5] ∧
      (∃ d, openListed (oneUndo [⟨0, [1]⟩]) 2 = .ok d ∧ d.layers =
        [⟨encodeUndo ⟨2000000000, 5000000000, 3, 4⟩ [⟨0, [1]⟩], [⟨0, 1, 56⟩], 3⟩]) ∧
      ∃ d, openListed (oneUndo [⟨0, [1]⟩]) 5 = .ok d ∧ d.moment = 5000000000 ∧ d.layers = [] := by
  have hfiles : appliedUndo (oneUndo [⟨0, [1]⟩]) =
      .ok [⟨1, seqName 1 ++ undoApplied, encodeUndo ⟨2000000000, 5000000000, 3, 4⟩ [⟨0, [1]⟩],
        ⟨2000000000, 5000000000, 3, 4⟩⟩] := by decide +kernel
  obtain ⟨hlist, hpoint, hopen, -⟩ := @listed_moments_open_iff _ _
    ⟨some 5000000000, [], [2000000000], false, false⟩ hfiles (by decide +kernel)
  exact ⟨hlist, (hpoint [] _ [] _ rfl (by decide) (by decide +kernel)).mpr
    ⟨⟨rfl, rfl, _, rfl⟩, by decide⟩, (hopen _ rfl).mpr ⟨rfl, rfl, _, rfl⟩⟩

/-- A disk whose restore point, at 5.1 seconds, and whose own moment, at 5.2 seconds, are in
one second. -/
def sameSecond : Volume := { oneUndo [] with
    undo := .folder [(seqName 1 ++ undoApplied,
      encodeUndo ⟨5100000000, 5200000000, 3, 4⟩ [⟨0, [1]⟩])] }

/-- Both are listed by one name, which opens the later one. -/
theorem same_second_hides_point : moments sameSecond = .ok [5, 5] ∧
      (openListed sameSecond 5).toOption.map View.moment = some 5200000000 ∧
      (openDiskView sameSecond 5100000000).toOption.map View.moment = some 5100000000 := by
  decide +kernel

end FilePool.GuestMoments
