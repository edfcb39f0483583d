import FilePool.FailoverChoice

/-!
The outcome of the choice of moments as a whole: when it ends well, what becomes of
each entry of the plan, and that the order of the entries and of the walks through
the maps does not matter. A plan is refused when a disk cannot be read, when a named
VM is not there, while a commit may be changing a disk, when the disks of a VM have no
common moment, and when a disk that must be rewound was written to.
-/
namespace FilePool.FailoverOutcome

open UndoFormat UndoNames VolumeSteps UndoFolder DiskMoments GroupedLists FailoverPlan List
  FailoverChoice DurableSteps ByteFiles

section States

variable {v : Volume} {st : DiskState} (h : readDiskState v = .ok st)

include h

theorem readDiskState_files : ∃ files, appliedUndo v = .ok files ∧
    momentFrom v files = .ok st.moment ∧ st.restorePoints =
      (files.filter (fun u => u.hdr.fromMoment / 1000000000 > 0)).map
        (fun u => u.hdr.fromMoment) := by
  obtain ⟨files, hfiles, h⟩ := except_bind_ok.mp h
  obtain ⟨t, ht, h⟩ := except_bind_ok.mp h
  obtain ⟨mf, -, h⟩ := except_bind_ok.mp h
  obtain ⟨unfinished, -, h⟩ := except_bind_ok.mp h
  cases h
  exact ⟨files, hfiles, ht, rfl⟩

/-- A moment that is known is not the value of a time that was never set. -/
theorem moment_ne_zeroTime : st.moment ≠ some zeroTime := by
  obtain ⟨files, hfiles, ht, -⟩ := readDiskState_files h
  generalize st.moment = t at ht ⊢
  unfold momentFrom at ht
  cases hlast : files.getLast? with
  | some u =>
    rw [hlast] at ht
    cases ht
    have hread := readUndo_of_appliedUndo v files hfiles u (mem_of_getLast? hlast)
    have hcheck : checkUndo u.bytes = .ok u.hdr := by
      unfold readUndo at hread
      cases hc : checkUndo u.bytes with
      | error e => rw [hc] at hread; cases hread
      | ok hdr => rw [hc] at hread; cases hread; rfl
    have hfields : u.hdr = headerFields u.bytes := by
      obtain ⟨rs, hparse⟩ := checkUndo_iff.mp hcheck
      exact (accepted_of_parseUndo u.bytes u.hdr rs hparse).header
    have hrange : BigEndian.InRange (headerFields u.bytes).toMoment := by
      simp only [headerFields]
      exact BigEndian.toSigned_inRange
    intro hzero
    have hto : u.hdr.toMoment = zeroTime := Option.some.inj hzero
    rw [← hfields, hto] at hrange
    unfold BigEndian.InRange zeroTime at hrange
    omega
  | none =>
    rw [hlast] at ht
    obtain ⟨mf', -, ht⟩ := except_bind_ok.mp ht
    cases mf' with
    | none => cases ht; exact nofun
    | some mf' =>
      by_cases hz : mf'.moment = zeroTime
      · simp only [if_pos hz] at ht
        cases ht
        exact nofun
      · simp only [if_neg hz] at ht
        cases ht
        exact fun h => hz (Option.some.inj h)

theorem restorePoint_pos {t : Moment} (ht : t ∈ st.restorePoints) : 0 < t / 1000000000 := by
  obtain ⟨files, -, -, hpoints⟩ := readDiskState_files h
  obtain ⟨u, hu, rfl⟩ := mem_map.mp (hpoints ▸ ht)
  simpa using (mem_filter.mp hu).2

end States

section Outcome

variable {share : Share} {opts : VMOptions} {p : Plan} {k : Name} {ds : List DiskInGroup}
  {ord : MapOrder} {p' : Plan} {now : Moment} {sv : PlanEntry}

/-- The plans that are accepted. -/
structure Resolvable (share : Share) (opts : VMOptions) (svs : List PlanEntry) : Prop where
  readable : ∀ sv ∈ svs, ∃ o, seeDisk share sv = .ok o
  found : ∀ n ∈ opts.vms, n ≠ [] → ∃ sv ∈ svs, n ∈ foundOf share sv
  idle : opts.force = false → ∀ sv ∈ svs, ∀ v st, seeDisk share sv = .ok (some (v, st)) →
    chosen opts (vmKey sv st) → leaseActive v opts.now = false
  matched : ∀ sv ∈ svs, ∀ k st, diskOf share opts sv = some (k, st) →
    (groupStates share opts svs k = [st] ∧ st.moment = none ∧ opts.rewindTo = none) ∨
      ((∀ st' ∈ groupStates share opts svs k, st'.moment ≠ none) ∧
        (Common (groupStates share opts svs k) opts.rewindTo).Nonempty)
  intact : ∀ sv ∈ svs, ∀ k st t, diskOf share opts sv = some (k, st) → st.moment ≠ none →
    IsGreatest (Common (groupStates share opts svs k) opts.rewindTo) t →
    st.moment ≠ some t → st.modified = false

theorem mem_normalizeVMs {vms : List Name} {n : Name} :
    n ∈ normalizeVMs vms ↔ n ∈ vms ∧ n ≠ [] := by
  unfold normalizeVMs
  simp

theorem unknownVMs_ok {want found : List Name} :
    unknownVMs want found = .ok () ↔ ∀ n ∈ want, n ≠ [] → n ∈ found := by
  have hmissing : (normalizeVMs want).filter (· ∉ found) = [] ↔
      ∀ n ∈ want, n ≠ [] → n ∈ found := by
    rw [filter_eq_nil_iff]
    simp only [mem_normalizeVMs, decide_eq_true_eq, not_not, and_imp]
  unfold unknownVMs
  dsimp only
  rw [← hmissing]
  split
  · rename_i h
    exact ⟨fun _ => h, fun _ => rfl⟩
  · rename_i h
    exact ⟨by rintro ⟨⟩, fun h' => absurd h' h⟩

theorem busy_eq_nil {svs : List PlanEntry} :
    svs.flatMap (busyOf share opts) = [] ↔
      (opts.force = false → ∀ sv ∈ svs, ∀ v st, seeDisk share sv = .ok (some (v, st)) →
        chosen opts (vmKey sv st) → leaseActive v opts.now = false) := by
  rw [flatMap_eq_nil_iff]
  constructor
  · intro h hforce sv hsv v st hsee hkey
    have hnil := h sv hsv
    unfold busyOf at hnil
    simp only [hsee, hkey, hforce, and_true] at hnil
    cases hlease : leaseActive v opts.now with
    | false => rfl
    | true => rw [hlease] at hnil; simp at hnil
  · intro h sv hsv
    unfold busyOf
    cases hsee : seeDisk share sv with
    | error e => rfl
    | ok o =>
      cases o with
      | none => rfl
      | some x =>
        refine if_neg ?_
        rintro ⟨hkey, hlease, hforce⟩
        rw [h hforce sv hsv x.1 x.2 hsee hkey] at hlease
        cases hlease

/-- The conditions on one VM, for the disks of its group. -/
theorem mem_groupStates {svs : List PlanEntry} {st : DiskState} :
    st ∈ groupStates share opts svs k ↔ ∃ sv ∈ svs, diskOf share opts sv = some (k, st) := by
  unfold groupStates
  rw [mem_valuesOf, mem_filterMap]

theorem lone_iff {svs : List PlanEntry}
    (hds : ds = valuesOf k (planDisks share opts svs)) :
    Lone ds ↔ ∃ st, groupStates share opts svs k = [st] ∧ st.moment = none := by
  have hstates : ds.map DiskInGroup.state = groupStates share opts svs k := by
    rw [hds, states_planDisks]
  rw [← hstates]
  constructor
  · rintro ⟨hone, hnone⟩
    obtain ⟨d, rfl⟩ := length_eq_one_iff.mp hone
    exact ⟨d.state, rfl, hnone d (mem_singleton_self d)⟩
  · rintro ⟨st, hst, hnone⟩
    obtain ⟨d, rfl, rfl⟩ := map_eq_singleton_iff.mp hst
    exact ⟨rfl, by simpa using hnone⟩

/-- The conditions on a VM are the ones under which its analysis ends well. -/
theorem analyzeGroup_ok_iff {svs : List PlanEntry}
    (hds : ds = valuesOf k (planDisks share opts svs)) (hne : ds ≠ []) :
    (∃ r, analyzeGroup ord opts (k, ds) = .ok r) ↔
      (∃ st, groupStates share opts svs k = [st] ∧ st.moment = none ∧ opts.rewindTo = none) ∨
        ((∀ st ∈ groupStates share opts svs k, st.moment ≠ none) ∧
          (Common (groupStates share opts svs k) opts.rewindTo).Nonempty) := by
  have hstates : ds.map DiskInGroup.state = groupStates share opts svs k := by
    rw [hds, states_planDisks]
  have hknown : (∀ d ∈ ds, d.state.moment ≠ none) ↔
      ∀ st ∈ groupStates share opts svs k, st.moment ≠ none := by
    rw [← hstates, forall_mem_map]
  have hlone := lone_iff hds
  constructor
  · rintro ⟨r, hr⟩
    obtain ⟨-, -, ⟨hl, hlimit, -⟩ | ⟨hk, t, ts, -, hgreat⟩⟩ := analyzeGroup_ok hne hr
    · obtain ⟨st, hst, hnone⟩ := hlone.mp hl
      exact .inl ⟨st, hst, hnone, hlimit⟩
    · exact .inr ⟨hknown.mp hk, t, hstates ▸ hgreat.1⟩
  · intro h
    apply analyzeGroup_exists hne
    rcases h with ⟨st, hst, hnone, hlimit⟩ | ⟨hk, hcommon⟩
    · exact .inl ⟨hlone.mpr ⟨st, hst, hnone⟩, hlimit⟩
    · exact .inr ⟨hknown.mpr hk, hstates ▸ hcommon⟩

/-- The first four conditions are the ones under which the analysis ends well. -/
theorem analyzeVMs_ok_iff :
    (∃ gs, analyzeVMs ord share p opts = .ok gs) ↔
      (∀ sv ∈ p.subVolumes, ∃ o, seeDisk share sv = .ok o) ∧
      (∀ n ∈ opts.vms, n ≠ [] → ∃ sv ∈ p.subVolumes, n ∈ foundOf share sv) ∧
      (opts.force = false → ∀ sv ∈ p.subVolumes, ∀ v st, seeDisk share sv = .ok (some (v, st)) →
        chosen opts (vmKey sv st) → leaseActive v opts.now = false) ∧
      ∀ sv ∈ p.subVolumes, ∀ k st, diskOf share opts sv = some (k, st) →
        (groupStates share opts p.subVolumes k = [st] ∧ st.moment = none ∧
          opts.rewindTo = none) ∨
        ((∀ st' ∈ groupStates share opts p.subVolumes k, st'.moment ≠ none) ∧
          (Common (groupStates share opts p.subVolumes k) opts.rewindTo).Nonempty) := by
  simp only [analyzeVMs_eq_ok, unknownVMs_ok, busy_eq_nil, mem_flatMap, exists_and_left]
  refine and_congr_right fun _ => and_congr_right fun _ => and_congr_right fun _ => ?_
  have hitem : ∀ sv ∈ p.subVolumes, ∀ k st, diskOf share opts sv = some (k, st) →
      valuesOf k (planDisks share opts p.subVolumes) ≠ [] := by
    intro sv hsv k st hdisk hnil
    have hmem := mem_groupStates.mpr ⟨sv, hsv, hdisk⟩
    rw [← states_planDisks, hnil] at hmem
    cases hmem
  constructor
  · rintro ⟨gs, hgs⟩ sv hsv k st hdisk
    have hne := hitem sv hsv k st hdisk
    have hgroup : _ ∈ ord.groups _ := mem_groups.mpr ⟨rfl, hne⟩
    obtain ⟨r, -, hr⟩ := forall₂_left gs hgs hgroup
    have hcases := (analyzeGroup_ok_iff rfl hne).mp ⟨r, hr⟩
    rcases hcases with ⟨st', hst', hnone, hlimit⟩ | hknown
    · have hmem := mem_groupStates.mpr ⟨sv, hsv, hdisk⟩
      rw [hst', mem_singleton] at hmem
      subst hmem
      exact .inl ⟨hst', hnone, hlimit⟩
    · exact .inr hknown
  · intro h
    apply exists_forall₂
    rintro ⟨k, ds⟩ hg
    obtain ⟨hds, hne⟩ := mem_groups.mp hg
    apply (analyzeGroup_ok_iff hds hne).mpr
    obtain ⟨d, hd⟩ := exists_mem_of_ne_nil ds hne
    rw [hds, mem_valuesOf, mem_planDisks] at hd
    obtain ⟨sv, hsv, hdisk, -⟩ := hd
    rcases h sv (mem_of_getElem? hsv) k d.state hdisk with ⟨hst, hnone, hlimit⟩ | hknown
    · exact .inl ⟨d.state, hst, hnone, hlimit⟩
    · exact .inr hknown

theorem resolveVMs_eq_ok : resolveVMs ord share p opts = .ok p' ↔
      ∃ gs, analyzeVMs ord share p opts = .ok gs ∧ (∀ g ∈ gs, Intact g) ∧
        p' = recomputeRPO opts.now { p with
          subVolumes :=
            if opts.vms = [] then applyMarks ((ord.marks gs).flatMap marksOf) p.subVolumes
            else keepOnly gs (applyMarks ((ord.marks gs).flatMap marksOf) p.subVolumes) } := by
  unfold resolveVMs
  rw [except_bind_ok]
  refine exists_congr fun gs => and_congr_right fun _ => ?_
  rw [except_bind_ok]
  have hintact : (∀ g ∈ ord.marks gs, Intact g) ↔ ∀ g ∈ gs, Intact g := by
    simp only [(ord.marks_perm gs).mem_iff]
  constructor
  · rintro ⟨svs, hsvs, hp'⟩
    obtain ⟨hall, rfl⟩ := foldlM_markGroup_ok.mp hsvs
    exact ⟨hintact.mp hall, (Except.ok.inj hp').symm⟩
  · rintro ⟨hall, rfl⟩
    exact ⟨_, foldlM_markGroup_ok.mpr ⟨hintact.mpr hall, rfl⟩, rfl⟩

theorem recomputeRPO_subVolumes :
    (recomputeRPO now p).subVolumes = p.subVolumes := by
  unfold recomputeRPO
  dsimp only
  split <;> rfl

/-- The plan that is left holds, in its order, what becomes of the entries kept. -/
theorem resolved_kept (h : resolveVMs ord share p opts = .ok p') :
    List.Forall₂ (Resolved share opts p.subVolumes) (kept share opts p.subVolumes)
      p'.subVolumes := by
  obtain ⟨gs, hgs, -, rfl⟩ := resolveVMs_eq_ok.mp h
  obtain ⟨-, -, -, hforall⟩ := analyzeVMs_eq_ok.mp hgs
  have hacc := accepted_of_forall₂ hforall
  have hall := resolved_entries (hacc.perm (ord.marks_perm gs))
  rw [recomputeRPO_subVolumes]
  unfold kept
  by_cases hvms : opts.vms = []
  · simpa only [if_pos hvms] using hall
  · simp only [if_neg hvms]
    refine forall₂_keep hall 0 (fun i => decide (∃ g ∈ gs, ∃ d ∈ g.2.disks, d.idx = i)) ?_
    intro i sv hsv
    rw [Nat.zero_add]
    cases hdisk : diskOf share opts sv with
    | none =>
      rw [Option.isSome_none, decide_eq_false_iff_not]
      rintro ⟨g, hg, d, hd, rfl⟩
      obtain ⟨sv', hsv', hdisk', -⟩ := mem_planDisks.mp
        ((hacc.mem_disks hg).mp hd)
      rw [hsv] at hsv'
      cases hsv'
      rw [hdisk] at hdisk'
      cases hdisk'
    | some kst =>
      obtain ⟨k, st⟩ := kst
      rw [Option.isSome_some, decide_eq_true_eq]
      have hmem : (k, ⟨i, sv.subVolumeName, st⟩) ∈ planDisks share opts p.subVolumes :=
        mem_planDisks.mpr ⟨sv, hsv, hdisk, rfl⟩
      obtain ⟨a, ha⟩ := hacc.covers _ _ hmem
      exact ⟨(k, a), ha, _, (hacc.mem_disks ha).mpr hmem, rfl⟩

/-- A plan is accepted exactly when it meets the conditions, in whatever order the
walks go. -/
theorem resolveVMs_ok_iff :
    (∃ p', resolveVMs ord share p opts = .ok p') ↔ Resolvable share opts p.subVolumes := by
  have hintact : ∀ gs, analyzeVMs ord share p opts = .ok gs →
      ((∀ g ∈ gs, Intact g) ↔ ∀ sv ∈ p.subVolumes, ∀ k st t, diskOf share opts sv = some (k, st) →
        st.moment ≠ none →
        IsGreatest (Common (groupStates share opts p.subVolumes k) opts.rewindTo) t →
        st.moment ≠ some t → st.modified = false) := by
    intro gs hgs
    obtain ⟨-, -, -, hforall⟩ := analyzeVMs_eq_ok.mp hgs
    have hacc := accepted_of_forall₂ hforall
    have hstates : ∀ g ∈ gs, g.2.disks.map DiskInGroup.state =
        groupStates share opts p.subVolumes g.1 := by
      intro g hg
      rw [hacc.disks_eq g hg, states_planDisks]
    constructor
    · intro hall sv hsv k st t hdisk hknown hgreat hne
      obtain ⟨i, hi⟩ := getElem?_of_mem hsv
      have hmem : (k, ⟨i, sv.subVolumeName, st⟩) ∈ planDisks share opts p.subVolumes :=
        mem_planDisks.mpr ⟨sv, hi, hdisk, rfl⟩
      obtain ⟨a, ha⟩ := hacc.covers _ _ hmem
      have hd := (hacc.mem_disks ha).mpr hmem
      obtain ⟨-, -, ⟨hlone, -, -⟩ | ⟨-, t', ts, hc, hgreat'⟩⟩ := hacc.analyzed (k, a) ha
      · exact absurd (hlone.2 _ hd) hknown
      · rw [hstates (k, a) ha] at hgreat'
        have htt : t = t' := hgreat.unique hgreat'
        subst htt
        exact hall (k, a) ha t (by rw [hc]; rfl) _ hd hne
    · intro hall g hg t ht d hd hne
      obtain ⟨sv, hsv, hdisk, -⟩ := mem_planDisks.mp
        ((hacc.mem_disks hg).mp hd)
      obtain ⟨-, -, ⟨-, -, hnil⟩ | ⟨hknown, t', ts, hc, hgreat⟩⟩ := hacc.analyzed g hg
      · rw [hnil] at ht
        cases ht
      · rw [hc] at ht
        cases ht
        rw [hstates g hg] at hgreat
        exact hall sv (mem_of_getElem? hsv) g.1 d.state t hdisk (hknown d hd) hgreat hne
  constructor
  · rintro ⟨p', hp'⟩
    obtain ⟨gs, hgs, hall, -⟩ := resolveVMs_eq_ok.mp hp'
    obtain ⟨hread, hfound, hidle, hmatched⟩ := analyzeVMs_ok_iff.mp ⟨gs, hgs⟩
    exact ⟨hread, hfound, hidle, hmatched, (hintact gs hgs).mp hall⟩
  · intro h
    obtain ⟨gs, hgs⟩ := analyzeVMs_ok_iff.mpr ⟨h.readable, h.found, h.idle, h.matched⟩
    exact ⟨_, resolveVMs_eq_ok.mpr ⟨gs, hgs, (hintact gs hgs).mpr h.intact, rfl⟩⟩

theorem resolved_unique {svs : List PlanEntry} (sv a b : PlanEntry)
    (ha : Resolved share opts svs sv a) (hb : Resolved share opts svs sv b) : a = b := by
  unfold Resolved at ha hb
  cases hdisk : diskOf share opts sv with
  | none =>
    rw [hdisk] at ha hb
    exact ha.trans hb.symm
  | some kst =>
    rw [hdisk] at ha hb
    rcases ha with ⟨hnone, rfl⟩ | ⟨hknown, t, ht, rfl⟩ <;>
      rcases hb with ⟨hnone', rfl⟩ | ⟨hknown', t', ht', rfl⟩
    · rfl
    · exact absurd hnone hknown'
    · exact absurd hnone' hknown
    · rw [ht.unique ht']

section Order

variable {svs svs' : List PlanEntry} (hperm : svs'.Perm svs)

include hperm

theorem groupStates_perm {k : Name} :
    (groupStates share opts svs' k).Perm (groupStates share opts svs k) :=
  (hperm.filterMap _).filterMap _

theorem common_perm {k : Name} :
    Common (groupStates share opts svs' k) opts.rewindTo =
      Common (groupStates share opts svs k) opts.rewindTo := by
  unfold Common
  simp only [(groupStates_perm hperm).mem_iff]

theorem resolved_perm : Resolved share opts svs' = Resolved share opts svs := by
  unfold Resolved
  simp only [common_perm hperm]

theorem resolvable_perm (h : Resolvable share opts svs) : Resolvable share opts svs' where
  readable sv hsv := h.readable sv (hperm.mem_iff.mp hsv)
  found n hn hne := by
    obtain ⟨sv, hsv, hmem⟩ := h.found n hn hne
    exact ⟨sv, hperm.mem_iff.mpr hsv, hmem⟩
  idle hforce sv hsv := h.idle hforce sv (hperm.mem_iff.mp hsv)
  matched sv hsv k st hdisk := by
    have hstates := @groupStates_perm share opts _ _ hperm k
    rw [common_perm hperm]
    simp only [hstates.mem_iff]
    refine (h.matched sv (hperm.mem_iff.mp hsv) k st hdisk).imp_left ?_
    rintro ⟨hone, hrest⟩
    exact ⟨perm_singleton.mp (hone ▸ hstates), hrest⟩
  intact sv hsv k st t hdisk hknown hgreat := by
    rw [common_perm hperm] at hgreat
    exact h.intact sv (hperm.mem_iff.mp hsv) k st t hdisk hknown hgreat

theorem kept_perm : (kept share opts svs').Perm (kept share opts svs) := by
  unfold kept
  split
  · exact hperm
  · exact hperm.filter _

end Order

/-- Where every entry has a time of its last sync, the oldest one is the least. -/
theorem oldestSync_isLeast {svs : List PlanEntry} (h : ∀ sv ∈ svs, sv.lastSyncTime ≠ zeroTime)
    (hne : svs ≠ []) : IsLeast {t | ∃ sv ∈ svs, sv.lastSyncTime = t} (oldestSync svs) := by
  induction svs using reverseRecOn with
  | nil => exact absurd rfl hne
  | append_singleton svs sv ih =>
    have hstep : oldestSync (svs ++ [sv]) =
        if oldestSync svs = zeroTime ∨ sv.lastSyncTime < oldestSync svs then sv.lastSyncTime
        else oldestSync svs := by
      rw [oldestSync, foldl_append]
      rfl
    rw [hstep]
    have hin : ∀ z ∈ svs, z ∈ svs ++ [sv] := fun z hz => mem_append_left _ hz
    have hlast : sv ∈ svs ++ [sv] := mem_append_right _ (mem_singleton_self sv)
    cases svs with
    | nil =>
      rw [if_pos (.inl rfl)]
      refine ⟨⟨sv, hlast, rfl⟩, ?_⟩
      rintro t ⟨sv', hsv', rfl⟩
      rw [mem_singleton.mp hsv']
    | cons x xs =>
      obtain ⟨⟨y, hy, hyt⟩, hlow⟩ := ih (fun z hz => h z (hin z hz)) (by simp)
      have hset : oldestSync (x :: xs) ≠ zeroTime := hyt ▸ h y (hin y hy)
      split
      · rename_i hlt
        have hless := hlt.resolve_left hset
        refine ⟨⟨sv, hlast, rfl⟩, ?_⟩
        rintro t ⟨z, hz, rfl⟩
        rcases mem_append.mp hz with hz | hz
        · exact le_of_lt (lt_of_lt_of_le hless (hlow ⟨z, hz, rfl⟩))
        · rw [mem_singleton.mp hz]
      · rename_i hlt
        refine ⟨⟨y, hin y hy, hyt⟩, ?_⟩
        rintro t ⟨z, hz, rfl⟩
        rcases mem_append.mp hz with hz | hz
        · exact hlow ⟨z, hz, rfl⟩
        · rw [mem_singleton.mp hz]
          exact not_lt.mp (fun hless => hlt (.inr hless))

theorem oldestSync_perm {svs svs' : List PlanEntry} (hperm : svs'.Perm svs)
    (h : ∀ sv ∈ svs, sv.lastSyncTime ≠ zeroTime) : oldestSync svs' = oldestSync svs := by
  by_cases hnil : svs = []
  · subst hnil
    rw [hperm.eq_nil]
  · have hnil' : svs' ≠ [] := fun h' => hnil ((h' ▸ hperm).symm.eq_nil)
    have hleast := oldestSync_isLeast h hnil
    have hleast' := oldestSync_isLeast (fun sv hsv => h sv (hperm.mem_iff.mp hsv)) hnil'
    simp only [hperm.mem_iff] at hleast'
    exact hleast'.unique hleast

theorem readDiskState_of_seeDisk {x : Volume × DiskState}
    (h : seeDisk share sv = .ok (some x)) : readDiskState x.1 = .ok x.2 := by
  unfold seeDisk at h
  split at h
  · cases h
  split at h
  · cases h
  split at h
  · cases h
  split at h
  · cases h
  · rename_i st hst
    split at h
    · cases h
    · cases h
      exact hst

theorem mem_of_mem_kept {svs : List PlanEntry}
    (h : sv ∈ kept share opts svs) : sv ∈ svs := by
  unfold kept at h
  split at h
  · exact h
  · exact (mem_filter.mp h).1

theorem rpo_recompute {rpo : ℤ} (h : p' = recomputeRPO now p)
    (hrpo : p.rpo = rpo) :
    p'.rpo = if oldestSync p'.subVolumes = zeroTime then rpo
      else subTime now (oldestSync p'.subVolumes) := by
  subst h
  unfold recomputeRPO
  dsimp only
  split
  · exact hrpo
  · rfl

/-- What becomes of the entries with a time of their last sync has one, too. -/
theorem resolved_lastSyncTime {svs : List PlanEntry} {sv' : PlanEntry} (hmem : sv ∈ svs)
    (hsv : sv.lastSyncTime ≠ zeroTime) (h : Resolved share opts svs sv sv') :
    sv'.lastSyncTime ≠ zeroTime := by
  unfold Resolved at h
  cases hdisk : diskOf share opts sv with
  | none =>
    rw [hdisk] at h
    exact h ▸ hsv
  | some kst =>
    obtain ⟨k, st⟩ := kst
    rw [hdisk] at h
    rcases h with ⟨-, rfl⟩ | ⟨-, t, ⟨⟨hshow, -⟩, -⟩, rfl⟩
    · exact hsv
    · obtain ⟨v, hsee, -⟩ := diskOf_eq_some.mp hdisk
      have hv : readDiskState v = .ok st := readDiskState_of_seeDisk hsee
      rcases hshow st (mem_groupStates.mpr ⟨sv, hmem, hdisk⟩) with hm | hp
      · intro hzero
        exact moment_ne_zeroTime hv (hm.trans (congrArg some hzero))
      · have hpos := restorePoint_pos hv hp
        intro hzero
        rw [show t = zeroTime from hzero] at hpos
        exact absurd hpos (by decide)

/-- The choice of moments: when it ends well, what becomes of each entry, and that the
order of the entries and of the walks through the maps does not matter. -/
theorem resolveVMs_newest_common (share : Share) (opts : VMOptions) (ord : MapOrder) (p : Plan) :
    ((∃ p', resolveVMs ord share p opts = .ok p') ↔ Resolvable share opts p.subVolumes) ∧
    ∀ p', resolveVMs ord share p opts = .ok p' →
      List.Forall₂ (Resolved share opts p.subVolumes) (kept share opts p.subVolumes)
        p'.subVolumes ∧
      ∀ (ord' : MapOrder) (q : Plan), q.subVolumes.Perm p.subVolumes → q.rpo = p.rpo →
        ∃ q', resolveVMs ord' share q opts = .ok q' ∧
          (∃ f, p'.subVolumes = (kept share opts p.subVolumes).map f ∧
            q'.subVolumes = (kept share opts q.subVolumes).map f) ∧
          ((∀ sv ∈ p.subVolumes, sv.lastSyncTime ≠ zeroTime) → q'.rpo = p'.rpo) := by
  refine ⟨resolveVMs_ok_iff, ?_⟩
  intro p' hp'
  have hkept := resolved_kept hp'
  refine ⟨hkept, ?_⟩
  intro ord' q hperm hrpo
  have hq := resolvable_perm hperm (resolveVMs_ok_iff.mp ⟨p', hp'⟩)
  obtain ⟨q', hq'⟩ := resolveVMs_ok_iff.mpr hq
  have hkept' := resolved_kept hq'
  rw [resolved_perm hperm] at hkept'
  have : Nonempty PlanEntry := ⟨⟨[], [], 0, [], [], 0, false⟩⟩
  obtain ⟨f, hf⟩ := exists_map_of_forall₂ resolved_unique
  refine ⟨q', hq', ⟨f, hf _ _ hkept, hf _ _ hkept'⟩, ?_⟩
  intro hsync
  have hentries : q'.subVolumes.Perm p'.subVolumes := by
    rw [hf _ _ hkept, hf _ _ hkept']
    exact (kept_perm hperm).map f
  have hset : ∀ sv ∈ p'.subVolumes, sv.lastSyncTime ≠ zeroTime := by
    intro sv' hsv'
    obtain ⟨sv, hsv, hres⟩ := forall₂_left _ hkept.flip hsv'
    have hmem : sv ∈ p.subVolumes := mem_of_mem_kept hsv
    exact resolved_lastSyncTime hmem (hsync sv hmem) hres
  obtain ⟨gs, -, -, hp''⟩ := resolveVMs_eq_ok.mp hp'
  obtain ⟨gs', -, -, hq''⟩ := resolveVMs_eq_ok.mp hq'
  rw [rpo_recompute hq'' rfl, rpo_recompute hp'' rfl, oldestSync_perm hentries hset, hrpo]

end Outcome

/-- A far-site disk of one byte that the receiver wrote for the VM v in the namespace n. -/
def farDisk (moment : Moment) (undo : List (Name × Bytes)) (lease : Option (Option Moment)) :
    Volume :=
  { Volume.empty with
    disk := some ⟨[1], 3, true⟩
    undo := .folder undo
    momentFile := some (some ⟨moment, ['n', '/', 'v'], 3, 1⟩)
    lease := lease }

/-- One disk shows second 7 and can be rewound to second 5, the other shows second 5. -/
def twoDisks (lease : Option (Option Moment)) : Share := fun dir =>
  if dir = ['a'] then
    some (farDisk 7000000000 [(seqName 1 ++ undoApplied,
      encodeUndo ⟨5000000000, 7000000000, 1, 1⟩ [])] lease)
  else if dir = ['b'] then some (farDisk 5000000000 [] none)
  else none

def planned (name : Name) : PlanEntry := ⟨name, name, 9000000000, name, [], zeroTime, false⟩

def twoDisksPlan : Plan := ⟨[planned ['a'], planned ['b'], planned ['c']], 0⟩

def anyMoment : VMOptions := ⟨none, false, 10000000000, []⟩

def chosenEntry (name : Name) (rewind : Bool) : PlanEntry :=
  { planned name with
    vmGroup := ['n', '/', 'v']
    vmMoment := 5000000000
    lastSyncTime := 5000000000
    rewind := rewind }

theorem resolveVMs_newest_common_twoDisks :
    resolveVMs .listed (twoDisks none) twoDisksPlan anyMoment =
        .ok ⟨[chosenEntry ['a'] true, chosenEntry ['b'] false, planned ['c']], 5000000000⟩ ∧
      List.Forall₂ (Resolved (twoDisks none) anyMoment twoDisksPlan.subVolumes)
        twoDisksPlan.subVolumes
        [chosenEntry ['a'] true, chosenEntry ['b'] false, planned ['c']] := by
  have hok : resolveVMs .listed (twoDisks none) twoDisksPlan anyMoment =
      .ok ⟨[chosenEntry ['a'] true, chosenEntry ['b'] false, planned ['c']], 5000000000⟩ := by
    decide +kernel
  exact ⟨hok, ((resolveVMs_newest_common (twoDisks none) anyMoment .listed twoDisksPlan).2 _ hok).1⟩

/-- While a commit may be changing a disk the plan is refused, although the disks have
a common moment. -/
theorem running_commit_refuses_plan :
    resolveVMs .listed (twoDisks (some (some 11000000000))) twoDisksPlan anyMoment =
        .error (.busy [['a']]) ∧
      (groupStates (twoDisks (some (some 11000000000))) anyMoment twoDisksPlan.subVolumes
        ['n', '/', 'v']).length = 2 ∧
      ∀ st ∈ groupStates (twoDisks (some (some 11000000000))) anyMoment twoDisksPlan.subVolumes
        ['n', '/', 'v'], st.moment = some 5000000000 ∨ 5000000000 ∈ st.restorePoints := by
  decide +kernel

end FilePool.FailoverOutcome
