import FilePool.FailoverPlan

/-!
What the choice of moments gives. Each entry of the plan either is a disk of a chosen
VM or is left alone. The groups that the scan builds hold exactly the disks of each
VM, a VM that is accepted gets the newest moment all its disks can show, and the
marks go to different entries. So the result of an entry depends on the entries of
its VM only, and not on the order of the entries or of the walks through the maps.
-/
namespace FilePool.FailoverChoice

open UndoFormat UndoNames UndoFolder DiskMoments GroupedLists FailoverPlan List

/-- The VM and the state of an entry that is a disk of a chosen VM. -/
def diskOf (share : Share) (opts : VMOptions) (sv : PlanEntry) : Option (Name × DiskState) :=
  match seeDisk share sv with
  | .ok (some x) => if chosen opts (vmKey sv x.2) then some (vmKey sv x.2, x.2) else none
  | _ => none

/-- The states of the disks of one VM. -/
def groupStates (share : Share) (opts : VMOptions) (svs : List PlanEntry) (k : Name) :
    List DiskState :=
  valuesOf k (svs.filterMap (diskOf share opts))

/-- A disk shows a moment now or can be rewound to it. -/
def CanShow (st : DiskState) (t : Moment) : Prop := st.moment = some t ∨ t ∈ st.restorePoints

/-- The moments not after the limit that every disk can show. -/
def Common (sts : List DiskState) (limit : Option Moment) : Set Moment :=
  {t | (∀ st ∈ sts, CanShow st t) ∧ notAfter limit t}

variable {share : Share} {opts : VMOptions} {sv : PlanEntry} {k : Name} {st : DiskState}

def foundOf (share : Share) (sv : PlanEntry) : List Name :=
  match seeDisk share sv with
  | .ok (some x) => if x.2.vmGroup = [] then [] else [x.2.vmGroup]
  | _ => []

def busyOf (share : Share) (opts : VMOptions) (sv : PlanEntry) : List Name :=
  match seeDisk share sv with
  | .ok (some x) =>
    if chosen opts (vmKey sv x.2) ∧ leaseActive x.1 opts.now = true ∧ opts.force = false then
      [sv.subVolumeName]
    else []
  | _ => []

theorem diskOf_eq_some :
    diskOf share opts sv = some (k, st) ↔
      ∃ v, seeDisk share sv = .ok (some (v, st)) ∧ chosen opts k ∧ vmKey sv st = k := by
  unfold diskOf
  cases hsee : seeDisk share sv with
  | error e => simp
  | ok o =>
    cases o with
    | none => simp
    | some x =>
      obtain ⟨v, st'⟩ := x
      dsimp only
      constructor
      · intro h
        split at h
        · rename_i hkey
          cases h
          exact ⟨v, rfl, hkey, rfl⟩
        · cases h
      · rintro ⟨v', hv', hkey, rfl⟩
        cases hv'
        rw [if_pos hkey]

/-- The disk that an entry adds to a group. -/
def itemOf (share : Share) (opts : VMOptions) (x : PlanEntry × ℕ) : Option (Name × DiskInGroup) :=
  (diskOf share opts x.1).map (fun y => (y.1, ⟨x.2, x.1.subVolumeName, y.2⟩))

theorem vmKey_of_group (h : st.vmGroup ≠ []) :
    vmKey sv st = st.vmGroup := if_neg h

theorem scanEntry_eq (s : Scan) (x : PlanEntry × ℕ) :
    scanEntry share opts s x = (seeDisk share x.1).map (fun _ =>
      ⟨(itemOf share opts x).toList.foldl (fun gs y => addTo y.1 y.2 gs) s.groups,
        s.found ++ foundOf share x.1, s.busy ++ busyOf share opts x.1⟩) := by
  unfold scanEntry itemOf diskOf foundOf busyOf
  cases seeDisk share x.1 with
  | error e => rfl
  | ok o =>
    cases o with
    | none => simp [Except.map, bind, Except.bind, pure, Except.pure]
    | some vst =>
      obtain ⟨v, st⟩ := vst
      by_cases hgroup : st.vmGroup = []
      · by_cases hkey : chosen opts (vmKey x.1 st) <;>
          cases hlease : leaseActive v opts.now <;> cases hforce : opts.force <;>
          simp [Except.map, bind, Except.bind, pure, Except.pure, hgroup, hkey, hlease]
      · by_cases hkey : chosen opts st.vmGroup <;>
          cases hlease : leaseActive v opts.now <;> cases hforce : opts.force <;>
          simp [Except.map, bind, Except.bind, pure, Except.pure, hgroup, hkey, hlease,
            vmKey_of_group]

theorem ok_eq_iff {α : Type} {a b : α} {p : Prop} (hp : p) :
    (Except.ok a : Except Err α) = .ok b ↔ p ∧ b = a := by
  simp [hp, eq_comm]

/-- The scan ends well exactly when every disk can be read, and it collects the disks
of the chosen VMs, the names of all VMs and the disks that a commit may change. -/
theorem scan_ok {xs : List (PlanEntry × ℕ)} {s s' : Scan} :
    xs.foldlM (scanEntry share opts) s = .ok s' ↔
      (∀ x ∈ xs, ∃ o, seeDisk share x.1 = .ok o) ∧
      s' = ⟨(xs.filterMap (itemOf share opts)).foldl (fun gs y => addTo y.1 y.2 gs) s.groups,
        s.found ++ xs.flatMap (fun x => foundOf share x.1),
        s.busy ++ xs.flatMap (fun x => busyOf share opts x.1)⟩ := by
  induction xs generalizing s with
  | nil =>
    simp only [flatMap_nil, append_nil]
    exact ok_eq_iff nofun
  | cons x xs ih =>
    rw [foldlM_cons, scanEntry_eq]
    cases hsee : seeDisk share x.1 with
    | error e =>
      constructor
      · intro h
        cases h
      · rintro ⟨hread, -⟩
        obtain ⟨o, ho⟩ := hread x mem_cons_self
        cases hsee.symm.trans ho
    | ok o =>
      change xs.foldlM (scanEntry share opts) _ = .ok s' ↔ _
      rw [ih]
      have hitems : (x :: xs).filterMap (itemOf share opts) =
          (itemOf share opts x).toList ++ xs.filterMap (itemOf share opts) := by
        cases hitem : itemOf share opts x <;> simp [hitem]
      rw [hitems]
      simp only [mem_cons, forall_eq_or_imp, hsee, append_assoc]
      simp

variable {ord : MapOrder} {t : Moment} {ds : List DiskInGroup} {svs' : List PlanEntry}

theorem mem_showable (h : st.moment ≠ none) :
    t ∈ showable st ↔ CanShow st t := by
  obtain ⟨m, hm⟩ := Option.ne_none_iff_exists'.mp h
  unfold showable CanShow
  rw [mem_dedup, hm]
  simp [eq_comm]

/-- A VM with one disk whose moment is not known is used as it is. -/
def Lone (ds : List DiskInGroup) : Prop := ds.length = 1 ∧ ∀ d ∈ ds, d.state.moment = none

theorem unknownDisk_eq_none (hne : ds ≠ []) : unknownDisk opts ds = none ↔
      (∀ d ∈ ds, d.state.moment ≠ none) ∨ (Lone ds ∧ opts.rewindTo = none) := by
  unfold unknownDisk Lone
  rw [find?_eq_none]
  constructor
  · intro h
    by_cases hall : ∀ d ∈ ds, d.state.moment ≠ none
    · exact .inl hall
    · push Not at hall
      obtain ⟨d, hd, hnone⟩ := hall
      have hd' := h d hd
      simp only [hnone, true_and, decide_eq_true_eq, not_or, not_not] at hd'
      have hpos : 0 < ds.length := length_pos_of_mem hd
      have hone : ds.length = 1 := by omega
      obtain ⟨x, rfl⟩ := length_eq_one_iff.mp hone
      have hdx := mem_singleton.mp hd
      subst hdx
      exact .inr ⟨⟨rfl, by simpa using hnone⟩, hd'.2⟩
  · rintro (hall | ⟨⟨hone, -⟩, hlimit⟩) d hd
    · simp [hall d hd]
    · simp [hone, hlimit]

theorem mem_common (hne : ds ≠ [])
    (hknown : ∀ d ∈ ds, d.state.moment ≠ none) :
    t ∈ (ord.moments (commonOf (ds.map (fun d => showable d.state)))).filter
        (notAfter opts.rewindTo) ↔
      t ∈ Common (ds.map DiskInGroup.state) opts.rewindTo := by
  rw [mem_filter, (ord.moments_perm _).mem_iff, mem_commonOf (by simpa using hne)]
  unfold Common
  simp only [mem_map, forall_exists_index, and_imp, forall_apply_eq_imp_iff₂,
    decide_eq_true_eq]
  have hshow : ∀ d ∈ ds, (t ∈ showable d.state ↔ CanShow d.state t) := fun d hd =>
    mem_showable (hknown d hd)
  constructor
  · rintro ⟨hall, hlimit⟩
    exact ⟨fun d hd => (hshow d hd).mp (hall d hd), hlimit⟩
  · rintro ⟨hall, hlimit⟩
    exact ⟨fun d hd => (hshow d hd).mpr (hall d hd), hlimit⟩

/-- What the analysis of one VM is: nothing for a lone disk of unknown moment, and
else the newest common moment first. -/
def Analyzed (opts : VMOptions) (g : Name × List DiskInGroup) (r : Name × VMGroupAnalysis) :
    Prop :=
  r.1 = g.1 ∧ r.2.disks = g.2 ∧
    ((Lone g.2 ∧ opts.rewindTo = none ∧ r.2.common = []) ∨
      ((∀ d ∈ g.2, d.state.moment ≠ none) ∧ ∃ t ts, r.2.common = t :: ts ∧
        IsGreatest (Common (g.2.map DiskInGroup.state) opts.rewindTo) t))

theorem lone_not_known (h : Lone ds) :
    ¬ ∀ d ∈ ds, d.state.moment ≠ none := by
  intro hall
  obtain ⟨hone, hnone⟩ := h
  obtain ⟨d, rfl⟩ := length_eq_one_iff.mp hone
  exact hall d (mem_singleton_self d) (hnone d (mem_singleton_self d))

theorem analyzeGroup_known {g : Name × List DiskInGroup} (hne : g.2 ≠ [])
    (hknown : ∀ d ∈ g.2, d.state.moment ≠ none) :
    analyzeGroup ord opts g =
      if newestFirst ((ord.moments (commonOf (g.2.map (fun d => showable d.state)))).filter
          (notAfter opts.rewindTo)) = [] then
        .error (.noCommonMoment g.1 g.2 opts.rewindTo)
      else .ok (g.1, ⟨g.2, newestFirst
        ((ord.moments (commonOf (g.2.map (fun d => showable d.state)))).filter
          (notAfter opts.rewindTo))⟩) := by
  unfold analyzeGroup
  rw [(unknownDisk_eq_none hne).mpr (.inl hknown)]
  exact if_neg (fun h => lone_not_known h hknown)

theorem analyzeGroup_ok {g : Name × List DiskInGroup} (hne : g.2 ≠ [])
    {r : Name × VMGroupAnalysis} (h : analyzeGroup ord opts g = .ok r) : Analyzed opts g r := by
  cases hunknown : unknownDisk opts g.2 with
  | some d =>
    unfold analyzeGroup at h
    rw [hunknown] at h
    cases h
  | none =>
    rcases (unknownDisk_eq_none hne).mp hunknown with hknown | ⟨hlone, hlimit⟩
    · rw [analyzeGroup_known hne hknown] at h
      split at h
      · cases h
      · rename_i hsome
        cases h
        refine ⟨rfl, rfl, .inr ⟨hknown, ?_⟩⟩
        obtain ⟨t, ts, hts⟩ := exists_cons_of_ne_nil hsome
        refine ⟨t, ts, hts, ?_⟩
        have hgreat := isGreatest_head _ t ts hts
        exact ⟨(mem_common hne hknown).mp hgreat.1,
          fun x hx => hgreat.2 ((mem_common hne hknown).mpr hx)⟩
    · unfold analyzeGroup at h
      rw [hunknown] at h
      rw [if_pos (show g.2.length = 1 ∧ ∀ d ∈ g.2, d.state.moment = none from hlone)] at h
      cases h
      exact ⟨rfl, rfl, .inl ⟨hlone, hlimit, rfl⟩⟩

/-- A VM is accepted if it is a lone disk used as it is, or has a common moment. -/
theorem analyzeGroup_exists {g : Name × List DiskInGroup} (hne : g.2 ≠ [])
    (h : (Lone g.2 ∧ opts.rewindTo = none) ∨ ((∀ d ∈ g.2, d.state.moment ≠ none) ∧
      (Common (g.2.map DiskInGroup.state) opts.rewindTo).Nonempty)) :
    ∃ r, analyzeGroup ord opts g = .ok r := by
  rcases h with ⟨hlone, hlimit⟩ | ⟨hknown, t, ht⟩
  · unfold analyzeGroup
    rw [(unknownDisk_eq_none hne).mpr (.inr ⟨hlone, hlimit⟩)]
    exact ⟨_, if_pos hlone⟩
  · rw [analyzeGroup_known hne hknown, if_neg ?_]
    · exact ⟨_, rfl⟩
    · rw [newestFirst_eq_nil]
      exact ne_nil_of_mem ((mem_common hne hknown).mpr ht)

def marksOf (g : Name × VMGroupAnalysis) : List (ℕ × (PlanEntry → PlanEntry)) :=
  match g.2.common with
  | [] => []
  | t :: _ => g.2.disks.map (fun d => (d.idx, markDisk g.1 t d))

/-- No disk that must be rewound was written to. -/
def Intact (g : Name × VMGroupAnalysis) : Prop :=
  ∀ t ∈ g.2.common.head?, ∀ d ∈ g.2.disks, d.state.moment ≠ some t → d.state.modified = false

theorem markDisks_ok {key : Name} {svs : List PlanEntry} :
    markDisks key t ds svs = .ok svs' ↔
      (∀ d ∈ ds, d.state.moment ≠ some t → d.state.modified = false) ∧
        svs' = applyMarks (ds.map (fun d => (d.idx, markDisk key t d))) svs := by
  induction ds generalizing svs with
  | nil =>
    exact ok_eq_iff nofun
  | cons d ds ih =>
    rw [markDisks]
    by_cases hbad : d.state.moment ≠ some t ∧ d.state.modified = true
    · rw [if_pos hbad]
      constructor
      · intro h
        cases h
      · rintro ⟨hall, -⟩
        have hclean := hall d mem_cons_self hbad.1
        rw [hbad.2] at hclean
        cases hclean
    · rw [if_neg hbad, ih, forall_mem_cons]
      have hhead : d.state.moment ≠ some t → d.state.modified = false := fun hne =>
        Bool.eq_false_iff.mpr (fun hmod => hbad ⟨hne, hmod⟩)
      exact and_congr_left (fun _ => (and_iff_right hhead).symm)

theorem markGroup_ok {g : Name × VMGroupAnalysis} {svs : List PlanEntry} :
    markGroup svs g = .ok svs' ↔ Intact g ∧ svs' = applyMarks (marksOf g) svs := by
  unfold markGroup Intact marksOf
  cases g.2.common with
  | nil =>
    exact ok_eq_iff nofun
  | cons t ts =>
    simp only [markDisks_ok, head?_cons, Option.mem_def, Option.some.injEq, forall_eq']

theorem foldlM_markGroup_ok {gs : List (Name × VMGroupAnalysis)} {svs : List PlanEntry} :
    gs.foldlM markGroup svs = .ok svs' ↔
      (∀ g ∈ gs, Intact g) ∧ svs' = applyMarks (gs.flatMap marksOf) svs := by
  induction gs generalizing svs with
  | nil =>
    exact ok_eq_iff nofun
  | cons g gs ih =>
    rw [foldlM_cons, DurableSteps.except_bind_ok, forall_mem_cons]
    have hsplit : applyMarks ((g :: gs).flatMap marksOf) svs =
        applyMarks (gs.flatMap marksOf) (applyMarks (marksOf g) svs) := by
      exact foldl_append
    rw [hsplit]
    constructor
    · rintro ⟨mid, hmid, hrest⟩
      obtain ⟨hintact, rfl⟩ := markGroup_ok.mp hmid
      obtain ⟨hall, hsvs⟩ := ih.mp hrest
      exact ⟨⟨hintact, hall⟩, hsvs⟩
    · rintro ⟨⟨hintact, hall⟩, hsvs⟩
      exact ⟨_, markGroup_ok.mpr ⟨hintact, rfl⟩, ih.mpr ⟨hall, hsvs⟩⟩

variable {svs : List PlanEntry} {gs gs' : List (Name × VMGroupAnalysis)}
  {g g' : Name × VMGroupAnalysis} {d : DiskInGroup} {i : ℕ}

/-- The disks of the plan with their places, under their VMs. -/
def planDisks (share : Share) (opts : VMOptions) (svs : List PlanEntry) :
    List (Name × DiskInGroup) := svs.zipIdx.filterMap (itemOf share opts)

theorem mem_planDisks :
    (k, d) ∈ planDisks share opts svs ↔ ∃ sv, svs[d.idx]? = some sv ∧
      diskOf share opts sv = some (k, d.state) ∧ d.name = sv.subVolumeName := by
  unfold planDisks itemOf
  rw [mem_filterMap]
  constructor
  · rintro ⟨⟨sv, i⟩, hmem, hitem⟩
    obtain ⟨y, hy, heq⟩ := Option.map_eq_some_iff.mp hitem
    cases heq
    exact ⟨sv, mem_zipIdx_iff_getElem?.mp hmem, hy, rfl⟩
  · rintro ⟨sv, hsv, hdisk, hname⟩
    refine ⟨(sv, d.idx), mem_zipIdx_iff_getElem?.mpr hsv, ?_⟩
    rw [hdisk, ← hname]
    rfl

theorem states_planDisks (k : Name) :
    (valuesOf k (planDisks share opts svs)).map DiskInGroup.state =
      groupStates share opts svs k := by
  have hpairs : (planDisks share opts svs).map (fun y => (y.1, y.2.state)) =
      svs.filterMap (diskOf share opts) := by
    unfold planDisks itemOf
    rw [map_filterMap]
    conv_rhs => rw [← zipIdx_map_fst 0 svs, filterMap_map]
    congr 1
    funext x
    cases hd : diskOf share opts x.1 <;> simp [hd]
  unfold groupStates valuesOf
  rw [← hpairs, filterMap_map, map_filterMap]
  congr 1
  funext x
  by_cases hk : x.1 = k <;> simp

/-- The analysis of a plan: every VM once, with all its disks, and accepted. -/
structure Accepted (share : Share) (opts : VMOptions) (svs : List PlanEntry)
    (gs : List (Name × VMGroupAnalysis)) : Prop where
  nodup : (gs.map Prod.fst).Nodup
  disks_eq : ∀ g ∈ gs, g.2.disks = valuesOf g.1 (planDisks share opts svs)
  covers : ∀ k d, (k, d) ∈ planDisks share opts svs → ∃ a, (k, a) ∈ gs
  analyzed : ∀ g ∈ gs, Analyzed opts (g.1, g.2.disks) g

theorem Accepted.perm (h : Accepted share opts svs gs) (hperm : gs'.Perm gs) :
    Accepted share opts svs gs' where
  nodup := (hperm.map Prod.fst).nodup_iff.mpr h.nodup
  disks_eq g hg := h.disks_eq g (hperm.mem_iff.mp hg)
  covers k d hd := (h.covers k d hd).imp (fun _ ha => hperm.mem_iff.mpr ha)
  analyzed g hg := h.analyzed g (hperm.mem_iff.mp hg)

theorem Accepted.mem_disks (h : Accepted share opts svs gs) (hg : g ∈ gs) :
    d ∈ g.2.disks ↔ (g.1, d) ∈ planDisks share opts svs := by
  rw [h.disks_eq g hg, mem_valuesOf]

theorem planDisks_idx_nodup : ((planDisks share opts svs).map (fun y => y.2.idx)).Nodup := by
  have hsub : ((planDisks share opts svs).map (fun y => y.2.idx)).Sublist
      (svs.zipIdx.map Prod.snd) := by
    unfold planDisks
    induction svs.zipIdx with
    | nil => exact .slnil
    | cons x xs ih =>
      cases hitem : itemOf share opts x with
      | none =>
        rw [filterMap_cons_none hitem]
        exact ih.cons _
      | some y =>
        obtain ⟨z, -, rfl⟩ := Option.map_eq_some_iff.mp hitem
        rw [filterMap_cons_some hitem]
        exact ih.cons_cons _
  refine hsub.nodup ?_
  rw [zipIdx_map_snd]
  exact nodup_range'

/-- An analysis in which each VM has all its disks marks each place at most once. -/
theorem Accepted.marks_nodup (h : Accepted share opts svs gs) :
    ((gs.flatMap marksOf).map Prod.fst).Nodup := by
  have hplaces : ∀ g ∈ gs, ∀ i ∈ (marksOf g).map Prod.fst, ∃ d, d.idx = i ∧
      (g.1, d) ∈ planDisks share opts svs := by
    intro g hg i hi
    unfold marksOf at hi
    cases hc : g.2.common with
    | nil => rw [hc] at hi; cases hi
    | cons t ts =>
      rw [hc] at hi
      simp only [map_map, mem_map] at hi
      obtain ⟨d, hd, hidx⟩ := hi
      exact ⟨d, hidx, (h.mem_disks hg).mp hd⟩
  rw [map_flatMap, nodup_flatMap]
  constructor
  · intro g hg
    unfold marksOf
    cases g.2.common with
    | nil => exact nodup_nil
    | cons t ts =>
      rw [h.disks_eq g hg]
      refine Nodup.sublist ?_ (@planDisks_idx_nodup share opts svs)
      unfold valuesOf
      induction planDisks share opts svs with
      | nil => exact .slnil
      | cons y ys ih =>
        by_cases hk : y.1 = g.1
        · rw [filterMap_cons_some (by rw [if_pos hk])]
          exact ih.cons_cons _
        · rw [filterMap_cons_none (by rw [if_neg hk])]
          exact ih.cons _
  · have hkeys : gs.Pairwise (fun a b => a.1 ≠ b.1) := pairwise_map.mp h.nodup
    refine hkeys.imp_of_mem ?_
    intro a b ha hb hne i hia hib
    obtain ⟨d, rfl, hd⟩ := hplaces a ha i hia
    obtain ⟨d', hidx, hd'⟩ := hplaces b hb d.idx hib
    obtain ⟨sv, hsv, hdisk, -⟩ := mem_planDisks.mp hd
    obtain ⟨sv', hsv', hdisk', -⟩ := mem_planDisks.mp hd'
    rw [hidx, hsv] at hsv'
    cases hsv'
    rw [hdisk] at hdisk'
    exact hne (Prod.mk.inj (Option.some.inj hdisk')).1

theorem analyzeVMs_eq_ok {p : Plan} :
    analyzeVMs ord share p opts = .ok gs ↔
      (∀ sv ∈ p.subVolumes, ∃ o, seeDisk share sv = .ok o) ∧
      unknownVMs opts.vms (p.subVolumes.flatMap (foundOf share)) = .ok () ∧
      p.subVolumes.flatMap (busyOf share opts) = [] ∧
      List.Forall₂ (fun g r => analyzeGroup ord opts g = .ok r)
        (ord.groups (groupAll (planDisks share opts p.subVolumes))) gs := by
  have hzip : ∀ f : PlanEntry → List Name,
      p.subVolumes.zipIdx.flatMap (fun x => f x.1) = p.subVolumes.flatMap f := by
    intro f
    conv_rhs => rw [← zipIdx_map_fst 0 p.subVolumes, flatMap_map]
  have hread : (∀ x ∈ p.subVolumes.zipIdx, ∃ o, seeDisk share x.1 = .ok o) ↔
      ∀ sv ∈ p.subVolumes, ∃ o, seeDisk share sv = .ok o := by
    conv_rhs => rw [← zipIdx_map_fst 0 p.subVolumes]
    rw [forall_mem_map]
  unfold analyzeVMs
  rw [DurableSteps.except_bind_ok]
  constructor
  · rintro ⟨s, hs, h⟩
    obtain ⟨hok, rfl⟩ := scan_ok.mp hs
    obtain ⟨u, hu, h⟩ := DurableSteps.except_bind_ok.mp h
    simp only [nil_append, hzip] at hu h
    refine ⟨hread.mp hok, hu, ?_⟩
    by_cases hbusy : p.subVolumes.flatMap (busyOf share opts) = []
    · rw [if_pos hbusy] at h
      exact ⟨hbusy, mapM_ok_iff.mp h⟩
    · rw [if_neg hbusy] at h
      cases h
  · rintro ⟨hok, hfound, hbusy, hgroups⟩
    refine ⟨_, scan_ok.mpr ⟨hread.mpr hok, rfl⟩, ?_⟩
    rw [DurableSteps.except_bind_ok]
    simp only [nil_append, hzip]
    refine ⟨(), hfound, ?_⟩
    rw [if_pos hbusy]
    exact mapM_ok_iff.mpr hgroups

theorem analyzed_of_forall₂ {l : List (Name × List DiskInGroup)}
    (hne : ∀ g ∈ l, g.2 ≠ []) (h : List.Forall₂ (fun g r => analyzeGroup ord opts g = .ok r) l gs) :
    gs.map (fun g => (g.1, g.2.disks)) = l ∧ ∀ g ∈ gs, Analyzed opts (g.1, g.2.disks) g := by
  induction h with
  | nil => exact ⟨rfl, nofun⟩
  | @cons g r l gs hg _ ih =>
    obtain ⟨hmap, hall⟩ := ih (fun g' hg' => hne g' (mem_cons_of_mem _ hg'))
    have hr := analyzeGroup_ok (hne g mem_cons_self) hg
    have hpair : (r.1, r.2.disks) = g := Prod.ext hr.1 hr.2.1
    refine ⟨by rw [map_cons, hmap, hpair], ?_⟩
    rw [forall_mem_cons, hpair]
    exact ⟨hr, hall⟩

theorem mem_groups :
    (k, ds) ∈ ord.groups (groupAll (planDisks share opts svs)) ↔
      ds = valuesOf k (planDisks share opts svs) ∧ ds ≠ [] := by
  rw [(ord.groups_perm _).mem_iff]
  exact groups_groupAll.mem_iff k ds

theorem accepted_of_forall₂ (h : List.Forall₂ (fun g r => analyzeGroup ord opts g = .ok r)
      (ord.groups (groupAll (planDisks share opts svs))) gs) : Accepted share opts svs gs := by
  obtain ⟨hmap, hall⟩ := analyzed_of_forall₂
    (fun g hg => (mem_groups.mp hg).2) h
  refine ⟨?_, ?_, ?_, hall⟩
  · have hkeys : gs.map Prod.fst =
        (ord.groups (groupAll (planDisks share opts svs))).map Prod.fst := by
      rw [← hmap, map_map]
      rfl
    rw [hkeys]
    exact ((ord.groups_perm _).map Prod.fst).nodup_iff.mpr groups_groupAll.nodup
  · intro g hg
    have hmem : (g.1, g.2.disks) ∈ gs.map (fun g => (g.1, g.2.disks)) :=
      mem_map_of_mem (f := fun g : Name × VMGroupAnalysis => (g.1, g.2.disks)) hg
    rw [hmap] at hmem
    exact (mem_groups.mp hmem).1
  · intro k d hd
    have hne : valuesOf k (planDisks share opts svs) ≠ [] :=
      ne_nil_of_mem ((mem_valuesOf k d).mpr hd)
    have hmem : _ ∈ ord.groups _ := mem_groups.mpr ⟨rfl, hne⟩
    rw [← hmap] at hmem
    obtain ⟨g, hg, heq⟩ := mem_map.mp hmem
    obtain ⟨rfl, -⟩ := Prod.mk.inj heq
    exact ⟨g.2, hg⟩

/-- What becomes of an entry: a disk of a chosen VM whose moment is known is marked
with the newest common moment of the VM, and every other entry stays as it is. -/
def Resolved (share : Share) (opts : VMOptions) (svs : List PlanEntry) (sv sv' : PlanEntry) :
    Prop :=
  match diskOf share opts sv with
  | none => sv' = sv
  | some (k, st) =>
    (st.moment = none ∧ sv' = sv) ∨
      (st.moment ≠ none ∧
        ∃ t, IsGreatest (Common (groupStates share opts svs k) opts.rewindTo) t ∧
          sv' = { sv with
            vmGroup := k
            vmMoment := t
            rewind := decide (st.moment ≠ some t)
            lastSyncTime := t })

/-- The entries that stay in the plan. -/
def kept (share : Share) (opts : VMOptions) (svs : List PlanEntry) : List PlanEntry :=
  if opts.vms = [] then svs else svs.filter (fun sv => (diskOf share opts sv).isSome)

theorem Accepted.place (h : Accepted share opts svs gs)
    (hi : i ∈ (gs.flatMap marksOf).map Prod.fst) :
    ∃ g ∈ gs, ∃ t ∈ g.2.common.head?, ∃ d ∈ g.2.disks, d.idx = i ∧
      ∃ sv, svs[i]? = some sv ∧ diskOf share opts sv = some (g.1, d.state) := by
  rw [map_flatMap, mem_flatMap] at hi
  obtain ⟨g, hg, hi⟩ := hi
  unfold marksOf at hi
  cases hc : g.2.common with
  | nil => rw [hc] at hi; cases hi
  | cons t ts =>
    rw [hc] at hi
    simp only [map_map, mem_map] at hi
    obtain ⟨d, hd, rfl⟩ := hi
    obtain ⟨sv, hsv, hdisk, -⟩ := mem_planDisks.mp
      ((h.mem_disks hg).mp hd)
    exact ⟨g, hg, t, by rw [hc]; rfl, d, hd, rfl, sv, hsv, hdisk⟩

theorem Accepted.unique (h : Accepted share opts svs gs) (hg : g ∈ gs) (hg' : g' ∈ gs)
    (hkey : g.1 = g'.1) : g = g' :=
  inj_on_of_nodup_map h.nodup hg hg' hkey

theorem resolved_entry (h : Accepted share opts svs gs)
    (hsv : svs[i]? = some sv) :
    ∃ sv', (applyMarks (gs.flatMap marksOf) svs)[i]? = some sv' ∧
      Resolved share opts svs sv sv' := by
  have hleft : (i ∉ (gs.flatMap marksOf).map Prod.fst) →
      (applyMarks (gs.flatMap marksOf) svs)[i]? = some sv := fun hi =>
    (applyMarks_other _ _ _ hi).trans hsv
  unfold Resolved
  cases hdisk : diskOf share opts sv with
  | none =>
    refine ⟨sv, hleft ?_, rfl⟩
    intro hi
    obtain ⟨g, -, t, -, d, -, -, sv', hsv', hdisk'⟩ := h.place hi
    rw [hsv] at hsv'
    cases hsv'
    rw [hdisk] at hdisk'
    cases hdisk'
  | some kst =>
    obtain ⟨k, st⟩ := kst
    have hmem : (k, ⟨i, sv.subVolumeName, st⟩) ∈ planDisks share opts svs :=
      mem_planDisks.mpr ⟨sv, hsv, hdisk, rfl⟩
    obtain ⟨a, ha⟩ := h.covers _ _ hmem
    have hd := (h.mem_disks ha).mpr hmem
    have hstates : a.disks.map DiskInGroup.state = groupStates share opts svs k := by
      rw [show a.disks = _ from h.disks_eq (k, a) ha, states_planDisks]
    obtain ⟨-, -, ⟨hlone, -, hnil⟩ | ⟨hknown, t, ts, hc, hgreat⟩⟩ := h.analyzed (k, a) ha
    · refine ⟨sv, hleft ?_, .inl ⟨hlone.2 _ hd, rfl⟩⟩
      intro hi
      obtain ⟨g, hg, t, ht, d, -, -, sv', hsv', hdisk'⟩ := h.place hi
      rw [hsv] at hsv'
      cases hsv'
      rw [hdisk] at hdisk'
      have hkey : k = g.1 := congrArg Prod.fst (Option.some.inj hdisk')
      have hsame := h.unique ha hg hkey
      subst hsame
      rw [show a.common = [] from hnil] at ht
      cases ht
    · refine ⟨_, ?_, .inr ⟨hknown _ hd, t, hstates ▸ hgreat, rfl⟩⟩
      have hmark : (i, markDisk k t ⟨i, sv.subVolumeName, st⟩) ∈ gs.flatMap marksOf := by
        refine mem_flatMap.mpr ⟨(k, a), ha, ?_⟩
        unfold marksOf
        rw [show a.common = t :: ts from hc]
        exact mem_map_of_mem (f := fun d : DiskInGroup => (d.idx, markDisk k t d)) hd
      have hown := applyMarks_own svs h.marks_nodup hmark
      rw [hown, hsv]
      rfl

theorem resolved_entries (h : Accepted share opts svs gs) :
    List.Forall₂ (Resolved share opts svs) svs (applyMarks (gs.flatMap marksOf) svs) := by
  rw [forall₂_iff_get]
  refine ⟨(applyMarks_length _ _).symm, ?_⟩
  intro i hi hi'
  obtain ⟨sv', hsv', hres⟩ := resolved_entry h (getElem?_eq_getElem hi)
  have hget : (applyMarks (gs.flatMap marksOf) svs).get ⟨i, hi'⟩ = sv' := by
    exact Option.some.inj ((getElem?_eq_getElem hi').symm.trans hsv')
  rw [hget]
  exact hres

end FilePool.FailoverChoice
