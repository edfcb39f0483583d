import FilePool.GroupSnapshots

/-!
The order in which the volumes of a group snapshot are taken. A request gives the IDs of
the volumes and may give names of volumes to start with. The names are looked up in a map
from the name of a volume to its ID, so of two IDs with one name the last one is found.
-/
namespace FilePool.CopyOrder

open UndoNames List

/-- What stands before the first sign of a kind, and what stands after it. -/
def cut (c : Char) (text : Name) : Option (Name × Name) :=
  match text.span (· ≠ c) with
  | (before, _ :: after) => some (before, after)
  | (_, []) => none

structure VolumeID where
  poolName : Name
  shareID : Name
  name : Name
  deriving DecidableEq, Repr

/-- An ID has three parts; the last one may hold more slashes. -/
def parseVolumeID (id : Name) : Option VolumeID :=
  match cut '/' id with
  | none => none
  | some (pool, rest) => (cut '/' rest).map (fun (share, name) => ⟨pool, share, name⟩)

def pvName (id : Name) : Name := (parseVolumeID id).elim [] VolumeID.name

section Orders

variable (ids copyOrder : List Name)

/-- The entry of the map for a name. -/
def pvToVolID (name : Name) : Option Name := ids.reverse.find? (fun id => pvName id = name)

def resolveCopyOrder : Option (List Name) :=
  if ids.all (fun id => (parseVolumeID id).isSome) then
    let used := copyOrder.filter (fun n => (pvToVolID ids n).isSome)
    some (copyOrder.filterMap (pvToVolID ids) ++ ids.filter (fun id => pvName id ∉ used))
  else none

def sortVolumeIDsByPVName : List Name := ids.insertionSort (fun a b => ¬pvName b < pvName a)

/-- The volumes exist and are in the pool of the group. -/
def takenOrder (poolName : Name) (poolOf : Name → Option Name) : Option (List Name) :=
  let ordered :=
    if copyOrder = [] then some (sortVolumeIDsByPVName ids) else resolveCopyOrder ids copyOrder
  ordered.filter (fun l => l.all (fun id =>
    (parseVolumeID id).any (fun v => poolOf v.name = some poolName)))

/-- Each volume once: those that are named by their first mention, then the others as given. -/
def InOrder (l : List Name) : Prop :=
  l.Perm ids ∧
    l.Pairwise (fun a b => copyOrder.idxOf (pvName a) ≤ copyOrder.idxOf (pvName b)) ∧
    l.filter (fun id => pvName id ∉ copyOrder) = ids.filter (fun id => pvName id ∉ copyOrder)

/-- No volume is named twice, and a name that is given is that of one volume. -/
structure Named : Prop where
  once : (copyOrder.filter (fun n => n ∈ ids.map pvName)).Nodup
  one : ∀ a ∈ ids, ∀ b ∈ ids, pvName a ∈ copyOrder → pvName a = pvName b → a = b

/-- Without an order the volumes are given in the order of their names. -/
def Orderly : Prop :=
  if copyOrder = [] then ids.Pairwise (fun a b => ¬pvName b < pvName a) else Named ids copyOrder

variable {ids copyOrder}

theorem pvToVolID_some {n x : Name} (h : pvToVolID ids n = some x) : x ∈ ids ∧ pvName x = n :=
  ⟨mem_reverse.mp (mem_of_find?_eq_some h), by simpa using find?_some h⟩

theorem pvToVolID_isSome (n : Name) : (pvToVolID ids n).isSome ↔ n ∈ ids.map pvName := by
  simp [pvToVolID]

theorem map_pvName_filterMap :
    (copyOrder.filterMap (pvToVolID ids)).map pvName =
      copyOrder.filter (fun n => n ∈ ids.map pvName) := by
  rw [map_filterMap, ← filterMap_eq_filter]
  refine filterMap_congr fun n _ => ?_
  have hmem := @pvToVolID_isSome ids n
  cases hn : pvToVolID ids n with
  | none => simp [Option.guard, ← hmem, hn]
  | some x => simp [Option.guard, ← hmem, hn, (pvToVolID_some hn).2]

/-- By the names of the volumes this is the order in which a group takes its members. -/
theorem resolveCopyOrder_names {l : List Name} (h : resolveCopyOrder ids copyOrder = some l) :
    l.map pvName = GroupSnapshots.resolveCopyOrder (ids.map pvName) copyOrder := by
  obtain ⟨-, h⟩ := Option.ite_none_right_eq_some.mp h
  cases h
  simp [map_pvName_filterMap, GroupSnapshots.resolveCopyOrder, filter_map, pvToVolID_isSome,
    Function.comp_def]

/-- A name that occurs once among those that count stands where it is first mentioned. -/
theorem pairwise_idxOf {p : Name → Bool} (h : (copyOrder.filter p).Nodup) :
    (copyOrder.filter p).Pairwise (fun a b => copyOrder.idxOf a ≤ copyOrder.idxOf b) := by
  induction copyOrder with
  | nil => exact Pairwise.nil
  | cons n ns ih =>
    have hlater : ∀ {a}, n ≠ a → (n :: ns).idxOf a = ns.idxOf a + 1 := fun ha =>
      idxOf_cons_ne ns ha
    by_cases hp : p n = true
    · rw [filter_cons_of_pos hp] at h ⊢
      obtain ⟨hnot, hnodup⟩ := nodup_cons.mp h
      refine pairwise_cons.mpr ⟨fun b _ => ?_, (ih hnodup).imp_of_mem fun ha hb hab => ?_⟩
      · rw [idxOf_cons_self]
        exact Nat.zero_le _
      · rw [hlater (ne_of_mem_of_not_mem ha hnot).symm, hlater (ne_of_mem_of_not_mem hb hnot).symm]
        exact Nat.succ_le_succ hab
    · rw [filter_cons_of_neg hp] at h ⊢
      refine (ih h).imp_of_mem fun ha hb hab => ?_
      have hother : ∀ {a}, a ∈ ns.filter p → n ≠ a := by
        rintro a ha rfl
        exact hp (of_mem_filter ha)
      rw [hlater (hother ha), hlater (hother hb)]
      exact Nat.succ_le_succ hab

theorem resolveCopyOrder_eq {l : List Name} (h : resolveCopyOrder ids copyOrder = some l) :
    l = copyOrder.filterMap (pvToVolID ids) ++ ids.filter (fun id => pvName id ∉ copyOrder) := by
  unfold resolveCopyOrder at h
  split at h
  · rw [← Option.some.inj h]
    refine congrArg (_ ++ ·) (filter_congr fun id hid => ?_)
    have hname : (pvToVolID ids (pvName id)).isSome := (pvToVolID_isSome _).mpr (mem_map_of_mem hid)
    simp [hname]
  · cases h

theorem mem_found {x : Name} :
    x ∈ copyOrder.filterMap (pvToVolID ids) ↔
      pvName x ∈ copyOrder ∧ pvToVolID ids (pvName x) = some x := by
  rw [mem_filterMap]
  constructor
  · rintro ⟨n, hn, hx⟩
    obtain rfl := (pvToVolID_some hx).2
    exact ⟨hn, hx⟩
  · rintro ⟨hn, hx⟩
    exact ⟨_, hn, hx⟩

/-- With one volume for each name, the volumes that are found are those that are named. -/
theorem found_perm (hids : ids.Nodup) (h : Named ids copyOrder) :
    (copyOrder.filterMap (pvToVolID ids)).Perm (ids.filter (fun id => pvName id ∈ copyOrder)) := by
  have hnames := h.once
  rw [← map_pvName_filterMap] at hnames
  refine (perm_ext_iff_of_nodup hnames.of_map (hids.filter _)).mpr fun x => ?_
  rw [mem_found, mem_filter, decide_eq_true_eq]
  constructor
  · rintro ⟨hn, hx⟩
    exact ⟨(pvToVolID_some hx).1, hn⟩
  · rintro ⟨hx, hn⟩
    obtain ⟨y, hy⟩ := Option.isSome_iff_exists.mp ((pvToVolID_isSome _).mpr (mem_map_of_mem hx))
    obtain ⟨hmem, hname⟩ := pvToVolID_some hy
    obtain rfl := h.one x hx y hmem hn hname.symm
    exact ⟨hn, hy⟩

theorem inOrder_found (hids : ids.Nodup) (h : Named ids copyOrder) :
    InOrder ids copyOrder
      (copyOrder.filterMap (pvToVolID ids) ++ ids.filter (fun id => pvName id ∉ copyOrder)) := by
  refine ⟨?_, pairwise_append.mpr ⟨?_, ?_, ?_⟩, ?_⟩
  · refine ((found_perm hids h).append_right _).trans ?_
    simpa using filter_append_perm (fun id => decide (pvName id ∈ copyOrder)) ids
  · rw [← pairwise_map (R := fun a b => copyOrder.idxOf a ≤ copyOrder.idxOf b),
      map_pvName_filterMap]
    exact pairwise_idxOf h.once
  · refine Pairwise.imp_of_mem (fun ha hb _ => ?_)
      (pairwise_of_forall fun _ _ => trivial)
    rw [idxOf_eq_length (by simpa using of_mem_filter ha),
      idxOf_eq_length (by simpa using of_mem_filter hb)]
  · intro a ha b hb
    rw [idxOf_eq_length (a := pvName b) (by simpa using of_mem_filter hb)]
    exact idxOf_le_length
  · rw [filter_append, filter_eq_nil_iff.mpr]
    · simp
    · intro a ha
      simpa using (mem_found.mp ha).1

/-- Every volume stands in the list once, so it is found under its name. -/
theorem named_of_perm (hids : ids.Nodup)
    (h : (copyOrder.filterMap (pvToVolID ids) ++
      ids.filter (fun id => pvName id ∉ copyOrder)).Perm ids) : Named ids copyOrder := by
  have hfound : ∀ a ∈ ids, pvName a ∈ copyOrder → pvToVolID ids (pvName a) = some a := by
    intro a ha hn
    rcases mem_append.mp (h.mem_iff.mpr ha) with hin | hin
    · exact (mem_found.mp hin).2
    · exact absurd hn (by simpa using of_mem_filter hin)
  constructor
  · rw [← map_pvName_filterMap]
    have hnodup := (nodup_append.mp (h.nodup_iff.mpr hids)).1
    refine hnodup.map_on fun a ha b hb hab => ?_
    have hfirst := (mem_found.mp ha).2
    rw [hab, (mem_found.mp hb).2] at hfirst
    exact (Option.some.inj hfirst).symm
  · intro a ha b hb hn hab
    have hfirst := hfound a ha hn
    rw [hab, hfound b hb (hab ▸ hn)] at hfirst
    exact (Option.some.inj hfirst).symm

theorem sorted_inOrder_iff :
    InOrder ids [] (sortVolumeIDsByPVName ids) ↔
      ids.Pairwise (fun a b => ¬pvName b < pvName a) := by
  have htotal : Std.Total (fun a b : Name => ¬pvName b < pvName a) :=
    ⟨fun a b => by simpa using le_total (pvName a) (pvName b)⟩
  have htrans : IsTrans Name (fun a b => ¬pvName b < pvName a) :=
    ⟨fun a b c hab hbc => by
      rw [not_lt] at *
      exact hab.trans hbc⟩
  constructor
  · rintro ⟨-, -, hsame⟩
    simp only [not_mem_nil, not_false_eq_true, decide_true, filter_true] at hsame
    rw [← hsame]
    exact pairwise_insertionSort _ _
  · intro hsorted
    unfold sortVolumeIDsByPVName
    rw [hsorted.insertionSort_eq]
    exact ⟨Perm.refl _, pairwise_of_forall fun _ _ => by simp, rfl⟩

end Orders

/-- The volumes of a group are taken in order, each of them once, exactly when the copy order
is orderly. -/
theorem taken_in_order_iff (ids copyOrder : List Name) (poolName : Name)
    (poolOf : Name → Option Name) (hids : ids.Nodup) (l : List Name)
    (hl : takenOrder ids copyOrder poolName poolOf = some l) :
    InOrder ids copyOrder l ↔ Orderly ids copyOrder := by
  have hordered := (Option.filter_eq_some_iff.mp hl).1
  unfold Orderly
  split at hordered
  · rename_i hnone
    subst hnone
    rw [← Option.some.inj hordered]
    exact sorted_inOrder_iff
  · rename_i hsome
    rw [if_neg hsome, resolveCopyOrder_eq hordered]
    exact ⟨fun h => named_of_perm hids h.1, inOrder_found hids⟩

def sampleID (share name : Char) : Name := ['p', '/', share, '/', name]

/-- A name that is given twice, an ID that another one of its name hides, and no order. -/
theorem named_twice_taken_twice :
    takenOrder [sampleID 's' 'a', sampleID 's' 'b'] [['a'], ['a']] ['p'] (fun _ => some ['p']) =
        some [sampleID 's' 'a', sampleID 's' 'a', sampleID 's' 'b'] ∧
      takenOrder [sampleID 's' 'a', sampleID 't' 'a'] [['a']] ['p'] (fun _ => some ['p']) =
        some [sampleID 't' 'a'] ∧
      takenOrder [sampleID 's' 'b', sampleID 's' 'a'] [] ['p'] (fun _ => some ['p']) =
        some [sampleID 's' 'a', sampleID 's' 'b'] := by
  decide +kernel

theorem taken_in_order_three :
    InOrder [sampleID 's' 'a', sampleID 's' 'b', sampleID 's' 'c'] [['b'], ['x'], ['x']]
      [sampleID 's' 'b', sampleID 's' 'a', sampleID 's' 'c'] :=
  (taken_in_order_iff _ _ ['p'] (fun _ => some ['p']) (by decide) _ (by decide +kernel)).mpr
    (by
      exact ⟨by decide +kernel, by decide +kernel⟩)

end FilePool.CopyOrder
