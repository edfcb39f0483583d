import Mathlib.Data.List.Dedup
import Mathlib.Data.List.Induction
import Mathlib.Data.List.Sort
import Mathlib.Order.Bounds.Basic

/-!
Values collected under keys, and what the values of one key have in common. A map
from keys to lists is an association list without repeated keys, so a walk through
it in any order is a permutation. The greatest common element is the head of the
sorted list of common elements, whatever the order before the sort.
-/
namespace FilePool.GroupedLists

open List

variable {κ α : Type*} [DecidableEq κ] {gs : List (κ × List α)}

def addTo (k : κ) (x : α) : List (κ × List α) → List (κ × List α)
  | [] => [(k, [x])]
  | g :: gs => if g.1 = k then (g.1, g.2 ++ [x]) :: gs else g :: addTo k x gs

/-- The values under their keys, in the order of the items. -/
def groupAll (items : List (κ × α)) : List (κ × List α) :=
  items.foldl (fun gs x => addTo x.1 x.2 gs) []

/-- The values of one key, in the order of the items. -/
def valuesOf (k : κ) (items : List (κ × α)) : List α :=
  items.filterMap (fun x => if x.1 = k then some x.2 else none)

/-- Each key has its own values, and no key comes twice. -/
structure Groups (items : List (κ × α)) (gs : List (κ × List α)) : Prop where
  nodup : (gs.map Prod.fst).Nodup
  mem_iff : ∀ k xs, (k, xs) ∈ gs ↔ xs = valuesOf k items ∧ xs ≠ []

theorem valuesOf_snoc (k : κ) (items : List (κ × α)) (x : κ × α) :
    valuesOf k (items ++ [x]) = valuesOf k items ++ if x.1 = k then [x.2] else [] := by
  unfold valuesOf
  by_cases h : x.1 = k <;> simp [h]

variable {items : List (κ × α)} {k : κ}

theorem mem_valuesOf (k : κ) (x : α) :
    x ∈ valuesOf k items ↔ (k, x) ∈ items := by
  unfold valuesOf
  rw [mem_filterMap]
  constructor
  · rintro ⟨⟨k', y⟩, hmem, hval⟩
    by_cases hk : k' = k
    · subst hk
      rw [if_pos rfl] at hval
      cases hval
      exact hmem
    · rw [if_neg hk] at hval
      cases hval
  · intro hmem
    exact ⟨(k, x), hmem, if_pos rfl⟩

theorem keys_addTo (k : κ) (x : α) (gs : List (κ × List α)) :
    (addTo k x gs).map Prod.fst =
      if k ∈ gs.map Prod.fst then gs.map Prod.fst else gs.map Prod.fst ++ [k] := by
  induction gs with
  | nil => rfl
  | cons g gs ih =>
    simp only [addTo]
    by_cases hg : g.1 = k
    · simp [hg]
    · rw [if_neg hg, map_cons, ih]
      by_cases hk : k ∈ gs.map Prod.fst
      · rw [if_pos hk, if_pos (by simp only [map_cons, mem_cons]; exact .inr hk)]
        rfl
      · have hout : k ∉ (g :: gs).map Prod.fst := by
          simp only [map_cons, mem_cons, not_or]
          exact ⟨fun h => hg h.symm, hk⟩
        rw [if_neg hk, if_neg hout]
        rfl

theorem nodup_addTo {x : α} (h : (gs.map Prod.fst).Nodup) :
    ((addTo k x gs).map Prod.fst).Nodup := by
  rw [keys_addTo]
  split
  · exact h
  · rename_i hk
    exact h.append (nodup_singleton k) (by simpa using hk)

theorem mem_addTo {x : α} (h : (gs.map Prod.fst).Nodup) (k' : κ) (ys : List α) :
    (k', ys) ∈ addTo k x gs ↔
      if k' = k then (∃ xs, (k, xs) ∈ gs ∧ ys = xs ++ [x]) ∨ (k ∉ gs.map Prod.fst ∧ ys = [x])
      else (k', ys) ∈ gs := by
  induction gs with
  | nil =>
    by_cases hk : k' = k <;> simp [addTo]
  | cons g gs ih =>
    obtain ⟨g₁, g₂⟩ := g
    have hrest := (nodup_cons.mp h).2
    have hfresh : g₁ ∉ gs.map Prod.fst := (nodup_cons.mp h).1
    have hno : ∀ xs, (g₁, xs) ∉ gs := fun xs hmem =>
      hfresh (mem_map_of_mem hmem)
    simp only [addTo]
    by_cases hg : g₁ = k
    · subst hg
      by_cases hk : k' = g₁
      · subst hk
        simp [hno]
      · simp [hk]
    · rw [if_neg hg, mem_cons, ih hrest]
      by_cases hk : k' = k
      · subst hk
        simp [Ne.symm hg]
      · simp [hk]

theorem groups_groupAll : Groups items (groupAll items) := by
  induction items using reverseRecOn with
  | nil => exact ⟨nodup_nil, fun k xs => by simp [groupAll, valuesOf]⟩
  | append_singleton items x ih =>
    have hstep : groupAll (items ++ [x]) = addTo x.1 x.2 (groupAll items) := by
      simp [groupAll]
    rw [hstep]
    refine ⟨nodup_addTo ih.nodup, ?_⟩
    intro k xs
    rw [mem_addTo ih.nodup, valuesOf_snoc]
    by_cases hk : k = x.1
    · subst hk
      rw [if_pos rfl, if_pos rfl]
      constructor
      · rintro (⟨ys, hys, rfl⟩ | ⟨hnew, rfl⟩)
        · obtain ⟨rfl, -⟩ := (ih.mem_iff _ _).mp hys
          exact ⟨rfl, by simp⟩
        · by_contra hne
          have hvals : valuesOf x.1 items ≠ [] := by
            intro hnil
            exact hne (by simp [hnil])
          exact hnew (mem_map_of_mem ((ih.mem_iff _ _).mpr ⟨rfl, hvals⟩))
      · rintro ⟨rfl, -⟩
        by_cases hvals : valuesOf x.1 items = []
        · refine .inr ⟨?_, by simp [hvals]⟩
          intro hmem
          obtain ⟨⟨k, ys⟩, hys, rfl⟩ := mem_map.mp hmem
          exact ((ih.mem_iff _ _).mp hys).2 (((ih.mem_iff _ _).mp hys).1.trans hvals)
        · exact .inl ⟨_, (ih.mem_iff _ _).mpr ⟨rfl, hvals⟩, rfl⟩
    · rw [if_neg hk, if_neg (fun h => hk h.symm), append_nil]
      exact ih.mem_iff k xs

variable [DecidableEq α]

/-- What all the lists have in common; nothing if there is no list. -/
def commonOf : List (List α) → List α
  | [] => []
  | s :: ss => ss.foldl (fun c s => c.filter (· ∈ s)) s

theorem mem_foldl_filter (ss : List (List α)) (c : List α) (t : α) :
    t ∈ ss.foldl (fun c s => c.filter (· ∈ s)) c ↔ t ∈ c ∧ ∀ s ∈ ss, t ∈ s := by
  induction ss generalizing c with
  | nil => simp
  | cons s ss ih =>
    rw [foldl_cons, ih]
    simp [and_assoc]

theorem mem_commonOf {ss : List (List α)} (hne : ss ≠ []) (t : α) :
    t ∈ commonOf ss ↔ ∀ s ∈ ss, t ∈ s := by
  cases ss with
  | nil => exact absurd rfl hne
  | cons s ss =>
    unfold commonOf
    rw [mem_foldl_filter]
    simp

variable {α : Type*} [LinearOrder α]

/-- Sorted with the greatest element first. -/
def newestFirst (l : List α) : List α := l.insertionSort (· ≥ ·)

theorem mem_newestFirst (l : List α) (t : α) : t ∈ newestFirst l ↔ t ∈ l :=
  (perm_insertionSort (· ≥ ·) l).mem_iff

theorem newestFirst_eq_nil (l : List α) : newestFirst l = [] ↔ l = [] := by
  constructor
  · intro h
    have hperm := perm_insertionSort (· ≥ ·) l
    rw [show l.insertionSort (· ≥ ·) = [] from h] at hperm
    exact hperm.symm.eq_nil
  · rintro rfl
    rfl

theorem isGreatest_head (l : List α) (t : α) (ts : List α) (h : newestFirst l = t :: ts) :
    IsGreatest {x | x ∈ l} t := by
  constructor
  · exact (mem_newestFirst l t).mp (h ▸ mem_cons_self)
  · intro x hx
    have hsorted : (t :: ts).Pairwise (· ≥ ·) := h ▸ pairwise_insertionSort (· ≥ ·) l
    rcases mem_cons.mp (h ▸ (mem_newestFirst l x).mpr hx) with rfl | htail
    · exact le_refl _
    · exact rel_of_pairwise_cons hsorted htail

variable {α : Type*}

/-- Change the elements at some places. -/
def applyMarks (ms : List (ℕ × (α → α))) (l : List α) : List α :=
  ms.foldl (fun l m => l.modify m.1 m.2) l

theorem applyMarks_length (ms : List (ℕ × (α → α))) (l : List α) :
    (applyMarks ms l).length = l.length := by
  induction ms generalizing l with
  | nil => rfl
  | cons m ms ih =>
    change (applyMarks ms (l.modify m.1 m.2)).length = l.length
    rw [ih, length_modify]

theorem applyMarks_other (ms : List (ℕ × (α → α))) (l : List α) (i : ℕ)
    (hi : i ∉ ms.map Prod.fst) : (applyMarks ms l)[i]? = l[i]? := by
  induction ms generalizing l with
  | nil => rfl
  | cons m ms ih =>
    rw [map_cons, mem_cons, not_or] at hi
    change (applyMarks ms (l.modify m.1 m.2))[i]? = l[i]?
    rw [ih _ hi.2]
    simp [Ne.symm hi.1]

/-- The places differ, so each mark finds the element that was there first. -/
theorem applyMarks_own {ms : List (ℕ × (α → α))} (l : List α) (hnodup : (ms.map Prod.fst).Nodup)
    {m : ℕ × (α → α)} (hm : m ∈ ms) : (applyMarks ms l)[m.1]? = l[m.1]?.map m.2 := by
  induction ms generalizing l with
  | nil => cases hm
  | cons m' ms ih =>
    obtain ⟨hfresh, hrest⟩ := nodup_cons.mp hnodup
    change (applyMarks ms (l.modify m'.1 m'.2))[m.1]? = _
    rcases mem_cons.mp hm with rfl | htail
    · rw [applyMarks_other ms _ _ hfresh]
      simp
    · have hne : m'.1 ≠ m.1 := fun h => hfresh (h ▸ mem_map_of_mem htail)
      rw [ih _ hrest htail]
      simp [hne]

variable {β : Type*} {R : α → β → Prop} {l : List α}

/-- Elements kept by their place are the ones kept by what stood there before. -/
theorem forall₂_keep {l' : List β} (h : List.Forall₂ R l l')
    (n : ℕ) {P : α → Bool} (K : ℕ → Bool) (hK : ∀ i a, l[i]? = some a → K (n + i) = P a) :
    List.Forall₂ R (l.filter P) (((l'.zipIdx n).filter (fun x => K x.2)).map Prod.fst) := by
  induction h generalizing n with
  | nil => exact .nil
  | @cons a b l l' hab _ ih =>
    have hhead : K n = P a := hK 0 a rfl
    have hrest := ih (n + 1) (fun i c hc => by
      have hstep := hK (i + 1) c hc
      rwa [show n + (i + 1) = n + 1 + i by omega] at hstep)
    rw [zipIdx_cons, filter_cons, filter_cons]
    cases hP : P a with
    | true =>
      rw [hP] at hhead
      simpa only [hhead, if_true, map_cons] using Forall₂.cons hab hrest
    | false =>
      rw [hP] at hhead
      simpa only [hhead, if_false, Bool.false_eq_true] using hrest

variable {ε : Type*}

theorem mapM_ok_iff {f : α → Except ε β} {ys : List β} :
    l.mapM f = .ok ys ↔ List.Forall₂ (fun x y => f x = .ok y) l ys := by
  induction l generalizing ys with
  | nil =>
    constructor
    · intro h
      cases h
      exact .nil
    · intro h
      cases h
      rfl
  | cons x l ih =>
    rw [mapM_cons]
    constructor
    · intro h
      cases hx : f x with
      | error e => rw [hx] at h; cases h
      | ok y =>
        rw [hx] at h
        cases hl : l.mapM f with
        | error e => rw [hl] at h; cases h
        | ok zs =>
          rw [hl] at h
          cases h
          exact .cons hx (ih.mp hl)
    · intro h
      cases h with
      | cons hx hl =>
        rw [hx, ih.mpr hl]
        rfl

theorem exists_forall₂ (R : α → β → Prop) (l : List α) (h : ∀ a ∈ l, ∃ b, R a b) :
    ∃ l', List.Forall₂ R l l' := by
  induction l with
  | nil => exact ⟨[], .nil⟩
  | cons a l ih =>
    obtain ⟨b, hb⟩ := h a mem_cons_self
    obtain ⟨l', hl'⟩ := ih (fun a' ha' => h a' (mem_cons_of_mem _ ha'))
    exact ⟨b :: l', .cons hb hl'⟩

theorem forall₂_left (l' : List β) (h : List.Forall₂ R l l')
    {a : α} (ha : a ∈ l) : ∃ b ∈ l', R a b := by
  induction h with
  | nil => cases ha
  | @cons x y l l' hxy _ ih =>
    rcases mem_cons.mp ha with rfl | ha
    · exact ⟨y, mem_cons_self, hxy⟩
    · obtain ⟨b, hb, hab⟩ := ih ha
      exact ⟨b, mem_cons_of_mem _ hb, hab⟩

/-- Lists related by a relation with one value each are related by a function. -/
theorem exists_map_of_forall₂ [Nonempty β]
    (hR : ∀ a b b', R a b → R a b' → b = b') :
    ∃ f : α → β, ∀ l l', List.Forall₂ R l l' → l' = l.map f := by
  classical
  refine ⟨fun a => if h : ∃ b, R a b then h.choose else Classical.arbitrary β, ?_⟩
  intro l l' h
  induction h with
  | nil => rfl
  | @cons a b l l' hab _ ih =>
    have hex : ∃ b, R a b := ⟨b, hab⟩
    rw [map_cons, ← ih, dif_pos hex, hR a b _ hab hex.choose_spec]

end FilePool.GroupedLists
