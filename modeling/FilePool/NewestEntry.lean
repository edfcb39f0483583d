import Mathlib.Data.List.Induction
import Mathlib.Data.List.Sort
import Mathlib.Order.Bounds.Basic

/-!
The newest entry of a list that is not after a given time. The list is searched from its
end, or scanned from its start with the last good entry kept. In a sorted list the entry
found is the newest one.
-/
namespace FilePool.NewestEntry

open List

variable {α β : Type*} [LinearOrder α] (key : β → α) (t : α)

/-- The times of a list that are not after a given one. -/
def upTo (l : List α) (t : α) : Set α := {k | k ∈ l ∧ k ≤ t}

theorem upTo_eq_empty_iff {l : List α} : upTo l t = ∅ ↔ ∀ k ∈ l, ¬ k ≤ t := by
  rw [Set.eq_empty_iff_forall_notMem]
  exact ⟨fun h k hk hle => h k ⟨hk, hle⟩, fun h k hk => h k hk.1 hk.2⟩

/-- The last entry that is not after the time. -/
def lastNotAfter (l : List β) : Option β := l.reverse.find? (fun b => key b ≤ t)

theorem lastNotAfter_mem {l : List β} {b : β} (h : lastNotAfter key t l = some b) :
    b ∈ l ∧ key b ≤ t := by
  have hmem := mem_of_find?_eq_some h
  have hle := find?_some h
  exact ⟨mem_reverse.mp hmem, of_decide_eq_true hle⟩

theorem lastNotAfter_eq_none_iff (l : List β) :
    lastNotAfter key t l = none ↔ ∀ b ∈ l, ¬ key b ≤ t := by
  simp [lastNotAfter]

theorem lastNotAfter_append (l : List β) (b : β) :
    lastNotAfter key t (l ++ [b]) = if key b ≤ t then some b else lastNotAfter key t l := by
  unfold lastNotAfter
  by_cases h : key b ≤ t
  · simp [h]
  · simp [h]

/-- A scan that keeps each good entry over the one before finds the last good entry. -/
theorem foldl_keep {γ : Type*} [∀ b, Decidable (t < key b)] (f : β → γ) (d : γ) (l : List β) :
    l.foldl (fun c b => if t < key b then c else f b) d =
      ((lastNotAfter key t l).map f).getD d := by
  induction l using reverseRecOn with
  | nil => rfl
  | append_singleton l b ih =>
    rw [foldl_append, foldl_cons, foldl_nil, ih, lastNotAfter_append]
    by_cases h : key b ≤ t
    · rw [if_pos h, if_neg (not_lt.mpr h)]
      rfl
    · rw [if_neg h, if_pos (not_le.mp h)]

theorem foldl_keep_some [∀ b, Decidable (t < key b)] (l : List β) :
    l.foldl (fun c b => if t < key b then c else some b) none = lastNotAfter key t l := by
  rw [foldl_keep]
  cases lastNotAfter key t l <;> rfl

section Least

variable (p : β → Prop) [DecidablePred p] {l : List β} {b : β}

/-- A good entry that no good entry of the list is below. -/
def LeastGood (l : List β) (b : β) : Prop := b ∈ l ∧ p b ∧ ∀ c ∈ l, p c → key b ≤ key c

/-- What a search for the least good entry answers. -/
def FindsLeast (l : List β) : Option β → Prop
  | none => ∀ b ∈ l, ¬ p b
  | some b => LeastGood key p l b

/-- In a sorted list the first good entry is the least one. -/
theorem find_least (hsorted : l.Pairwise (fun a b => key a ≤ key b)) :
    FindsLeast key p l (l.find? (fun b => p b)) := by
  cases hfind : l.find? p with
  | none =>
    intro b hb
    simpa using find?_eq_none.mp hfind b hb
  | some b =>
    obtain ⟨hb, before, after, rfl, hbefore⟩ := find?_eq_some_iff_append.mp hfind
    refine ⟨by simp, of_decide_eq_true hb, ?_⟩
    intro c hc hpc
    rcases mem_append.mp hc with hc | hc
    · exact absurd hpc (by simpa using hbefore c hc)
    · rcases mem_cons.mp hc with rfl | hc
      · exact le_rfl
      · exact rel_of_pairwise_cons (pairwise_append.mp hsorted).2.1 hc

omit p [DecidablePred p] in
/-- In a sorted list the last entry that is not after the time is the newest of them. -/
theorem lastNotAfter_newest (hsorted : l.Pairwise (fun a b => key a ≤ key b))
    (h : lastNotAfter key t l = some b) : IsGreatest (upTo (l.map key) t) (key b) := by
  have hfind := find_least (fun b => OrderDual.toDual (key b)) (fun b => key b ≤ t)
    (pairwise_reverse.mpr hsorted)
  change FindsLeast _ _ _ (lastNotAfter key t l) at hfind
  rw [h] at hfind
  obtain ⟨hmem, hle, hall⟩ := hfind
  refine ⟨⟨mem_map_of_mem (mem_reverse.mp hmem), hle⟩, ?_⟩
  rintro k ⟨hk, hkt⟩
  obtain ⟨c, hc, rfl⟩ := mem_map.mp hk
  exact hall c (mem_reverse.mpr hc) hkt

omit p [DecidablePred p] in
/-- In a list that is sorted in an order of its own the search finds the highest good entry. -/
theorem lastNotAfter_sort_iff [LinearOrder β] (l : List β) (b : β) :
    lastNotAfter key t (l.insertionSort (· ≤ ·)) = some b ↔
      b ∈ l ∧ key b ≤ t ∧ ∀ c ∈ l, key c ≤ t → c ≤ b := by
  have hfind := find_least (fun b : β => OrderDual.toDual b) (fun b => key b ≤ t)
    (pairwise_reverse.mpr (pairwise_insertionSort (· ≤ ·) l))
  change FindsLeast _ _ _ (lastNotAfter key t (l.insertionSort (· ≤ ·))) at hfind
  cases hlast : lastNotAfter key t (l.insertionSort (· ≤ ·)) with
  | none =>
    rw [hlast] at hfind
    refine iff_of_false nofun ?_
    rintro ⟨hb, hle, -⟩
    exact hfind b (by simpa using hb) hle
  | some a =>
    rw [hlast] at hfind
    obtain ⟨ha, hle, hall⟩ := hfind
    constructor
    · rintro ⟨⟩
      exact ⟨by simpa using ha, hle, fun c hc => hall c (by simpa using hc)⟩
    · rintro ⟨hb, hbt, hmax⟩
      exact congrArg some (le_antisymm (hmax a (by simpa using ha) hle)
        (hall b (by simpa using hb) hbt))

/-- A scan in any order that takes each good entry that is below the one kept. -/
def scanLeast (l : List β) : Option β :=
  l.foldl (fun o b => if p b ∧ o.all (fun c => key b < key c) then some b else o) none

theorem scanLeast_append (l : List β) (b : β) :
    scanLeast key p (l ++ [b]) =
      if p b ∧ (scanLeast key p l).all (fun c => key b < key c) then some b
      else scanLeast key p l := by
  unfold scanLeast
  rw [foldl_append, foldl_cons, foldl_nil]

omit [DecidablePred p] in
/-- An entry that is above the least good one, or is not good, changes nothing. -/
theorem FindsLeast.append {o : Option β} (h : FindsLeast key p l o)
    (hb : p b → ∃ a, o = some a ∧ key a ≤ key b) : FindsLeast key p (l ++ [b]) o := by
  cases o with
  | none =>
    refine forall_mem_append.mpr ⟨h, forall_mem_singleton.mpr fun hpb => ?_⟩
    obtain ⟨a, ha, -⟩ := hb hpb
    cases ha
  | some a =>
    obtain ⟨hmem, hpa, hleast⟩ := h
    refine ⟨mem_append_left _ hmem, hpa, forall_mem_append.mpr ⟨hleast, ?_⟩⟩
    refine forall_mem_singleton.mpr fun hpb => ?_
    obtain ⟨a', ⟨⟩, hle⟩ := hb hpb
    exact hle

theorem scanLeast_least (l : List β) : FindsLeast key p l (scanLeast key p l) := by
  induction l using reverseRecOn with
  | nil => nofun
  | append_singleton l b ih =>
    rw [scanLeast_append]
    by_cases hnew : p b ∧ (scanLeast key p l).all (fun c => key b < key c) = true
    · rw [if_pos hnew]
      refine ⟨by simp, hnew.1, forall_mem_append.mpr ⟨fun c hc hpc => ?_, by simp⟩⟩
      cases hscan : scanLeast key p l with
      | none =>
        rw [hscan] at ih
        exact absurd hpc (ih c hc)
      | some a =>
        rw [hscan] at ih hnew
        have hlt : key b < key a := by simpa using hnew.2
        exact hlt.le.trans (ih.2.2 c hc hpc)
    · rw [if_neg hnew]
      refine FindsLeast.append key p ih fun hpb => ?_
      cases hscan : scanLeast key p l with
      | none => simp [hscan, hpb] at hnew
      | some a => exact ⟨a, rfl, by simpa [hscan, hpb] using hnew⟩

omit [DecidablePred p] in
/-- Entries that differ in their keys have at most one answer, in whatever order they are
searched. -/
theorem FindsLeast.unique (l l' : List β) (hperm : l'.Perm l)
    (hkeys : ∀ b ∈ l, ∀ c ∈ l, key b = key c → b = c) (o o' : Option β)
    (h : FindsLeast key p l o) (h' : FindsLeast key p l' o') : o' = o := by
  cases o with
  | none =>
    cases o' with
    | none => rfl
    | some b => exact absurd h'.2.1 (h b (hperm.mem_iff.mp h'.1))
  | some a =>
    obtain ⟨ha, hpa, hleast⟩ := h
    cases o' with
    | none => exact absurd hpa (h' a (hperm.mem_iff.mpr ha))
    | some b =>
      obtain ⟨hb, hpb, hleast'⟩ := h'
      have hmem := hperm.mem_iff.mp hb
      have hle := hleast' a (hperm.mem_iff.mpr ha) hpa
      exact congrArg some (hkeys b hmem a ha (le_antisymm hle (hleast b hmem hpb)))

end Least

end FilePool.NewestEntry
