import Mathlib

/-!
A store of objects with a name and a version. Every change gives an object a new
version, and an object can only be changed from a copy of its present version. The sum
of a weight over the objects follows each change.
-/
namespace FilePool.VersionedStore

open List

/-- How the objects of one kind carry their name and their version. -/
structure Kind (V K : Type) where
  name : V → K
  version : V → ℕ
  stamp : V → ℕ → V
  name_stamp : ∀ v n, name (stamp v n) = name v
  version_stamp : ∀ v n, version (stamp v n) = n

inductive Refusal
  | missing
  | exists
  | stale
  deriving DecidableEq, Repr

variable {V K : Type} [DecidableEq K] (T : Kind V K)

def find (l : List V) (k : K) : Option V := l.find? (fun v => T.name v = k)

def create (rev : ℕ) (l : List V) (v : V) : Except Refusal (V × List V) :=
  match find T l (T.name v) with
  | some _ => .error .exists
  | none => .ok (T.stamp v rev, l ++ [T.stamp v rev])

def replace (l : List V) (v : V) : List V := l.map (fun u => if T.name u = T.name v then v else u)

/-- A change from a copy; the merge says which part of the copy is written. -/
def update (merge : V → V → V) (rev : ℕ) (l : List V) (v : V) : Except Refusal (V × List V) :=
  match find T l (T.name v) with
  | none => .error .missing
  | some u =>
    if T.version u = T.version v then
      .ok (T.stamp (merge u v) rev, replace T l (T.stamp (merge u v) rev))
    else .error .stale

def delete (l : List V) (k : K) : List V := l.filter (fun v => T.name v ≠ k)

/-- The sum of a weight over the objects. -/
def total (f : V → ℤ) (l : List V) : ℤ := (l.map f).sum

/-- No two objects have the same name. -/
def Distinct (l : List V) : Prop := (l.map T.name).Nodup

instance (l : List V) : Decidable (Distinct T l) := inferInstanceAs (Decidable (l.map T.name).Nodup)

section Finding

variable {T} {l : List V} {u v : V} {k : K}

theorem find_name (h : find T l k = some v) : T.name v = k := by
  simpa using find?_some h

theorem find_self (h : find T l k = some v) : find T l (T.name v) = some v := by
  rw [find_name h]
  exact h

theorem find_mem (h : find T l k = some v) : v ∈ l := mem_of_find?_eq_some h

theorem find_none (h : find T l k = none) (hv : v ∈ l) : T.name v ≠ k := by
  simpa using find?_eq_none.mp h v hv

theorem find_of_mem (hl : Distinct T l) (hv : v ∈ l) : find T l (T.name v) = some v := by
  induction l with
  | nil => cases hv
  | cons u l ih =>
    obtain ⟨hnot, hl⟩ := nodup_cons.mp hl
    rcases mem_cons.mp hv with rfl | hv
    · simp [find]
    · have hne : T.name u ≠ T.name v := fun heq => hnot (heq ▸ mem_map_of_mem hv)
      have := ih hl hv
      simpa [find, hne] using this

theorem mem_replace (h : u ∈ replace T l v) : u = v ∨ (u ∈ l ∧ T.name u ≠ T.name v) := by
  obtain ⟨x, hx, rfl⟩ := mem_map.mp h
  by_cases hn : T.name x = T.name v
  · simp [hn]
  · simp [hn, hx]

theorem find_replace_self (h : (find T l (T.name v)).isSome) :
    find T (replace T l v) (T.name v) = some v := by
  induction l with
  | nil => simp [find] at h
  | cons u l ih =>
    by_cases hu : T.name u = T.name v
    · simp [replace, find, hu]
    · have h' : (find T l (T.name v)).isSome := by simpa [find, hu] using h
      simpa [replace, find, hu] using ih h'

theorem find_replace_ne (hk : T.name v ≠ k) : find T (replace T l v) k = find T l k := by
  induction l with
  | nil => rfl
  | cons u l ih =>
    by_cases hu : T.name u = T.name v
    · have hne : T.name u ≠ k := hu ▸ hk
      simpa [replace, find, hu, hk] using ih
    · by_cases huk : T.name u = k
      · simp [replace, find, huk, Ne.symm hk]
      · simpa [replace, find, hu, huk] using ih

/-- What holds of a value that is found is kept if it also holds of the one in its place. -/
theorem find_replace {P : V → Prop} {x : V} {k' : K} (hu : find T l k' = some u)
    (hname : T.name v = T.name u) (hP : P u → P v) (hx : find T l k = some x) (hPx : P x) :
    ∃ x', find T (replace T l v) k = some x' ∧ P x' := by
  by_cases hk : T.name v = k
  · subst hk
    have hux : some u = some x := by
      rw [← find_self hu, ← hname]
      exact hx
    cases hux
    exact ⟨v, find_replace_self (by rw [hx]; rfl), hP hPx⟩
  · exact ⟨x, (find_replace_ne hk).trans hx, hPx⟩

theorem find_append_singleton : find T (l ++ [v]) k =
    (find T l k).or (if T.name v = k then some v else none) := by
  simp only [find]
  by_cases hk : T.name v = k <;> simp

theorem find_delete_ne {k' : K} (hk : k' ≠ k) : find T (delete T l k) k' = find T l k' := by
  induction l with
  | nil => rfl
  | cons u l ih =>
    by_cases hu : T.name u = k
    · have hne : T.name u ≠ k' := fun h => hk (h.symm.trans hu)
      simpa [delete, find, hne] using ih
    · by_cases hk' : T.name u = k'
      · simp [delete, find, hk', hk]
      · simpa [delete, find, hk'] using ih

theorem find_filter {p : V → Bool} (h : find T l k = some v) (hp : p v = true) :
    find T (l.filter p) k = some v := by
  induction l with
  | nil => cases h
  | cons u l ih =>
    by_cases hu : T.name u = k
    · have huv : u = v := by simpa [find, hu] using h
      subst huv
      simp [find, hp, hu]
    · have h' : find T l k = some v := by simpa [find, hu] using h
      by_cases hpu : p u = true
      · simpa [find, hu] using ih h'
      · simpa [hpu] using ih h'

theorem find_append_of_some (h : find T l k = some v) : find T (l ++ [u]) k = some v := by
  rw [find_append_singleton, h]
  rfl

theorem map_name_replace : (replace T l v).map T.name = l.map T.name := by
  simp only [replace, map_map]
  refine map_congr_left (fun u _ => ?_)
  by_cases hu : T.name u = T.name v
  · simp [hu]
  · simp [hu]

theorem distinct_replace (h : Distinct T l) : Distinct T (replace T l v) := by
  rw [Distinct, map_name_replace]
  exact h

theorem distinct_append (h : Distinct T l) (hv : find T l (T.name v) = none) :
    Distinct T (l ++ [v]) := by
  rw [Distinct, map_append]
  refine Nodup.append h (by simp) ?_
  intro k hk hk'
  obtain ⟨u, hu, rfl⟩ := mem_map.mp hk
  simp only [map_cons, map_nil, mem_singleton] at hk'
  exact find_none hv hu hk'

theorem distinct_delete (h : Distinct T l) : Distinct T (delete T l k) :=
  h.sublist (filter_sublist.map _)

end Finding

section Versions

/-- Every object of the later list was in the earlier one or has a version that is newer
than the revision. -/
def Moved (rev : ℕ) (l l' : List V) : Prop := ∀ v ∈ l', v ∈ l ∨ rev < T.version v

/-- An object that is stored with the version of the copy is the copy. -/
def Copied (l : List V) (c : V) : Prop :=
  ∀ v ∈ l, T.name v = T.name c → T.version v = T.version c → v = c

variable {T} {l l' : List V} {u v c : V} {k : K} {rev : ℕ} {r : V × List V}

omit [DecidableEq K] in
theorem moved_self : Moved T rev l l := fun _ hv => .inl hv

omit [DecidableEq K] in
theorem Moved.filter (h : Moved T rev l l') (p : V → Bool) : Moved T rev l (l'.filter p) :=
  fun v hv => h v (mem_filter.mp hv).1

omit [DecidableEq K] in
theorem moved_append (hv : rev < T.version v) : Moved T rev l (l ++ [v]) := by
  intro u hu
  rcases mem_append.mp hu with hu | hu
  · exact .inl hu
  · cases mem_singleton.mp hu
    exact .inr hv

theorem moved_replace (hv : rev < T.version v) : Moved T rev l (replace T l v) := by
  intro u hu
  rcases mem_replace hu with rfl | ⟨hu, -⟩
  · exact .inr hv
  · exact .inl hu

omit [DecidableEq K] in
theorem Copied.moved (h : Copied T l c) (hc : T.version c ≤ rev) (hm : Moved T rev l l') :
    Copied T l' c := by
  intro v hv hn hver
  rcases hm v hv with hmem | hnew
  · exact h v hmem hn hver
  · omega

theorem copied_of_find (hl : Distinct T l) (h : find T l k = some c) : Copied T l c := by
  intro v hv hn _
  have := find_of_mem hl hv
  rw [hn, find_name h, h] at this
  cases this
  rfl

theorem update_ok {merge : V → V → V} (h : update T merge rev l v = .ok r) :
    ∃ u, find T l (T.name v) = some u ∧ T.version u = T.version v ∧
      r = (T.stamp (merge u v) rev, replace T l (T.stamp (merge u v) rev)) := by
  unfold update at h
  split at h
  · cases h
  · rename_i u hu
    split at h
    · rename_i hver
      cases h
      exact ⟨u, hu, hver, rfl⟩
    · cases h

theorem create_ok (h : create T rev l v = .ok r) :
    find T l (T.name v) = none ∧ r = (T.stamp v rev, l ++ [T.stamp v rev]) := by
  unfold create at h
  split at h
  · cases h
  · rename_i hn
    cases h
    exact ⟨hn, rfl⟩

end Versions

section Totals

variable {T} {l : List V} {u v : V} {k : K} (f : V → ℤ)

@[simp] theorem total_nil : total f ([] : List V) = 0 := rfl

@[simp] theorem total_cons : total f (v :: l) = f v + total f l := by simp [total]

end Totals

end FilePool.VersionedStore
