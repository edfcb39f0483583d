import Mathlib

/-!
Paths as Go's package path treats them: the clean form of a path, its folder, its last part, and
the join of a folder and a name. A clean path from the root is a list of proper parts, and the
folder and the last part of such a path join to the path again, whatever is appended to it.
-/
namespace FilePool.PathNames

open List

/-- The parts of the clean form, last one first, after one more part of the path. -/
def cleanPart (rooted : Bool) (out : List (List Char)) (part : List Char) : List (List Char) :=
  if part = [] ∨ part = ['.'] then out
  else if part = ['.', '.'] then
    match out with
    | [] => if rooted then [] else [part]
    | last :: rest => if last = part then part :: out else rest
  else part :: out

def cleanParts (rooted : Bool) (parts : List (List Char)) : List (List Char) :=
  (parts.foldl (cleanPart rooted) []).reverse

def rootedPath (parts : List (List Char)) : List Char := '/' :: ['/'].intercalate parts

def pathClean (p : List Char) : List Char :=
  if p.head? = some '/' then rootedPath (cleanParts true (p.splitOn '/'))
  else if cleanParts false (p.splitOn '/') = [] then ['.']
  else ['/'].intercalate (cleanParts false (p.splitOn '/'))

def pathBase (p : List Char) : List Char :=
  if p = [] then ['.']
  else if p.rdropWhile (· = '/') = [] then ['/']
  else (p.rdropWhile (· = '/')).rtakeWhile (· ≠ '/')

def pathDir (p : List Char) : List Char := pathClean (p.rdropWhile (· ≠ '/'))

def pathJoin (dir base : List Char) : List Char :=
  if dir = [] then if base = [] then [] else pathClean base
  else pathClean (dir ++ '/' :: base)

/-- A part that the clean form keeps. -/
def Proper (q : List Char) : Prop := q ≠ [] ∧ q ≠ ['.'] ∧ q ≠ ['.', '.'] ∧ '/' ∉ q

variable {p q base : List Char} {parts : List (List Char)}

theorem slash_notMem_splitOn (h : q ∈ p.splitOn '/') : '/' ∉ q := by
  induction p generalizing q with
  | nil => simp_all
  | cons c p ih =>
    unfold splitOn at h ih
    rw [splitOnP_cons_eq_if_modifyHead] at h
    by_cases hc : c = '/'
    · rw [if_pos (by simp [hc])] at h
      rcases mem_cons.mp h with rfl | h
      · exact not_mem_nil
      · exact ih h
    · rw [if_neg (by simp [hc])] at h
      cases hs : splitOnP (· == '/') p with
      | nil => simp [hs] at h
      | cons x xs =>
        rw [hs, modifyHead_cons] at h
        rcases mem_cons.mp h with rfl | h
        · exact fun hmem => (mem_cons.mp hmem).elim (fun heq => hc heq.symm)
            (ih (hs ▸ mem_cons_self))
        · exact ih (hs ▸ mem_cons_of_mem x h)

theorem proper_foldl {out : List (List Char)} (hout : ∀ q ∈ out, Proper q)
    (hparts : ∀ q ∈ parts, '/' ∉ q) : ∀ q ∈ parts.foldl (cleanPart true) out, Proper q := by
  induction parts generalizing out with
  | nil => exact hout
  | cons part parts ih =>
    refine ih ?_ (fun q hq => hparts q (mem_cons_of_mem part hq))
    unfold cleanPart
    by_cases hskip : part = [] ∨ part = ['.']
    · rw [if_pos hskip]
      exact hout
    rw [if_neg hskip]
    by_cases hdots : part = ['.', '.']
    · rw [if_pos hdots]
      cases out with
      | nil => exact hout
      | cons last rest =>
        have hlast := (hout last mem_cons_self).2.2.1
        simp only [hdots, if_neg hlast]
        exact fun q hq => hout q (mem_cons_of_mem last hq)
    · rw [if_neg hdots]
      rw [not_or] at hskip
      exact forall_mem_cons.mpr ⟨⟨hskip.1, hskip.2, hdots, hparts part mem_cons_self⟩, hout⟩

/-- The clean form of a path from the root has proper parts only. -/
theorem exists_proper (h : p.head? = some '/') :
    ∃ parts, (∀ q ∈ parts, Proper q) ∧ pathClean p = rootedPath parts := by
  refine ⟨cleanParts true (p.splitOn '/'), fun q hq => ?_, if_pos h⟩
  exact proper_foldl (by simp) (fun x hx => slash_notMem_splitOn hx) q (mem_reverse.mp hq)

theorem cleanParts_proper (h : ∀ q ∈ parts, q = [] ∨ Proper q) :
    cleanParts true parts = parts.filter (· ≠ []) := by
  have hfold : ∀ out, parts.foldl (cleanPart true) out =
      (parts.filter (· ≠ [])).reverse ++ out := by
    induction parts with
    | nil => exact fun out => rfl
    | cons part parts ih =>
      intro out
      rw [foldl_cons, ih (fun q hq => h q (mem_cons_of_mem part hq))]
      rcases h part mem_cons_self with rfl | hpart
      · simp [cleanPart]
      · simp [cleanPart, hpart.1, hpart.2.1, hpart.2.2.1]
  unfold cleanParts
  rw [hfold [], append_nil, reverse_reverse]

theorem pathClean_rootedPath (parts : List (List Char)) (h : ∀ q ∈ parts, q = [] ∨ Proper q) :
    pathClean (rootedPath parts) = rootedPath (parts.filter (· ≠ [])) := by
  cases parts with
  | nil => rfl
  | cons part parts =>
    have hsplit : rootedPath (part :: parts) = ['/'].intercalate ([] :: part :: parts) := rfl
    have hslash : ∀ q ∈ [] :: part :: parts, '/' ∉ q := by
      refine forall_mem_cons.mpr ⟨not_mem_nil, fun q hq => ?_⟩
      rcases h q hq with rfl | hproper
      · exact not_mem_nil
      · exact hproper.2.2.2
    have hroot : (rootedPath (part :: parts)).head? = some '/' := rfl
    unfold pathClean
    rw [if_pos hroot, hsplit, splitOn_intercalate '/' hslash (cons_ne_nil _ _),
      cleanParts_proper (forall_mem_cons.mpr ⟨.inl rfl, h⟩)]
    simp

/-- The last part stands after a slash; before it is the path of the other parts. -/
theorem rootedPath_snoc (parts : List (List Char)) (q : List Char) :
    rootedPath (parts ++ [q]) = (if parts = [] then [] else rootedPath parts) ++ '/' :: q := by
  induction parts with
  | nil => simp [rootedPath, intercalate]
  | cons part parts ih =>
    cases parts with
    | nil => simp [rootedPath, intercalate]
    | cons x xs => simp_all [rootedPath, intercalate]

theorem Proper.append {s : List Char} (hq : Proper q) (hs : '/' ∉ s) : Proper (q ++ s) := by
  obtain ⟨hnil, hdot, hdots, hslash⟩ := hq
  refine ⟨by simp [hnil], ?_, ?_, by simp [hslash, hs]⟩
  · intro h
    rcases append_eq_singleton_iff.mp h with ⟨h, -⟩ | ⟨h, -⟩
    · exact hnil h
    · exact hdot h
  · intro h
    rcases append_eq_cons_iff.mp h with ⟨h, -⟩ | ⟨as, rfl, hrest⟩
    · exact hnil h
    · rcases append_eq_singleton_iff.mp hrest.symm with ⟨rfl, -⟩ | ⟨rfl, -⟩
      · exact hdot rfl
      · exact hdots rfl

theorem proper_snoc (hparts : ∀ x ∈ parts, Proper x) (hq : q = [] ∨ Proper q) :
    ∀ x ∈ parts ++ [q], x = [] ∨ Proper x := by
  intro x hx
  rcases mem_append.mp hx with hx | hx
  · exact .inr (hparts x hx)
  · exact mem_singleton.mp hx ▸ hq

theorem filter_proper (hparts : ∀ x ∈ parts, Proper x) : parts.filter (· ≠ []) = parts :=
  filter_eq_self.mpr (fun x hx => by simpa using (hparts x hx).1)

theorem all_ne_slash (hq : Proper q) : ∀ c ∈ q.reverse, decide (c ≠ '/') = true :=
  fun _ hc => decide_eq_true (fun h => hq.2.2.2 (h ▸ mem_reverse.mp hc))

theorem pathDir_rootedPath (hparts : ∀ x ∈ parts, Proper x) (hq : Proper q) :
    pathDir (rootedPath (parts ++ [q])) = rootedPath parts := by
  have hcut : (rootedPath (parts ++ [q])).rdropWhile (· ≠ '/') = rootedPath (parts ++ [[]]) := by
    unfold rdropWhile
    rw [rootedPath_snoc, rootedPath_snoc, reverse_append, reverse_cons, append_assoc,
      dropWhile_append_of_pos (all_ne_slash hq)]
    simp
  unfold pathDir
  rw [hcut, pathClean_rootedPath _ (proper_snoc hparts (.inl rfl)), filter_append,
    filter_proper hparts]
  simp

theorem pathBase_rootedPath (hq : Proper q) : pathBase (rootedPath (parts ++ [q])) = q := by
  have hlast : (rootedPath (parts ++ [q])).rdropWhile (· = '/') = rootedPath (parts ++ [q]) := by
    obtain ⟨init, c, rfl⟩ := (eq_nil_or_concat q).resolve_left hq.1
    have hc : c ≠ '/' := fun h => hq.2.2.2 (by simp [h])
    simp [rootedPath_snoc, rdropWhile, hc]
  have htake : (rootedPath (parts ++ [q])).rtakeWhile (· ≠ '/') = q := by
    unfold rtakeWhile
    rw [rootedPath_snoc, reverse_append, reverse_cons, append_assoc,
      takeWhile_append_of_pos (all_ne_slash hq)]
    simp
  have hne : rootedPath (parts ++ [q]) ≠ [] := cons_ne_nil _ _
  unfold pathBase
  rw [hlast, if_neg hne, if_neg hne, htake]

theorem pathJoin_rootedPath (hparts : ∀ x ∈ parts, Proper x) (hq : Proper q) :
    pathJoin (rootedPath parts) q = rootedPath (parts ++ [q]) := by
  have hne : rootedPath parts ≠ [] := cons_ne_nil _ _
  unfold pathJoin
  rw [if_neg hne]
  by_cases hnil : parts = []
  · subst hnil
    -- The root ends in a slash already, so the joined path has an empty part.
    have hroot := pathClean_rootedPath [[], q] (by simp [hq])
    rw [show [[], q].filter (· ≠ []) = [q] by simp [hq.1]] at hroot
    simpa [rootedPath, intercalate] using hroot
  · have hjoin := rootedPath_snoc parts q
    rw [if_neg hnil] at hjoin
    rw [← hjoin, pathClean_rootedPath _ (proper_snoc hparts (.inr hq)), filter_append,
      filter_proper hparts]
    simp [hq.1]

/-- The folder and the last part of a clean path from the root join to the path again, whatever
is appended to the last part. -/
theorem join_dir_base {s : List Char} (hp : p.head? = some '/') (hs : Proper s) :
    pathJoin (pathDir (pathClean p)) (pathBase (pathClean p) ++ s) = pathClean p ++ s := by
  obtain ⟨parts, hparts, hclean⟩ := exists_proper hp
  rw [hclean]
  rcases eq_nil_or_concat parts with rfl | ⟨init, q, rfl⟩
  · have hdir : pathDir (rootedPath []) = rootedPath [] := by decide
    have hbase : pathBase (rootedPath []) = ['/'] := by decide
    have hroot := pathClean_rootedPath [[], [], s] (by simp [hs])
    rw [show [[], [], s].filter (· ≠ []) = [s] by simp [hs.1]] at hroot
    rw [hdir, hbase]
    simpa [pathJoin, rootedPath, intercalate] using hroot
  · rw [concat_eq_append] at hparts ⊢
    have hinit : ∀ x ∈ init, Proper x := fun x hx => hparts x (mem_append_left _ hx)
    have hq : Proper q := hparts q (mem_append_right _ (mem_singleton_self q))
    rw [pathDir_rootedPath hinit hq, pathBase_rootedPath hq,
      pathJoin_rootedPath hinit (hq.append hs.2.2.2), rootedPath_snoc, rootedPath_snoc,
      append_assoc, cons_append]

end FilePool.PathNames
