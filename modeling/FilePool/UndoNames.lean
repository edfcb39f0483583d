import Mathlib

/-!
The names in the undo folder. The writer numbers the undo files from 1 with at
least ten digits, and the three endings say how far a file has come. A reader
takes any decimal number before the ending. The numbers are not bounded here: a
folder does not get near the end of a 64-bit number.
-/
namespace FilePool.UndoNames

open List

abbrev Name := List Char

instance : LawfulBEq Name := inferInstanceAs (LawfulBEq (List Char))

def undoApplied : Name := ['.', 'u', 'n', 'd', 'o']

def undoPart : Name := undoApplied ++ ['.', 'p', 'a', 'r', 't']

def undoReady : Name := undoApplied ++ ['.', 'r', 'e', 'a', 'd', 'y']

def hasSuffix (name ending : Name) : Bool := ending.isSuffixOf name

def trimSuffix (name ending : Name) : Name :=
  if hasSuffix name ending then name.take (name.length - ending.length) else name

def digit? (c : Char) : Option ℕ :=
  if 48 ≤ c.toNat ∧ c.toNat ≤ 57 then some (c.toNat - 48) else none

def digits? : ℕ → Name → Option ℕ
  | acc, [] => some acc
  | acc, c :: cs =>
    match digit? c with
    | some d => digits? (acc * 10 + d) cs
    | none => none

def unsigned? (cs : Name) : Option ℕ := if cs = [] then none else digits? 0 cs

/-- A decimal number with an optional sign, as strconv.Atoi takes it. -/
def atoi : Name → Option ℤ
  | [] => none
  | c :: cs =>
    if c = '-' then (unsigned? cs).map (fun (n : ℕ) => -(n : ℤ))
    else if c = '+' then (unsigned? cs).map (fun (n : ℕ) => (n : ℤ))
    else (unsigned? (c :: cs)).map (fun (n : ℕ) => (n : ℤ))

/-- The last w decimal digits of a number. -/
def decimal : ℕ → ℕ → Name
  | 0, _ => []
  | w + 1, n => Char.ofNat (48 + n / 10 ^ w % 10) :: decimal w n

def decimalWidth (n : ℕ) : ℕ := if n < 10 ^ 10 then 10 else Nat.log 10 n + 1

/-- The number of an undo file, written with %010d. -/
def seqName (n : ℕ) : Name := decimal (decimalWidth n) n

/-- The place where a name holds the text first. -/
def indexOf (text : Name) : Name → Option ℕ
  | [] => if text = [] then some 0 else none
  | c :: cs => if text.isPrefixOf (c :: cs) then some 0 else (indexOf text cs).map (· + 1)

/-- The number of a restore point undo file; none for any other name. -/
def appliedSeq? (name : Name) : Option ℤ :=
  if hasSuffix name undoApplied then atoi (trimSuffix name undoApplied) else none

/-- The number before the first ".undo" of a name, whatever follows it. -/
def entrySeq? (name : Name) : Option ℤ :=
  match indexOf undoApplied name with
  | some i => if 0 < i then atoi (name.take i) else none
  | none => none

def nextSeqStep (next : ℕ) (name : Name) : ℕ :=
  match entrySeq? name with
  | some n => if (next : ℤ) ≤ n then n.toNat + 1 else next
  | none => next

/-- The next free number: one more than the largest in the folder. -/
def nextUndoSeq (names : List Name) : ℕ := names.foldl nextSeqStep 1

theorem decimalWidth_spec (n : ℕ) : n < 10 ^ decimalWidth n := by
  unfold decimalWidth
  split
  · assumption
  · exact Nat.lt_pow_succ_log_self (by decide) n

theorem decimalWidth_pos (n : ℕ) : 10 ≤ decimalWidth n := by
  unfold decimalWidth
  split
  · exact Nat.le_refl _
  · have := Nat.le_log_of_pow_le (b := 10) (x := 10) (y := n) (by decide) (by omega)
    omega

variable {d n : ℕ} {name stem rest ending : Name}

theorem digit_toNat (h : d < 10) : (Char.ofNat (48 + d)).toNat = 48 + d := by
  have hv : (48 + d).isValidChar := .inl (by omega)
  simp only [Char.ofNat, hv, Char.ofNatAux, dif_pos]
  simp
  omega

theorem digit?_ofNat (h : d < 10) : digit? (Char.ofNat (48 + d)) = some d := by
  unfold digit?
  rw [digit_toNat h, if_pos (by omega), Nat.add_sub_cancel_left]

theorem digits?_decimal (w n acc : ℕ) :
    digits? acc (decimal w n) = some (acc * 10 ^ w + n % 10 ^ w) := by
  induction w generalizing acc with
  | zero => simp [decimal, digits?, Nat.mod_one]
  | succ w ih =>
    have hmod : n % 10 ^ (w + 1) = 10 ^ w * (n / 10 ^ w % 10) + n % 10 ^ w := by
      rw [pow_succ, Nat.mod_mul]
      omega
    simp only [decimal, digits?, digit?_ofNat (Nat.mod_lt _ (show 0 < 10 by decide)), ih, hmod]
    refine congrArg some ?_
    ring

theorem digits?_mem (cs : Name) (acc n : ℕ) (h : digits? acc cs = some n) (c : Char)
    (hc : c ∈ cs) : digit? c ≠ none := by
  induction cs generalizing acc with
  | nil => simp at hc
  | cons d cs ih =>
    unfold digits? at h
    cases hd : digit? d with
    | none => simp [hd] at h
    | some v =>
      simp only [hd] at h
      rcases mem_cons.mp hc with rfl | hc
      · simp [hd]
      · exact ih (acc * 10 + v) h hc

theorem ne_dot_of_digit (c : Char) (h : digit? c ≠ none) : c ≠ '.' ∧ c ≠ '-' ∧ c ≠ '+' := by
  refine ⟨?_, ?_, ?_⟩ <;>
  · rintro rfl
    exact h (by decide)

theorem seqName_digits {c : Char} (hc : c ∈ seqName n) : digit? c ≠ none :=
  digits?_mem (seqName n) 0 _ (digits?_decimal (decimalWidth n) n 0) c hc

theorem length_decimal (w n : ℕ) : (decimal w n).length = w := by
  induction w with
  | zero => rfl
  | succ w ih => simp [decimal, ih]

theorem length_seqName (n : ℕ) : (seqName n).length = decimalWidth n := length_decimal _ n

theorem unsigned?_decimal {w : ℕ} (hw : 0 < w) (hn : n < 10 ^ w) :
    unsigned? (decimal w n) = some n := by
  have hne : decimal w n ≠ [] := by
    intro hnil
    have hlen := length_decimal w n
    rw [hnil, length_nil] at hlen
    omega
  unfold unsigned?
  rw [if_neg hne, digits?_decimal, Nat.zero_mul, Nat.zero_add, Nat.mod_eq_of_lt hn]

theorem atoi_decimal (w n : ℕ) (hw : 0 < w) (hn : n < 10 ^ w) :
    atoi (decimal w n) = some (n : ℤ) := by
  have hval := unsigned?_decimal hw hn
  cases hs : decimal w n with
  | nil =>
    rw [hs] at hval
    cases hval
  | cons c cs =>
    have hc := ne_dot_of_digit c (digits?_mem _ 0 _ (digits?_decimal w n 0) c
      (by rw [hs]; exact mem_cons_self ..))
    simp only [atoi, if_neg hc.2.1, if_neg hc.2.2]
    rw [← hs, hval]
    rfl

theorem atoi_seqName (n : ℕ) : atoi (seqName n) = some (n : ℤ) := by
  have hpos := decimalWidth_pos n
  exact atoi_decimal (decimalWidth n) n (by omega) (decimalWidth_spec n)

theorem seqName_injective (m n : ℕ) (h : seqName m = seqName n) : m = n := by
  have hm := atoi_seqName m
  rw [h, atoi_seqName n] at hm
  exact_mod_cast (Option.some.inj hm).symm

/-- A number that the reader takes has digits and a sign in it and nothing else. -/
theorem ne_of_atoi {n : ℤ} {x : Char} (hx : digit? x = none ∧ x ≠ '-' ∧ x ≠ '+')
    (h : atoi name = some n) (c : Char) (hc : c ∈ name) : c ≠ x := by
  have hunsigned : ∀ cs : Name, unsigned? cs ≠ none → ∀ d ∈ cs, d ≠ x := by
    rintro cs hcs d hd rfl
    unfold unsigned? at hcs
    split at hcs
    · simp at hcs
    · obtain ⟨v, hv⟩ := Option.ne_none_iff_exists'.mp hcs
      exact digits?_mem cs 0 v hv d hd hx.1
  cases name with
  | nil => simp at hc
  | cons d ds =>
    have hmap : ∀ (cs : Name) (f : ℕ → ℤ), (unsigned? cs).map f = some n → unsigned? cs ≠ none := by
      intro cs f hf hnone
      rw [hnone] at hf
      simp at hf
    by_cases hminus : d = '-'
    · simp only [atoi, if_pos hminus] at h
      rcases mem_cons.mp hc with rfl | hc
      · exact hminus ▸ hx.2.1.symm
      · exact hunsigned ds (hmap ds _ h) c hc
    · by_cases hplus : d = '+'
      · simp only [atoi, if_neg hminus, if_pos hplus] at h
        rcases mem_cons.mp hc with rfl | hc
        · exact hplus ▸ hx.2.2.symm
        · exact hunsigned ds (hmap ds _ h) c hc
      · simp only [atoi, if_neg hminus, if_neg hplus] at h
        exact hunsigned (d :: ds) (hmap (d :: ds) _ h) c hc

theorem indexOf_append (h : ∀ c ∈ stem, c ≠ '.') :
    indexOf undoApplied (stem ++ (undoApplied ++ rest)) = some stem.length := by
  induction stem with
  | nil => simp [undoApplied, indexOf]
  | cons c cs ih =>
    have hc := h c (mem_cons_self ..)
    have hn : undoApplied.isPrefixOf (c :: (cs ++ (undoApplied ++ rest))) = false := by
      have hne : ('.' == c) = false := beq_eq_false_iff_ne.mpr (Ne.symm hc)
      simp [undoApplied, isPrefixOf, hne]
    rw [cons_append, indexOf, hn]
    rw [ih (fun d hd => h d (mem_cons_of_mem c hd))]
    rfl

theorem entrySeq?_append (stem rest : Name) (n : ℤ) (h : atoi stem = some n) :
    entrySeq? (stem ++ (undoApplied ++ rest)) = some n := by
  have hne : 0 < stem.length := by
    cases stem with
    | nil => simp [atoi] at h
    | cons c cs => simp
  unfold entrySeq?
  rw [indexOf_append (ne_of_atoi (by decide) h)]
  simp only [if_pos hne, take_left, h]

theorem entrySeq?_seqName :
    entrySeq? (seqName n ++ (undoApplied ++ rest)) = some (n : ℤ) :=
  entrySeq?_append _ rest n (atoi_seqName n)

theorem hasSuffix_iff (name ending : Name) :
    hasSuffix name ending = true ↔ ∃ stem, name = stem ++ ending := by
  unfold hasSuffix
  rw [isSuffixOf_iff_suffix]
  constructor
  · rintro ⟨stem, h⟩
    exact ⟨stem, h.symm⟩
  · rintro ⟨stem, h⟩
    exact ⟨stem, h.symm⟩

theorem hasSuffix_append : hasSuffix (stem ++ ending) ending = true :=
  (hasSuffix_iff _ _).mpr ⟨stem, rfl⟩

/-- A name that ends in another letter does not have the ending. -/
theorem not_hasSuffix {other : Name} (ho : other ≠ []) (he : ending ≠ [])
    (h : other.getLast? ≠ ending.getLast?) : hasSuffix (stem ++ other) ending = false := by
  cases hb : hasSuffix (stem ++ other) ending with
  | false => rfl
  | true =>
    obtain ⟨pre, hpre⟩ := (hasSuffix_iff _ _).mp hb
    have hlast := congrArg getLast? hpre
    rw [getLast?_append_of_ne_nil _ ho, getLast?_append_of_ne_nil _ he] at hlast
    exact absurd hlast h

theorem trimSuffix_append (stem ending : Name) : trimSuffix (stem ++ ending) ending = stem := by
  unfold trimSuffix
  rw [if_pos (hasSuffix_append)]
  simp

theorem appliedSeq?_seqName : appliedSeq? (seqName n ++ undoApplied) = some (n : ℤ) := by
  unfold appliedSeq?
  rw [if_pos hasSuffix_append, trimSuffix_append, atoi_seqName]

theorem entrySeq?_of_applied {n : ℤ} (h : appliedSeq? name = some n) :
    entrySeq? name = some n := by
  unfold appliedSeq? at h
  split at h
  · rename_i hs
    obtain ⟨stem, rfl⟩ := (hasSuffix_iff _ _).mp hs
    rw [trimSuffix_append] at h
    have := entrySeq?_append stem [] n h
    simpa using this
  · contradiction

theorem le_nextSeqStep (next : ℕ) (name : Name) : next ≤ nextSeqStep next name := by
  unfold nextSeqStep
  split
  · split
    · omega
    · exact Nat.le_refl _
  · exact Nat.le_refl _

theorem le_foldl_nextSeqStep (names : List Name) (next : ℕ) :
    next ≤ names.foldl nextSeqStep next := by
  induction names generalizing next with
  | nil => exact Nat.le_refl _
  | cons name names ih => exact le_trans (le_nextSeqStep next name) (ih _)

theorem lt_foldl_nextSeqStep (names : List Name) (next : ℕ) (name : Name) (n : ℤ)
    (hmem : name ∈ names) (hn : entrySeq? name = some n) :
    n < (names.foldl nextSeqStep next : ℕ) := by
  induction names generalizing next with
  | nil => simp at hmem
  | cons d names ih =>
    rcases mem_cons.mp hmem with rfl | hmem
    · have hstep : n < (nextSeqStep next name : ℕ) := by
        unfold nextSeqStep
        rw [hn]
        simp only
        split <;> omega
      have hle := le_foldl_nextSeqStep names (nextSeqStep next name)
      simp only [foldl_cons]
      omega
    · exact ih (nextSeqStep next d) hmem

theorem lt_nextUndoSeq {names : List Name} {n : ℤ} (hmem : name ∈ names)
    (hn : entrySeq? name = some n) : n < nextUndoSeq names :=
  lt_foldl_nextSeqStep names 1 name n hmem hn

/-- No name in the folder starts with the next number and ".undo". -/
theorem next_not_mem (names : List Name) (rest : Name) :
    seqName (nextUndoSeq names) ++ (undoApplied ++ rest) ∉ names := by
  intro hmem
  have := lt_nextUndoSeq hmem entrySeq?_seqName
  omega

end FilePool.UndoNames
