import Mathlib

/-!
Regular files as finite byte words, with the operations a file offers: read a
range, write a range and set the size. A gap that a write or a larger size
leaves is filled with zeros. Two files are compared through byteAt, which is
zero past the end of the file.
-/
namespace FilePool.ByteFiles

open List

abbrev Bytes := List UInt8

def byteAt (b : Bytes) (i : ℕ) : UInt8 := b.getD i 0

/-- Set the size: cut the end off, or fill up with zeros. -/
def resize (b : Bytes) (n : ℕ) : Bytes := b.take n ++ List.replicate (n - b.length) 0

/-- Write a range. A write of no bytes leaves even the size as it is. -/
def writeAt (b : Bytes) (off : ℕ) (data : Bytes) : Bytes :=
  if data = [] then b else resize b off ++ data ++ b.drop (off + data.length)

/-- Read a range; the answer is shorter where the file ends inside it. -/
def readAt (b : Bytes) (off len : ℕ) : Bytes := (b.drop off).take len

def AllZero (b : Bytes) : Prop := ∀ x ∈ b, x = 0

instance (b : Bytes) : Decidable (AllZero b) :=
  inferInstanceAs (Decidable (∀ x ∈ b, x = 0))

variable (b : Bytes) (off : ℕ) (data : Bytes) {i n : ℕ}

theorem byteAt_of_length_le (i : ℕ) (h : b.length ≤ i) : byteAt b i = 0 := getD_eq_default b 0 h

theorem byteAt_eq_getElem (h : i < b.length) : byteAt b i = b[i] := getD_eq_getElem b 0 h

theorem byteAt_append (a b : Bytes) (i : ℕ) :
    byteAt (a ++ b) i = if i < a.length then byteAt a i else byteAt b (i - a.length) := by
  split
  · rename_i h
    exact getD_append a b 0 i h
  · exact getD_append_right a b 0 i (by omega)

theorem byteAt_replicate_zero : byteAt (List.replicate n 0) i = 0 := by
  by_cases h : i < n
  · exact getD_replicate 0 h
  · exact byteAt_of_length_le _ i (by simpa using h)

theorem byteAt_take (n i : ℕ) : byteAt (b.take n) i = if i < n then byteAt b i else 0 := by
  unfold byteAt
  simp only [getD_eq_getElem?_getD, getElem?_take]
  split <;> rfl

theorem byteAt_drop (n i : ℕ) : byteAt (b.drop n) i = byteAt b (n + i) := by
  unfold byteAt
  simp only [getD_eq_getElem?_getD, getElem?_drop]

/-- Files with one size and the same bytes are one file. -/
theorem ext_byteAt (a b : Bytes) (hlen : a.length = b.length)
    (h : ∀ i, i < a.length → byteAt a i = byteAt b i) : a = b := by
  apply ext_getElem hlen
  intro i ha hb
  have hi := h i ha
  rwa [byteAt_eq_getElem a ha, byteAt_eq_getElem b hb] at hi

theorem allZero_iff : AllZero b ↔ ∀ i, byteAt b i = 0 := by
  constructor
  · intro h i
    by_cases hi : i < b.length
    · rw [byteAt_eq_getElem b hi]
      exact h _ (getElem_mem hi)
    · exact byteAt_of_length_le b i (by omega)
  · intro h x hx
    obtain ⟨i, hi, rfl⟩ := getElem_of_mem hx
    rw [← byteAt_eq_getElem b hi]
    exact h i

@[simp] theorem length_resize : (resize b n).length = n := by
  simp only [resize, length_append, length_take, length_replicate]
  omega

theorem byteAt_resize (n i : ℕ) : byteAt (resize b n) i = if i < n then byteAt b i else 0 := by
  unfold resize
  rw [byteAt_append, byteAt_replicate_zero, byteAt_take]
  split
  · rfl
  · rename_i h
    split
    · simp only [length_take] at h
      rw [byteAt_of_length_le b i (by omega)]
    · rfl

theorem resize_self : resize b b.length = b := by
  simp [resize]

theorem length_writeAt (h : data ≠ []) :
    (writeAt b off data).length = max b.length (off + data.length) := by
  simp only [writeAt, h, if_false, length_append, length_resize, length_drop]
  omega

theorem byteAt_writeAt (i : ℕ) :
    byteAt (writeAt b off data) i =
      if off ≤ i ∧ i < off + data.length then byteAt data (i - off) else byteAt b i := by
  by_cases hd : data = []
  · subst data
    have hn : ¬ (off ≤ i ∧ i < off + ([] : Bytes).length) := by simp
    simp only [writeAt, if_true, hn, if_false]
  · simp only [writeAt, hd, if_false]
    rw [byteAt_append, byteAt_append, byteAt_resize, byteAt_drop]
    by_cases h1 : i < off
    · simp [h1, show i < off + data.length by omega, show ¬ off ≤ i by omega]
    · by_cases h2 : i < off + data.length
      · simp [h1, h2]
      · simp [h2, show off + data.length + (i - (off + data.length)) = i by omega]

theorem length_le_writeAt : b.length ≤ (writeAt b off data).length := by
  by_cases hd : data = []
  · simp [writeAt, hd]
  · rw [length_writeAt b off data hd]
    omega

theorem length_writeAt_le (n : ℕ)
    (hb : b.length ≤ n) (hd : off + data.length ≤ n) :
    (writeAt b off data).length ≤ n := by
  by_cases h : data = []
  · simpa [writeAt, h] using hb
  · rw [length_writeAt b off data h]
    omega

theorem length_readAt (off len : ℕ) : (readAt b off len).length = min len (b.length - off) := by
  simp [readAt]

theorem byteAt_readAt (off len i : ℕ) :
    byteAt (readAt b off len) i = if i < len then byteAt b (off + i) else 0 := by
  unfold readAt
  rw [byteAt_take, byteAt_drop]

theorem readAt_append_left (a b : Bytes) (n : ℕ) (h : a.length = n) :
    readAt (a ++ b) 0 n = a := by
  subst h
  simp [readAt]

theorem readAt_append_right (a : Bytes) {b : Bytes} (off k len : ℕ) (h : off = a.length + k) :
    readAt (a ++ b) off len = readAt b k len := by
  subst h
  unfold readAt
  rw [drop_length_add_append]

theorem readAt_drop (n off len : ℕ) : readAt (b.drop n) off len = readAt b (n + off) len := by
  simp [readAt]

theorem readAt_length {off : ℕ} : readAt b off (readAt b off n).length = readAt b off n := by
  rw [length_readAt]
  apply take_eq_take_iff.mpr
  rw [length_drop]
  omega

theorem writeAt_same (hin : off + data.length ≤ b.length)
    (h : ∀ i, off ≤ i → i < off + data.length → byteAt data (i - off) = byteAt b i) :
    writeAt b off data = b := by
  apply ext_byteAt
  · exact Nat.le_antisymm (length_writeAt_le b off data _ (Nat.le_refl _) hin)
      (length_le_writeAt b off data)
  · intro i _
    rw [byteAt_writeAt]
    split
    · rename_i hi
      exact h i hi.1 hi.2
    · rfl

/-- The file with zeros from an offset on. -/
def zeroFrom (b : Bytes) (n : ℕ) : Bytes := resize (b.take n) b.length

@[simp] theorem length_zeroFrom (n : ℕ) : (zeroFrom b n).length = b.length := length_resize _

theorem byteAt_zeroFrom (n i : ℕ) : byteAt (zeroFrom b n) i = if i < n then byteAt b i else 0 := by
  unfold zeroFrom
  rw [byteAt_resize, byteAt_take]
  split
  · rfl
  · split
    · exact (byteAt_of_length_le b i (by omega)).symm
    · rfl

theorem readAt_zeroFrom {off len : ℕ} (h : off + len ≤ n) :
    readAt (zeroFrom b n) off len = readAt b off len := by
  apply ext_byteAt
  · rw [length_readAt, length_readAt, length_zeroFrom]
  · intro i hi
    rw [length_readAt] at hi
    rw [byteAt_readAt, byteAt_readAt, byteAt_zeroFrom, if_pos (by omega), if_pos (by omega),
      if_pos (by omega)]

theorem zeroFrom_zeroFrom : zeroFrom (zeroFrom b n) n = zeroFrom b n := by
  apply ext_byteAt
  · simp
  · intro i _
    rw [byteAt_zeroFrom, byteAt_zeroFrom]
    split
    · rfl
    · rfl

end FilePool.ByteFiles
