import FilePool.ByteFiles

/-!
Big-endian words of a fixed width in a byte file, and the reading of a 64-bit
word as a signed integer. A word keeps the value modulo the power of its width;
a signed reading keeps it modulo 2^64, within the signed range.
-/
namespace FilePool.BigEndian

open ByteFiles

def bigEndian : ℕ → ℕ → Bytes
  | 0, _ => []
  | w + 1, n => UInt8.ofNat (n / 256 ^ w) :: bigEndian w n

def ofBigEndian (b : Bytes) : ℕ := b.foldl (fun acc x => acc * 256 + x.toNat) 0

/-- The unsigned 64-bit word with the same bits as a signed value. -/
def ofSigned (t : ℤ) : ℕ := (t % 2 ^ 64).toNat

/-- The signed value with the same bits as an unsigned 64-bit word. -/
def toSigned (n : ℕ) : ℤ := Int.bmod n (2 ^ 64)

/-- The signed 64-bit value that an unbounded one becomes. -/
def wrap (t : ℤ) : ℤ := Int.bmod t (2 ^ 64)

def InRange (t : ℤ) : Prop := -2 ^ 63 ≤ t ∧ t < 2 ^ 63

instance (t : ℤ) : Decidable (InRange t) :=
  inferInstanceAs (Decidable (-2 ^ 63 ≤ t ∧ t < 2 ^ 63))

@[simp] theorem length_bigEndian (w n : ℕ) : (bigEndian w n).length = w := by
  induction w with
  | zero => rfl
  | succ w ih => simp [bigEndian, ih]

theorem foldl_bigEndian (w n acc : ℕ) :
    (bigEndian w n).foldl (fun acc x => acc * 256 + x.toNat) acc =
      acc * 256 ^ w + n % 256 ^ w := by
  induction w generalizing acc with
  | zero => simp [bigEndian, Nat.mod_one]
  | succ w ih =>
    have hmod : n % 256 ^ (w + 1) = 256 ^ w * (n / 256 ^ w % 256) + n % 256 ^ w := by
      rw [pow_succ, Nat.mod_mul]
      omega
    simp only [bigEndian, List.foldl_cons, ih, UInt8.toNat_ofNat']
    rw [hmod]
    ring

theorem ofBigEndian_bigEndian (w n : ℕ) : ofBigEndian (bigEndian w n) = n % 256 ^ w := by
  unfold ofBigEndian
  simpa using foldl_bigEndian w n 0

variable {n : ℕ} {t : ℤ}

theorem ofBigEndian_eight (h : n < 2 ^ 64) : ofBigEndian (bigEndian 8 n) = n := by
  rw [ofBigEndian_bigEndian]
  exact Nat.mod_eq_of_lt (by omega)

theorem ofSigned_lt : ofSigned t < 2 ^ 64 := by
  unfold ofSigned
  omega

theorem toSigned_ofSigned (t : ℤ) : toSigned (ofSigned t) = wrap t := by
  unfold toSigned ofSigned wrap
  have h : ((t % 2 ^ 64).toNat : ℤ) = t % 2 ^ 64 := by
    omega
  rw [h]
  exact Int.emod_bmod t (2 ^ 64)

theorem wrap_of_inRange (t : ℤ) (h : InRange t) : wrap t = t := by
  obtain ⟨hl, hu⟩ := h
  unfold wrap
  rw [Int.bmod_eq_of_le] <;> omega

theorem wrap_inRange : InRange (wrap t) := by
  unfold InRange wrap
  have h1 := Int.le_bmod (x := t) (m := 2 ^ 64) (by decide)
  have h2 := Int.bmod_lt (x := t) (m := 2 ^ 64) (by decide)
  constructor <;> omega

theorem toSigned_inRange : InRange (toSigned n) := wrap_inRange

theorem toSigned_natCast (h : n < 2 ^ 63) : toSigned (ofSigned n) = n := by
  rw [toSigned_ofSigned]
  apply wrap_of_inRange
  constructor <;> omega

theorem ofBigEndian_ofSigned : toSigned (ofBigEndian (bigEndian 8 (ofSigned t))) = wrap t := by
  rw [ofBigEndian_eight ofSigned_lt, toSigned_ofSigned]

end FilePool.BigEndian
