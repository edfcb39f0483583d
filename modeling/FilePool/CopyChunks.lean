import FilePool.UndoLog

/-!
A staged disk copy and the chunks that are compared and written for it. A copy
is a size and a list of extents; for a full copy the parts between the extents
are zeros. The chunks have at most compareChunk bytes and start at multiples of
it from the start of their region. The disk a copy describes is defined byte
by byte, and the chunks of a well-formed copy hold exactly its bytes.
-/
namespace FilePool.CopyChunks

open ByteFiles UndoLog List

def compareChunk : ℕ := 65536

inductive Kind
  | data
  | zero
  deriving DecidableEq, Repr

/-- One extent of a copy with the bytes that its data reader gives. -/
structure Extent where
  offset : ℕ
  length : ℕ
  kind : Kind
  reader : Bytes
  deriving DecidableEq, Repr

structure CopySource where
  size : ℕ
  extents : List Extent
  deriving DecidableEq, Repr

def Extent.Holds (e : Extent) (i : ℕ) : Prop := e.offset ≤ i ∧ i < e.offset + e.length

instance (e : Extent) (i : ℕ) : Decidable (e.Holds i) :=
  inferInstanceAs (Decidable (e.offset ≤ i ∧ i < e.offset + e.length))

/-- A copy whose extents are in order, apart, inside the size and all there. -/
structure StagedCopy extends CopySource where
  size_lt : size < 2 ^ 63
  ordered : extents.Pairwise (fun e f => e.offset + e.length ≤ f.offset)
  inside : ∀ e ∈ extents, e.offset + e.length ≤ size
  whole : ∀ e ∈ extents, e.kind = .data → e.reader.length = e.length

/-- The ranges that a region is cut into, at most compareChunk bytes each. -/
def ranges : ℕ → ℕ → ℕ → List (ℕ × ℕ)
  | 0, _, _ => []
  | fuel + 1, off, n =>
    if n = 0 then []
    else (off, min n compareChunk) ::
      ranges fuel (off + min n compareChunk) (n - min n compareChunk)

def regionRanges (off n : ℕ) : List (ℕ × ℕ) := ranges (n / compareChunk + 1) off n

def emitZeros (off n : ℕ) : List Patch :=
  (regionRanges off n).map (fun r => ⟨r.1, List.replicate r.2 0⟩)

def emitData (e : Extent) : List Patch :=
  (regionRanges e.offset e.length).map (fun r => ⟨r.1, readAt e.reader (r.1 - e.offset) r.2⟩)

/-- A copy whose reader ends before its extent does cannot be read. -/
inductive CopyError
  | readingCopy (off : ℕ)
  deriving DecidableEq, Repr

def extentChunks (e : Extent) : Except CopyError (List Patch) :=
  match e.kind with
  | .zero => .ok (emitZeros e.offset e.length)
  | .data =>
    if e.reader.length < e.length then .error (.readingCopy e.offset) else .ok (emitData e)

def chunksFrom (full : Bool) (size : ℕ) : ℕ → List Extent → Except CopyError (List Patch)
  | next, [] => .ok (if full ∧ next < size then emitZeros next (size - next) else [])
  | next, e :: es => do
    let body ← extentChunks e
    let rest ← chunksFrom full size (e.offset + e.length) es
    return (if full ∧ next < e.offset then emitZeros next (e.offset - next) else []) ++
      (body ++ rest)

/-- The new contents of a copy, in chunks, in the order of the walk. -/
def forEachNewChunk (src : CopySource) (full : Bool) : Except CopyError (List Patch) :=
  chunksFrom full src.size 0 src.extents

/-- The byte that an extent of the copy gives for an offset. -/
def Extent.byte (e : Extent) (i : ℕ) : UInt8 :=
  match e.kind with
  | .zero => 0
  | .data => byteAt e.reader (i - e.offset)

def byte? (es : List Extent) (i : ℕ) : Option UInt8 :=
  (es.find? (fun e => decide (e.Holds i))).map (fun e => e.byte i)

/-- The byte of the disk after the copy: from an extent, else zero for a full
copy and the old byte for a change copy. -/
def newByte (src : CopySource) (full : Bool) (old : Bytes) (i : ℕ) : UInt8 :=
  match byte? src.extents i with
  | some x => x
  | none => if full then 0 else byteAt old i

/-- The disk that a copy leaves, as the copy describes it. -/
def copied (src : CopySource) (full : Bool) (old : Bytes) : Bytes :=
  (List.range src.size).map (newByte src full old)

variable {full : Bool} {es : List Extent} {i : ℕ}

@[simp] theorem length_copied {src : CopySource} {old : Bytes} :
    (copied src full old).length = src.size := by
  simp [copied]

theorem byteAt_copied (src : CopySource) (full : Bool) (old : Bytes) (i : ℕ) :
    byteAt (copied src full old) i = if i < src.size then newByte src full old i else 0 := by
  by_cases hi : i < src.size
  · rw [byteAt_eq_getElem _ (by simpa using hi)]
    simp [copied, hi]
  · rw [if_neg hi]
    exact byteAt_of_length_le _ i (by simpa using hi)

/-- The patches hold the bytes that g gives on a region, in order and apart,
and nothing where g gives none. -/
structure Describes (ps : List Patch) (lo hi : ℕ) (g : ℕ → Option UInt8) : Prop where
  ordered : ps.Pairwise (fun p q => p.off + p.data.length ≤ q.off)
  nonempty : ∀ p ∈ ps, 0 < p.data.length
  short : ∀ p ∈ ps, p.data.length ≤ compareChunk
  lower : ∀ p ∈ ps, lo ≤ p.off
  upper : ∀ p ∈ ps, p.off + p.data.length ≤ hi
  covers : ∀ i, lo ≤ i → i < hi → g i ≠ none → Covered ps i
  bytes : ∀ p ∈ ps, ∀ i, p.Covers i → g i = some (byteAt p.data (i - p.off))

theorem describes_nil (lo hi : ℕ) (g : ℕ → Option UInt8)
    (hg : ∀ i, lo ≤ i → i < hi → g i = none) : Describes [] lo hi g where
  ordered := Pairwise.nil
  nonempty p hp := by simp at hp
  short p hp := by simp at hp
  lower p hp := by simp at hp
  upper p hp := by simp at hp
  covers i hl hu hn := absurd (hg i hl hu) hn
  bytes p hp := by simp at hp

theorem describes_append {ps qs : List Patch} {lo mid hi : ℕ} {g : ℕ → Option UInt8}
    (hlo : lo ≤ mid) (hhi : mid ≤ hi) (hp : Describes ps lo mid g)
    (hq : Describes qs mid hi g) : Describes (ps ++ qs) lo hi g where
  ordered := by
    apply pairwise_append.mpr
    refine ⟨hp.ordered, hq.ordered, ?_⟩
    intro p hpm q hqm
    exact le_trans (hp.upper p hpm) (hq.lower q hqm)
  nonempty r hr := (mem_append.mp hr).elim (hp.nonempty r) (hq.nonempty r)
  short r hr := (mem_append.mp hr).elim (hp.short r) (hq.short r)
  lower r hr := by
    rcases mem_append.mp hr with h | h
    · exact hp.lower r h
    · exact le_trans hlo (hq.lower r h)
  upper r hr := by
    rcases mem_append.mp hr with h | h
    · exact le_trans (hp.upper r h) hhi
    · exact hq.upper r h
  covers i hl hu hn := by
    by_cases hi : i < mid
    · obtain ⟨r, hr, hc⟩ := hp.covers i hl hi hn
      exact ⟨r, mem_append_left _ hr, hc⟩
    · obtain ⟨r, hr, hc⟩ := hq.covers i (by omega) hu hn
      exact ⟨r, mem_append_right _ hr, hc⟩
  bytes r hr := (mem_append.mp hr).elim (hp.bytes r) (hq.bytes r)

theorem describes_congr (ps : List Patch) (lo hi : ℕ) (g g' : ℕ → Option UInt8)
    (hp : Describes ps lo hi g) (hg : ∀ i, lo ≤ i → i < hi → g i = g' i) :
    Describes ps lo hi g' where
  ordered := hp.ordered
  nonempty := hp.nonempty
  short := hp.short
  lower := hp.lower
  upper := hp.upper
  covers i hl hu hn := hp.covers i hl hu (by rwa [hg i hl hu])
  bytes p hm i hc := by
    have hlow := hp.lower p hm
    have hup := hp.upper p hm
    have hl := hc.1
    have hu := hc.2
    rw [← hg i (by omega) (by omega)]
    exact hp.bytes p hm i hc

/-- A region that is cut into ranges, each filled by one reader. -/
theorem describes_ranges (read : ℕ → ℕ → Bytes) (f : ℕ → UInt8) (fuel off n : ℕ)
    (hfuel : n ≤ fuel * compareChunk)
    (hlen : ∀ o l, off ≤ o → o + l ≤ off + n → (read o l).length = l)
    (hbyte : ∀ o l i, off ≤ o → o + l ≤ off + n → o ≤ i → i < o + l →
      byteAt (read o l) (i - o) = f i) :
    Describes ((ranges fuel off n).map (fun r => ⟨r.1, read r.1 r.2⟩)) off (off + n)
      (fun i => some (f i)) := by
  induction fuel generalizing off n with
  | zero =>
    exact describes_nil _ _ _ (by intro i hl hu; omega)
  | succ fuel ih =>
    unfold ranges
    by_cases hn : n = 0
    · rw [if_pos hn]
      exact describes_nil _ _ _ (by intro i hl hu; omega)
    · rw [if_neg hn]
      have hpos : 0 < compareChunk := by decide
      generalize hm : min n compareChunk = m
      have hm1 : 0 < m := by omega
      have hm3 : m ≤ compareChunk := by omega
      have hrest : n - m ≤ fuel * compareChunk := by
        rw [Nat.succ_mul] at hfuel
        omega
      have htail := ih (off + m) (n - m) hrest
        (fun o l ho hol => hlen o l (by omega) (by omega))
        (fun o l i ho hol => hbyte o l i (by omega) (by omega))
      have hend : off + m + (n - m) = off + n := by omega
      rw [hend] at htail
      have hhead : Describes [⟨off, read off m⟩] off (off + m) (fun i => some (f i)) := by
        have hl : (read off m).length = m := hlen off m (Nat.le_refl _) (by omega)
        refine ⟨pairwise_singleton _ _, ?_, ?_, ?_, ?_, ?_, ?_⟩
        · intro p hp
          rw [mem_singleton.mp hp]
          exact hl.symm ▸ hm1
        · intro p hp
          rw [mem_singleton.mp hp]
          exact hl.symm ▸ hm3
        · intro p hp
          rw [mem_singleton.mp hp]
        · intro p hp
          rw [mem_singleton.mp hp]
          change off + (read off m).length ≤ off + m
          omega
        · intro i hlo hhi _
          refine ⟨_, mem_singleton_self _, hlo, ?_⟩
          change i < off + (read off m).length
          omega
        · intro p hp i hc
          rw [mem_singleton.mp hp] at hc ⊢
          have hc1 : off ≤ i := hc.1
          have hc2 : i < off + (read off m).length := hc.2
          rw [hbyte off m i (Nat.le_refl _) (by omega) hc1 (by omega)]
      exact describes_append (by omega) (by omega) hhead htail

theorem region_fuel (n : ℕ) : n ≤ (n / compareChunk + 1) * compareChunk := by
  have h := Nat.div_add_mod n compareChunk
  have hm := Nat.mod_lt n (show 0 < compareChunk by decide)
  rw [Nat.succ_mul, Nat.mul_comm]
  omega

theorem describes_emitZeros (off n : ℕ) :
    Describes (emitZeros off n) off (off + n) (fun _ => some 0) := by
  apply describes_ranges (fun _ l => replicate l 0) (fun _ => 0) _ off n (region_fuel n)
  · intro o l _ _
    exact length_replicate
  · intro o l i _ _ _ _
    exact byteAt_replicate_zero

theorem describes_emitData (e : Extent) (hk : e.kind = .data)
    (hw : e.reader.length = e.length) :
    Describes (emitData e) e.offset (e.offset + e.length) (fun i => some (e.byte i)) := by
  apply describes_ranges (fun o l => readAt e.reader (o - e.offset) l) e.byte _ e.offset e.length
    (region_fuel e.length)
  · intro o l ho hl
    rw [length_readAt]
    omega
  · intro o l i ho hl hi hi'
    rw [byteAt_readAt, if_pos (by omega)]
    unfold Extent.byte
    rw [hk]
    exact congrArg (byteAt e.reader) (by omega)

/-- What the extents and, for a full copy, the gaps between them give. -/
def given (full : Bool) (es : List Extent) (i : ℕ) : Option UInt8 :=
  match byte? es i with
  | some x => some x
  | none => if full then some 0 else none

theorem byte?_cons (e : Extent) (es : List Extent) (i : ℕ) :
    byte? (e :: es) i = if e.Holds i then some (e.byte i) else byte? es i := by
  unfold byte?
  by_cases h : e.Holds i <;> simp [h]

theorem byte?_eq_none (es : List Extent) (i : ℕ) (h : ∀ e ∈ es, i < e.offset) :
    byte? es i = none := by
  unfold byte?
  rw [find?_eq_none.mpr]
  · rfl
  · intro e he
    have hlt := h e he
    have hn : ¬ e.Holds i := fun hh => absurd hh.1 (by omega)
    simp [hn]

theorem describes_gap (full : Bool) (es : List Extent) (lo hi : ℕ) (hlo : lo ≤ hi)
    (hes : ∀ i, lo ≤ i → i < hi → byte? es i = none) :
    Describes (if full ∧ lo < hi then emitZeros lo (hi - lo) else []) lo hi (given full es) := by
  by_cases hf : full = true ∧ lo < hi
  · rw [if_pos hf]
    have hz := describes_emitZeros lo (hi - lo)
    rw [show lo + (hi - lo) = hi by omega] at hz
    apply describes_congr _ _ _ _ _ hz
    intro i hl hu
    simp [given, hes i hl hu, hf.1]
  · rw [if_neg hf]
    apply describes_nil
    intro i hl hu
    have hfull : ¬ full = true := by
      intro h
      exact hf ⟨h, by omega⟩
    simp [given, hes i hl hu, hfull]

theorem extentChunks_ok (e : Extent) (hw : e.kind = .data → e.reader.length = e.length) :
    ∃ ps, extentChunks e = .ok ps ∧
      Describes ps e.offset (e.offset + e.length) (fun i => some (e.byte i)) := by
  unfold extentChunks
  cases hk : e.kind with
  | zero =>
    refine ⟨_, rfl, ?_⟩
    apply describes_congr _ _ _ _ _ (describes_emitZeros e.offset e.length)
    simp [Extent.byte, hk]
  | data =>
    have hlen := hw hk
    simp only [hlen, lt_irrefl]
    exact ⟨_, rfl, describes_emitData e hk hlen⟩

/-- The walk over extents in order gives exactly their bytes, and for a full
copy zeros for everything between them and after the last one. -/
theorem chunksFrom_ok (full : Bool) (size next : ℕ) (es : List Extent) (hnext : next ≤ size)
    (hord : es.Pairwise (fun e f => e.offset + e.length ≤ f.offset))
    (hin : ∀ e ∈ es, e.offset + e.length ≤ size)
    (hw : ∀ e ∈ es, e.kind = .data → e.reader.length = e.length)
    (hstart : ∀ e ∈ es, next ≤ e.offset) :
    ∃ ps, chunksFrom full size next es = .ok ps ∧ Describes ps next size (given full es) := by
  induction es generalizing next with
  | nil =>
    refine ⟨_, rfl, ?_⟩
    exact describes_gap full [] next size hnext (fun _ _ _ => rfl)
  | cons e es ih =>
    have hord' := pairwise_cons.mp hord
    have hmem : e ∈ e :: es := mem_cons_self ..
    obtain ⟨body, hbody, hdbody⟩ := extentChunks_ok e (hw e hmem)
    obtain ⟨rest, hrest, hdrest⟩ := ih (e.offset + e.length) (hin e hmem) hord'.2
      (fun f hf => hin f (mem_cons_of_mem e hf))
      (fun f hf => hw f (mem_cons_of_mem e hf)) hord'.1
    have hgap := describes_gap full (e :: es) next e.offset (hstart e hmem) (by
      intro i _ hi
      rw [byte?_cons, if_neg (by unfold Extent.Holds; omega)]
      apply byte?_eq_none
      intro f hf
      have := hord'.1 f hf
      omega)
    have hdbody' : Describes body e.offset (e.offset + e.length) (given full (e :: es)) := by
      apply describes_congr _ _ _ _ _ hdbody
      intro i hl hu
      simp only [given, byte?_cons, if_pos (show e.Holds i from ⟨hl, hu⟩)]
    have hdrest' : Describes rest (e.offset + e.length) size (given full (e :: es)) := by
      apply describes_congr _ _ _ _ _ hdrest
      intro i hl _
      have hn : ¬ e.Holds i := fun hh => absurd hh.2 (by omega)
      simp only [given, byte?_cons, if_neg hn]
    refine ⟨_, by simp only [chunksFrom, hbody, hrest]; rfl, ?_⟩
    exact describes_append (hstart e hmem) (le_trans (Nat.le_add_right _ _) (hin e hmem)) hgap
      (describes_append (Nat.le_add_right _ _) (hin e hmem) hdbody' hdrest')

/-- The chunks of a well-formed copy describe the disk after the copy. -/
theorem forEachNewChunk_ok {src : StagedCopy} :
    ∃ ps, forEachNewChunk src.toCopySource full = .ok ps ∧
      Describes ps 0 src.size (given full src.extents) :=
  chunksFrom_ok full src.size 0 src.extents (Nat.zero_le _) src.ordered src.inside src.whole
    (fun _ _ => Nat.zero_le _)

/-- The chunks of a well-formed copy. -/
def StagedCopy.chunks (src : StagedCopy) (full : Bool) : List Patch :=
  match forEachNewChunk src.toCopySource full with
  | .ok cs => cs
  | .error _ => []

theorem forEachNewChunk_chunks (src : StagedCopy) (full : Bool) :
    forEachNewChunk src.toCopySource full = .ok (src.chunks full) := by
  obtain ⟨ps, hps, _⟩ := forEachNewChunk_ok
  unfold StagedCopy.chunks
  rw [hps]

theorem byte?_of_mem
    (hord : es.Pairwise (fun e f => e.offset + e.length ≤ f.offset)) {e : Extent} (he : e ∈ es)
    (hi : e.Holds i) : byte? es i = some (e.byte i) := by
  induction es with
  | nil => simp at he
  | cons f es ih =>
    obtain ⟨hf, hord'⟩ := pairwise_cons.mp hord
    rw [byte?_cons]
    rcases mem_cons.mp he with rfl | hmem
    · exact if_pos hi
    · have hn : ¬ f.Holds i := by
        intro hh
        have h1 := hf e hmem
        have h2 := hh.2
        have h3 := hi.1
        omega
      rw [if_neg hn]
      exact ih hord' hmem

theorem holds_of_byte? {x : UInt8} (h : byte? es i = some x) :
    ∃ e ∈ es, e.Holds i ∧ e.byte i = x := by
  obtain ⟨e, he, hx⟩ := Option.map_eq_some_iff.mp h
  exact ⟨e, mem_of_find?_eq_some he, by simpa using find?_some he, hx⟩

theorem newByte_of_given (src : CopySource) (full : Bool) (old : Bytes) (i : ℕ) :
    newByte src full old i = (given full src.extents i).getD (byteAt old i) := by
  unfold newByte given
  cases byte? src.extents i with
  | some x => rfl
  | none => cases full <;> rfl

end FilePool.CopyChunks
