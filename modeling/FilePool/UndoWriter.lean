import FilePool.CopyChunks

/-!
Which chunks of a copy change the disk, and what is saved of them first. A
chunk that starts before the old end is compared with the disk and saved if it
differs or reaches past the end; a chunk past the old end changes the disk if
it is not all zeros. The changed chunks make the disk that the copy describes,
and the saved records guard every old byte except those that a smaller size
cuts off.
-/
namespace FilePool.UndoWriter

open ByteFiles UndoLog CopyChunks List

/-- The record that is saved for a chunk, if the chunk changes old bytes. -/
def undoRecord (old : Bytes) (c : Patch) : Option Patch :=
  if old.length ≤ c.off then none
  else if readAt old c.off (min c.data.length (old.length - c.off)) =
        c.data.take (min c.data.length (old.length - c.off)) ∧
      c.data.length = min c.data.length (old.length - c.off) then none
  else some ⟨c.off, readAt old c.off (min c.data.length (old.length - c.off))⟩

def undoRecords (old : Bytes) (cs : List Patch) : List Patch := cs.filterMap (undoRecord old)

/-- The offsets of the chunks that change the disk. -/
def changedOffsets (old : Bytes) (newSize : ℕ) (cs : List Patch) : List ℕ :=
  ((undoRecords old cs).map Patch.off ++
    (if old.length < newSize then
      (cs.filter (fun c => decide (old.length ≤ c.off ∧ ¬ AllZero c.data))).map Patch.off
    else [])).dedup

def changedChunks (old : Bytes) (newSize : ℕ) (cs : List Patch) : List Patch :=
  cs.filter (fun c => decide (c.off ∈ changedOffsets old newSize cs))

/-- What is done to the disk: a larger size first, a smaller one last. -/
def diskChanges (old : Bytes) (newSize : ℕ) (cs : List Patch) : List Change :=
  (if old.length < newSize then [.setSize newSize] else []) ++
    ((changedChunks old newSize cs).map Change.write ++
      (if newSize < old.length then [.setSize newSize] else []))

theorem apart (ps : List Patch)
    (h : ps.Pairwise (fun p q => p.off + p.data.length ≤ q.off)) (p q : Patch)
    (hp : p ∈ ps) (hq : q ∈ ps) :
    p = q ∨ p.off + p.data.length ≤ q.off ∨ q.off + q.data.length ≤ p.off := by
  induction ps with
  | nil => simp at hp
  | cons r ps ih =>
    obtain ⟨hr, hps⟩ := pairwise_cons.mp h
    rcases mem_cons.mp hp with rfl | hp'
    · rcases mem_cons.mp hq with rfl | hq'
      · exact .inl rfl
      · exact .inr (.inl (hr q hq'))
    · rcases mem_cons.mp hq with rfl | hq'
      · exact .inr (.inr (hr p hp'))
      · exact ih hps hp' hq'

section Described

variable (old : Bytes) {newSize : ℕ} {cs : List Patch} {g : ℕ → Option UInt8}
  (hd : Describes cs 0 newSize g) {c : Patch} {i : ℕ}

include hd

theorem eq_of_off_eq {p q : Patch} (hp : p ∈ cs) (hq : q ∈ cs) (h : p.off = q.off) : p = q := by
  have hpn := hd.nonempty p hp
  have hqn := hd.nonempty q hq
  rcases apart cs hd.ordered p q hp hq with heq | hle | hle
  · exact heq
  · omega
  · omega

omit hd in
theorem undoRecord_eq_some (c r : Patch) (h : undoRecord old c = some r) :
    c.off < old.length ∧
      r = ⟨c.off, readAt old c.off (min c.data.length (old.length - c.off))⟩ := by
  unfold undoRecord at h
  split at h
  · contradiction
  · split at h
    · contradiction
    · exact ⟨by omega, (Option.some.inj h).symm⟩

omit hd in
/-- A chunk before the old end without a record holds the old bytes. -/
theorem old_of_no_record (hlt : c.off < old.length) (h : undoRecord old c = none)
    (hi : c.Covers i) : byteAt c.data (i - c.off) = byteAt old i := by
  unfold undoRecord at h
  rw [if_neg (by omega)] at h
  split at h
  · rename_i hsame
    obtain ⟨heq, hlen⟩ := hsame
    rw [← hlen, take_length] at heq
    have h1 := hi.1
    have h2 := hi.2
    rw [← heq, byteAt_readAt, if_pos (by omega)]
    exact congrArg (byteAt old) (by omega)
  · contradiction

omit hd in
theorem saves_undoRecords : Saves (undoRecords old cs) old := by
  intro r hr
  obtain ⟨c, _, hc⟩ := mem_filterMap.mp hr
  obtain ⟨hlt, rfl⟩ := undoRecord_eq_some old c r hc
  have hlen : (readAt old c.off (min c.data.length (old.length - c.off))).length =
      min c.data.length (old.length - c.off) := by
    rw [length_readAt]
    omega
  simp only [hlen]

/-- A changed chunk that starts before the old end has its record. -/
theorem record_of_changed (hc : c ∈ cs)
    (hch : c.off ∈ changedOffsets old newSize cs) (hlt : c.off < old.length) :
    ∃ r ∈ undoRecords old cs, undoRecord old c = some r := by
  unfold changedOffsets at hch
  rw [mem_dedup, mem_append] at hch
  rcases hch with h | h
  · obtain ⟨r, hr, hoff⟩ := mem_map.mp h
    obtain ⟨c', hc', hrec⟩ := mem_filterMap.mp hr
    obtain ⟨_, hreq⟩ := undoRecord_eq_some old c' r hrec
    have hsame : c'.off = c.off := by
      rw [← hoff, hreq]
    have heq := eq_of_off_eq hd hc' hc hsame
    subst heq
    exact ⟨r, hr, hrec⟩
  · split at h
    · obtain ⟨c', hc', hoff⟩ := mem_map.mp h
      have := (mem_filter.mp hc').2
      simp only [decide_eq_true_eq] at this
      omega
    · simp at h

theorem covered_of_changed (hc : c ∈ changedChunks old newSize cs)
    (hi : i < old.length) (hcov : c.Covers i) : Covered (undoRecords old cs) i := by
  obtain ⟨hmem, hch⟩ := mem_filter.mp hc
  simp only [decide_eq_true_eq] at hch
  have h1 := hcov.1
  have h2 := hcov.2
  obtain ⟨r, hr, hrec⟩ := record_of_changed old hd hmem hch (by omega)
  obtain ⟨_, hreq⟩ := undoRecord_eq_some old c r hrec
  refine ⟨r, hr, ?_⟩
  rw [hreq]
  refine ⟨h1, ?_⟩
  simp only [length_readAt]
  omega

/-- A chunk that is not changed already holds what the disk holds there. -/
theorem old_of_unchanged (hc : c ∈ cs)
    (hch : c.off ∉ changedOffsets old newSize cs) (hi : c.Covers i) :
    byteAt c.data (i - c.off) = byteAt old i := by
  unfold changedOffsets at hch
  rw [mem_dedup, mem_append, not_or] at hch
  obtain ⟨hrec, hpast⟩ := hch
  by_cases hlt : c.off < old.length
  · apply old_of_no_record old hlt _ hi
    cases hr : undoRecord old c with
    | none => rfl
    | some r =>
      obtain ⟨_, hreq⟩ := undoRecord_eq_some old c r hr
      apply absurd _ hrec
      refine mem_map.mpr ⟨r, mem_filterMap.mpr ⟨c, hc, hr⟩, ?_⟩
      rw [hreq]
  · have hup := hd.upper c hc
    have hne := hd.nonempty c hc
    have hgrow : old.length < newSize := by omega
    rw [if_pos hgrow] at hpast
    have hzero : AllZero c.data := by
      by_contra hnz
      apply hpast
      refine mem_map.mpr ⟨c, mem_filter.mpr ⟨hc, ?_⟩, rfl⟩
      simp only [decide_eq_true_eq]
      exact ⟨by omega, hnz⟩
    have h1 := hi.1
    rw [(allZero_iff _).mp hzero, byteAt_of_length_le old i (by omega)]

end Described

/-- A copy that cuts off only zeros, or nothing. -/
def CutsZeros (old : Bytes) (newSize : ℕ) : Prop := AllZero (old.drop newSize)

instance (old : Bytes) (newSize : ℕ) : Decidable (CutsZeros old newSize) :=
  inferInstanceAs (Decidable (AllZero (old.drop newSize)))

theorem cutsZeros_iff {old : Bytes} {newSize : ℕ} :
    CutsZeros old newSize ↔ ∀ i, newSize ≤ i → byteAt old i = 0 := by
  unfold CutsZeros
  rw [allZero_iff]
  constructor
  · intro h i hi
    have := h (i - newSize)
    rwa [byteAt_drop, Nat.add_sub_of_le hi] at this
  · intro h i
    rw [byteAt_drop]
    exact h _ (Nat.le_add_right _ _)

theorem cutsZeros_of_le {old : Bytes} {newSize : ℕ} (h : old.length ≤ newSize) :
    CutsZeros old newSize := by
  unfold CutsZeros
  rw [drop_eq_nil_of_le h]
  intro x hx
  simp at hx

theorem zeroFrom_of_cutsZeros (old : Bytes) (n : ℕ) (h : CutsZeros old n) :
    zeroFrom old n = old := by
  apply ext_byteAt
  · simp
  · intro i _
    rw [byteAt_zeroFrom]
    split
    · rfl
    · next hn => exact (cutsZeros_iff.mp h i (by omega)).symm

section Copied

variable (src : StagedCopy) (full : Bool) (old : Bytes) (cs : List Patch)
  (hcs : forEachNewChunk src.toCopySource full = .ok cs)

include hcs

theorem describes_of_chunks : Describes cs 0 src.size (given full src.extents) := by
  obtain ⟨ps, hps, hd⟩ := forEachNewChunk_ok
  rw [hps] at hcs
  cases hcs
  exact hd

theorem chunk_byte (c : Patch) (hc : c ∈ cs) (i : ℕ) (hi : c.Covers i) :
    byteAt c.data (i - c.off) = byteAt (copied src.toCopySource full old) i := by
  have hd := describes_of_chunks src full cs hcs
  have hg := hd.bytes c hc i hi
  have hup := hd.upper c hc
  have h2 := hi.2
  rw [byteAt_copied, if_pos (by omega), newByte_of_given, hg]
  rfl

theorem saves_chunks (ps : List Patch) (hps : ∀ p ∈ ps, p ∈ cs) :
    Saves ps (copied src.toCopySource full old) := by
  intro p hp
  have hd := describes_of_chunks src full cs hcs
  have hup := hd.upper p (hps p hp)
  apply ext_byteAt
  · rw [length_readAt, length_copied]
    omega
  · intro i hi
    have hc : p.Covers (p.off + i) := ⟨by omega, by omega⟩
    have h := chunk_byte src full old cs hcs p (hps p hp) (p.off + i) hc
    rw [byteAt_readAt, if_pos hi, ← h, Nat.add_sub_cancel_left]

/-- Outside the changed chunks the new disk has the old bytes. -/
theorem copied_of_not_changed {i : ℕ} (hi : i < src.size)
    (hn : ¬ Covered (changedChunks old src.size cs) i) :
    byteAt (copied src.toCopySource full old) i = byteAt old i := by
  have hd := describes_of_chunks src full cs hcs
  by_cases hc : Covered cs i
  · obtain ⟨c, hmem, hcov⟩ := hc
    have hch : c.off ∉ changedOffsets old src.size cs := by
      intro hin
      exact hn ⟨c, mem_filter.mpr ⟨hmem, by simpa using hin⟩, hcov⟩
    rw [← chunk_byte src full old cs hcs c hmem i hcov]
    exact old_of_unchanged old hd hmem hch hcov
  · have hg : given full src.extents i = none := by
      by_contra hne
      exact hc (hd.covers i (Nat.zero_le _) hi hne)
    rw [byteAt_copied, if_pos hi, newByte_of_given, hg]
    rfl

theorem byteAt_changed (b : Bytes) (i : ℕ) (hi : i < src.size)
    (hb : byteAt b i = byteAt old i) :
    byteAt (applyPatches (changedChunks old src.size cs) b) i =
      byteAt (copied src.toCopySource full old) i := by
  have hs := saves_chunks src full old cs hcs (changedChunks old src.size cs)
    (fun p hp => (mem_filter.mp hp).1)
  obtain ⟨hin, hout⟩ := byteAt_applyPatches _ b hs i
  by_cases hc : Covered (changedChunks old src.size cs) i
  · exact hin hc
  · rw [hout hc, hb, copied_of_not_changed src full old cs hcs hi hc]

omit hcs in
theorem length_applyPatches (ps : List Patch) (b : Bytes) (n : ℕ) (hb : b.length = n)
    (hps : ∀ p ∈ ps, p.off + p.data.length ≤ n) : (applyPatches ps b).length = n := by
  induction ps generalizing b with
  | nil => exact hb
  | cons p ps ih =>
    apply ih (writeAt b p.off p.data)
    · apply le_antisymm
      · exact length_writeAt_le b p.off p.data n (by omega) (hps p (mem_cons_self ..))
      · exact hb ▸ length_le_writeAt b p.off p.data
    · exact fun q hq => hps q (mem_cons_of_mem p hq)

/-- The changes that are made to the old disk give the disk the copy describes. -/
theorem applyChanges_diskChanges :
    applyChanges (diskChanges old src.size cs) old = copied src.toCopySource full old := by
  have hd := describes_of_chunks src full cs hcs
  have hup : ∀ p ∈ changedChunks old src.size cs, p.off + p.data.length ≤ src.size :=
    fun p hp => hd.upper p (mem_filter.mp hp).1
  unfold diskChanges
  rw [applyChanges_append, applyChanges_append, applyChanges_map_write]
  rcases lt_trichotomy old.length src.size with hlt | heq | hgt
  · rw [if_pos hlt, if_neg (by omega)]
    have hlen := length_applyPatches (changedChunks old src.size cs) (resize old src.size)
      src.size (length_resize _) hup
    apply ext_byteAt
    · exact hlen.trans length_copied.symm
    · intro i hi
      change i < (applyPatches _ (resize old src.size)).length at hi
      apply byteAt_changed src full old cs hcs (resize old src.size) i (by omega)
      rw [byteAt_resize, if_pos (by omega)]
  · rw [if_neg (by omega), if_neg (by omega)]
    have hlen := length_applyPatches (changedChunks old src.size cs) old src.size heq hup
    apply ext_byteAt
    · exact hlen.trans length_copied.symm
    · intro i hi
      change i < (applyPatches _ old).length at hi
      exact byteAt_changed src full old cs hcs old i (by omega) rfl
  · rw [if_pos hgt, if_neg (show ¬ old.length < src.size by omega)]
    apply ext_byteAt
    · exact (length_resize _).trans length_copied.symm
    · intro i hi
      change i < (resize (applyPatches _ old) src.size).length at hi
      rw [length_resize] at hi
      change byteAt (resize (applyPatches _ old) src.size) i = _
      rw [byteAt_resize, if_pos hi]
      exact byteAt_changed src full old cs hcs old i hi rfl

/-- Every change of the disk is the new size or a guarded write below it. -/
theorem diskChanges_cases (c : Change) (hc : c ∈ diskChanges old src.size cs) :
    c = .setSize src.size ∨ ∃ p, c = .write p ∧ p.off + p.data.length ≤ src.size ∧
      Harmless (undoRecords old cs) old (.write p) := by
  have hd := describes_of_chunks src full cs hcs
  rcases mem_append.mp hc with h | h
  · split at h
    · exact .inl (mem_singleton.mp h)
    · simp at h
  rcases mem_append.mp h with h | h
  · obtain ⟨p, hp, rfl⟩ := mem_map.mp h
    refine .inr ⟨p, rfl, hd.upper p (mem_filter.mp hp).1, ?_⟩
    intro i hi hcov
    exact .inr (covered_of_changed old hd hp hi hcov)
  · split at h
    · exact .inl (mem_singleton.mp h)
    · simp at h

/-- Every change of the disk is harmless, if a smaller size cuts only zeros. -/
theorem diskChanges_harmless (hz : CutsZeros old src.size) (c : Change)
    (hc : c ∈ diskChanges old src.size cs) : Harmless (undoRecords old cs) old c := by
  rcases diskChanges_cases src full old cs hcs c hc with rfl | ⟨p, rfl, -, hharm⟩
  · intro i hn _
    exact .inl (cutsZeros_iff.mp hz i hn)
  · exact hharm

/-- A copy saves and changes the same, whatever the old disk had past its size. -/
theorem undoRecords_zeroFrom :
    undoRecords (zeroFrom old src.size) cs = undoRecords old cs := by
  have hd := describes_of_chunks src full cs hcs
  apply filterMap_congr
  intro c hc
  have hup := hd.upper c hc
  unfold undoRecord
  rw [length_zeroFrom, readAt_zeroFrom old (by omega)]

omit hcs in
theorem copied_zeroFrom :
    copied src.toCopySource full (zeroFrom old src.size) = copied src.toCopySource full old := by
  apply ext_byteAt
  · simp
  · intro i hi
    rw [length_copied] at hi
    rw [byteAt_copied, byteAt_copied, if_pos hi, if_pos hi]
    unfold newByte
    rw [byteAt_zeroFrom, if_pos hi]

/-- The saved records take the new disk back to the old one exactly when the
copy cuts off nothing but zeros. -/
theorem rollBack_copied_iff :
    rollBack (undoRecords old cs) old.length (copied src.toCopySource full old) = old ↔
      CutsZeros old src.size := by
  have hd := describes_of_chunks src full cs hcs
  constructor
  · intro h
    rw [cutsZeros_iff]
    intro i hn
    by_cases hi : i < old.length
    · have hnc : ¬ Covered (undoRecords old cs) i := by
        rintro ⟨r, hr, hcov⟩
        obtain ⟨c, hmem, hrec⟩ := mem_filterMap.mp hr
        obtain ⟨_, rfl⟩ := undoRecord_eq_some old c r hrec
        have hup := hd.upper c hmem
        have h2 := hcov.2
        simp only [length_readAt] at h2
        omega
      have hb := congrArg (fun b => byteAt b i) h
      unfold rollBack at hb
      simp only [byteAt_resize, if_pos hi] at hb
      rw [← hb, (byteAt_applyPatches _ _ (saves_undoRecords old) i).2 hnc, byteAt_copied,
        if_neg (by omega)]
    · exact byteAt_of_length_le old i (by omega)
  · intro hz
    apply rollBack_of_guarded _ (saves_undoRecords old)
    rw [← applyChanges_diskChanges src full old cs hcs]
    apply guarded_pieces _ old (diskChanges old src.size cs) _ old
      (diskChanges_harmless src full old cs hcs hz)
      (fun c hc => ⟨c, hc, Piece.whole c⟩) (guarded_refl _ old)

end Copied

end FilePool.UndoWriter
