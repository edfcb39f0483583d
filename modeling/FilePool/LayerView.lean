import FilePool.UndoLog

/-!
Reads through layers of saved records. A window of the file, as it was before
the changes that the layers saved, is built from the same window of the latest
file: each layer, the newest first, puts its records into the window and clears
what lies past its size. A binary search finds the first record of the window.
The window that results is the one of the file that the layers rewind to.
-/
namespace FilePool.LayerView

open ByteFiles UndoLog List

/-- The least index from i to j at which f holds, found by halving. -/
def search (f : ℕ → Bool) : ℕ → ℕ → ℕ → ℕ
  | 0, i, _ => i
  | fuel + 1, i, j =>
    if i < j then
      if f ((i + j) / 2) then search f fuel i ((i + j) / 2)
      else search f fuel ((i + j) / 2 + 1) j
    else i

/-- A record of n bytes for the offset off, stored at pos in a file. -/
structure ViewRec where
  off : ℕ
  n : ℕ
  pos : ℕ
  deriving DecidableEq, Repr

structure ViewLayer where
  file : Bytes
  recs : List ViewRec
  oldSize : ℕ
  deriving DecidableEq, Repr

/-- Put the records that start before the end of the window into it; none is a
record that the file does not hold whole. -/
def fillRecs (file : Bytes) (off stop : ℕ) : List ViewRec → Bytes → Option Bytes
  | [], win => some win
  | r :: rs, win =>
    if r.off < stop then
      if r.pos + (max off r.off - r.off) + (min stop (r.off + r.n) - max off r.off) ≤
          file.length then
        fillRecs file off stop rs (writeAt win (max off r.off - off)
          (readAt file (r.pos + (max off r.off - r.off))
            (min stop (r.off + r.n) - max off r.off)))
      else none
    else some win

def clearFrom (win : Bytes) (k : ℕ) : Bytes := win.take k ++ List.replicate (win.length - k) 0

/-- The first record that ends after the start of the window. -/
def firstRec (recs : List ViewRec) (off : ℕ) : ℕ :=
  search (fun i => match recs[i]? with
    | some r => decide (off < r.off + r.n)
    | none => true) recs.length 0 recs.length

def fillLayer (l : ViewLayer) (off : ℕ) (win : Bytes) : Option Bytes :=
  match fillRecs l.file off (off + win.length) (l.recs.drop (firstRec l.recs off)) win with
  | none => none
  | some w => some (if l.oldSize < off + win.length then clearFrom w (max l.oldSize off - off)
      else w)

def fillLayers (off : ℕ) : List ViewLayer → Bytes → Option Bytes
  | [], win => some win
  | l :: ls, win =>
    match fillLayers off ls win with
    | none => none
    | some w => fillLayer l off w

/-- The window of n bytes at an offset; past the end of the file it has zeros. -/
def window (b : Bytes) (off n : ℕ) : Bytes := resize (readAt b off n) n

def fill (disk : Bytes) (layers : List ViewLayer) (off n : ℕ) : Option Bytes :=
  fillLayers off layers (window disk off n)

@[simp] theorem length_window (b : Bytes) (off n : ℕ) : (window b off n).length = n :=
  length_resize _

variable {b : Bytes} {off n k : ℕ} {win : Bytes}

theorem byteAt_window (hk : k < n) :
    byteAt (window b off n) k = byteAt b (off + k) := by
  unfold window
  rw [byteAt_resize, if_pos hk, byteAt_readAt, if_pos hk]

@[simp] theorem length_clearFrom (hk : k ≤ win.length) :
    (clearFrom win k).length = win.length := by
  unfold clearFrom
  rw [length_append, length_take, length_replicate]
  omega

theorem byteAt_clearFrom {i : ℕ} (hk : k ≤ win.length) :
    byteAt (clearFrom win k) i = if i < k then byteAt win i else 0 := by
  unfold clearFrom
  rw [byteAt_append, byteAt_replicate_zero, byteAt_take, length_take, Nat.min_eq_left hk]
  split
  · rfl
  · rfl

/-- The search gives the first index at which a monotone test holds. -/
theorem search_spec (f : ℕ → Bool) (hmono : ∀ i j, i ≤ j → f i = true → f j = true)
    (fuel i j : ℕ) (hij : i ≤ j) (hfuel : j - i ≤ fuel) (hlow : ∀ k, k < i → f k = false)
    (hhigh : ∀ k, j ≤ k → f k = true) :
    (∀ k, k < search f fuel i j → f k = false) ∧ (∀ k, search f fuel i j ≤ k → f k = true) := by
  induction fuel generalizing i j with
  | zero =>
    have heq : i = j := by omega
    subst heq
    exact ⟨hlow, hhigh⟩
  | succ fuel ih =>
    unfold search
    by_cases hlt : i < j
    · rw [if_pos hlt]
      cases hmid : f ((i + j) / 2) with
      | true =>
        exact ih i ((i + j) / 2) (by omega) (by omega) hlow (fun k hk => hmono _ k hk hmid)
      | false =>
        refine ih ((i + j) / 2 + 1) j (by omega) (by omega) ?_ hhigh
        intro k hk
        cases hfk : f k with
        | false => rfl
        | true =>
          have := hmono k ((i + j) / 2) (by omega) hfk
          rw [hmid] at this
          exact this.symm
    · rw [if_neg hlt]
      have heq : i = j := by omega
      subst heq
      exact ⟨hlow, hhigh⟩

namespace ViewRec

def Covers (r : ViewRec) (i : ℕ) : Prop := r.off ≤ i ∧ i < r.off + r.n

/-- The record with its bytes from the file. -/
def patch (file : Bytes) (r : ViewRec) : Patch := ⟨r.off, readAt file r.pos r.n⟩

end ViewRec

/-- The records are in order of offset and apart. -/
def InOrder (recs : List ViewRec) : Prop := recs.Pairwise (fun r q => r.off + r.n ≤ q.off)

/-- A layer whose records are in order, not empty and whole in the file. -/
structure ViewLayer.Sound (l : ViewLayer) : Prop where
  ordered : InOrder l.recs
  whole : ∀ r ∈ l.recs, r.pos + r.n ≤ l.file.length

def ViewLayer.layer (l : ViewLayer) : Layer := ⟨l.recs.map (ViewRec.patch l.file), l.oldSize⟩

theorem firstRec_spec {recs : List ViewRec} (hord : InOrder recs) :
    (∀ r ∈ recs.take (firstRec recs off), r.off + r.n ≤ off) ∧
      (∀ r ∈ recs.drop (firstRec recs off), off < r.off + r.n) := by
  have hspec := search_spec (fun i => match recs[i]? with
    | some r => decide (off < r.off + r.n)
    | none => true) (by
      intro i j hij hi
      rcases Nat.lt_or_ge j recs.length with hj | hj
      · rcases Nat.eq_or_lt_of_le hij with rfl | hlt
        · exact hi
        · have hi' : i < recs.length := by omega
          have hle := pairwise_iff_getElem.mp hord i j hi' hj hlt
          simp only [getElem?_eq_getElem hi', getElem?_eq_getElem hj, decide_eq_true_eq] at hi ⊢
          omega
      · simp only [getElem?_eq_none hj])
    recs.length 0 recs.length (Nat.zero_le _) (by omega) (fun k hk => absurd hk (Nat.not_lt_zero k))
    (fun k hk => by simp only [getElem?_eq_none hk])
  refine ⟨?_, ?_⟩
  · intro r hr
    obtain ⟨k, hk, rfl⟩ := getElem_of_mem hr
    rw [length_take] at hk
    have hk' : k < recs.length := by omega
    have hf := hspec.1 k (by unfold firstRec at hk; omega)
    rw [getElem_take]
    simp only [getElem?_eq_getElem hk', decide_eq_false_iff_not] at hf
    omega
  · intro r hr
    obtain ⟨k, hk, rfl⟩ := getElem_of_mem hr
    rw [length_drop] at hk
    have hk' : firstRec recs off + k < recs.length := by omega
    have hf := hspec.2 (firstRec recs off + k) (by unfold firstRec; omega)
    rw [getElem_drop]
    simpa only [getElem?_eq_getElem hk', decide_eq_true_eq] using hf

/-- The records fill exactly the bytes of the window that they cover. -/
theorem fillRecs_spec (file : Bytes) (off : ℕ) (recs : List ViewRec) (win : Bytes)
    (hord : InOrder recs) (hwhole : ∀ r ∈ recs, r.pos + r.n ≤ file.length)
    (hafter : ∀ r ∈ recs, off < r.off + r.n) :
    ∃ w, fillRecs file off (off + win.length) recs win = some w ∧ w.length = win.length ∧
      ∀ k, k < win.length →
        (∀ r ∈ recs, r.Covers (off + k) → byteAt w k = byteAt file (r.pos + (off + k - r.off))) ∧
        ((∀ r ∈ recs, ¬ r.Covers (off + k)) → byteAt w k = byteAt win k) := by
  induction recs generalizing win with
  | nil => exact ⟨win, rfl, rfl, fun k _ => ⟨by simp, fun _ => rfl⟩⟩
  | cons r recs ih =>
    obtain ⟨hr, hord'⟩ := pairwise_cons.mp hord
    have hin := hwhole r (mem_cons_self ..)
    have hend := hafter r (mem_cons_self ..)
    unfold fillRecs
    by_cases hlt : r.off < off + win.length
    · have hdata : (readAt file (r.pos + (max off r.off - r.off))
          (min (off + win.length) (r.off + r.n) - max off r.off)).length =
            min (off + win.length) (r.off + r.n) - max off r.off := by
        rw [length_readAt]
        omega
      have hlen : (writeAt win (max off r.off - off) (readAt file
          (r.pos + (max off r.off - r.off))
          (min (off + win.length) (r.off + r.n) - max off r.off))).length = win.length := by
        apply Nat.le_antisymm
        · apply length_writeAt_le _ _ _ _ (Nat.le_refl _)
          omega
        · exact length_le_writeAt _ _ _
      obtain ⟨w, hw, hwlen, hspec⟩ := ih _ hord' (fun q hq => hwhole q (mem_cons_of_mem r hq))
        (fun q hq => hafter q (mem_cons_of_mem r hq))
      rw [hlen] at hw hwlen hspec
      rw [if_pos hlt, if_pos (by omega)]
      refine ⟨w, hw, hwlen, ?_⟩
      intro k hk
      obtain ⟨hcov, hnot⟩ := hspec k hk
      have hbyte := byteAt_writeAt win (max off r.off - off) (readAt file
        (r.pos + (max off r.off - r.off))
        (min (off + win.length) (r.off + r.n) - max off r.off)) k
      refine ⟨?_, ?_⟩
      · intro q hq hqk
        rcases mem_cons.mp hq with rfl | hmem
        · have h1 := hqk.1
          have h2 := hqk.2
          have hnone : ∀ x ∈ recs, ¬ x.Covers (off + k) := by
            intro x hx hxk
            have h3 := hr x hx
            have h4 := hxk.1
            omega
          rw [hnot hnone, hbyte, if_pos (by omega), byteAt_readAt, if_pos (by omega)]
          congr 1
          omega
        · exact hcov q hmem hqk
      · intro hall
        have hrk := hall r (mem_cons_self ..)
        rw [hnot (fun q hq => hall q (mem_cons_of_mem r hq)), hbyte, if_neg]
        intro hin'
        apply hrk
        exact ⟨by omega, by omega⟩
    · rw [if_neg hlt]
      refine ⟨win, rfl, rfl, ?_⟩
      intro k hk
      refine ⟨?_, fun _ => rfl⟩
      intro q hq hqk
      have h1 := hqk.1
      rcases mem_cons.mp hq with rfl | hmem
      · omega
      · have h2 := hr q hmem
        omega

/-- Records in order write exactly the bytes that they cover. -/
theorem byteAt_applyRecs (file : Bytes) (recs : List ViewRec) (b : Bytes) (i : ℕ)
    (hord : InOrder recs) (hwhole : ∀ r ∈ recs, r.pos + r.n ≤ file.length) :
    (∀ r ∈ recs, r.Covers i → byteAt (applyPatches (recs.map (ViewRec.patch file)) b) i =
        byteAt file (r.pos + (i - r.off))) ∧
      ((∀ r ∈ recs, ¬ r.Covers i) →
        byteAt (applyPatches (recs.map (ViewRec.patch file)) b) i = byteAt b i) := by
  induction recs generalizing b with
  | nil => exact ⟨by simp, fun _ => rfl⟩
  | cons r recs ih =>
    obtain ⟨hr, hord'⟩ := pairwise_cons.mp hord
    have hin := hwhole r (mem_cons_self ..)
    have hdata : (readAt file r.pos r.n).length = r.n := by
      rw [length_readAt]
      omega
    obtain ⟨hcov, hnot⟩ := ih (writeAt b r.off (readAt file r.pos r.n)) hord'
      (fun q hq => hwhole q (mem_cons_of_mem r hq))
    have hbyte := byteAt_writeAt b r.off (readAt file r.pos r.n) i
    rw [hdata] at hbyte
    refine ⟨?_, ?_⟩
    · intro q hq hqi
      rcases mem_cons.mp hq with rfl | hmem
      · have h1 := hqi.1
        have h2 := hqi.2
        have hnone : ∀ x ∈ recs, ¬ x.Covers i := by
          intro x hx hxi
          have h3 := hr x hx
          have h4 := hxi.1
          omega
        refine (hnot hnone).trans ?_
        rw [hbyte, if_pos ⟨h1, h2⟩, byteAt_readAt, if_pos (by omega)]
      · exact hcov q hmem hqi
    · intro hall
      refine (hnot (fun q hq => hall q (mem_cons_of_mem r hq))).trans ?_
      rw [hbyte]
      exact if_neg (hall r (mem_cons_self ..))

/-- A layer takes the window of a file to the window of the file before it. -/
theorem fillLayer_spec {l : ViewLayer} (hl : l.Sound) :
    fillLayer l off (window b off n) = some (window (l.layer.undo b) off n) := by
  obtain ⟨hbefore, hafter⟩ := firstRec_spec hl.ordered
  have hmem : ∀ r ∈ l.recs.drop (firstRec l.recs off), r ∈ l.recs := fun r hr => mem_of_mem_drop hr
  obtain ⟨w, hw, hwlen, hspec⟩ := fillRecs_spec l.file off (l.recs.drop (firstRec l.recs off))
    (window b off n) (hl.ordered.sublist (drop_sublist _ _))
    (fun r hr => hl.whole r (hmem r hr)) hafter
  rw [length_window] at hw hwlen hspec
  have hrecs : ∀ k, k < n → byteAt w k =
      byteAt (applyPatches (l.recs.map (ViewRec.patch l.file)) b) (off + k) := by
    intro k hk
    obtain ⟨hcov, hnot⟩ := hspec k hk
    obtain ⟨hcov', hnot'⟩ := byteAt_applyRecs l.file l.recs b (off + k) hl.ordered hl.whole
    by_cases hc : ∃ r ∈ l.recs, r.Covers (off + k)
    · obtain ⟨r, hr, hrk⟩ := hc
      have hdrop : r ∈ l.recs.drop (firstRec l.recs off) := by
        rw [← take_append_drop (firstRec l.recs off) l.recs] at hr
        rcases mem_append.mp hr with h | h
        · have h1 := hbefore r h
          have h2 := hrk.2
          omega
        · exact h
      rw [hcov r hdrop hrk, hcov' r hr hrk]
    · have hnone : ∀ r ∈ l.recs, ¬ r.Covers (off + k) := fun r hr hrk => hc ⟨r, hr, hrk⟩
      rw [hnot (fun r hr => hnone r (hmem r hr)), hnot' hnone, byteAt_window hk]
  unfold fillLayer
  rw [length_window, hw]
  refine congrArg some ?_
  apply ext_byteAt
  · rw [length_window]
    split
    · rw [length_clearFrom (by omega), hwlen]
    · exact hwlen
  · intro k hk
    have hlen : k < n := by
      revert hk
      split
      · rw [length_clearFrom (by omega)]
        omega
      · omega
    rw [byteAt_window hlen]
    unfold Layer.undo rollBack
    rw [byteAt_resize]
    change _ = if off + k < l.oldSize then _ else _
    split
    · rw [byteAt_clearFrom (by omega)]
      by_cases hold : off + k < l.oldSize
      · rw [if_pos (by omega), if_pos hold]
        exact hrecs k hlen
      · rw [if_neg (by omega), if_neg hold]
    · rw [if_pos (by omega)]
      exact hrecs k hlen

/-- A window read through the layers is the window of the rewound file. -/
theorem fill_spec {disk : Bytes} {layers : List ViewLayer} (hl : ∀ l ∈ layers, l.Sound)
    (off n : ℕ) :
    fill disk layers off n =
      some (window (rewind (layers.map ViewLayer.layer) disk) off n) := by
  unfold fill
  induction layers with
  | nil => rfl
  | cons l ls ih =>
    unfold fillLayers
    rw [ih (fun x hx => hl x (mem_cons_of_mem l hx))]
    exact fillLayer_spec (hl l (mem_cons_self ..))

end FilePool.LayerView
