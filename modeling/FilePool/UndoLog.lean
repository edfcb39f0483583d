import FilePool.ByteFiles

/-!
Undo logs of a byte file. A patch saves the old bytes of a range; rolling back
writes the saved ranges and sets the old size. The roll back is exact from
every file that agrees with the old one outside the saved ranges, and no part
of a change that the patches guard can leave that set of files. A list of
layers, oldest first, takes a file back through its earlier versions.
-/
namespace FilePool.UndoLog

open ByteFiles List

structure Patch where
  off : ℕ
  data : Bytes
  deriving DecidableEq, Repr

def Patch.Covers (p : Patch) (i : ℕ) : Prop := p.off ≤ i ∧ i < p.off + p.data.length

def Covered (ps : List Patch) (i : ℕ) : Prop := ∃ p ∈ ps, p.Covers i

/-- One change of a file's contents or size. -/
inductive Change
  | write (p : Patch)
  | setSize (n : ℕ)
  deriving DecidableEq, Repr

def Change.apply : Change → Bytes → Bytes
  | .write p, b => writeAt b p.off p.data
  | .setSize n, b => resize b n

def applyChanges (cs : List Change) (b : Bytes) : Bytes := cs.foldl (fun b c => c.apply b) b

/-- What a stop can leave of one change: all of it or a piece of a write. -/
inductive Piece : Change → Change → Prop
  | whole (c : Change) : Piece c c
  | part (p : Patch) (k n : ℕ) : Piece (.write ⟨p.off + k, readAt p.data k n⟩) (.write p)

def applyPatches (ps : List Patch) (b : Bytes) : Bytes :=
  ps.foldl (fun b p => writeAt b p.off p.data) b

def rollBack (ps : List Patch) (size : ℕ) (b : Bytes) : Bytes :=
  resize (applyPatches ps b) size

/-- The changes that a roll back makes, in order. -/
def rollBackChanges (ps : List Patch) (size : ℕ) : List Change :=
  ps.map Change.write ++ [.setSize size]

/-- Each patch holds bytes of the old file, from inside it. -/
def Saves (ps : List Patch) (old : Bytes) : Prop :=
  ∀ p ∈ ps, p.data = readAt old p.off p.data.length

/-- Outside the patches the file still has the old bytes. -/
def Guarded (ps : List Patch) (old b : Bytes) : Prop :=
  ∀ i, i < old.length → byteAt b i = byteAt old i ∨ Covered ps i

/-- A change that touches the old file only where a patch saves it. -/
def Harmless (ps : List Patch) (old : Bytes) : Change → Prop
  | .write q => ∀ i, i < old.length → q.Covers i →
      byteAt q.data (i - q.off) = byteAt old i ∨ Covered ps i
  | .setSize n => ∀ i, n ≤ i → i < old.length → byteAt old i = 0 ∨ Covered ps i

@[simp] theorem applyChanges_nil (b : Bytes) : applyChanges [] b = b := rfl

@[simp] theorem applyChanges_cons (c : Change) (cs : List Change) (b : Bytes) :
    applyChanges (c :: cs) b = applyChanges cs (c.apply b) := rfl

theorem applyChanges_append (cs ds : List Change) (b : Bytes) :
    applyChanges (cs ++ ds) b = applyChanges ds (applyChanges cs b) := by
  simp [applyChanges]

theorem applyChanges_map_write (ps : List Patch) (b : Bytes) :
    applyChanges (ps.map Change.write) b = applyPatches ps b := by
  induction ps generalizing b with
  | nil => rfl
  | cons p ps ih => exact ih (writeAt b p.off p.data)

theorem applyChanges_rollBackChanges (ps : List Patch) (size : ℕ) (b : Bytes) :
    applyChanges (rollBackChanges ps size) b = rollBack ps size b := by
  unfold rollBackChanges
  rw [applyChanges_append, applyChanges_map_write]
  rfl

variable (ps : List Patch) (old : Bytes) {c : Change} {cs : List Change}

theorem guarded_refl : Guarded ps old old :=
  fun _ _ => .inl rfl

theorem saved_byte (hs : Saves ps old) (p : Patch)
    (hp : p ∈ ps) (i : ℕ) (hi : p.Covers i) : byteAt p.data (i - p.off) = byteAt old i := by
  have hlt : i - p.off < p.data.length := by
    have := hi.2
    have := hi.1
    omega
  have hidx : p.off + (i - p.off) = i := by
    have := hi.1
    omega
  rw [hs p hp, byteAt_readAt]
  simp [hlt, hidx]

theorem saved_bound (hs : Saves ps old) (p : Patch)
    (hp : p ∈ ps) (i : ℕ) (hi : p.Covers i) : i < old.length := by
  have hlen := congrArg length (hs p hp)
  rw [length_readAt] at hlen
  have := hi.1
  have := hi.2
  omega

/-- Writing saved patches gives the old byte where one of them lies. -/
theorem byteAt_applyPatches {old : Bytes} (b : Bytes) (hs : Saves ps old) (i : ℕ) :
    (Covered ps i → byteAt (applyPatches ps b) i = byteAt old i) ∧
      (¬ Covered ps i → byteAt (applyPatches ps b) i = byteAt b i) := by
  induction ps generalizing b with
  | nil =>
    refine ⟨?_, fun _ => rfl⟩
    rintro ⟨p, hp, _⟩
    simp at hp
  | cons p ps ih =>
    have hs' : Saves ps old := fun q hq => hs q (mem_cons_of_mem p hq)
    obtain ⟨hin, hout⟩ := ih (writeAt b p.off p.data) hs'
    have hhead : p.Covers i → byteAt (writeAt b p.off p.data) i = byteAt old i := by
      intro hc
      rw [byteAt_writeAt]
      exact (if_pos hc).trans (saved_byte (p :: ps) old hs p (mem_cons_self ..) i hc)
    constructor
    · rintro ⟨q, hq, hc⟩
      by_cases hrest : Covered ps i
      · exact hin hrest
      · rcases mem_cons.mp hq with rfl | hq
        · exact (hout hrest).trans (hhead hc)
        · exact absurd ⟨q, hq, hc⟩ hrest
    · intro hn
      have hrest : ¬ Covered ps i := by
        rintro ⟨q, hq, hc⟩
        exact hn ⟨q, mem_cons_of_mem p hq, hc⟩
      have hp : ¬ p.Covers i := fun hc => hn ⟨p, mem_cons_self .., hc⟩
      refine (hout hrest).trans ?_
      rw [byteAt_writeAt]
      exact if_neg hp

/-- A roll back is exact from every guarded file, whatever its size. -/
theorem rollBack_of_guarded {old b : Bytes} (hs : Saves ps old)
    (hg : Guarded ps old b) : rollBack ps old.length b = old := by
  apply ext_byteAt
  · exact length_resize _
  · intro i hi
    have hlt : i < old.length := by simpa [rollBack] using hi
    unfold rollBack
    rw [byteAt_resize, if_pos hlt]
    obtain ⟨hin, hout⟩ := byteAt_applyPatches ps b hs i
    rcases hg i hlt with h | h
    · by_cases hc : Covered ps i
      · exact hin hc
      · exact (hout hc).trans h
    · exact hin h

theorem guarded_apply {old b : Bytes}
    (hc : Harmless ps old c) (hg : Guarded ps old b) : Guarded ps old (c.apply b) := by
  intro i hi
  cases c with
  | write q =>
    simp only [Change.apply, byteAt_writeAt]
    split
    · rename_i hq
      exact hc i hi hq
    · exact hg i hi
  | setSize n =>
    simp only [Change.apply, byteAt_resize]
    split
    · exact hg i hi
    · rcases hc i (by omega) hi with h | h
      · exact .inl h.symm
      · exact .inr h

theorem harmless_piece {d : Change} (hp : Piece c d)
    (hd : Harmless ps old d) : Harmless ps old c := by
  cases hp with
  | whole => exact hd
  | part p k n =>
    intro i hi hq
    have hlow : p.off + k ≤ i := hq.1
    have hhigh := hq.2
    simp only [length_readAt] at hhigh
    have hcov : p.Covers i := ⟨by omega, by omega⟩
    have hsub : i - (p.off + k) < n := by omega
    have hidx : k + (i - (p.off + k)) = i - p.off := by omega
    simp only [byteAt_readAt, if_pos hsub, hidx]
    exact hd i hi hcov

/-- Any pieces of harmless changes, in any order, keep the file guarded. -/
theorem guarded_pieces (ds cs : List Change) (b : Bytes)
    (hd : ∀ d ∈ ds, Harmless ps old d) (hp : ∀ c ∈ cs, ∃ d ∈ ds, Piece c d)
    (hg : Guarded ps old b) : Guarded ps old (applyChanges cs b) := by
  induction cs generalizing b with
  | nil => exact hg
  | cons c cs ih =>
    obtain ⟨d, hmem, hpiece⟩ := hp c (mem_cons_self ..)
    have hc := harmless_piece ps old hpiece (hd d hmem)
    exact ih (c.apply b) (fun x hx => hp x (mem_cons_of_mem c hx)) (guarded_apply ps hc hg)

/-- Pieces of writes below n and of one new size n leave the rest of the file,
or cut it off. -/
theorem tail_pieces (n : ℕ) (ds cs : List Change)
    (hd : ∀ d ∈ ds, d = .setSize n ∨ ∃ p, d = .write p ∧ p.off + p.data.length ≤ n)
    (hp : ∀ c ∈ cs, ∃ d ∈ ds, Piece c d) (b : Bytes) :
    (∀ i, n ≤ i → byteAt (applyChanges cs b) i = byteAt b i) ∨
      ∀ i, n ≤ i → byteAt (applyChanges cs b) i = 0 := by
  induction cs generalizing b with
  | nil => exact .inl (fun _ _ => rfl)
  | cons c cs ih =>
    obtain ⟨d, hmem, hpiece⟩ := hp c (mem_cons_self ..)
    have hrest := ih (fun x hx => hp x (mem_cons_of_mem c hx)) (c.apply b)
    have hfirst : (∀ i, n ≤ i → byteAt (c.apply b) i = byteAt b i) ∨
        ∀ i, n ≤ i → byteAt (c.apply b) i = 0 := by
      rcases hd d hmem with rfl | ⟨p, rfl, hup⟩
      · cases hpiece
        refine .inr ?_
        intro i hi
        simp only [Change.apply, byteAt_resize]
        exact if_neg (by omega)
      · refine .inl ?_
        intro i hi
        cases hpiece with
        | whole =>
          simp only [Change.apply, byteAt_writeAt]
          exact if_neg (by omega)
        | part p k m =>
          have hlen := length_readAt p.data k m
          simp only [Change.apply, byteAt_writeAt]
          exact if_neg (by omega)
    rcases hrest with h | h
    · rcases hfirst with hf | hf
      · exact .inl (fun i hi => (h i hi).trans (hf i hi))
      · exact .inr (fun i hi => (h i hi).trans (hf i hi))
    · exact .inr h

/-- Pieces of guarded writes below n and of the new size n leave a file that is
guarded for the old one, or for the old one with zeros from n on. -/
theorem guarded_cut {n : ℕ} {ds : List Change} (hd : ∀ d ∈ ds, d = .setSize n ∨
      ∃ p, d = .write p ∧ p.off + p.data.length ≤ n ∧ Harmless ps old (.write p))
    (hp : ∀ c ∈ cs, ∃ d ∈ ds, Piece c d) :
    ∃ old', (old' = old ∨ old' = zeroFrom old n) ∧ Guarded ps old' (applyChanges cs old) := by
  have hbelow : Guarded ps (old.take n) (applyChanges cs old) := by
    apply guarded_pieces ps (old.take n) ds cs old _ hp
    · intro i hi
      rw [length_take] at hi
      rw [byteAt_take, if_pos (by omega)]
      exact .inl rfl
    · intro d hmem
      rcases hd d hmem with rfl | ⟨p, rfl, -, hharm⟩
      · intro i hn hi
        rw [length_take] at hi
        omega
      · intro i hi hcov
        rw [length_take] at hi
        rw [byteAt_take, if_pos (by omega)]
        exact hharm i (by omega) hcov
  have hin : ∀ i, i < n → i < old.length →
      byteAt (applyChanges cs old) i = byteAt old i ∨ Covered ps i := by
    intro i hn hi
    have h := hbelow i (by rw [length_take]; omega)
    rwa [byteAt_take, if_pos hn] at h
  have hout := tail_pieces n ds cs (fun d hmem => (hd d hmem).imp id
    (fun ⟨p, hp, hup, _⟩ => ⟨p, hp, hup⟩)) hp old
  rcases hout with hsame | hzero
  · refine ⟨old, .inl rfl, ?_⟩
    intro i hi
    rcases Nat.lt_or_ge i n with hlt | hge
    · exact hin i hlt hi
    · exact .inl (hsame i hge)
  · refine ⟨zeroFrom old n, .inr rfl, ?_⟩
    intro i hi
    rw [length_zeroFrom] at hi
    rw [byteAt_zeroFrom]
    rcases Nat.lt_or_ge i n with hlt | hge
    · rw [if_pos hlt]
      exact hin i hlt hi
    · rw [if_neg (by omega)]
      exact .inl (hzero i hge)

/-- The roll back's own changes are harmless, so it can be stopped and repeated. -/
theorem rollBackChanges_harmless (hs : Saves ps old)
    (c : Change) (hc : c ∈ rollBackChanges ps old.length) : Harmless ps old c := by
  rcases mem_append.mp hc with h | h
  · obtain ⟨p, hp, rfl⟩ := mem_map.mp h
    intro i _ hcov
    exact .inl (saved_byte ps old hs p hp i hcov)
  · rw [mem_singleton] at h
    subst h
    intro i hn hi
    omega

/-- On the old file itself the roll back, or any piece of it, changes nothing. -/
theorem rollBackChanges_old (hs : Saves ps old)
    (hp : ∀ c ∈ cs, ∃ d ∈ rollBackChanges ps old.length, Piece c d) :
    applyChanges cs old = old := by
  induction cs with
  | nil => rfl
  | cons c cs ih =>
    obtain ⟨d, hd, hpiece⟩ := hp c (mem_cons_self ..)
    have hkeep : c.apply old = old := by
      rcases mem_append.mp hd with h | h
      · obtain ⟨p, hmem, rfl⟩ := mem_map.mp h
        have hin : 0 < p.data.length → p.off + p.data.length ≤ old.length := by
          intro hpos
          have := saved_bound ps old hs p hmem (p.off + (p.data.length - 1))
            ⟨by omega, by omega⟩
          omega
        have hbyte := saved_byte ps old hs p hmem
        cases hpiece with
        | whole =>
          by_cases hnil : p.data = []
          · simp [Change.apply, writeAt, hnil]
          · exact writeAt_same old p.off p.data (hin (length_pos_iff.mpr hnil))
              (fun i h1 h2 => hbyte i ⟨h1, h2⟩)
        | part p k n =>
          by_cases hnil : readAt p.data k n = []
          · simp [Change.apply, writeAt, hnil]
          · have hlen := length_readAt p.data k n
            have hpos := length_pos_iff.mpr hnil
            apply writeAt_same old (p.off + k) (readAt p.data k n) (by omega)
            intro i h1 h2
            rw [byteAt_readAt, if_pos (by omega), ← hbyte i ⟨by omega, by omega⟩]
            congr 1
            omega
      · rw [mem_singleton] at h
        subst h
        cases hpiece
        exact resize_self old
    rw [applyChanges_cons, hkeep]
    exact ih (fun x hx => hp x (mem_cons_of_mem c hx))

/-- The patches of one change of the file, and the size it had before. -/
structure Layer where
  patches : List Patch
  size : ℕ
  deriving DecidableEq, Repr

def Layer.undo (l : Layer) (b : Bytes) : Bytes := rollBack l.patches l.size b

/-- Take a file back through all the layers, the newest first. -/
def rewind (ls : List Layer) (b : Bytes) : Bytes := ls.foldr Layer.undo b

/-- The layers lead from the file back through these versions, oldest first. -/
def Leads : List Layer → List Bytes → Bytes → Prop
  | [], [], _ => True
  | l :: ls, v :: vs, b => rewind (l :: ls) b = v ∧ Leads ls vs b
  | _, _, _ => False

theorem rewind_cons (l : Layer) (ls : List Layer) (b : Bytes) :
    rewind (l :: ls) b = l.undo (rewind ls b) := rfl

variable (ls : List Layer) (vs : List Bytes) (b : Bytes)

theorem rewind_snoc (l : Layer) (b : Bytes) : rewind (ls ++ [l]) b = rewind ls (l.undo b) := by
  simp [rewind]

theorem leads_length (h : Leads ls vs b) : ls.length = vs.length := by
  induction ls generalizing vs with
  | nil =>
    cases vs with
    | nil => rfl
    | cons v vs => exact absurd h (by simp [Leads])
  | cons l ls ih =>
    cases vs with
    | nil => exact absurd h (by simp [Leads])
    | cons v vs =>
      have := ih vs h.2
      simp only [length_cons, this]

/-- A new layer that undoes the step from the file to its next version. -/
theorem leads_snoc (old new : Bytes) {l : Layer} (h : Leads ls vs old) (hl : l.undo new = old) :
    Leads (ls ++ [l]) (vs ++ [old]) new := by
  induction ls generalizing vs with
  | nil =>
    cases vs with
    | nil => exact ⟨hl, trivial⟩
    | cons v vs => exact absurd h (by simp [Leads])
  | cons k ls ih =>
    cases vs with
    | nil => exact absurd h (by simp [Leads])
    | cons v vs =>
      refine ⟨?_, ih vs h.2⟩
      have hsnoc := rewind_snoc (k :: ls) l new
      rw [hl, h.1] at hsnoc
      exact hsnoc

/-- The oldest layers can be dropped together with their versions. -/
theorem leads_drop (n : ℕ) (h : Leads ls vs b) : Leads (ls.drop n) (vs.drop n) b := by
  induction n generalizing ls vs with
  | zero => exact h
  | succ n ih =>
    cases ls with
    | nil =>
      cases vs with
      | nil => exact trivial
      | cons v vs => exact absurd h (by simp [Leads])
    | cons l ls =>
      cases vs with
      | nil => exact absurd h (by simp [Leads])
      | cons v vs => exact ih ls vs h.2

theorem leads_rewind (h : Leads ls vs b)
    {i : ℕ} (hi : i < vs.length) : rewind (ls.drop i) b = vs[i] := by
  have hd := leads_drop ls vs b i h
  have hlen := leads_length ls vs b h
  have hl : i < ls.length := by omega
  rw [drop_eq_getElem_cons hi, drop_eq_getElem_cons hl] at hd
  rw [drop_eq_getElem_cons hl]
  exact hd.1

end FilePool.UndoLog
