import FilePool.SavedLayers

/-!
A history of copies applied to one disk. The model of the disk is the copies on
top of each other. The undo files left after the history, less those that were
pruned, take the disk back to each point before a copy, as long as no copy cuts
off anything but zeros.
-/
namespace FilePool.CopyHistory

open ByteFiles BigEndian UndoLog CopyChunks UndoWriter List VolumeSteps DurableSteps
  DurableSteps.Prog UndoFolder ApplyCopy Recovery CrashSafety SavedLayers

/-- One call of ApplyCopy. -/
structure Copy where
  src : StagedCopy
  opts : ApplyOptions
  stamps : Stamps

def runCopies (ops : List Copy) (v : Volume) : Volume :=
  ops.foldl (fun v op => (applyCopy op.src.toCopySource op.opts op.stamps).exec v) v

/-- The disk after the copies; a copy onto no disk starts from an empty one. -/
def modelDisk (start : Option Bytes) (ops : List Copy) : Option Bytes :=
  ops.foldl (fun d op => some (copied op.src.toCopySource op.opts.full (d.getD []))) start

theorem runCopies_snoc (ops : List Copy) (op : Copy) (v : Volume) :
    runCopies (ops ++ [op]) v =
      (applyCopy op.src.toCopySource op.opts op.stamps).exec (runCopies ops v) := by
  simp [runCopies]

variable (start : Option Bytes) (ops : List Copy) {x : Saved}

theorem modelDisk_snoc (op : Copy) :
    modelDisk start (ops ++ [op]) =
      some (copied op.src.toCopySource op.opts.full ((modelDisk start ops).getD [])) := by
  simp [modelDisk]

theorem modelDisk_lt {b : Bytes}
    (hstart : ∀ b, start = some b → b.length < 2 ^ 63) (h : modelDisk start ops = some b) :
    b.length < 2 ^ 63 := by
  induction ops using reverseRecOn with
  | nil => exact hstart b h
  | append_singleton ops op _ =>
    rw [modelDisk_snoc] at h
    cases Option.some.inj h
    rw [length_copied]
    exact op.src.size_lt

/-- The layers are there in the order of the copies that saved them, and each
holds the disk before its copy. -/
structure Tracks (start : Option Bytes) (ops : List Copy) (saves : List Saved) : Prop where
  moments : (saves.map (fun x => x.opts.fromMoment)).Sublist
    (ops.map (fun op => op.opts.fromMoment))
  origin : ∀ x ∈ saves, ∃ before op after, ops = before ++ op :: after ∧ op.opts = x.opts ∧
    modelDisk start before = some x.old

/-- Every copy that makes the disk smaller cuts off zeros only. -/
def CutsOnlyZeros : Prop :=
  ∀ before op after b, ops = before ++ op :: after → modelDisk start before = some b →
    CutsZeros b op.src.size

theorem modelDisk_eq_none (h : modelDisk start ops = none) : ops = [] := by
  induction ops using reverseRecOn with
  | nil => rfl
  | append_singleton ops op _ =>
    rw [modelDisk_snoc] at h
    cases h

theorem cutsOnlyZeros_init (op : Copy)
    (h : CutsOnlyZeros start (ops ++ [op])) : CutsOnlyZeros start ops := by
  intro before o after b heq hb
  exact h before o (after ++ [op]) b (by rw [heq]; simp) hb

theorem tracks_snoc {op : Copy} {saves : List Saved} {k : ℕ} (h : Tracks start ops saves)
    (hx : op.opts = x.opts)
    (hold : modelDisk start ops = some x.old) :
    Tracks start (ops ++ [op]) ((saves ++ [x]).drop k) where
  moments := by
    have hall : ((saves ++ [x]).map (fun x => x.opts.fromMoment)).Sublist
        ((ops ++ [op]).map (fun op => op.opts.fromMoment)) := by
      rw [map_append, map_append]
      refine Sublist.append h.moments ?_
      rw [map_singleton, map_singleton, hx]
    exact ((drop_sublist k _).map _).trans hall
  origin y hy := by
    rcases mem_append.mp (mem_of_mem_drop hy) with hmem | hmem
    · obtain ⟨before, o, after, heq, ho, hb⟩ := h.origin y hmem
      exact ⟨before, o, after ++ [op], by rw [heq]; simp, ho, hb⟩
    · rw [mem_singleton] at hmem
      subst hmem
      exact ⟨ops, op, [], rfl, hx, hold⟩

/-- What a history of copies keeps: the model's disk, layers in the order of the
copies, and, if only zeros are cut off, layers that lead back through the disks. -/
theorem history_invariant {v : Volume}
    (hv : Rests [] start v) (hstart : ∀ b, start = some b → b.length < 2 ^ 63) :
    ∃ saves, Layered saves (modelDisk start ops) (runCopies ops v) ∧ Tracks start ops saves ∧
      (CutsOnlyZeros start ops → ∀ b, modelDisk start ops = some b →
        Leads (saves.map Saved.layer) (saves.map Saved.old) b) := by
  induction ops using reverseRecOn with
  | nil =>
    exact ⟨[], ⟨hv, Pairwise.nil⟩, ⟨Sublist.refl _, by simp⟩, fun _ _ _ => trivial⟩
  | append_singleton ops op ih =>
    obtain ⟨saves, hlayered, htracks, hleads⟩ := ih
    rw [runCopies_snoc, modelDisk_snoc]
    cases hcur : modelDisk start ops with
    | none =>
      have hnil := modelDisk_eq_none start ops hcur
      subst hnil
      have hempty : saves = [] := by
        have hsub := htracks.moments
        simpa using hsub
      subst hempty
      rw [hcur] at hlayered
      refine ⟨[], layered_applyCopy_new [] op.src op.opts op.stamps _ hlayered, ?_,
        fun _ _ _ => trivial⟩
      exact ⟨nil_sublist _, by simp⟩
    | some b =>
      have hb := modelDisk_lt start ops hstart hcur
      rw [hcur] at hlayered
      obtain ⟨k, hk⟩ := layered_applyCopy saves op.src op.opts op.stamps _ hb hlayered
      refine ⟨_, hk, tracks_snoc start ops htracks rfl hcur, ?_⟩
      intro hz c hc
      cases Option.some.inj hc
      have hcut := hz ops op [] b rfl hcur
      have hback : (nextSaved saves op.src op.opts b hb).layer.undo
          (copied op.src.toCopySource op.opts.full b) = b :=
        (rollBack_copied_iff op.src op.opts.full b _
          (forEachNewChunk_chunks op.src op.opts.full)).mpr hcut
      have hsnoc := leads_snoc _ _ b _ (hleads (cutsOnlyZeros_init start ops op hz) b hcur) hback
      have hdrop := leads_drop _ _ _ k hsnoc
      rw [map_drop, map_drop, map_append, map_append]
      exact hdrop

variable {start ops} {saves : List Saved}

theorem Tracks.stored (h : Tracks start ops saves) (hrange : ∀ op ∈ ops, InRange op.opts.fromMoment)
    (hx : x ∈ saves) : x.header.fromMoment = x.opts.fromMoment := by
  obtain ⟨before, op, after, heq, hop, -⟩ := h.origin x hx
  have hin := hrange op (by rw [heq]; simp)
  rw [hop] at hin
  exact wrap_of_inRange _ hin

theorem Tracks.last {pre post : List Saved} (h : Tracks start ops (pre ++ x :: post))
    (hrange : ∀ op ∈ ops, InRange op.opts.fromMoment)
    (hdistinct : (ops.map (fun op => op.opts.fromMoment)).Nodup) :
    ∀ y ∈ post, y.header.fromMoment ≠ x.header.fromMoment := by
  intro y hy
  have hnodup := hdistinct.sublist h.moments
  rw [map_append, map_cons, nodup_append, nodup_cons] at hnodup
  rw [h.stored hrange (by simp [hy]), h.stored hrange (by simp)]
  intro hsame
  exact hnodup.2.1.1 (hsame ▸ mem_map_of_mem hy)

/-- The disk after a history of copies is the model's. If only zeros were cut
off, a rewind to any listed restore point gives the disk before its copy and
leaves the folder as it is. -/
theorem rewind_after_copies (start : Option Bytes) (ops : List Copy) (v : Volume)
    (hv : Rests [] start v) (hstart : ∀ b, start = some b → b.length < 2 ^ 63)
    (hdistinct : (ops.map (fun op => op.opts.fromMoment)).Nodup) :
    Holds (runCopies ops v) (modelDisk start ops) ∧
      (CutsOnlyZeros start ops → (∀ op ∈ ops, InRange op.opts.fromMoment) →
        ∀ pts, restorePoints (runCopies ops v) = .ok pts → ∀ t ∈ pts,
          ∃ before op after b, ops = before ++ op :: after ∧ op.opts.fromMoment = t ∧
            modelDisk start before = some b ∧ ∀ stamp,
              (rewind t false stamp).result (runCopies ops v) = .ok b ∧
              (rewind t false stamp).exec (runCopies ops v) = runCopies ops v) := by
  obtain ⟨saves, hlayered, htracks, hleads⟩ := history_invariant start ops hv hstart
  refine ⟨hlayered.rests.disk, ?_⟩
  intro hz hrange pts hpts t ht
  obtain ⟨hr, rfl⟩ := restorePoints_layered hlayered hpts
  obtain ⟨x, hx, rfl⟩ := mem_map.mp ht
  obtain ⟨pre, post, rfl⟩ := append_of_mem hx
  obtain ⟨before, op, after, heq, hop, hold⟩ := htracks.origin x hx
  refine ⟨before, op, after, x.old, heq, ?_, hold, ?_⟩
  · rw [hop, htracks.stored hrange hx]
  · intro stamp
    cases hcur : modelDisk start ops with
    | none =>
      have hnil := modelDisk_eq_none start ops hcur
      rw [hnil] at heq
      simp at heq
    | some c =>
      rw [hcur] at hlayered
      have hrun := rewind_layered pre x post c hlayered hr (hleads hz c hcur)
        (htracks.last hrange hdistinct) stamp
      refine ⟨congrArg Prod.snd hrun, ?_⟩
      unfold Prog.exec Prog.steps
      rw [hrun]
      rfl

/-- A change copy that keeps only the first byte. -/
def firstByte : StagedCopy where
  size := 1
  extents := []
  size_lt := by decide
  ordered := oversized.ordered
  inside := by simp
  whole := oversized.whole

/-- Two copies: the first grows the disk and changes a byte, the second cuts
off the zero at its end. -/
def growAndCut : List Copy :=
  [⟨twoBytes, ⟨5, 6, false, 0, 9⟩, ⟨1, 2⟩⟩, ⟨firstByte, ⟨6, 7, false, 0, 9⟩, ⟨3, 4⟩⟩]

theorem rewind_after_copies_growAndCut :
    restorePoints (runCopies growAndCut (diskOnly [1])) = .ok [5, 6] ∧
      ∃ b, (rewind 6 false 8).result (runCopies growAndCut (diskOnly [1])) = .ok b := by
  have hcuts : CutsOnlyZeros (some [1]) growAndCut := by
    intro before op after b heq hb
    rcases before with _ | ⟨x, _ | ⟨y, before⟩⟩
    · obtain ⟨rfl, _⟩ := cons.inj heq
      cases Option.some.inj hb
      decide +kernel
    · obtain ⟨rfl, hrest⟩ := cons.inj heq
      obtain ⟨rfl, _⟩ := cons.inj hrest
      cases Option.some.inj hb
      decide +kernel
    · have hlen := congrArg length heq
      simp [growAndCut] at hlen
  have hrange : ∀ op ∈ growAndCut, InRange op.opts.fromMoment := by
    intro op hop
    simp only [growAndCut, mem_cons, not_mem_nil, or_false] at hop
    rcases hop with rfl | rfl <;> decide
  have hpts : restorePoints (runCopies growAndCut (diskOnly [1])) = .ok [5, 6] := by decide +kernel
  have h := rewind_after_copies (some [1]) growAndCut (diskOnly [1]) (rests_diskOnly [1])
    (by simp) (by decide)
  obtain ⟨_, _, _, b, _, _, _, hrewind⟩ := h.2 hcuts hrange [5, 6] hpts 6 (by simp)
  exact ⟨hpts, b, (hrewind 8).1⟩

/-- A copy that cuts off a byte: the rewind does not bring it back. -/
theorem rewind_loses_cut_byte :
    restorePoints (runCopies [⟨firstByte, ⟨5, 6, false, 0, 9⟩, ⟨1, 2⟩⟩] (diskOnly [1, 2])) =
        .ok [5] ∧
      modelDisk (some [1, 2]) [] = some [1, 2] ∧
      (rewind 5 false 8).result
        (runCopies [⟨firstByte, ⟨5, 6, false, 0, 9⟩, ⟨1, 2⟩⟩] (diskOnly [1, 2])) =
          .ok [1, 0] :=
  ⟨by decide +kernel, rfl, by decide +kernel⟩

end FilePool.CopyHistory
