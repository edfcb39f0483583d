import FilePool.ReceivedCopy

/-!
The moment that a disk folder shows, over runs of commits and roll backs that
stop anywhere. The moment is read from the newest undo file, or from the moment
file if there is none. Between the pruning and the write of the moment file a
copy that is older than what is kept leaves neither: the folder then shows an
earlier moment. In all other stops the moment is that of the copy whose content
the disk holds.
-/
namespace FilePool.MomentHistory

open ByteFiles BigEndian UndoLog CopyChunks UndoWriter UndoFormat UndoNames VolumeSteps DurableSteps
  DurableSteps.Prog UndoFolder DiskMoments ApplyCopy Recovery CopySteps CrashSafety OwnPoint
  UploadSessions CommitCopy CommitSteps ReceivedCopy

section Copying

variable {S : List (Name × Bytes)} {old : Option Bytes} {src : StagedCopy} {opts : ApplyOptions}
  {st : Stamps} {u w : Volume} (hold : ∀ b, old = some b → b.length < 2 ^ 63)
  (hu : Rests S old u)

include hu

theorem applyUnpruned_new_exec (hnone : old = none) :
    (applyUnpruned src.toCopySource opts st).result u =
        .ok (⟨dataLength src.toCopySource, false⟩, false) ∧
      (applyUnpruned src.toCopySource opts st).exec u = newState src st.write u := by
  subst hnone
  have heq := applyUnpruned_new opts st u S src hu
  refine ⟨congrArg Prod.snd heq, ?_⟩
  unfold Prog.exec Prog.steps
  rw [heq]
  rfl

include hold

theorem recoverable_unmarked (hcut : CutsZeros (old.getD []) src.size)
    (hw : (applyCopy src.toCopySource opts st).Stopped u w)
    (hnot : ¬ Marked src.toCopySource opts st u w) : Recoverable S old w := by
  have hrec := recoverable_of_rests hu
  cases old with
  | some b =>
    obtain ⟨b', hb', hrec'⟩ :=
      recoverable_of_unmarked S src opts st b u w (hold b rfl) hrec hw hnot
    rcases hb' with rfl | rfl
    · exact hrec'
    · rwa [zeroFrom_of_cutsZeros b src.size hcut] at hrec'
  | none =>
    obtain ⟨hres, hexec⟩ := applyUnpruned_new_exec hu rfl
    rcases applyCopy_stops src opts st u w hw with hs | hm
    · have hsteps : device.StoppedIn (newSteps src st.write) u w := by
        unfold Prog.Stopped Prog.steps at hs
        rw [applyUnpruned_new opts st u S src hu] at hs
        exact hs
      rcases stopped_newSteps src st.write hsteps with ⟨content, rfl⟩ | rfl
      · exact recoverable_of_rests { hu with }
      · refine absurd ⟨_, hres, ?_⟩ hnot
        rw [hexec]
        exact device.stoppedIn_start _ _
    · exact absurd hm hnot

/-- A stop after the mark leaves the new disk, and the copy's own undo file if
there was a disk to change. -/
theorem rests_marked (hkeep : 0 < opts.keep → opts.now - opts.keep ≤ wrap opts.toMoment)
    (hm : Marked src.toCopySource opts st u w) :
    ∃ S', Rests S' (some (copied src.toCopySource opts.full (old.getD []))) w ∧
      ∀ m t, momentOf S' m = .ok (some t) →
        t = wrap opts.toMoment ∨ old = none ∧ S' = S := by
  obtain ⟨r, hr, hprune⟩ := hm
  cases old with
  | some b =>
    have hrec := recoverable_of_rests hu
    have hstart : Marked src.toCopySource opts st u
        ((applyUnpruned src.toCopySource opts st).exec u) := ⟨r, hr, device.stoppedIn_start _ _⟩
    have hrests := (rests_of_marked S src opts st b u _ hrec hstart).2 rfl
    obtain ⟨S', hS', hw⟩ := rests_pruning_own S src opts b (hold b rfl) hkeep hrests hprune
    refine ⟨_, hw, ?_⟩
    intro m t ht
    exact .inl (Option.some.inj (momentOf_own S src opts b (hold b rfl) hS' ht))
  | none =>
    obtain ⟨hres, hexec⟩ := applyUnpruned_new_exec hu rfl
    rw [hres] at hr
    cases hr
    rw [hexec] at hprune
    have hsame : w = newState src st.write u := hprune
    rw [hsame]
    exact ⟨S, rests_newState src st.write hu, fun _ _ _ => .inr ⟨rfl, rfl⟩⟩

/-- A copy that ended leaves the new disk; with its moment in the moment file the
folder shows it. -/
theorem rests_recorded (hrange : InRange opts.toMoment) {res : ApplyResult}
    (hres : (applyCopy src.toCopySource opts st).result u = .ok res) :
    ∃ S', Rests S' (some (copied src.toCopySource opts.full (old.getD [])))
        ((applyCopy src.toCopySource opts st).exec u) ∧
      ∀ t, momentOf S' (.ok (some opts.toMoment)) = .ok (some t) →
        t = opts.toMoment ∨ old = none ∧ S' = S := by
  cases old with
  | some b =>
    obtain ⟨-, hrests, -⟩ := rests_applyCopy S src opts b (recoverable_of_rests hu) hres
    exact ⟨_, hrests, fun t ht =>
      .inl (momentOf_kept S src opts b (hold b rfl) hrange ht)⟩
  | none =>
    obtain ⟨hres', hexec⟩ := applyUnpruned_new_exec hu rfl
    have hwhole : (applyCopy src.toCopySource opts st).exec u = newState src st.write u := by
      rw [exec_applyCopy opts st u hres', hexec]
      rfl
    rw [hwhole]
    exact ⟨S, rests_newState src st.write hu, fun _ _ => .inr ⟨rfl, rfl⟩⟩

end Copying

/-- The copies that the disk went through, newest first: the moment of each and
the content it left. -/
abbrev History := List (Moment × Bytes)

/-- The disk holds, or can be rolled back to, the content that belongs to the
moment it shows. -/
def Shows (H : History) (v : Volume) : Prop :=
  ∃ S old, Recoverable S old v ∧ (∀ b, old = some b → b.length < 2 ^ 63) ∧
    ∀ t, moment v = .ok (some t) → ∃ b, old = some b ∧ H.head? = some (t, b)

variable {old : Option Bytes} {H : History}

theorem shows_of_recoverable {S : List (Name × Bytes)}
    {v s : Volume} (hv : Recoverable S old v) (hs : Recoverable S old s)
    (hfile : fileMoment s = fileMoment v) (hold : ∀ b, old = some b → b.length < 2 ^ 63)
    (hshow : ∀ t, moment v = .ok (some t) → ∃ b, old = some b ∧ H.head? = some (t, b)) :
    Shows H s := by
  refine ⟨S, old, hs, hold, ?_⟩
  intro t ht
  apply hshow t
  rw [moment_recoverable hv, ← hfile, ← moment_recoverable hs]
  exact ht

/-- After a copy the folder shows the copy's moment, if it shows one. -/
theorem shows_applied {S S' : List (Name × Bytes)}
    {shown : Moment} {content : Bytes} {v s : Volume} (hv : Recoverable S old v)
    (hs : Rests S' (some content) s) (hlen : content.length < 2 ^ 63)
    (hshow : ∀ t, moment v = .ok (some t) → ∃ b, old = some b ∧ H.head? = some (t, b))
    (hfile : fileMoment s = fileMoment v ∨ fileMoment s = .ok (some shown))
    (hto : ∀ t, momentOf S' (fileMoment s) = .ok (some t) → t = shown ∨ old = none ∧ S' = S) :
    Shows ((shown, content) :: H) s := by
  have hrec := recoverable_of_rests hs
  refine ⟨S', some content, hrec, ?_, ?_⟩
  · intro b hb
    cases hb
    exact hlen
  · intro t ht
    rw [moment_recoverable hrec] at ht
    rcases hto t ht with rfl | ⟨rfl, rfl⟩
    · exact ⟨content, rfl, rfl⟩
    · -- without a disk before the copy no undo file said a moment
      have hno : ∀ t, momentOf S' (fileMoment v) ≠ .ok (some t) := by
        intro t ht
        rw [← moment_recoverable hv] at ht
        obtain ⟨b, hb, -⟩ := hshow t ht
        cases hb
      rcases hfile with hfile | hfile
      · rw [hfile] at ht
        exact absurd ht (hno t)
      · rcases momentOf_cases ht with h | h
        · exact absurd (h _) (hno t)
        · rw [hfile] at h
          cases h
          exact ⟨content, rfl, rfl⟩

/-- One commit call with what it takes from its surroundings. -/
structure CommitCall (δ : Type) where
  id : Name
  req : CommitRequest δ
  now : Moment
  stamp : ℤ
  stamps : Stamps

namespace CommitCall

variable {δ : Type} [DecidableEq δ] (hash : Bytes → δ) (limit : ℕ) (c : CommitCall δ)
  (v s : Volume) (x : CopySource × ApplyOptions)

def prog : VolProg CommitResponse := commit hash limit c.id c.req c.now c.stamp c.stamps

/-- The folder in which the copy is applied. -/
def prepared : Volume := CommitSteps.prepared hash c.id c.req c.now c.stamp v

/-- The commit passes its checks and applies this copy. -/
def Accepted : Prop :=
  ValidRequest limit c.req ∧
    (prepareCommit hash c.id c.req c.now c.stamp).result (started c.now v) = .ok x

/-- The stop came after the mark of the copy's undo file, or after the new disk
was put in place. -/
def Marks : Prop :=
  c.Accepted hash limit v x ∧ ∃ w, Marked x.1 x.2 c.stamps (c.prepared hash v) w ∧ SameDisk w s

/-- The stop came after the moment file was written. -/
def Records : Prop :=
  c.Accepted hash limit v x ∧
    ∃ res, (applyCopy x.1 x.2 c.stamps).result (c.prepared hash v) = .ok res ∧
    SameDisk (CommitSteps.recorded c.req c.stamps x (c.prepared hash v)) s

/-- The content that the copy leaves. -/
def content : Bytes := copied x.1 x.2.full (diskBytes (c.prepared hash v).disk)

/-- The copy is not older than the restore points that it keeps. -/
def KeepsOwn : Prop :=
  0 < wrap (c.req.keepSeconds * 1000000000) →
    c.now - wrap (c.req.keepSeconds * 1000000000) ≤ c.req.toMoment

/-- The records that the commit has read end within 64 bits. -/
def RecordsFit : Prop := ∀ i,
  Accepts hash c.id c.req ((recover c.stamp).exec (started c.now v)) i → EndsFit i.segs

/-- The copy does not cut off bytes that are not zero. -/
def CutsOnlyZeros : Prop :=
  CutsZeros (diskBytes (c.prepared hash v).disk) c.req.size.toNat

theorem recordsFit_of_stored (segs : List Seg)
    (h : (loadSession c.id).result ((recover c.stamp).exec (started c.now v)) = .ok segs)
    (hfit : ∀ s ∈ sortSegs segs, s.off + s.length < 2 ^ 63) : c.RecordsFit hash v := by
  intro i hi
  have hsame : i.stored = segs := Except.ok.inj (hi.stored.symm.trans h)
  unfold CommitInput.segs
  rw [hsame]
  exact hfit

end CommitCall

theorem stopped_of_marked {src : CopySource} {opts : ApplyOptions} {st : Stamps} {v s : Volume}
    (h : Marked src opts st v s) : (applyCopy src opts st).Stopped v s := by
  obtain ⟨r, hr, hprune⟩ := h
  unfold applyCopy
  rw [stopped_bind_ok _ _ v hr]
  right
  unfold Prog.Stopped at hprune
  rw [← steps_bind_pure (pruneFor opts r.2) _ r.1] at hprune
  exact hprune

theorem diskBytes_of_holds {v : Volume} (h : Holds v old) :
    diskBytes v.disk = old.getD [] := by
  cases old with
  | none => rw [show v.disk = none from h]; rfl
  | some b =>
    obtain ⟨d, hd, -, hbytes⟩ := h
    rw [hd]
    exact hbytes

section Runs

variable {δ : Type} [DecidableEq δ] (hash : Bytes → δ) (limit : ℕ) {v : Volume}
  {x : CopySource × ApplyOptions} {S : List (Name × Bytes)}

/-- Runs of commits and roll backs, each stopped anywhere, with anything else in
between that leaves the disk, the undo folder and the moment file alone. A commit
that stops before the mark cuts off zeros only; one that stops between the mark
and the write of the moment file is not older than what it keeps; moments fit
the 64 bits of an undo file, and the ends of records 64 bits too. -/
inductive MomentRun : History → Volume → Prop
  | start (H : History) (S : List (Name × Bytes)) (old : Option Bytes) (v : Volume)
      (hrec : Recoverable S old v) (hold : ∀ b, old = some b → b.length < 2 ^ 63)
      (hshow : ∀ t, moment v = .ok (some t) → ∃ b, old = some b ∧ H.head? = some (t, b)) :
      MomentRun H v
  | other (H : History) (v s : Volume) (h : MomentRun H v) (hs : SameDisk v s) : MomentRun H s
  | rollBack (H : History) (v s : Volume) (stamp : ℤ) (h : MomentRun H v)
      (hs : (recover stamp).Stopped v s) : MomentRun H s
  | stopped (H : History) (v s : Volume) (c : CommitCall δ) (h : MomentRun H v)
      (hs : (c.prog hash limit).Stopped v s)
      (hnot : ∀ x, ¬ c.Marks hash limit v s x ∧ ¬ c.Records hash limit v s x)
      (hcut : c.CutsOnlyZeros hash v) (hfit : c.RecordsFit hash v) : MomentRun H s
  | marked (H : History) (v s : Volume) (c : CommitCall δ) (x : CopySource × ApplyOptions)
      (h : MomentRun H v) (hs : (c.prog hash limit).Stopped v s) (hx : c.Marks hash limit v s x)
      (hrange : InRange c.req.toMoment) (hkeep : c.KeepsOwn) (hfit : c.RecordsFit hash v) :
      MomentRun ((c.req.toMoment, c.content hash v x) :: H) s
  | recorded (H : History) (v s : Volume) (c : CommitCall δ) (x : CopySource × ApplyOptions)
      (h : MomentRun H v) (hs : (c.prog hash limit).Stopped v s) (hx : c.Records hash limit v s x)
      (hrange : InRange c.req.toMoment) (hfit : c.RecordsFit hash v) :
      MomentRun ((c.req.toMoment, c.content hash v x) :: H) s

variable (hlimit : limit < 2 ^ 63)

theorem prepared_rests {c : CommitCall δ} (hv : Recoverable S old v)
    (hx : c.Accepted hash limit v x) :
    Rests S old (c.prepared hash v) ∧ fileMoment (c.prepared hash v) = fileMoment v ∧
      ∃ i, Accepts hash c.id c.req ((recover c.stamp).exec (started c.now v)) i ∧
        x = (i.copy c.req, commitOptions c.req i.disk c.now) := by
  obtain ⟨rolled, hrec, hcheck, hsame⟩ := prepare_ok hash c.id c.req c.now c.stamp x hx.2
  have hstart := recoverable_same v (sameDisk_started c.now v) S old hv
  obtain ⟨hend, -⟩ := safe_recover_recoverable S old c.stamp (started c.now v) hstart
  refine ⟨rests_same _ hsame S old (hend rolled hrec), ?_,
    checkCommit_ok hash c.id c.req c.now x hcheck⟩
  have hfile := fileMoment_recover c.stamp (started c.now v) _ (stopped_exec _ _)
  exact (fileMoment_same _ hsame).trans (hfile.trans (fileMoment_same v (sameDisk_started c.now v)))

include hlimit

theorem accepted_staged {c : CommitCall δ}
    (hx : c.Accepted hash limit v x) (hfit : c.RecordsFit hash v) :
    (∃ src : StagedCopy, src.toCopySource = x.1) ∧ x.1.size = c.req.size.toNat ∧
      x.2.toMoment = c.req.toMoment ∧ x.2.full = c.req.full ∧
      x.2.keep = wrap (c.req.keepSeconds * 1000000000) ∧ x.2.now = c.now := by
  obtain ⟨_, _, hcheck, -⟩ := prepare_ok hash c.id c.req c.now c.stamp x hx.2
  obtain ⟨i, hi, rfl⟩ := checkCommit_ok hash c.id c.req c.now x hcheck
  have hle := hx.1.2.2
  exact ⟨accepts_staged hash c.id c.req hi (by omega) (hfit i hi), rfl, rfl, rfl, rfl, rfl⟩

/-- Every step of a run keeps the content and the moment together. -/
theorem shows_run {H : History} (h : MomentRun hash limit H v) : Shows H v := by
  induction h with
  | start H S old v hrec hold hshow => exact ⟨S, old, hrec, hold, hshow⟩
  | other H v s _ hs ih =>
    obtain ⟨S, old, hrec, hold, hshow⟩ := ih
    exact shows_of_recoverable hrec (recoverable_same v hs S old hrec)
      (fileMoment_same v hs) hold hshow
  | rollBack H v s stamp _ hs ih =>
    obtain ⟨S, old, hrec, hold, hshow⟩ := ih
    exact shows_of_recoverable hrec ((safe_recover_recoverable S old stamp v hrec).2 s hs)
      (fileMoment_recover stamp v s hs) hold hshow
  | stopped H v s c _ hs hnot hcut hfit ih =>
    obtain ⟨S, old, hrec, hold, hshow⟩ := ih
    have hfirst := sameDisk_started c.now v
    rcases commit_stops hash limit c.id c.req c.now c.stamp c.stamps v s hs with
      rfl | ⟨hvalid, ⟨w, hw, hsame⟩ | ⟨x, hx, w, hw, hsame⟩ | ⟨x, hx, res, hres, hsame⟩⟩
    · exact ⟨S, old, hrec, hold, hshow⟩
    · have hstart := recoverable_same v hfirst S old hrec
      refine shows_of_recoverable hrec (recoverable_same w hsame S old
        ((safe_recover_recoverable S old c.stamp _ hstart).2 w hw)) ?_ hold hshow
      exact (fileMoment_same w hsame).trans ((fileMoment_recover c.stamp _ w hw).trans
        (fileMoment_same v hfirst))
    · have hacc : c.Accepted hash limit v x := ⟨hvalid, hx⟩
      obtain ⟨hrests, hfile, -⟩ := prepared_rests hash limit hrec hacc
      obtain ⟨⟨src, hsrc⟩, hsize, -⟩ := accepted_staged hash limit hlimit hacc hfit
      have hbytes := diskBytes_of_holds hrests.disk
      have hunmarked : ¬ Marked x.1 x.2 c.stamps (c.prepared hash v) w :=
        fun hm => (hnot x).1 ⟨hacc, w, hm, hsame⟩
      have hrec' : Recoverable S old w := by
        rw [← hsrc] at hw hunmarked hsize
        refine recoverable_unmarked hold hrests ?_ hw hunmarked
        rw [← hbytes, hsize]
        exact hcut
      refine shows_of_recoverable hrec (recoverable_same w hsame S old hrec') ?_ hold hshow
      have hmf := momentFile_applyCopy hrests hw
      rw [fileMoment_same w hsame, ← hfile]
      unfold fileMoment readMomentFile
      rw [hmf]
    · exact absurd ⟨⟨hvalid, hx⟩, res, hres, hsame⟩ (hnot x).2
  | marked H v s c x _ hs hx hrange hkeep hfit ih =>
    obtain ⟨S, old, hrec, hold, hshow⟩ := ih
    obtain ⟨hacc, w, hm, hsame⟩ := hx
    obtain ⟨hrests, hfile, -⟩ := prepared_rests hash limit hrec hacc
    obtain ⟨⟨src, hsrc⟩, hsize, hto, -, hk, hn⟩ := accepted_staged hash limit hlimit hacc hfit
    have hwrap : wrap x.2.toMoment = c.req.toMoment := by
      rw [hto]
      exact wrap_of_inRange _ hrange
    have hown : 0 < x.2.keep → x.2.now - x.2.keep ≤ wrap x.2.toMoment := by
      rw [hwrap, hk, hn]
      exact hkeep
    have hstop := stopped_of_marked hm
    have hmf := momentFile_applyCopy hrests hstop
    have hcontent : c.content hash v x = copied src.toCopySource x.2.full (old.getD []) := by
      unfold CommitCall.content
      rw [diskBytes_of_holds hrests.disk, hsrc]
    rw [← hsrc] at hm
    obtain ⟨S', hS', hmoment⟩ := rests_marked hold hrests hown hm
    rw [hwrap] at hmoment
    refine shows_applied hrec (hcontent ▸ rests_same w hsame S' _ hS') ?_
      hshow (.inl ?_) (hmoment _)
    · rw [hcontent, length_copied]
      exact src.size_lt
    · rw [fileMoment_same w hsame, ← hfile]
      unfold fileMoment readMomentFile
      rw [hmf]
  | recorded H v s c x _ hs hx hrange hfit ih =>
    obtain ⟨S, old, hrec, hold, hshow⟩ := ih
    obtain ⟨hacc, res, hres, hsame⟩ := hx
    obtain ⟨hrests, hfile, -⟩ := prepared_rests hash limit hrec hacc
    obtain ⟨⟨src, hsrc⟩, hsize, hto, -⟩ := accepted_staged hash limit hlimit hacc hfit
    have hcontent : c.content hash v x = copied src.toCopySource x.2.full (old.getD []) := by
      unfold CommitCall.content
      rw [diskBytes_of_holds hrests.disk, hsrc]
    rw [← hsrc] at hres
    obtain ⟨S', hS', hmoment⟩ := rests_recorded hold hrests (hto ▸ hrange) hres
    have hdone : Rests S' (some (c.content hash v x)) s := by
      refine rests_same _ hsame S' _ ?_
      rw [hcontent, recorded_eq, ← hsrc]
      exact rests_writeMoment hS'
    have hnew : fileMoment s = .ok (some c.req.toMoment) := by
      rw [fileMoment_same _ hsame, recorded_eq, fileMoment_writeMoment, sealDisk_moment]
      rfl
    refine shows_applied hrec hdone ?_ hshow (.inr hnew) ?_
    · rw [hcontent, length_copied]
      exact src.size_lt
    · rw [hnew, ← hto]
      exact hmoment

omit hlimit in
/-- Without a copy that stopped half way the disk holds the content itself. -/
theorem holds_of_finished
    (hv : Recoverable S old v) (h : hasUnfinishedCopy v = .ok false) : Holds v old := by
  obtain ⟨u, ps, -, hbet⟩ := hv
  rcases hbet.disk with hold | ⟨b, d, e, -, -, he, hready, -⟩
  · exact hold
  · unfold hasUnfinishedCopy at h
    rw [undoEntries_ok v hbet.folder] at h
    have hany : v.undo.entries.any (fun e => hasSuffix e.1 undoReady) = false := Except.ok.inj h
    rw [List.any_eq_false] at hany
    exact absurd hready (hany e he)

omit hlimit in
/-- A commit of a disk that shows a moment has that moment as its From. -/
theorem from_eq_shown {c : CommitCall δ} {b : Bytes} {t : Moment} (hv : Recoverable S (some b) v)
    (ht : moment v = .ok (some t)) (hx : c.Accepted hash limit v x) :
    c.req.fromMoment = some t := by
  obtain ⟨rolled, hrec, hcheck, -⟩ := prepare_ok hash c.id c.req c.now c.stamp x hx.2
  obtain ⟨i, hi, -⟩ := checkCommit_ok hash c.id c.req c.now x hcheck
  have hfirst := sameDisk_started c.now v
  have hstart := recoverable_same v hfirst S _ hv
  have hrests := (safe_recover_recoverable S _ c.stamp _ hstart).1 rolled hrec
  have hshown : moment ((recover c.stamp).exec (started c.now v)) = .ok (some t) := by
    rw [moment_recoverable (recoverable_of_rests hrests),
      fileMoment_recover c.stamp _ _ (stopped_exec _ _), fileMoment_same v hfirst,
      ← moment_recoverable hv]
    exact ht
  obtain ⟨d, hd, -⟩ := diskInfo_of_holds hrests.disk
  have hdisk : i.disk = some d := by
    have hread := hi.disk
    unfold commitDisk at hread
    rw [hd] at hread
    exact (Except.ok.inj hread).symm
  have hcur : i.cur = some (some t) := by
    have hread := hi.cur
    rw [hdisk, hshown] at hread
    exact (Except.ok.inj hread).symm
  have hbase := hi.base
  rw [hcur] at hbase
  unfold wrongBase at hbase
  cases hfrom : c.req.fromMoment with
  | none =>
    rw [hfrom] at hbase
    cases hbase
  | some t' =>
    rw [hfrom] at hbase
    have heq : some t = some t' := by simpa using hbase
    rw [heq]

/-- Whenever the folder shows a moment, the disk holds the content of the last
applied copy, and that copy ended at the moment; a disk that a stopped copy left
half changed is rolled back to it. A later commit that succeeds starts from this
moment and is applied to this content. -/
theorem shown_moment_has_its_content (H : History) (v : Volume) (hrun : MomentRun hash limit H v)
    (t : Moment) (ht : moment v = .ok (some t)) :
    ∃ b, H.head? = some (t, b) ∧
      (hasUnfinishedCopy v = .ok false → Holds v (some b)) ∧
      (∀ stamp rolled, (recover stamp).result v = .ok rolled →
        Holds ((recover stamp).exec v) (some b)) ∧
      ∀ (c : CommitCall δ) r, (c.prog hash limit).result v = .ok r → c.RecordsFit hash v →
        c.req.fromMoment = some t ∧ ∃ x, c.Accepted hash limit v x ∧
          Holds ((c.prog hash limit).exec v) (some (copied x.1 c.req.full b)) := by
  obtain ⟨S, old, hrec, hold, hshow⟩ := shows_run hash limit hlimit hrun
  obtain ⟨b, rfl, hhead⟩ := hshow t ht
  refine ⟨b, hhead, holds_of_finished hrec, ?_, ?_⟩
  · intro stamp rolled hrolled
    exact ((safe_recover_recoverable S _ stamp v hrec).1 rolled hrolled).disk
  · intro c r hr hfit
    obtain ⟨hvalid, x, res, hx, hres, hsame, -⟩ :=
      commit_ok hash limit c.id c.req c.now c.stamp c.stamps hr
    have hacc : c.Accepted hash limit v x := ⟨hvalid, hx⟩
    refine ⟨from_eq_shown hash limit hrec ht hacc, x, hacc, ?_⟩
    obtain ⟨hrests, -, -⟩ := prepared_rests hash limit hrec hacc
    obtain ⟨⟨src, hsrc⟩, -, -, hfull, -⟩ := accepted_staged hash limit hlimit hacc hfit
    change (applyCopy x.1 x.2 c.stamps).result (c.prepared hash v) = .ok res at hres
    rw [← hsrc] at hres
    obtain ⟨-, hnew, -⟩ := rests_applyCopy S src x.2 b (recoverable_of_rests hrests) hres
    refine holds_same _ hsame ?_
    rw [recorded_eq, ← hsrc, ← hfull]
    exact (rests_writeMoment hnew).disk

end Runs

/-- A disk of one byte at moment 5, with one more byte uploaded for it. -/
def uploaded : Volume :=
  { Volume.empty with
    disk := some ⟨[1], 3, true⟩
    momentFile := some (some ⟨5, [], 3, 1⟩)
    incoming := [(['a'], ⟨some (appendSeg ⟨.data, 0, 1, 0⟩), some [7], none, 0⟩)] }

/-- The commit of that byte for moment 6. -/
def oneByteCommit (keepSeconds : ℤ) : CommitCall Bytes where
  id := ['a']
  req := ⟨1, some 5, 6, false, uploadDigest (fun b => b) [⟨0, false, 1, [7]⟩], [], keepSeconds⟩
  now := 10000000000
  stamp := 4
  stamps := ⟨4, 5⟩

/-- The folder when this commit is stopped after some of its steps. -/
def cutCommit (keepSeconds : ℤ) (n : ℕ) : Volume :=
  device.applyAll ((((oneByteCommit keepSeconds).prog (fun b => b) 10).steps uploaded).take n)
    uploaded

theorem rests_uploaded : Rests [] (some [1]) uploaded :=
  ⟨nofun, rfl, by simp, _, rfl, rfl, rfl⟩

/-- The commit is stopped between the mark and the write of the moment file. -/
theorem shown_moment_has_its_content_oneByte :
    (cutCommit 0 6).momentFile = uploaded.momentFile ∧ moment (cutCommit 0 6) = .ok (some 6) ∧
      Holds (cutCommit 0 6) (some [7]) := by
  have hmoment : moment (cutCommit 0 6) = .ok (some 6) := by decide +kernel
  have hstart : MomentRun (fun b : Bytes => b) 10 [(5, [1])] uploaded := by
    refine .start _ [] (some [1]) _ (recoverable_of_rests rests_uploaded) ?_ ?_
    · intro b hb
      cases hb
      decide
    · intro t ht
      have hfive : moment uploaded = .ok (some 5) := by decide +kernel
      cases ht
      exact ⟨[1], rfl, rfl⟩
  have hrun := MomentRun.marked _ _ (cutCommit 0 6) (oneByteCommit 0)
    (⟨1, [⟨0, 1, .data, [7]⟩]⟩, ⟨5, 6, false, 0, 10000000000⟩) hstart
    (device.stoppedIn_take _ 6 uploaded)
    ⟨⟨by unfold ValidRequest; decide +kernel, by decide +kernel⟩, _,
      ⟨(⟨65536, false⟩, true), by decide +kernel, device.stoppedIn_start _ _⟩,
      ⟨by decide +kernel, by decide +kernel, by decide +kernel⟩⟩ (by decide +kernel)
    (fun h => absurd h (by decide))
    (CommitCall.recordsFit_of_stored _ _ _ [⟨.data, 0, 1, 0⟩] (by decide +kernel)
      (by decide))
  obtain ⟨b, hhead, hholds, -⟩ :=
    shown_moment_has_its_content (fun b => b) 10 (by decide) _ _ hrun 6 hmoment
  have hb : b = [7] := by
    have hpair := congrArg (Option.map Prod.snd) hhead
    exact (Option.some.inj (hpair.symm.trans (by decide +kernel)))
  exact ⟨by decide +kernel, hmoment, hb ▸ hholds (by decide +kernel)⟩

/-- A copy that is older than what is kept, stopped after the pruning and before the write of
the moment file: the folder shows the moment before the copy, and the disk holds the copy. -/
theorem pruned_copy_shows_earlier_moment :
    ((oneByteCommit 1).prog (fun b => b) 10).Stopped uploaded (cutCommit 1 7) ∧
      moment uploaded = .ok (some 5) ∧ Holds uploaded (some [1]) ∧
      moment (cutCommit 1 7) = .ok (some 5) ∧ hasUnfinishedCopy (cutCommit 1 7) = .ok false ∧
      Holds (cutCommit 1 7) (some [7]) := by
  refine ⟨device.stoppedIn_take _ 7 uploaded, by decide +kernel, rests_uploaded.disk,
    by decide +kernel, by decide +kernel, ⟨[7], 5, true⟩, by decide +kernel, rfl, rfl⟩

end FilePool.MomentHistory
