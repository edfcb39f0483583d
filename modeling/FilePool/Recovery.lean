import FilePool.ApplyCopy

/-!
The roll back of a copy that stopped half way. Between a stop and the end of
the next roll back the disk is the old one, or it differs from the old one only
where the one complete undo file saves it. Every step of the roll back, whole
or torn, stays between, so it can be stopped and repeated any number of times;
a roll back that ends leaves the old disk and only settled undo files.
-/
namespace FilePool.Recovery

open ByteFiles UndoLog UndoFormat UndoNames VolumeSteps DurableSteps.Prog List
  DiskMoments ApplyCopy

/-- An undo file of a copy that did not end. -/
def unsettled (e : Name × Bytes) : Bool := hasSuffix e.1 undoPart || hasSuffix e.1 undoReady

def settled (es : List (Name × Bytes)) : List (Name × Bytes) := es.filter (fun e => !unsettled e)

/-- The disk has exactly these bytes; none means that there is no disk. -/
def Holds (v : Volume) : Option Bytes → Prop
  | none => v.disk = none
  | some b => ∃ d, v.disk = some d ∧ d.regular = true ∧ d.bytes = b

/-- The undo file, if it can be read, takes a disk that it guards back to old. -/
structure RollsBack (u : Name × Bytes) (ps : List Patch) (old : Bytes) : Prop where
  saves : Saves ps old
  parsed : ∀ h rs, parse u = .ok (h, rs) →
    rs.map UndoRecord.patch = ps ∧ h.oldSize.toNat = old.length

/-- The disk may be half changed, and the complete undo file u guards it. -/
def HalfChanged (u : Option (Name × Bytes)) (ps : List Patch) (old : Option Bytes)
    (v : Volume) : Prop :=
  ∃ b d e, old = some b ∧ u = some e ∧ e ∈ v.undo.entries ∧ hasSuffix e.1 undoReady = true ∧
    v.disk = some d ∧ d.regular = true ∧ Guarded ps b d.bytes

/-- A state that a stop can leave: settled undo files S, at most one complete
undo file u, and a disk that u takes back to old. -/
structure Between (S : List (Name × Bytes)) (u : Option (Name × Bytes)) (ps : List Patch)
    (old : Option Bytes) (v : Volume) : Prop where
  folder : v.undo ≠ .notFolder
  settled : settled v.undo.entries = S
  ready : ∀ e ∈ v.undo.entries, hasSuffix e.1 undoReady = true → u = some e
  disk : Holds v old ∨ HalfChanged u ps old v

/-- A state with nothing to roll back. -/
structure Rests (S : List (Name × Bytes)) (old : Option Bytes) (v : Volume) : Prop where
  folder : v.undo ≠ .notFolder
  entries : v.undo.entries = S
  clean : ∀ e ∈ S, unsettled e = false
  disk : Holds v old

variable {name : Name} {es : List (Name × Bytes)} {v : Volume}

theorem not_ready_of_part (h : hasSuffix name undoPart = true) :
    hasSuffix name undoReady = false := by
  obtain ⟨stem, rfl⟩ := (hasSuffix_iff _ _).mp h
  exact not_hasSuffix (by decide) (by decide) (by decide)

theorem entries_update {f : List (Name × Bytes) → List (Name × Bytes)} {d : UndoDir}
    (hf : f [] = []) : (d.update f).entries = f d.entries := by
  cases d <;> simp [UndoDir.update, UndoDir.entries, hf]

theorem update_ne_notFolder (f : List (Name × Bytes) → List (Name × Bytes)) (d : UndoDir)
    (h : d ≠ .notFolder) : d.update f ≠ .notFolder := by
  cases d <;> simp_all [UndoDir.update]

theorem undoEntries_ok (v : Volume) (h : v.undo ≠ .notFolder) :
    undoEntries v = .ok v.undo.entries := by
  unfold undoEntries
  cases hu : v.undo with
  | missing => rfl
  | notFolder => exact absurd hu h
  | folder es => rfl

theorem settled_of_clean (h : ∀ e ∈ es, unsettled e = false) :
    settled es = es := by
  apply filter_eq_self.mpr
  intro e he
  simp [h e he]

theorem settled_append {S extras : List (Name × Bytes)} (hS : ∀ e ∈ S, unsettled e = false)
    (hx : ∀ e ∈ extras, unsettled e = true) : settled (S ++ extras) = S := by
  have hnil : extras.filter (fun e => !unsettled e) = [] := by
    rw [filter_eq_nil_iff]
    intro e he
    simp [hx e he]
  have hsettled := settled_of_clean hS
  unfold settled at hsettled ⊢
  rw [filter_append, hnil, append_nil, hsettled]

theorem not_ready_of_clean {S : List (Name × Bytes)} (hS : ∀ e ∈ S, unsettled e = false)
    (e : Name × Bytes) (he : e ∈ S) : hasSuffix e.1 undoReady = false := by
  have hc := hS e he
  simp only [unsettled, Bool.or_eq_false_iff] at hc
  exact hc.2

theorem settled_removeEntry
    (h : (hasSuffix name undoPart || hasSuffix name undoReady) = true) :
    settled (removeEntry name es) = settled es := by
  unfold settled removeEntry
  rw [filter_filter]
  apply filter_congr
  intro e _
  by_cases he : e.1 = name
  · have hun : unsettled e = true := by
      unfold unsettled
      rw [he]
      exact h
    simp [hun]
  · simp [he]

theorem mem_removeEntry {e : Name × Bytes} :
    e ∈ removeEntry name es ↔ e ∈ es ∧ e.1 ≠ name := by
  simp [removeEntry]

theorem diskInfo_ok (v : Volume) (d : DiskFile) (h : diskInfo v = .ok d) :
    v.disk = some d ∧ d.regular = true := by
  unfold diskInfo at h
  cases hd : v.disk with
  | none => simp [hd] at h
  | some x =>
    simp only [hd] at h
    by_cases hr : x.regular = true
    · rw [if_pos hr] at h
      cases Except.ok.inj h
      exact ⟨rfl, hr⟩
    · rw [if_neg hr] at h
      cases h

theorem diskInfo_of_holds {b : Bytes} (h : Holds v (some b)) :
    ∃ d, diskInfo v = .ok d ∧ d.bytes = b := by
  obtain ⟨d, hd, hr, hb⟩ := h
  refine ⟨d, ?_, hb⟩
  unfold diskInfo
  simp [hd, hr]

section RollBack

variable (S : List (Name × Bytes)) (u : Option (Name × Bytes)) (ps : List Patch)
  (old : Option Bytes) {stamp : ℤ}

/-- The unsettled undo files that the rest of the roll back still has to visit. -/
def Left (todo : List (Name × Bytes)) (v : Volume) : Prop :=
  ∀ e ∈ v.undo.entries, unsettled e = true → e ∈ todo

theorem entries_removeUndo (v : Volume) (name : Name) :
    ((Step.removeUndo name).apply v).undo.entries = removeEntry name v.undo.entries :=
  entries_update rfl

theorem left_removeUndo (v : Volume) (e : Name × Bytes) (es : List (Name × Bytes))
    (h : Left (e :: es) v) : Left es ((Step.removeUndo e.1).apply v) := by
  intro x hx hun
  rw [entries_removeUndo, mem_removeEntry] at hx
  rcases mem_cons.mp (h x hx.1 hun) with rfl | hmem
  · exact absurd rfl hx.2
  · exact hmem

theorem between_removeUndo (v : Volume) (name : Name)
    (hname : (hasSuffix name undoPart || hasSuffix name undoReady) = true)
    (h : Between S u ps old v) (hdisk : Holds v old ∨ hasSuffix name undoReady = false) :
    Between S u ps old ((Step.removeUndo name).apply v) where
  folder := update_ne_notFolder _ _ h.folder
  settled := by rw [entries_removeUndo, settled_removeEntry hname, h.settled]
  ready e he hr := by
    rw [entries_removeUndo, mem_removeEntry] at he
    exact h.ready e he.1 hr
  disk := by
    rcases h.disk with hold | ⟨b, d, e, hb, hu, he, hready, hd⟩
    · exact .inl hold
    · rcases hdisk with hold | hother
      · exact .inl hold
      · refine .inr ⟨b, d, e, hb, hu, ?_, hready, hd⟩
        rw [entries_removeUndo, mem_removeEntry]
        refine ⟨he, ?_⟩
        rintro rfl
        rw [hready] at hother
        cases hother

theorem disk_change {v : Volume} {d : DiskFile} (hd : v.disk = some d) {cs : List Change} :
    ((Step.changeDisk cs stamp).apply v).disk = some (d.change cs stamp) := by
  change v.disk.map _ = _
  rw [hd]
  rfl

theorem change_bytes (d : DiskFile) (cs : List Change) (stamp : ℤ) :
    (d.change cs stamp).bytes = applyChanges cs d.bytes := by
  unfold DiskFile.change
  split
  · rename_i h
    rw [h]
    rfl
  · rfl

theorem change_regular (d : DiskFile) (cs : List Change) (stamp : ℤ) :
    (d.change cs stamp).regular = d.regular := by
  unfold DiskFile.change
  split <;> rfl

theorem between_roll (v : Volume) (e : Name × Bytes) (b : Bytes) (hb : old = some b)
    (hr : RollsBack e ps b) (cs : List Change)
    (hcs : ∀ c ∈ cs, ∃ d ∈ rollBackChanges ps b.length, Piece c d) (stamp : ℤ)
    (h : Between S u ps old v) :
    Between S u ps old ((Step.changeDisk cs stamp).apply v) where
  folder := h.folder
  settled := h.settled
  ready := h.ready
  disk := by
    subst hb
    rcases h.disk with ⟨d, hd, hreg, hbytes⟩ | ⟨b', d, x, hb', hu, hx, hready, hd, hreg, hg⟩
    · refine .inl ⟨_, disk_change hd, ?_, ?_⟩
      · rw [change_regular, hreg]
      · rw [change_bytes, hbytes]
        exact rollBackChanges_old ps b hr.saves hcs
    · cases Option.some.inj hb'
      refine .inr ⟨b, _, x, rfl, hu, hx, hready, disk_change hd, ?_, ?_⟩
      · rw [change_regular, hreg]
      · rw [change_bytes]
        exact guarded_pieces ps b _ cs d.bytes (rollBackChanges_harmless ps b hr.saves) hcs hg

theorem holds_roll (v : Volume) (e : Name × Bytes) (b : Bytes) (hb : old = some b)
    (hr : RollsBack e ps b) (stamp : ℤ) (h : Between S u ps old v) :
    Holds ((Step.changeDisk (rollBackChanges ps b.length) stamp).apply v) old := by
  subst hb
  have hguard : ∃ d, v.disk = some d ∧ d.regular = true ∧ Guarded ps b d.bytes := by
    rcases h.disk with ⟨d, hd, hreg, hbytes⟩ | ⟨b', d, x, hb', _, _, _, hd, hreg, hg⟩
    · exact ⟨d, hd, hreg, hbytes ▸ guarded_refl ps d.bytes⟩
    · cases Option.some.inj hb'
      exact ⟨d, hd, hreg, hg⟩
  obtain ⟨d, hd, hreg, hg⟩ := hguard
  refine ⟨_, disk_change hd, ?_, ?_⟩
  · rw [change_regular, hreg]
  · rw [change_bytes, applyChanges_rollBackChanges]
    exact rollBack_of_guarded ps hr.saves hg

variable (hu : ∀ e b, u = some e → old = some b → RollsBack e ps b)

include hu

theorem safe_rollBackBy {e : Name × Bytes} {es : List (Name × Bytes)}
    (he : u = some e) (hready : hasSuffix e.1 undoReady = true) :
    Safe (fun v => Between S u ps old v ∧ Left (e :: es) v) (rollBackBy e stamp)
      (fun _ v => Left es v) (Between S u ps old) := by
  have hun : (hasSuffix e.1 undoPart || hasSuffix e.1 undoReady) = true := by simp [hready]
  refine safe_bind (Q := fun _ v => Left (e :: es) v ∧ ∃ b, old = some b) ?_ ?_
  · apply safe_inspect
    rintro v ⟨hbet, hleft⟩
    refine ⟨hbet, ?_⟩
    intro d hd
    obtain ⟨hdisk, _⟩ := diskInfo_ok v d hd
    refine ⟨hleft, ?_⟩
    cases old with
    | some b => exact ⟨b, rfl⟩
    | none =>
      rcases hbet.disk with hnone | ⟨b, _, _, hb, _⟩
      · exact absurd (hdisk.symm.trans hnone) (by simp)
      · cases hb
  intro _
  refine safe_bind (Q := fun x v => Left (e :: es) v ∧ (∃ b, old = some b) ∧ parse e = .ok x)
    (safe_inspect _ (fun v hv => ⟨hv.1, fun x hx => ⟨hv.2.1, hv.2.2, hx⟩⟩)) ?_
  rintro ⟨h, rs⟩
  apply safe_of_state
  rintro v ⟨hbet, hleft, ⟨b, hb⟩, hparse⟩
  have hrolls := hu e b he hb
  obtain ⟨hps, hsize⟩ := hrolls.parsed h rs hparse
  simp only [hps, hsize]
  have hroll := fun cs hcs => between_roll S u ps old v e b hb hrolls cs hcs stamp hbet
  have hwhole := hroll (rollBackChanges ps b.length) (fun c hc => ⟨c, hc, .whole c⟩)
  refine safe_bind (Q := fun _ w => Left (e :: es) w ∧ Holds w old) ?_ ?_
  · apply safe_perform
    · rintro w rfl
      exact hbet
    · rintro w rfl
      exact ⟨hwhole, hleft, holds_roll S u ps old w e b hb hrolls stamp hbet⟩
    · rintro w w' rfl ⟨ds, hds, rfl⟩
      exact hroll ds hds
  · intro _
    refine safe_atomic _ (fun _ _ => id) (fun w hw => hw.1) ?_
    rintro w ⟨hw, hl, hh⟩
    exact ⟨between_removeUndo S u ps old w e.1 hun hw (.inl hh), left_removeUndo w e es hl⟩

theorem safe_recoverEntries (stamp : ℤ) (todo : List (Name × Bytes))
    (htodo : ∀ e ∈ todo, hasSuffix e.1 undoReady = true → u = some e) (rolled : Bool) :
    Safe (fun v => Between S u ps old v ∧ Left todo v) (recoverEntries stamp todo rolled)
      (fun _ v => Left [] v) (Between S u ps old) := by
  induction todo generalizing rolled with
  | nil => exact safe_pure rolled (fun v hv => hv)
  | cons e es ih =>
    have hrest := ih (fun x hx => htodo x (mem_cons_of_mem e hx))
    unfold recoverEntries
    by_cases hpart : hasSuffix e.1 undoPart = true
    · rw [if_pos hpart]
      have hun : (hasSuffix e.1 undoPart || hasSuffix e.1 undoReady) = true := by simp [hpart]
      have hready : hasSuffix e.1 undoReady = false := not_ready_of_part hpart
      refine safe_bind ?_ (fun _ => hrest rolled)
      refine safe_atomic _ (fun _ _ => id) (fun v hv => hv.1) ?_
      rintro v ⟨hbet, hleft⟩
      exact ⟨between_removeUndo S u ps old v e.1 hun hbet (.inr hready),
        left_removeUndo v e es hleft⟩
    rw [if_neg hpart]
    by_cases hready : hasSuffix e.1 undoReady = true
    · rw [if_pos hready]
      have he := htodo e (mem_cons_self ..) hready
      exact safe_bind (safe_rollBackBy S u ps old hu he hready) (fun _ => hrest true)
    · rw [if_neg hready]
      refine safe_from (hrest rolled) ?_
      rintro v ⟨hbet, hleft⟩
      refine ⟨hbet, ?_⟩
      intro x hx hun
      rcases mem_cons.mp (hleft x hx hun) with rfl | hmem
      · simp [unsettled, hpart, hready] at hun
      · exact hmem

end RollBack

section Reseal

variable {P : Volume → Prop}
  (hP : ∀ v mf, P v → P ((Step.writeMoment mf).apply v))

include hP

/-- What does not depend on the moment file, a new seal keeps. -/
theorem safe_reseal : Safe P reseal (fun _ => P) P := by
  refine safe_bind (safe_inspect _ (fun v hv => ⟨hv, fun _ _ => trivial⟩)) ?_
  intro mf
  cases mf with
  | none => exact safe_pure () (fun v hv => ⟨hv.1, hv.1⟩)
  | some mf =>
    refine safe_bind
      (safe_inspect _ (fun v hv => ⟨hv.1, fun _ _ => trivial⟩)) ?_
    intro mf
    exact safe_atomic _ (fun _ _ => id) (fun v hv => hv.1)
      (fun v hv => ⟨hP v mf hv.1, hP v mf hv.1⟩)

end Reseal

variable {old : Option Bytes}

theorem rests_of_left {S : List (Name × Bytes)} {u : Option (Name × Bytes)} {ps : List Patch}
    (h : Between S u ps old v) (hleft : Left [] v) :
    Rests S old v := by
  have hclean : ∀ e ∈ v.undo.entries, unsettled e = false := by
    intro e he
    cases hun : unsettled e with
    | false => rfl
    | true => exact absurd (hleft e he hun) (by simp)
  have hentries : v.undo.entries = S := by
    rw [← h.settled, settled_of_clean hclean]
  refine ⟨h.folder, hentries, hentries ▸ hclean, ?_⟩
  rcases h.disk with hold | ⟨b, d, e, _, _, he, hready, _⟩
  · exact hold
  · have hun := hclean e he
    simp [unsettled, hready] at hun

/-- A roll back can be stopped anywhere and repeated; once it ends the old disk
is there and nothing is left to roll back. -/
theorem safe_recover {S : List (Name × Bytes)} {u : Option (Name × Bytes)} {ps : List Patch}
    (hu : ∀ e b, u = some e → old = some b → RollsBack e ps b) {stamp : ℤ} :
    Safe (Between S u ps old) (recover stamp) (fun _ v => Rests S old v)
      (Between S u ps old) := by
  apply safe_of_state
  intro v hv
  refine safe_bind (Q := fun es w => w = v ∧ es = v.undo.entries) ?_ ?_
  · apply safe_inspect
    rintro w rfl
    refine ⟨hv, ?_⟩
    intro es hes
    rw [undoEntries_ok w hv.folder] at hes
    exact ⟨rfl, (Except.ok.inj hes).symm⟩
  intro es
  refine safe_bind (Q := fun _ w => Left [] w) ?_ ?_
  · apply safe_of_state
    rintro w ⟨_, rfl, rfl⟩
    refine safe_from (safe_recoverEntries S u ps old hu stamp w.undo.entries hv.ready false)
      ?_
    rintro x rfl
    exact ⟨hv, fun e he _ => he⟩
  intro rolled
  have hrests := fun w (hw : Between S u ps old w ∧ Left [] w) =>
    And.intro hw.1 (rests_of_left hw.1 hw.2)
  cases rolled with
  | false => exact safe_pure false hrests
  | true =>
    refine safe_bind ?_ (fun _ => safe_pure true hrests)
    refine safe_weaken (safe_reseal ?_) (fun _ h => h) (fun _ _ h => h.2) (fun _ h => h.1)
    rintro w mf ⟨hw, hleft⟩
    exact ⟨⟨hw.folder, hw.settled, hw.ready, hw.disk⟩, hleft⟩

/-- The disk is old, or one complete undo file leads back to it. -/
def Recoverable (S : List (Name × Bytes)) (old : Option Bytes) (v : Volume) : Prop :=
  ∃ u ps, (∀ e b, u = some e → old = some b → RollsBack e ps b) ∧ Between S u ps old v

theorem recoverable_of_rests {S : List (Name × Bytes)}
    (h : Rests S old v) : Recoverable S old v := by
  have hnot : ∀ e ∈ S, hasSuffix e.1 undoReady = false := by
    intro e he
    have hc := h.clean e he
    simp only [unsettled, Bool.or_eq_false_iff] at hc
    exact hc.2
  refine ⟨none, [], fun e b he _ => (by cases he), h.folder, ?_, ?_, .inl h.disk⟩
  · rw [h.entries, settled_of_clean h.clean]
  · intro e he hr
    rw [h.entries] at he
    rw [hnot e he] at hr
    cases hr

theorem safe_recover_recoverable (S : List (Name × Bytes)) (old : Option Bytes) (stamp : ℤ) :
    Safe (Recoverable S old) (recover stamp) (fun _ v => Rests S old v) (Recoverable S old) := by
  rintro v ⟨u, ps, hu, hbet⟩
  obtain ⟨hend, hstop⟩ := safe_recover hu v hbet
  exact ⟨hend, fun s hs => ⟨u, ps, hu, hstop s hs⟩⟩

/-- One run of the roll back, ended or stopped anywhere. -/
def RecoveryRun (v s : Volume) : Prop := ∃ stamp, (recover stamp).Stopped v s

theorem recoverable_runs {S : List (Name × Bytes)} {s : Volume}
    (h : Recoverable S old v) (hruns : Relation.ReflTransGen RecoveryRun v s) :
    Recoverable S old s := by
  induction hruns with
  | refl => exact h
  | tail _ hrun ih =>
    obtain ⟨stamp, hstop⟩ := hrun
    exact (safe_recover_recoverable S old stamp _ ih).2 _ hstop

theorem recover_rests (S : List (Name × Bytes)) (old : Option Bytes) (v : Volume)
    (h : Rests S old v) (stamp : ℤ) : recover stamp v = ([], .ok false) := by
  have hloop : ∀ (es : List (Name × Bytes)) (w : Volume), (∀ e ∈ es, unsettled e = false) →
      recoverEntries stamp es false w = ([], .ok false) := by
    intro es
    induction es with
    | nil =>
      intro w _
      rfl
    | cons e es ih =>
      intro w hes
      have hun := hes e (mem_cons_self ..)
      simp only [unsettled, Bool.or_eq_false_iff] at hun
      unfold recoverEntries
      rw [if_neg (by simp [hun.1]), if_neg (by simp [hun.2])]
      exact ih w (fun x hx => hes x (mem_cons_of_mem e hx))
  have hes : undoEntries v = .ok S := by
    rw [undoEntries_ok v h.folder, h.entries]
  unfold recover
  rw [bind_look _ _ v (congrArg (Prod.mk []) hes)]
  rw [bind_look _ _ v (hloop S v h.clean)]
  rfl

end FilePool.Recovery
