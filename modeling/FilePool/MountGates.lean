import FilePool.FileSnapshots
import FilePool.VolumeWorkers

/-!
When a volume may be mounted. The node asks for the volume's record first: a clone has to be
complete, and a volume that a backup restore fills has a label until the restore has ended. The
clone worker and the restore controller write what the node reads, each in several steps that
may fail.
-/
namespace FilePool.MountGates

open UndoNames StepRuns FileSnapshots

open PoolRecords (CloneStatus)

/-- A restore into the volume: there is none, it has not ended, or it has ended. -/
inductive RestorePhase
  | absent
  | going
  | done
  | failed
  deriving DecidableEq, Repr

/-- The record of a volume, the Jobs that copy into it, the restore and the node's call. That
the clone's Job has succeeded, and that the volume was mounted, is kept beside it. -/
structure State where
  isClone : Bool
  cloneStatus : CloneStatus
  cloneJob : Option JobPhase
  copied : Bool
  restorePending : Bool
  restore : RestorePhase
  restoreJob : Option JobPhase
  passed : Bool
  mounted : Bool
  deriving DecidableEq, Repr

/-- The gates of the node, as far as the record tells. -/
def mountAllowed (s : State) : Bool :=
  !s.restorePending && (!s.isClone || s.cloneStatus = .complete)

/-- A record that cannot be read does not hold the mount back. -/
def checkGates (recordRead : Bool) (s : State) : Option State :=
  if s.passed then none
  else some { s with passed := !recordRead || mountAllowed s }

def bindMount (s : State) : Option State :=
  if s.passed then some { s with passed := false, mounted := true } else none

/-- What the call of the Job runner leaves: the Job is started, or goes when it has ended. -/
def nextJob (started cleaned : Bool) : Option JobPhase → Option JobPhase
  | none => if started then some .starting else none
  | some .succeeded => if cleaned then none else some .succeeded
  | some .failed => if cleaned then none else some .failed
  | some phase => some phase

/-- The status that a look of the worker saves. -/
def cloneOutcome (sourceRead : Bool) (job : Option JobPhase) : CloneStatus :=
  if !sourceRead then .failed
  else match job with
    | some .succeeded => .complete
    | some .failed => .failed
    | _ => .inProgress

/-- One look of the clone worker. -/
def processClone (marked sourceRead jobRead started cleaned saved : Bool) (s : State) :
    Option State :=
  if s.cloneStatus ≠ .pending && s.cloneStatus ≠ .inProgress then none
  else if !marked then some s
  else if sourceRead && !jobRead then some { s with cloneStatus := .inProgress }
  else some { s with
    cloneStatus := if saved then cloneOutcome sourceRead s.cloneJob else .inProgress
    cloneJob := if sourceRead then nextJob started cleaned s.cloneJob else s.cloneJob }

/-- What a pass of the restore controller finds: the backup is gone, the backup or the claim is
not there yet, or the volume to be filled. -/
inductive Found
  | gone
  | waits
  | volume
  deriving DecidableEq, Repr

/-- One pass of the restore controller. A label that cannot be set is only logged. Done is
saved before the label goes. -/
def reconcileRestore (found : Found) (labelled jobRead started cleaned saved opened : Bool)
    (s : State) : Option State :=
  if s.restore ≠ .going then none
  else if found = .gone then some (if saved then { s with restore := .failed } else s)
  else if found = .waits then some s
  else
    let held := { s with restorePending := s.restorePending || labelled }
    if !jobRead then some held
    else
      let after := { held with restoreJob := nextJob started cleaned s.restoreJob }
      match s.restoreJob with
      | some .succeeded =>
        if saved then some { after with
          restore := .done, restorePending := held.restorePending && !opened }
        else some after
      | some .failed => some (if saved then { after with restore := .failed } else after)
      | _ => some after

/-- The label of a volume whose restore is done is taken off. -/
def openFinishedRestores (opened : Bool) (s : State) : Option State :=
  if s.restore = .done then some { s with restorePending := s.restorePending && !opened } else none

inductive Event
  | checkGates (recordRead : Bool)
  | bindMount
  | publishEnds
  | processClone (marked sourceRead jobRead started cleaned saved : Bool)
  | cloneJobGoesOn (phase : JobPhase)
  | restoreAsked
  | reconcileRestore (found : Found) (labelled jobRead started cleaned saved opened : Bool)
  | restoreJobGoesOn (phase : JobPhase)
  | openFinishedRestores (opened : Bool)
  deriving DecidableEq, Repr

/-- A Job that has not ended goes on to any phase. -/
def goesOn (job : Option JobPhase) : Bool := job = some .starting || job = some .running

def step (s : State) : Event → Option State
  | .checkGates recordRead => checkGates recordRead s
  | .bindMount => bindMount s
  | .publishEnds => some { s with passed := false }
  | .processClone marked sourceRead jobRead started cleaned saved =>
    processClone marked sourceRead jobRead started cleaned saved s
  | .cloneJobGoesOn phase =>
    if goesOn s.cloneJob then
      some { s with cloneJob := some phase, copied := s.copied || phase = .succeeded }
    else none
  | .restoreAsked => if s.restore = .going then none else some { s with restore := .going }
  | .reconcileRestore found labelled jobRead started cleaned saved opened =>
    reconcileRestore found labelled jobRead started cleaned saved opened s
  | .restoreJobGoesOn phase =>
    if goesOn s.restoreJob then some { s with restoreJob := some phase } else none
  | .openFinishedRestores opened => openFinishedRestores opened s

section Calls

open PoolRecords PoolWorld Threads Proc VolumeWorkers

/-- The volume has the record. -/
def HasRecord (s : State) (v : SubVolume) : Prop :=
  s.restorePending = v.restorePending ∧ s.isClone = decide (v.cloneSource ≠ []) ∧
    s.cloneStatus = v.cloneStatus

/-- What the questions of the node's call tell: the volume is mounted when its record could not
be read, or when the gates let it. -/
def gates : Protocol Bool Query Answer where
  answers _ _ := True
  step passed q := match q with
    | .getSubVolume _ => fun (r : Except ApiErr SubVolume) after =>
      ∀ s, (∀ v, r = .ok v → HasRecord s v) → after = (!r.isOk || mountAllowed s)
    | .mount _ => fun _ after => passed = true ∧ after = passed
    | _ => fun _ _ => False

theorem HasRecord.mountAllowed {v : SubVolume} {s : State} (h : HasRecord s v) :
    mountAllowed s = VolumeWorkers.mountAllowed v := by
  obtain ⟨hpending, hclone, hstatus⟩ := h
  simp [MountGates.mountAllowed, VolumeWorkers.mountAllowed, hpending, hclone, hstatus]

/-- The call of the node as a question and a mount. -/
theorem publish_gates (volumeID name : Name) :
    Meets gates (publish volumeID name true) (fun _ _ => True) (fun _ => True) false := by
  have hmount : Meets gates (do
      orFail (fun _ => Err.api) (← PoolWorld.ask (.mount volumeID)) : Driver Unit)
      (fun _ _ => True) (fun _ => True) true :=
    meets_ask fun _ _ =>
      ⟨true, ⟨rfl, rfl⟩, meets_orFail _ _ (fun _ _ => trivial) fun _ _ => trivial⟩
  refine meets_ask fun r _ => ?_
  cases r with
  | error e => exact ⟨true, fun _ _ => rfl, hmount⟩
  | ok v =>
    refine ⟨VolumeWorkers.mountAllowed v, fun s hs => (hs v rfl).mountAllowed.symm, ?_⟩
    dsimp only
    split
    · rename_i hallowed
      rw [hallowed]
      exact hmount
    · exact meets_fail _ trivial

end Calls

variable {s s' : State} {started cleaned : Bool} {job : Option JobPhase}
  {sourceRead jobRead saved : Bool}

/-- The node can read the record. A restore into the volume is asked for only while the volume
is held back and no call of the node is past its check. -/
def Fitting (s : State) : Event → Prop
  | .checkGates recordRead => recordRead = true
  | .restoreAsked => s.restorePending = true ∧ s.passed = false
  | _ => True

/-- A clone that was copied and is complete, or no clone; and no restore that goes on. -/
def Mountable (s : State) : Prop :=
  (s.isClone = true → s.copied = true ∧ s.cloneStatus = .complete) ∧ s.restore ≠ .going

structure Kept (s : State) : Prop where
  copied : s.cloneStatus = .complete ∨ s.cloneJob = some .succeeded → s.copied = true
  held : s.restore = .going → s.restorePending = true
  passed : s.passed = true → Mountable s

theorem Kept.checked (h : Kept s) (hs : checkGates true s = some s') : Kept s' := by
  obtain ⟨-, rfl⟩ := unless_some hs
  refine ⟨h.copied, h.held, fun hpassed => ?_⟩
  obtain ⟨hpending, hclone⟩ : s.restorePending = false ∧
      (s.isClone = false ∨ s.cloneStatus = .complete) := by
    simpa [mountAllowed] using hpassed
  refine ⟨fun hisClone => ?_, fun hgoing => ?_⟩
  · have hisClone : s.isClone = true := hisClone
    have hcomplete : s.cloneStatus = .complete := hclone.resolve_left (by simp [hisClone])
    exact ⟨h.copied (.inl hcomplete), hcomplete⟩
  · simp [h.held hgoing] at hpending

theorem nextJob_succeeded
    (h : nextJob started cleaned job = some .succeeded) : job = some .succeeded := by
  cases job with
  | none => cases started <;> cases h
  | some phase => cases phase <;> cases cleaned <;> first | rfl | cases h

theorem cloneOutcome_complete
    (h : cloneOutcome sourceRead job = .complete) : job = some .succeeded := by
  unfold cloneOutcome at h
  split at h
  · cases h
  · split at h <;> first | rfl | cases h

/-- A look at a clone that is not complete: no call of the node is past the gate of a clone. -/
theorem Kept.ticked (h : Kept s) {marked : Bool}
    (hs : processClone marked sourceRead jobRead started cleaned saved s = some s') :
    Kept s' := by
  obtain ⟨hopen, hs⟩ := Option.ite_none_left_eq_some.mp hs
  have hnot : s.cloneStatus ≠ .complete := by
    intro hcomplete
    simp [hcomplete] at hopen
  have hpassed (s₁ : State) (hclone : s₁.isClone = s.isClone) (hrestore : s₁.restore = s.restore)
      (hp : s.passed = true) : Mountable s₁ := by
    refine ⟨fun hisClone => ?_, hrestore ▸ (h.passed hp).2⟩
    exact absurd ((h.passed hp).1 (hclone ▸ hisClone)).2 hnot
  split at hs
  · cases hs
    exact h
  split at hs
  · cases hs
    exact ⟨fun hc => h.copied (hc.imp_left nofun), h.held, hpassed _ rfl rfl⟩
  · cases hs
    refine ⟨fun hc => h.copied (.inr ?_), h.held, hpassed _ rfl rfl⟩
    obtain hstatus | hjob := hc
    · cases saved with
      | false => cases hstatus
      | true => exact cloneOutcome_complete hstatus
    · cases sourceRead with
      | false => exact hjob
      | true => exact nextJob_succeeded hjob

/-- A pass at a restore that goes on. The label goes only when the restore has ended. -/
theorem Kept.restored (h : Kept s) {found : Found} {labelled opened : Bool}
    (hs : reconcileRestore found labelled jobRead started cleaned saved opened s = some s') :
    Kept s' := by
  obtain ⟨hgoing, hs⟩ := Option.ite_none_left_eq_some.mp hs
  have hgoing : s.restore = .going := by simpa using hgoing
  have hlabel : s.restorePending = true := h.held hgoing
  have hnot : s.passed ≠ true := fun hp => (h.passed hp).2 hgoing
  have hkept (s₁ : State) (hstatus : s₁.cloneStatus = s.cloneStatus)
      (hjob : s₁.cloneJob = s.cloneJob) (hcopied : s₁.copied = s.copied)
      (hpass : s₁.passed = s.passed) (hheld : s₁.restore = .going → s₁.restorePending = true) :
      Kept s₁ :=
    ⟨by rw [hstatus, hjob, hcopied]; exact h.copied, hheld,
      fun hp => absurd (hpass ▸ hp) hnot⟩
  split at hs
  · cases saved <;> cases hs
    · exact h
    · exact hkept _ rfl rfl rfl rfl (by rintro ⟨⟩)
  split at hs
  · cases hs
    exact h
  split at hs
  · cases hs
    exact hkept _ rfl rfl rfl rfl (fun _ => by simp [hlabel])
  split at hs
  · split at hs <;> cases hs
    · exact hkept _ rfl rfl rfl rfl nofun
    · exact hkept _ rfl rfl rfl rfl (fun _ => by simp [hlabel])
  · cases saved <;> cases hs
    · exact hkept _ rfl rfl rfl rfl (fun _ => by simp [hlabel])
    · exact hkept _ rfl rfl rfl rfl nofun
  · cases hs
    exact hkept _ rfl rfl rfl rfl (fun _ => by simp [hlabel])

theorem step_kept (s : State) (e : Event) (s' : State) (hfit : Fitting s e) (h : Kept s)
    (hs : step s e = some s') : Kept s' := by
  cases e with
  | checkGates recordRead =>
    have hread : recordRead = true := hfit
    subst hread
    exact h.checked hs
  | bindMount =>
    obtain ⟨-, rfl⟩ := when_some hs
    exact ⟨h.copied, h.held, nofun⟩
  | publishEnds =>
    cases hs
    exact ⟨h.copied, h.held, nofun⟩
  | processClone marked sourceRead jobRead started cleaned saved => exact h.ticked hs
  | cloneJobGoesOn phase =>
    obtain ⟨-, rfl⟩ := when_some hs
    refine ⟨fun hc => ?_, h.held, fun hp => ?_⟩
    · obtain hstatus | hjob := hc
      · simp [h.copied (.inl hstatus)]
      · cases hjob
        simp
    · refine ⟨fun hisClone => ?_, (h.passed hp).2⟩
      obtain ⟨hcopied, hcomplete⟩ := (h.passed hp).1 hisClone
      exact ⟨by simp [hcopied], hcomplete⟩
  | restoreAsked =>
    obtain ⟨hpending, hnot⟩ : s.restorePending = true ∧ s.passed = false := hfit
    obtain ⟨-, rfl⟩ := unless_some hs
    exact ⟨h.copied, fun _ => hpending, fun hp => absurd hp (by simp [hnot])⟩
  | reconcileRestore found labelled jobRead started cleaned saved opened => exact h.restored hs
  | restoreJobGoesOn phase =>
    obtain ⟨-, rfl⟩ := when_some hs
    exact { h with }
  | openFinishedRestores opened =>
    obtain ⟨hdone, rfl⟩ := when_some hs
    refine ⟨h.copied, fun hgoing => ?_, h.passed⟩
    cases hdone.symm.trans hgoing

/-- The volume as it is made: a clone is not copied yet, and a restore that is asked for holds
the volume back from the start. -/
structure Fresh (s : State) : Prop where
  status : s.cloneStatus = .unset ∨ s.cloneStatus = .pending
  job : s.cloneJob = none
  passed : s.passed = false
  held : s.restore = .going → s.restorePending = true

theorem Fresh.kept (h : Fresh s) : Kept s := by
  refine ⟨fun hc => ?_, h.held, fun hp => absurd hp (by simp [h.passed])⟩
  obtain hstatus | hjob := hc
  · rcases h.status with hfresh | hfresh <;> rw [hfresh] at hstatus <;> cases hstatus
  · exact absent h.job hjob

/-- In every run of fitting steps a volume is mounted only when it is no clone or one whose
copy has succeeded and that is complete, and when no restore into it goes on. -/
theorem mounted_when_filled (s₀ s s' : State) (hs₀ : Fresh s₀) (hrun : Run step Fitting s₀ s)
    (hmount : step s .bindMount = some s') : Mountable s := by
  have h : Kept s := hrun.keeps step_kept hs₀.kept
  simp only [step, bindMount] at hmount
  split at hmount
  · rename_i hpassed
    exact h.passed hpassed
  · cases hmount

def newClone : State := ⟨true, .pending, none, false, false, .absent, none, false, false⟩

def restoredVolume (held : Bool) : State :=
  ⟨false, .unset, none, false, held, .going, none, false, false⟩

/-- The record of a clone cannot be read; and the label of a volume without one cannot be set
before its restore's Job is started. -/
theorem mounted_before_filled :
    (∃ s s', Run step (fun _ _ => True) newClone s ∧ step s .bindMount = some s' ∧
        s.isClone = true ∧ s.copied = false) ∧
      ∃ s s', Run step (fun _ _ => True) (restoredVolume false) s ∧
        step s .bindMount = some s' ∧ s.restore = .going ∧ s.restoreJob = some .starting := by
  have hclone : Run step (fun _ _ => True) newClone { newClone with passed := true } :=
    .next (.checkGates false) .start trivial rfl
  have hstarted : Run step (fun _ _ => True) (restoredVolume false)
      { restoredVolume false with restoreJob := some .starting } :=
    .next (.reconcileRestore .volume false true true true true true) .start trivial rfl
  have hrestore : Run step (fun _ _ => True) (restoredVolume false)
      { restoredVolume false with restoreJob := some .starting, passed := true } :=
    .next (.checkGates true) hstarted trivial rfl
  exact ⟨⟨_, _, hclone, rfl, rfl, rfl⟩, ⟨_, _, hrestore, rfl, rfl, rfl⟩⟩

def fits (_ : State) : Event → Bool
  | .checkGates recordRead => recordRead
  | .restoreAsked => false
  | _ => true

theorem fitting_of_fits (s : State) (e : Event) (h : fits s e = true) : Fitting s e := by
  cases e with
  | checkGates recordRead => exact h
  | restoreAsked => cases h
  | _ => trivial

def pass : Event := .reconcileRestore .volume true true true true true true

def cloneIsCopied : List Event :=
  [.processClone true true true true true true, .cloneJobGoesOn .running,
    .cloneJobGoesOn .succeeded, .processClone true true true true true true, .checkGates true]

/-- The first pass finds no claim yet, and a look of the node comes while the Job runs. -/
def restoreEnds : List Event :=
  [.reconcileRestore .waits true true true true true true, pass, .restoreJobGoesOn .running,
    .checkGates true, .restoreJobGoesOn .succeeded, pass, .checkGates true]

/-- A clone is mounted when it is copied, and a volume that a restore fills when that is done. -/
theorem mounted_when_filled_both :
    [(newClone, cloneIsCopied), (restoredVolume true, restoreEnds)].Forall fun x => ∃ s s',
      steps step fits x.2 x.1 = some s ∧ step s .bindMount = some s' ∧ Mountable s := by
  have hall : ∀ x ∈ [(newClone, cloneIsCopied), (restoredVolume true, restoreEnds)],
      (steps step fits x.2 x.1).any (fun s => (step s .bindMount).isSome) = true := by
    decide +kernel
  have hfresh : ∀ x ∈ [(newClone, cloneIsCopied), (restoredVolume true, restoreEnds)],
      Fresh x.1 := by
    simp only [List.mem_cons, List.not_mem_nil, or_false]
    rintro x (rfl | rfl)
    · exact ⟨.inr rfl, rfl, rfl, by rintro ⟨⟩⟩
    · exact ⟨.inl rfl, rfl, rfl, fun _ => rfl⟩
  refine List.forall_iff_forall_mem.mpr fun x hx => ?_
  obtain ⟨s, hs, hsome⟩ := (Option.any_eq_true _ _).mp (hall x hx)
  obtain ⟨s', hmount⟩ := Option.isSome_iff_exists.mp hsome
  exact ⟨s, s', hs, hmount,
    mounted_when_filled x.1 s s' (hfresh x hx) (run_steps fitting_of_fits _ _ _ hs) hmount⟩

end FilePool.MountGates
