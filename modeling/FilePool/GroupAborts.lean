import FilePool.GroupSnapshots

/-!
Groups with the policy Abort. One create call after another is followed through: the first
takes the snapshots and deletes them again when a member fails, the later ones ask for the
members that were still copied.
-/
namespace FilePool.GroupAborts

open UndoNames StepRuns GroupSnapshots List

variable {taken : ℕ → Taken} {r : Records} {r' : Records} {m : Member} {i : ℕ} {n : Name}
  {g : Group} {s : State} {req : GroupRequest} {name : Name}

/-- No member has failed, and the members that are Ready have complete snapshots. -/
def Sound (r : Records) (members : List Member) : Prop :=
  ∀ m ∈ members, m.phase ≠ .failed ∧
    (m.phase = .ready → (r m.snapshotName).any SnapshotRecord.ready = true)

theorem takeMembers_error {e : Unit}
    (hc : createSnapshot (taken i) m.snapshotName r = (.error e, r')) (completed : List Name)
    (rest : List Member) :
    takeMembers .abort taken i completed (m :: rest) r =
      ({ m with phase := .failed } :: rest.map (fun x => { x with phase := .failed }), r',
        some completed) := by
  rw [takeMembers, hc]
  rfl

theorem takeMembers_ok {ready : Bool}
    (hc : createSnapshot (taken i) m.snapshotName r = (.ok ready, r')) (policy : FailurePolicy)
    (completed : List Name) (rest : List Member) :
    takeMembers policy taken i completed (m :: rest) r =
      ({ m with phase := if ready then .ready else .creating } ::
          (takeMembers policy taken (i + 1) (completed ++ [m.snapshotName]) rest r').1,
        (takeMembers policy taken (i + 1) (completed ++ [m.snapshotName]) rest r').2) := by
  rw [takeMembers, hc]

theorem takeMembers_keeps_ready (policy : FailurePolicy) (i : ℕ)
    (completed : List Name) (members : List Member) (r : Records)
    (h : (r n).any SnapshotRecord.ready = true) :
    ((takeMembers policy taken i completed members r).2.1 n).any SnapshotRecord.ready = true := by
  induction members generalizing i completed r with
  | nil => exact h
  | cons m rest ih =>
    have hnext := createSnapshot_keeps_ready (taken i) m.snapshotName h
    unfold takeMembers
    split
    · rename_i hc
      rw [hc] at hnext
      split
      · exact hnext
      · exact ih _ _ _ hnext
    · rename_i hc
      rw [hc] at hnext
      exact ih _ _ _ hnext

theorem takeMembers_names (policy : FailurePolicy) (i : ℕ) (completed : List Name)
    (members : List Member) (r : Records) :
    (takeMembers policy taken i completed members r).1.map Member.snapshotName =
      members.map Member.snapshotName := by
  induction members generalizing i completed r with
  | nil => rfl
  | cons m rest ih =>
    unfold takeMembers
    split
    · split
      · simp
      · simp [ih]
    · simp [ih]

/-- A loop that is not ended by a failure leaves its members sound. -/
theorem takeMembers_sound (i : ℕ) (completed : List Name) (members : List Member) (r : Records)
    (h : (takeMembers .abort taken i completed members r).2.2 = none) :
    Sound (takeMembers .abort taken i completed members r).2.1
      (takeMembers .abort taken i completed members r).1 := by
  induction members generalizing i completed r with
  | nil => exact nofun
  | cons m rest ih =>
    rcases hc : createSnapshot (taken i) m.snapshotName r with ⟨answer, r'⟩
    cases answer with
    | error e =>
      rw [takeMembers_error hc] at h
      cases h
    | ok ready =>
      rw [takeMembers_ok hc] at h ⊢
      intro m' hm'
      rcases mem_cons.mp hm' with rfl | hm'
      · refine ⟨by cases ready <;> exact nofun, fun hphase => ?_⟩
        apply takeMembers_keeps_ready
        cases ready with
        | false => cases hphase
        | true =>
          have hok : (createSnapshot (taken i) m.snapshotName r).1 = .ok true := by rw [hc]
          have hready := createSnapshot_ready hok
          rwa [hc] at hready
      · exact ih _ _ _ h m' hm'

/-- A loop that is ended by a failure has records only for the names that it returns. -/
theorem takeMembers_records {P : Name → Prop} (hleft : ∀ i, taken i ≠ .left) (i : ℕ)
    (completed stopped : List Name) (members : List Member) (r : Records)
    (hr : ∀ n, P n → r n ≠ none → n ∈ completed)
    (h : (takeMembers .abort taken i completed members r).2.2 = some stopped) (n : Name)
    (hP : P n) (hn : (takeMembers .abort taken i completed members r).2.1 n ≠ none) :
    n ∈ stopped := by
  induction members generalizing i completed r with
  | nil => cases h
  | cons m rest ih =>
    rcases hc : createSnapshot (taken i) m.snapshotName r with ⟨answer, r'⟩
    cases answer with
    | error e =>
      rw [takeMembers_error hc] at h hn
      cases h
      have herr : (createSnapshot (taken i) m.snapshotName r).1 = .error e := by rw [hc]
      have hno := createSnapshot_no_record (n := n) (hleft i) herr
      rw [hc] at hno
      exact hr n hP (hno hn)
    | ok ready =>
      rw [takeMembers_ok hc] at h hn
      refine ih (i + 1) (completed ++ [m.snapshotName]) r' ?_ h hn
      intro n' hP' hn'
      by_cases heq : n' = m.snapshotName
      · simp [heq]
      · have hsame := createSnapshot_other (taken i) r heq
        rw [hc] at hsame
        exact mem_append_left _ (hr n' hP' (hsame ▸ hn'))

theorem refreshMembers_keeps_ready (i : ℕ) (members : List Member) (r : Records)
    (h : (r n).any SnapshotRecord.ready = true) :
    ((refreshMembers taken i members r).2 n).any SnapshotRecord.ready = true := by
  induction members generalizing i r with
  | nil => exact h
  | cons m rest ih =>
    unfold refreshMembers
    split
    · exact ih _ _ (createSnapshot_keeps_ready (taken i) m.snapshotName h)
    · exact ih _ _ h

theorem refreshMembers_sound (htaken : ∀ i, (taken i).fails = false) (i : ℕ)
    (members : List Member) (r : Records) (h : Sound r members) :
    Sound (refreshMembers taken i members r).2 (refreshMembers taken i members r).1 := by
  induction members generalizing i r with
  | nil => exact nofun
  | cons m rest ih =>
    have hm := h m (mem_cons_self ..)
    have hrest : Sound r rest := fun x hx => h x (mem_cons_of_mem _ hx)
    unfold refreshMembers
    split
    · obtain ⟨ready, hready⟩ := createSnapshot_succeeds m.snapshotName r (htaken i)
      have hnext : Sound (createSnapshot (taken i) m.snapshotName r).2 rest := fun x hx =>
        ⟨(hrest x hx).1, fun hp => createSnapshot_keeps_ready _ _ ((hrest x hx).2 hp)⟩
      intro m' hm'
      rcases mem_cons.mp hm' with rfl | hm'
      · rw [hready]
        refine ⟨by cases ready <;> exact nofun, fun hp => ?_⟩
        apply refreshMembers_keeps_ready
        cases ready with
        | false => cases hp
        | true => exact createSnapshot_ready hready
      · exact ih _ _ hnext m' hm'
    · intro m' hm'
      rcases mem_cons.mp hm' with rfl | hm'
      · exact ⟨hm.1, fun hp => refreshMembers_keeps_ready _ _ _ (hm.2 hp)⟩
      · exact ih _ _ hrest m' hm'

/-- What a group with the policy Abort may be: it runs and nothing has failed, it is
Complete and its snapshots are too, or it has Failed and its snapshots are being deleted. -/
inductive Whole (s : State) (g : Group) : Prop
  | running (hp : g.phase = .inProgress) (h : Sound s.records g.members)
  | complete (hp : g.phase = .complete) (h : Sound s.records g.members)
      (hready : ∀ m ∈ g.members, m.phase = .ready)
  | failed (hp : g.phase = .failed) (h : ∀ m ∈ g.members, Going s.records m.snapshotName)

theorem whole_withMembers {members : List Member} {group : Option Group}
    (h : Sound r members) : Whole ⟨group, r⟩ (withMembers g members) := by
  have hnone : members.any (fun m => m.phase = .failed) = false := by
    simpa using fun m hm => (h m hm).1
  by_cases hrun : members.any (fun m => m.phase ≠ .ready && m.phase ≠ .failed) = true
  · exact .running (if_pos hrun) h
  · refine .complete ?_ h ?_
    · show finalPhase members = .complete
      unfold finalPhase
      rw [if_neg hrun, hnone]
      rfl
    · intro m hm
      by_contra hp
      exact hrun (any_eq_true.mpr ⟨m, hm, by simp [hp, (h m hm).1]⟩)

/-- A create call for one group: what is asked and what the surroundings decide. -/
structure Call where
  req : GroupRequest
  choices : Choices

def step (s : State) (call : Call) : Option State :=
  some (createVolumeGroupSnapshot call.req call.choices s).2

/-- Any call that asks for the group of the name, with the policy Abort. -/
def Asks (name : Name) (_ : State) (call : Call) : Prop :=
  call.req.groupName = name ∧ call.req.failurePolicy = .abort

/-- What a call needs: the first call leaves no record of a member that fails and no
deletion of it fails; no member fails in a later call. -/
def Fitting (s : State) (call : Call) : Prop :=
  match s.group with
  | none => (∀ i, call.choices.taken i ≠ .left) ∧ ∀ j, call.choices.removed j ≠ .failed
  | some g => g.phase = .inProgress → ∀ i, (call.choices.taken i).fails = false

def memberName (name source : Name) : Name := name ++ ['-'] ++ source

/-- There is no group yet, and no snapshot with the name of a member of it. -/
def Fresh (name : Name) (s : State) : Prop :=
  s.group = none ∧ ∀ v, s.records (memberName name v) = none

/-- The state between the calls. -/
def Kept (name : Name) (s : State) : Prop :=
  match s.group with
  | none => ∀ v, s.records (memberName name v) = none
  | some g => Whole s g

theorem newMembers_name
    (h : n ∈ (newMembers req).map Member.snapshotName) :
    ∃ v, n = memberName req.groupName v := by
  obtain ⟨m, hm, rfl⟩ := mem_map.mp h
  obtain ⟨v, _, rfl⟩ := mem_map.mp hm
  exact ⟨v, rfl⟩

theorem newGroupSnapshot_kept {c : Choices}
    (hpolicy : req.failurePolicy = .abort)
    (hrecords : ∀ v, s.records (memberName req.groupName v) = none)
    (hleft : ∀ i, c.taken i ≠ .left) (hremoved : ∀ j, c.removed j ≠ .failed) :
    Kept req.groupName (newGroupSnapshot req c s).2 := by
  unfold newGroupSnapshot
  rw [hpolicy]
  dsimp only
  split
  · rename_i stopped hstopped
    refine Whole.failed rfl (fun m hm x hx => ?_)
    -- a record is left only of a snapshot that was taken, and these are deleted
    have hname : m.snapshotName ∈ (newMembers req).map Member.snapshotName :=
      takeMembers_names .abort 0 [] (newMembers req) s.records ▸ mem_map_of_mem hm
    obtain ⟨v, hv⟩ := newMembers_name hname
    by_cases hin : m.snapshotName ∈ stopped
    · exact deleteSnapshots_going hremoved 0 stopped _ hin x hx
    · refine deleteSnapshots_keeps_going hremoved 0 stopped _ (fun y hy => ?_) x hx
      refine absurd (takeMembers_records (P := fun n => ∃ v, n = memberName req.groupName v)
        hleft 0 [] stopped (newMembers req) s.records ?_ hstopped m.snapshotName ⟨v, hv⟩ ?_) hin
      · rintro n ⟨w, rfl⟩ hn
        exact absurd (hrecords w) hn
      · rw [hy]
        exact nofun
  · rename_i hnone
    exact whole_withMembers (takeMembers_sound 0 [] (newMembers req) s.records hnone)

theorem step_kept {s' : State} {call : Call} (hasks : Asks name s call)
    (hfit : Fitting s call) (hs : Kept name s) (hstep : step s call = some s') :
    Kept name s' := by
  obtain ⟨rfl, hpolicy⟩ := hasks
  cases hstep
  obtain ⟨group, records⟩ := s
  have hstart : Kept call.req.groupName
      (startGroupSnapshot call.req call.choices ⟨group, records⟩).2 := by
    unfold startGroupSnapshot
    split
    · exact hs
    · split
      · rename_i hnew
        cases group with
        | none => exact newGroupSnapshot_kept hpolicy hs hfit.1 hfit.2
        | some g => cases hnew
      · exact hs
  unfold createVolumeGroupSnapshot
  split
  · exact hs
  · split
    · exact hstart
    · rename_i g hg
      have hgroup : group = some g := by
        split at hg
        · exact hg
        · cases hg
      subst hgroup
      split
      · rename_i hp
        refine whole_withMembers (refreshMembers_sound (hfit hp) 0 _ _ ?_)
        cases hs with
        | running _ h => exact h
        | complete hp' _ _ | failed hp' _ => exact absurd (hp.symm.trans hp') nofun
      · split
        · exact hs
        · exact hstart

def emptyState : State := ⟨none, fun _ => none⟩

end FilePool.GroupAborts
