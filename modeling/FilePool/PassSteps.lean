import FilePool.CopierSteps
import FilePool.PolicyPass

/-!
The steps of a pass over a policy, before it writes the status. It makes Jobs of two
kinds only: for a volume with an unfinished copy the Job of that copy, and for a volume
without one the Job of a file copy.
-/
namespace FilePool.PassSteps

open UndoFormat UndoNames DurableSteps ReplicationNames ReplicationStatus ReplicationWorld List
  ReplicationCalls CallRules VMCopier CopierSteps VMCopyPass PolicyPass GroupedLists Prog

/-- The Jobs that a pass makes, with the statuses it read. -/
def MadeBy (policy : Policy) (copier : Bool) (prev : List SubVolumeStatus) (j : Job) : Prop :=
  (∃ v st start, (prevOf prev v).vmCopy = some st ∧ j = vmJob policy v st start) ∨
    ∃ v, (copier = false ∨ (prevOf prev v).vmCopy = none) ∧ j = fileJob policy v

/-- A step of a pass over a policy before its status is written. -/
def Early (policy : Policy) (copier : Bool) (prev : List SubVolumeStatus) : Step → Prop
  | .createJob j => MadeBy policy copier prev j
  | .deleteJob n => ∃ v, n = replJobName policy.name v
  | .writeStatus .. | .pause _ => False
  | .next | .createStaging .. | .removeStaging .. | .removeAllStaging .. | .transaction ..
  | .removeList .. | .cancel .. | .dismiss .. => True

variable {policy : Policy} {copier : Bool} {prev : List SubVolumeStatus} {α : Type}
  {p : WorldProg α} {v : Name} {st : VMCopyState} {pod : Name}

theorem early_of_qemu (t : Step) (h : Qemu t) : Early policy copier prev t := by
  cases t <;> first | exact trivial | exact h.elim

theorem only_early (h : Only Qemu p) :
    Only (Early policy copier prev) p := only_weaken h early_of_qemu

theorem only_getJob {n : Name} : Only Qemu (getJob n) := only_query trivial _

theorem only_checkReplicationJob : Only Qemu (checkReplicationJob policy v) := by
  refine only_bind only_getJob (fun found => ?_)
  cases found with
  | none => exact only_pure _
  | some job =>
    dsimp only
    cases job.state with
    | running => exact only_pure _
    | failed => exact only_pure _
    | succeeded =>
      refine only_map (only_try (only_query trivial _) (fun r => ?_))
      cases r <;> exact only_pure _

theorem only_ensureJob {j : Job} (hj : MadeBy policy copier prev j) :
    Only (Early policy copier prev) (ensureJob j) := by
  refine only_bind (only_early (only_attempt only_getJob)) (fun found => ?_)
  split
  · exact only_pure _
  · refine only_try (only_request trivial _ hj) (fun made => ?_)
    split
    · exact only_pure _
    · exact only_pure _
    · exact only_fail _

theorem only_createVMApplyResources {start : Option Moment}
    (h : (prevOf prev v).vmCopy = some st) :
    Only (Early policy copier prev) (createVMApplyResources policy v st start) :=
  only_bind (only_ask trivial) (fun _ => only_ensureJob (.inl ⟨v, st, start, h, rfl⟩))

theorem only_cleanupReplicationResources (v : Name) :
    Only (Early policy copier prev) (cleanupReplicationResources policy v) :=
  only_map (only_attempt (only_request trivial _ ⟨v, rfl⟩))

theorem only_vmPodForClaim : Only Qemu (vmPodForClaim v) := only_query trivial _

theorem only_startOrFull {volumes : List Name} {id base : Name} :
    Only Qemu (startOrFull pod volumes id base) := by
  refine only_try (only_start id base) (fun begun => ?_)
  split
  · exact only_pure _
  · exact only_start id []
  · exact only_fail _

theorem only_launchCopy {pod : Pod} {members : List (Name × Name)} :
    Only Qemu (launchCopy prev pod members) := by
  refine only_try only_removeStale (fun cleared => ?_)
  split
  · exact only_pure _
  · exact only_pure _
  · refine only_bind (only_now trivial) (fun t => ?_)
    refine only_try only_startOrFull (fun begun => ?_)
    split <;> exact only_pure _

theorem only_startVMCopy {pod : Pod} {found : List (Name × Name)} :
    Only Qemu (startVMCopy prev pod found) := by
  unfold startVMCopy
  refine only_ite (only_pure _) ?_
  refine only_try (only_query trivial _) (fun moving => ?_)
  split
  · exact only_pure _
  · exact only_pure _
  · exact only_launchCopy

variable {members : List (Name × VMCopyState)}

theorem only_cleanupAll {names : List Name} :
    Only (Early policy copier prev) (cleanupAll policy names) :=
  only_forEach _ _ (fun _ n _ => only_cleanupReplicationResources n) 0

theorem only_sendAll
    (h : ∀ m ∈ members, (prevOf prev m.1).vmCopy = some m.2) :
    Only (Early policy copier prev) (sendAll policy prev members) := by
  refine only_try (only_forEach _ _ (fun _ m hm => only_createVMApplyResources (h m hm)) 0)
    (fun made => ?_)
  cases made with
  | ok _ => exact only_pure _
  | error e => exact only_map only_cleanupAll

theorem only_advanceProgress {cp : Copy}
    (h : ∀ m ∈ members, (prevOf prev m.1).vmCopy = some m.2) :
    Only (Early policy copier prev) (advanceProgress policy prev members pod cp) := by
  have hend : Only (Early policy copier prev) (do
      let _ ← (finish pod cp true).attempt
      return endAll prev (members.map Prod.fst) .copyFailed : WorldProg VMCopyResult) :=
    only_map (only_early (only_attempt only_cleanup))
  refine only_bind (only_early (only_attempt only_progress)) (fun looked => ?_)
  split
  · exact only_pure _
  · exact only_pure _
  · exact hend
  · exact hend
  · refine only_bind (only_early (only_attempt only_cleanup)) (fun released => ?_)
    cases released with
    | error e => exact only_pure _
    | ok _ => exact only_sendAll h

theorem only_advanceCopying
    (h : ∀ m ∈ members, (prevOf prev m.1).vmCopy = some m.2) :
    Only (Early policy copier prev) (advanceCopying policy prev members st) := by
  refine only_bind (only_early (only_attempt (only_query trivial _))) (fun found => ?_)
  split
  · exact only_pure _
  · exact only_pure _
  · refine only_ite (only_pure _) ?_
    refine only_bind (only_early (only_attempt (only_query trivial _))) (fun moving => ?_)
    split
    · refine only_bind (only_early (only_attempt only_cancel)) (fun stopped => ?_)
      cases stopped <;> exact only_pure _
    · exact only_advanceProgress h

theorem only_checkMember {m : Name × VMCopyState} (h : (prevOf prev m.1).vmCopy = some m.2) :
    Only (Early policy copier prev) (checkMember policy prev m) := by
  refine only_bind (only_early (only_attempt only_checkReplicationJob)) (fun looked => ?_)
  split
  · exact only_pure _
  · exact only_pure _
  · exact only_pure _
  · refine only_bind (only_bind (only_early (only_attempt only_getJob)) (fun found => ?_))
      (fun gone => ?_)
    · split <;> exact only_pure _
    · refine only_try (only_createVMApplyResources h) (fun made => ?_)
      cases made <;> exact only_pure _

theorem only_checkMembers
    (h : ∀ m ∈ members, (prevOf prev m.1).vmCopy = some m.2) :
    Only (Early policy copier prev) (checkMembers policy prev members) := by
  induction members with
  | nil => exact only_pure _
  | cons m ms ih =>
    refine only_bind (only_checkMember (h m mem_cons_self)) (fun r => ?_)
    cases r with
    | error note => exact only_pure _
    | ok s =>
      exact only_map (ih (fun x hx => h x (mem_cons_of_mem m hx)))

theorem only_settleLists
    {sends : List SendState} : Only Qemu (settleLists prev members st sends) := by
  refine only_bind (only_try (only_query trivial _) (fun found => ?_)) (fun same => ?_)
  · split <;> exact only_pure _
  · split
    · split
      · exact only_map (only_attempt only_commit)
      · exact only_map (only_attempt only_cleanup)
    · exact only_pure _

theorem only_advanceSending
    (h : ∀ m ∈ members, (prevOf prev m.1).vmCopy = some m.2) :
    Only (Early policy copier prev) (advanceSending policy prev members st) := by
  refine only_bind (only_checkMembers h) (fun looked => ?_)
  cases looked with
  | error note => exact only_pure _
  | ok sends =>
    refine only_ite (only_pure _) ?_
    refine only_bind (only_early only_settleLists) (fun settled => ?_)
    exact only_map only_cleanupAll

theorem only_advanceVMCopy
    (h : ∀ m ∈ members, (prevOf prev m.1).vmCopy = some m.2) :
    Only (Early policy copier prev) (advanceVMCopy policy prev members) := by
  cases members with
  | nil => exact only_pure _
  | cons m ms =>
    unfold advanceVMCopy
    dsimp only
    split
    · exact only_advanceCopying h
    · exact only_advanceSending h

/-- Each sorted volume is under its key. A volume of an unfinished copy comes with that
copy; a new copy is only for a volume without one. -/
structure Placed (prev : List SubVolumeStatus) (volumes : List Volume) (s : Sorted) : Prop where
  key : ∀ x ∈ s.items, x.1 = x.2.2.key
  inflight : ∀ x ∈ s.items, ∀ st, x.2.2 = .inflight st → (prevOf prev x.2.1).vmCopy = some st
  fresh : ∀ x ∈ s.items, ∀ pod v, x.2.2 = .fresh pod v →
    (prevOf prev x.2.1).vmCopy = none ∧ pod.launcher = true
  rest : ∀ v ∈ s.rest, v ∈ volumes ∧ (prevOf prev v.name).vmCopy = none

variable (volumes : List Volume) (allowStart : Bool) {l : Loop}

theorem placed_put {s : Sorted} {name : Name} {r : Role} (h : Placed prev volumes s)
    (hin : ∀ st, r = .inflight st → (prevOf prev name).vmCopy = some st)
    (hfresh : ∀ pod v, r = .fresh pod v → (prevOf prev name).vmCopy = none ∧ pod.launcher = true) :
    Placed prev volumes (s.put name r) := by
  have hcases : ∀ x ∈ (s.put name r).items, x ∈ s.items ∨ x = (r.key, name, r) := by
    intro x hx
    rcases mem_append.mp hx with hx | hx
    · exact .inl hx
    · exact .inr (mem_singleton.mp hx)
  constructor
  · intro x hx
    rcases hcases x hx with hx | rfl
    · exact h.key x hx
    · rfl
  · intro x hx st hst
    rcases hcases x hx with hx | rfl
    · exact h.inflight x hx st hst
    · exact hin st hst
  · intro x hx pod v hv
    rcases hcases x hx with hx | rfl
    · exact h.fresh x hx pod v hv
    · exact hfresh pod v hv
  · exact h.rest

theorem placed_rest {s : Sorted} {v : Volume} (hv : v ∈ volumes)
    (h : Placed prev volumes s) (hnone : (prevOf prev v.name).vmCopy = none) :
    Placed prev volumes { s with rest := s.rest ++ [v] } := by
  refine { h with rest := ?_ }
  intro x hx
  rcases mem_append.mp hx with hx | hx
  · exact h.rest x hx
  · rw [mem_singleton.mp hx]
    exact ⟨hv, hnone⟩

theorem only_sortVolume {allowStart : Bool} {s : Sorted} {v : Volume} :
    Only Qemu (sortVolume prev allowStart s v) := by
  unfold sortVolume
  split
  · exact only_pure _
  · refine only_ite (only_pure _) ?_
    refine only_try only_vmPodForClaim (fun found => ?_)
    split
    · exact only_pure _
    · exact only_pure _
    · split <;> exact only_pure _

theorem yields_sortVolume {s : Sorted} {v : Volume} (hv : v ∈ volumes) (h : Placed prev volumes s) :
    Yields (sortVolume prev allowStart s v) (Placed prev volumes) := by
  unfold sortVolume
  cases hst : (prevOf prev v.name).vmCopy with
  | some st =>
    apply yields_pure
    apply placed_put volumes h
    · intro st' hst'
      rw [hst, Role.inflight.inj hst']
    · intro pod x hx
      cases hx
  | none =>
    have hrest := placed_rest volumes hv h hst
    dsimp only
    split
    · exact yields_pure _ hrest
    · refine yields_then (fun found => ?_)
      split
      · exact yields_pure _ { h with }
      · exact yields_pure _ hrest
      · rename_i pod x
        cases hlauncher : pod.launcher with
        | false => exact yields_pure _ { h with }
        | true =>
          apply yields_pure
          apply placed_put volumes h
          · intro st' hst'
            cases hst'
          · intro pod' x' hx
            cases hx
            exact ⟨hst, hlauncher⟩

theorem yields_sortVolumes :
    Yields (foldEach (sortVolume prev allowStart) ⟨[], [], ⟨[], []⟩⟩ volumes)
      (Placed prev volumes) := by
  apply yields_foldEach
  · intro s v hv hs
    exact yields_sortVolume volumes allowStart hv hs
  · constructor <;> intro x hx <;> cases hx

theorem mem_inflightOf (ms : List (Name × Role)) (m : Name × VMCopyState) :
    m ∈ inflightOf ms ↔ (m.1, Role.inflight m.2) ∈ ms := by
  unfold inflightOf
  rw [mem_filterMap]
  constructor
  · rintro ⟨⟨n, r⟩, hx, hm⟩
    cases r with
    | inflight st =>
      cases hm
      exact hx
    | fresh pod v => cases hm
  · intro h
    exact ⟨(m.1, .inflight m.2), h, rfl⟩

theorem group_inflight {s : Sorted} (h : Placed prev volumes s)
    {g : GroupKey × List (Name × Role)} (hg : g ∈ groupAll s.items) (m : Name × VMCopyState)
    (hm : m ∈ inflightOf g.2) : (prevOf prev m.1).vmCopy = some m.2 := by
  have hmem := (groups_groupAll.mem_iff g.1 g.2).mp hg
  rw [mem_inflightOf, hmem.1, mem_valuesOf] at hm
  exact h.inflight _ hm m.2 rfl

theorem only_processGroup {ms : List (Name × Role)}
    (h : ∀ m ∈ inflightOf ms, (prevOf prev m.1).vmCopy = some m.2) :
    Only (Early policy copier prev) (processGroup policy prev ms) := by
  unfold processGroup
  split
  · exact only_pure _
  · exact only_advanceVMCopy h
  · exact only_early only_startVMCopy

theorem only_processVMVolumes :
    Only (Early policy copier prev) (processVMVolumes policy copier prev volumes allowStart) := by
  refine only_ite (only_pure _) ?_
  refine only_bind_yields (only_early (only_foldEach _ _ (fun s v _ => only_sortVolume) _))
    (yields_sortVolumes volumes allowStart) (fun s hs => ?_)
  refine only_map (only_foldEach _ _ (fun r g hg => ?_) _)
  exact only_map (only_processGroup (group_inflight volumes hs hg))

/-- The volumes left for file copies have no unfinished copy. -/
theorem yields_rest :
    Yields (processVMVolumes policy copier prev volumes allowStart)
      (fun x => (∀ v ∈ x.1, v ∈ volumes ∧ (copier = false ∨ (prevOf prev v.name).vmCopy = none)) ∧
        (copier = false → x.2.statuses = [])) := by
  cases copier with
  | false => exact yields_pure _ ⟨fun v hv => ⟨hv, .inl rfl⟩, fun _ => rfl⟩
  | true =>
    refine yields_bind (yields_sortVolumes volumes allowStart) (fun s hs => ?_)
    refine yields_then (fun res => yields_pure _ ⟨?_, fun hc => Bool.noConfusion hc⟩)
    intro v hv
    exact ⟨(hs.rest v hv).1, .inr (hs.rest v hv).2⟩

theorem only_runningVMPod : Only Qemu (runningVMPod v) := only_map only_vmPodForClaim

theorem only_copySucceeded :
    Only (Early policy copier prev) (copySucceeded policy prev l v) := by
  refine only_bind (only_early (only_attempt only_runningVMPod)) (fun vm => ?_)
  split
  · exact only_map (only_cleanupReplicationResources v)
  · exact only_map (only_cleanupReplicationResources v)
  · refine only_bind (only_now trivial) (fun t => ?_)
    exact only_map (only_cleanupReplicationResources v)

theorem only_copyStarts (h : copier = false ∨ (prevOf prev v).vmCopy = none) :
    Only (Early policy copier prev) (copyStarts policy prev l v) := by
  refine only_ite (only_pure _) ?_
  refine only_bind (only_early (only_attempt only_runningVMPod)) (fun vm => ?_)
  split
  · exact only_pure _
  · exact only_pure _
  · have hmake : Only (Early policy copier prev) (createReplicationResources policy v) :=
      only_bind (only_ask trivial) (fun _ => only_ensureJob (.inr ⟨v, h, rfl⟩))
    refine only_try hmake (fun made => ?_)
    cases made with
    | error e => exact only_map (only_cleanupReplicationResources v)
    | ok _ => exact only_pure _

theorem only_checkFileCopy
    (h : copier = false ∨ (prevOf prev v).vmCopy = none) :
    Only (Early policy copier prev) (checkFileCopy policy prev l v) := by
  refine only_bind (only_early (only_attempt only_checkReplicationJob)) (fun looked => ?_)
  split
  · exact only_pure _
  · exact only_copySucceeded
  · exact only_map (only_cleanupReplicationResources v)
  · refine only_bind (only_early (only_attempt only_getJob)) (fun found => ?_)
    split
    · exact only_pure _
    · exact only_copyStarts h

theorem only_fileStep {v : Volume}
    (h : copier = false ∨ (prevOf prev v.name).vmCopy = none) :
    Only (Early policy copier prev) (fileStep policy prev l v) := by
  refine only_ite (only_pure _) ?_
  split
  · exact only_pure _
  · exact only_checkFileCopy h

theorem only_isHeld {v : Volume} : Only Qemu (isHeld policy prev v) := by
  refine only_ite (only_pure _) ?_
  refine only_map (only_try only_getJob (fun found => ?_))
  split <;> exact only_pure _

theorem only_splitHeld {volumes : List Volume} :
    Only Qemu (splitHeld policy copier prev volumes) := by
  refine only_bind (only_foldEach _ _ (fun s v _ => ?_) _) (fun s => ?_)
  · refine only_bind only_isHeld (fun h => ?_)
    split
    · split <;> exact only_pure _
    · exact only_pure _
  · refine only_ite (only_pure _) ?_
    refine only_bind (only_foldEach _ _ (fun holds h _ => ?_) _) (fun holds => ?_)
    · refine only_try only_vmPodForClaim (fun found => ?_)
      split <;> exact only_pure _
    · refine only_foldEach _ _ (fun s v _ => ?_) _
      refine only_try only_vmPodForClaim (fun found => ?_)
      refine only_ite (only_pure _) ?_
      split
      · exact only_pure _
      · dsimp only
        split <;> exact only_pure _

/-- A step of a policy's turn: one of its pass, or a write of its status or pause mark. -/
def TurnStep (policy : Policy) (copier : Bool) (prev : List SubVolumeStatus) (t : Step) : Prop :=
  Early policy copier prev t ∨ (∃ s, t = .writeStatus policy.name s) ∨ t = .pause policy.name

theorem only_turn (h : Only (Early policy copier prev) p) :
    Only (TurnStep policy copier prev) p := only_weaken h (fun _ ht => .inl ht)

variable {s : PolicyStatus} {m : Memory} {start : Moment}

theorem only_storeStatus : Only (TurnStep policy copier prev) (storeStatus policy s) :=
  only_map (only_attempt (only_request (.inl trivial) _ (.inr (.inl ⟨s, rfl⟩))))

theorem only_handleFailure : Only (TurnStep policy copier prev) (handleFailure policy s) := by
  refine only_bind only_storeStatus (fun _ => ?_)
  split
  · exact only_map (only_attempt (only_request (.inl trivial) _ (.inr (.inr rfl))))
  · exact only_pure _

theorem only_concludes :
    Only (TurnStep policy copier prev) (if allComplete l.statuses then do
        closeCycle policy s l.statuses l.errors
        return { m with results := [], lastVolumeSync := l.lastVolumeSync }
      else do
        stayOpen policy s l.statuses
        return { m with
          running := some start, results := l.results,
          lastVolumeSync := l.lastVolumeSync } : WorldProg Memory) := by
  have hnow : Only (TurnStep policy copier prev) now := only_now (.inl trivial)
  split
  · refine only_map ?_
    unfold closeCycle
    split
    · exact only_handleFailure
    · exact only_bind hnow (fun _ => only_storeStatus)
  · refine only_map ?_
    unfold stayOpen
    split
    · exact only_bind hnow (fun _ => only_storeStatus)
    · exact only_storeStatus

theorem only_processMatched {matched : List Volume} (hs : s.subVolumeStatuses = prev) :
    Only (TurnStep policy copier prev) (processMatched policy copier s m start matched) := by
  subst hs
  refine only_bind (only_turn (only_early only_splitHeld)) (fun split => ?_)
  refine only_bind_yields (only_turn (only_processVMVolumes split.free true))
    (yields_rest split.free true) (fun vm hrest => ?_)
  refine only_bind (only_now (.inl trivial)) (fun t => ?_)
  refine only_bind (only_turn (only_foldEach _ _ (fun l v hv => ?_) _)) (fun l => ?_)
  · exact only_fileStep (hrest.1 v hv).2
  · exact only_concludes

theorem only_processPolicy :
    Only (TurnStep policy copier s.subVolumeStatuses) (processPolicy policy copier s m) := by
  have hfail : ∀ (s' : PolicyStatus) (m' : Memory),
      Only (TurnStep policy copier s.subVolumeStatuses)
        (do handleFailure policy s'; return m' : WorldProg Memory) :=
    fun s' m' => only_map only_handleFailure
  refine only_bind (only_now (.inl trivial)) (fun t => ?_)
  refine only_try (only_query (.inl trivial) _) (fun listed => ?_)
  split
  · exact hfail _ _
  · refine only_try ?_ (fun hooks => ?_)
    · split
      · exact only_ask (.inl trivial)
      · exact only_pure _
    · split
      · exact hfail _ _
      · exact only_processMatched rfl

theorem only_advanceVMCopies :
    Only (TurnStep policy copier s.subVolumeStatuses) (advanceVMCopies policy copier s m) := by
  unfold advanceVMCopies
  refine only_ite (only_pure _) ?_
  refine only_try (only_query (.inl trivial) _) (fun listed => ?_)
  split
  · exact only_pure _
  · refine only_bind (only_turn (only_processVMVolumes _ false)) (fun res => ?_)
    refine only_bind (only_now (.inl trivial)) (fun t => ?_)
    refine only_map ?_
    unfold storeAdvanced
    refine only_ite (only_pure _) ?_
    split <;> exact only_storeStatus

theorem only_processOne {paused : Bool} :
    Only (TurnStep policy copier s.subVolumeStatuses) (processOne policy copier m s paused) := by
  have hrun : ∀ s' : PolicyStatus, s'.subVolumeStatuses = s.subVolumeStatuses →
      Only (TurnStep policy copier s.subVolumeStatuses) (runPolicy policy copier s' m) := by
    intro s' hs
    rw [← hs]
    unfold runPolicy
    split
    · exact only_pure _
    · refine only_bind (only_now (.inl trivial)) (fun t => ?_)
      split
      · exact only_processPolicy
      · exact only_advanceVMCopies
  unfold processOne
  split
  · refine only_ite (only_pure _) ?_
    exact only_map only_storeStatus
  · split
    · exact only_bind only_storeStatus (fun _ => hrun (resumed s) rfl)
    · refine only_ite (only_pure _) ?_
      exact hrun s rfl

end FilePool.PassSteps
