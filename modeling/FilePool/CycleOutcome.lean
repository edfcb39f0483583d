import FilePool.CycleLoop

/-!
What a turn of a policy writes into its status. A turn that leaves the cycle open counts
as a sync when some volume shows a sync and no error. A turn that ends the cycle is a
failure when a file copy failed, and a sync otherwise, also if nothing was copied.
-/
namespace FilePool.CycleOutcome

open UndoFormat UndoNames DurableSteps ReplicationStatus ReplicationWorld Function List
  ReplicationCalls CallRules VMCopier VMCopyPass PolicyPass PassSteps ReplicationJobs VMCopyFacts
  CycleLoop Prog

/-- What is known of the Jobs during a turn does not depend on the status or the pause mark. -/
structure Keeps (policy : Policy) (copier : Bool) (prev : List SubVolumeStatus)
    (I : World → Prop) (G : List Job → Name → Job → Prop) : Prop extends
    Tracks policy copier prev I G where
  status : ∀ w S, I w → I { w with status := S }
  paused : ∀ w f, I w → I { w with paused := f }

section Statuses

/-- The volume shows a sync and no error, but a copy of it is still in flight. -/
def InFlight (x : SubVolumeStatus) : Prop :=
  x.lastSyncTime.isSome = true ∧ x.lastError = .none ∧ x.vmCopy.isSome = true

/-- No copy runs or waits, and no file copy failed. -/
def Complete (s : PolicyStatus) : Prop :=
  ∀ x ∈ s.subVolumeStatuses,
    SyncNote.isOpen x.lastError = false ∧ isFileFailure x.lastError = false

/-- Some copies run or wait, and a copy in flight is taken for one that has ended. -/
def Mistaken (s : PolicyStatus) : Prop :=
  (∃ x ∈ s.subVolumeStatuses, SyncNote.isOpen x.lastError = true) ∧
    ∃ x ∈ s.subVolumeStatuses, InFlight x

instance (x : SubVolumeStatus) : Decidable (InFlight x) :=
  inferInstanceAs (Decidable (_ ∧ _ ∧ _))

instance (s : PolicyStatus) : Decidable (Complete s) :=
  inferInstanceAs (Decidable (∀ x ∈ s.subVolumeStatuses, _ ∧ _))

instance (s : PolicyStatus) : Decidable (Mistaken s) :=
  inferInstanceAs
    (Decidable ((∃ x ∈ s.subVolumeStatuses, _) ∧ ∃ x ∈ s.subVolumeStatuses, InFlight x))

variable (policy : Policy) (copier : Bool) (prev : List SubVolumeStatus)
  (kept : List CycleResult) (G : List Job → Name → Job → Prop) (l : List Job)

/-- A copy of the policy has ended with success, as the history shows it. -/
def CopyEnded : Prop := ∃ v, Done policy G v l

/-- Why a status counts as a sync. -/
def Cause (s : PolicyStatus) : Prop := CopyEnded policy G l ∨ Complete s ∨ Mistaken s

/-- What a turn makes of the time, count and phase of a status. -/
inductive Written (s s' : PolicyStatus) : Prop
  | kept (htime : s'.lastSyncTime = s.lastSyncTime)
      (hcount : s'.consecutiveFailures = s.consecutiveFailures)
      (hphase : s'.phase = s.phase ∨ s.phase = .unset ∨ s'.phase = .paused)
  | failed (htime : s'.lastSyncTime = s.lastSyncTime)
      (hcount : s'.consecutiveFailures = s.consecutiveFailures + 1)
      (hphase : maxRetries policy ≤ s'.consecutiveFailures → s'.phase = .paused)
  | synced (hcount : s'.consecutiveFailures = 0 ∨
        s'.consecutiveFailures = s.consecutiveFailures ∧ (s'.phase = s.phase ∨ s.phase = .unset))
      (hcause : Cause policy G l s')

/-- What a turn makes of a status, with the status of every volume. -/
structure Makes (s s' : PolicyStatus) : Prop where
  written : Written policy G l s s'
  shown : ∀ v, prevOf s'.subVolumeStatuses v = prevOf prev v ∨
    Shown policy copier prev kept G l (prevOf s'.subVolumeStatuses v)

/-- The turn that ends a cycle counts a failure, or shows no file copy that failed. -/
def Ends (s s' : PolicyStatus) : Prop :=
  s'.consecutiveFailures = s.consecutiveFailures + 1 ∨
    ∀ x ∈ s'.subVolumeStatuses, isFileFailure x.lastError = false

variable {policy copier prev kept G l}

end Statuses

section Writes

variable (policy : Policy) (copier : Bool) (prev : List SubVolumeStatus)
  (kept : List CycleResult) (I : World → Prop) (G : List Job → Name → Job → Prop)
  (S : Name → PolicyStatus)

/-- The status is written or not, also if the turn is stopped. -/
def Wrote (X : List Job → Prop) (s : PolicyStatus) (w : World) : Prop :=
  (I w ∧ X w.finished) ∧ (w.status = S ∨ w.status = update S policy.name (PolicyStatus.stored s))

/-- What a turn leaves: the statuses as they were, or with one written. -/
def Leaves (s : PolicyStatus) (ending : Prop) (w : World) : Prop :=
  w.status = S ∨ ∃ s', Makes policy copier prev kept G w.finished s s' ∧ (ending → Ends s s') ∧
    w.status = update S policy.name (PolicyStatus.stored s')

variable {policy copier prev kept I G S} {s' : PolicyStatus}

theorem Wrote.leaves {X : List Job → Prop} {s : PolicyStatus} {E : Prop} {w : World}
    (h : Wrote policy I S X s' w) (hw : ∀ l, X l → Makes policy copier prev kept G l s s')
    (hE : E → ∀ l, X l → Ends s s') : Leaves policy copier prev kept G S s E w :=
  h.2.imp id (fun hS => ⟨s', hw _ h.1.2, fun he => hE he _ h.1.2, hS⟩)

variable (h : Keeps policy copier prev I G) {X : List Job → Prop}
  (hX : ∀ l l', l <:+ l' → X l → X l')

include h hX

end Writes

section Conclusion

variable {policy : Policy} {copier : Bool} {prev : List SubVolumeStatus}
  {kept : List CycleResult} {I : World → Prop} {G : List Job → Name → Job → Prop}
  {S : Name → PolicyStatus} {x : Loop} (h : Keeps policy copier prev I G)

include h

end Conclusion

section Turns

variable {policy : Policy} {copier : Bool} {prev : List SubVolumeStatus}
  {I : World → Prop} {G : List Job → Name → Job → Prop} {S : Name → PolicyStatus}

/-- What a turn starts from. -/
def Begun (policy : Policy) (I : World → Prop) (G : List Job → Name → Job → Prop)
    (S : Name → PolicyStatus) (m : Memory) (w : World) : Prop :=
  (I w ∧ w.status = S) ∧ ResultFacts policy G w.finished m.results

variable (h : Keeps policy copier prev I G)

include h

theorem Keeps.results (rs : List CycleResult) : ∀ l l', l <:+ l' →
    ResultFacts policy G l rs → ResultFacts policy G l' rs := fun _ _ hl hr => hr.mono h.later hl

theorem Keeps.begun (m : Memory) : Tracks policy copier prev (Begun policy I G S m) G :=
  (h.toTracks.status S).and (fun l => ResultFacts policy G l m.results) (h.results m.results)

end Turns

section Policy

/-- The status that a cycle starts from. -/
def started (s : PolicyStatus) : PolicyStatus :=
  { s with phase := if s.phase = .unset then .active else s.phase }

variable {policy : Policy} {copier : Bool} {prev : List SubVolumeStatus}
  {kept : List CycleResult} {I : World → Prop} {G : List Job → Name → Job → Prop}
  {S : Name → PolicyStatus} {l : List Job}

variable (h : Keeps policy copier prev I G)

include h

end Policy

section One

variable {policy : Policy} {copier : Bool} {kept : List CycleResult} {I : World → Prop}
  {G : List Job → Name → Job → Prop} {S : Name → PolicyStatus} {s : PolicyStatus}
  {paused : Bool} {E E' : Prop} {w : World}

variable (h : Keeps policy copier s.subVolumeStatuses I G) {m : Memory}

include h

end One

end FilePool.CycleOutcome
