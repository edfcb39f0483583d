import FilePool.ReplicationJobs

/-!
What the statuses say that a pass makes for the disks of running VMs: a copy that is
being sent was there before the pass, and a copy is recorded at the far site only when
its Job is seen to have succeeded.
-/
namespace FilePool.VMCopyFacts

open UndoNames DurableSteps ReplicationStatus ReplicationWorld List ReplicationCalls CallRules
  VMCopier VMCopyPass PolicyPass PassSteps ReplicationJobs GroupedLists Prog

/-- A file copy that failed, as the volume's status tells it. -/
def isFileFailure : SyncNote → Bool
  | .checkJob | .vmStartedDuringCopy | .checkVMAfterCopy | .jobFailed | .createResources => true
  | _ => false

variable {prev : List SubVolumeStatus} {n : Name} {st : VMCopyState}

/-- What the status of a volume shows after a pass: a copy that is being sent was there
before, and a new copy moment or change list comes from a Job that has succeeded. -/
structure StatusFact (policy : Policy) (prev : List SubVolumeStatus)
    (G : List Job → Name → Job → Prop) (l : List Job) (x : SubVolumeStatus) : Prop where
  sending : ∀ st', x.vmCopy = some st' → st'.phase = .sending →
    ∃ st, (prevOf prev x.subVolumeName).vmCopy = some st ∧ st'.id = st.id ∧
      st'.stagingFile = st.stagingFile
  moment : x.copyMoment ≠ none → x.copyMoment ≠ (prevOf prev x.subVolumeName).copyMoment →
    (prevOf prev x.subVolumeName).vmCopy.isSome ∧ Done policy G x.subVolumeName l
  list : x.vmChangeList ≠ [] → (∀ y ∈ prev, y.vmChangeList ≠ x.vmChangeList) →
    (prevOf prev x.subVolumeName).vmCopy.isSome ∧ Done policy G x.subVolumeName l

/-- What the status of a VM's disk shows after a pass. -/
structure VMFact (policy : Policy) (prev : List SubVolumeStatus)
    (G : List Job → Name → Job → Prop) (l : List Job) (x : SubVolumeStatus) : Prop extends
    StatusFact policy prev G l x where
  notFile : isFileFailure x.lastError = false
  good : x.vmCopy = none → x.lastError = .none →
    (prevOf prev x.subVolumeName).vmCopy.isSome ∧ Done policy G x.subVolumeName l

def Facts (policy : Policy) (prev : List SubVolumeStatus)
    (G : List Job → Name → Job → Prop) (l : List Job) (sts : List SubVolumeStatus) : Prop :=
  ∀ x ∈ sts, VMFact policy prev G l x

variable {policy : Policy} {G : List Job → Name → Job → Prop} {l : List Job} {note : SyncNote}
  {l' : List Job} {x : SubVolumeStatus}

theorem StatusFact.mono
    (h : StatusFact policy prev G l x) (hG : Later G) (hl : l <:+ l') :
    StatusFact policy prev G l' x where
  sending := h.sending
  moment hne hm := ⟨(h.moment hne hm).1, done_mono hG l l' hl (h.moment hne hm).2⟩
  list hne hnew := ⟨(h.list hne hnew).1, done_mono hG l l' hl (h.list hne hnew).2⟩

theorem VMFact.mono (h : VMFact policy prev G l x)
    (hG : Later G) (hl : l <:+ l') : VMFact policy prev G l' x where
  toStatusFact := h.toStatusFact.mono hG hl
  notFile := h.notFile
  good hc hn := ⟨(h.good hc hn).1, done_mono hG l l' hl (h.good hc hn).2⟩

theorem Facts.mono {sts : List SubVolumeStatus} (h : Facts policy prev G l sts)
    (hG : Later G) (hl : l <:+ l') : Facts policy prev G l' sts :=
  fun x hx => (h x hx).mono hG hl

theorem Facts.append {a b : List SubVolumeStatus} (ha : Facts policy prev G l a)
    (hb : Facts policy prev G l b) : Facts policy prev G l (a ++ b) := by
  intro x hx
  rcases mem_append.mp hx with hx | hx
  · exact ha x hx
  · exact hb x hx

section Copying

variable {policy : Policy} {prev : List SubVolumeStatus} {G : List Job → Name → Job → Prop}

variable {members : List (Name × VMCopyState)}
  (hmem : ∀ m ∈ members, (prevOf prev m.1).vmCopy = some m.2)

include hmem

end Copying

variable {copier : Bool} {I : World → Prop} {members : List (Name × VMCopyState)}
  {sends : List SendState} {m : Name × VMCopyState} {list : Name}

end FilePool.VMCopyFacts
