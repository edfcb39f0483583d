import FilePool.ControllerRuns
import FilePool.VMCopyFacts

/-!
The loop of a pass over the volumes. The controller keeps the result of a Job that has
ended until the end of the cycle. What a status shows comes from this pass or from a
result that was kept.
-/
namespace FilePool.CycleLoop

open UndoNames DurableSteps ReplicationStatus ReplicationWorld List ReplicationCalls
  CallRules VMCopier VMCopyPass PolicyPass PassSteps ReplicationJobs VMCopyFacts Prog

section Loop

variable (policy : Policy) (copier : Bool) (prev : List SubVolumeStatus)
  (kept : List CycleResult) (G : List Job → Name → Job → Prop) (l : List Job) {note : SyncNote}

/-- The status of a volume that is not copied as a VM's disk: what is known of an earlier
VM copy stays or is dropped. -/
structure FileFact (x : SubVolumeStatus) : Prop where
  copy : x.vmCopy = none
  moment : x.copyMoment = none ∨ x.copyMoment = (prevOf prev x.subVolumeName).copyMoment
  list : x.vmChangeList = [] ∨ x.vmChangeList = (prevOf prev x.subVolumeName).vmChangeList

/-- A status that this pass has made, or that was kept from an earlier pass of the cycle. -/
def Shown (x : SubVolumeStatus) : Prop :=
  (copier = true ∧ StatusFact policy prev G l x) ∨ FileFact prev x ∨ ∃ r ∈ kept, x = r.status

/-- A result that the controller keeps for the cycle. -/
structure ResultFact (r : CycleResult) : Prop where
  copy : r.status.vmCopy = none
  good : r.status.lastError = .none → Done policy G r.status.subVolumeName l
  failed : isFileFailure r.status.lastError = true → r.failed = true

def ResultFacts (rs : List CycleResult) : Prop := ∀ r ∈ rs, ResultFact policy G l r

/-- What the loop over the volumes has found. -/
structure LoopFact (x : Loop) : Prop where
  shown : ∀ s ∈ x.statuses, Shown policy copier prev kept G l s
  ended : ∀ s ∈ x.statuses, s.vmCopy = none → s.lastError = .none →
    Done policy G s.subVolumeName l
  results : ResultFacts policy G l x.results
  known : ∀ r ∈ x.results, Shown policy copier prev kept G l r.status
  failures : (∃ s ∈ x.statuses, isFileFailure s.lastError = true) → 0 < x.errors

variable {policy copier prev kept G l} {l' : List Job} {x : Loop} {r : CycleResult}

theorem Shown.mono {x : SubVolumeStatus} (h : Shown policy copier prev kept G l x)
    (hG : Later G) (hl : l <:+ l') : Shown policy copier prev kept G l' x :=
  h.imp (fun hf => ⟨hf.1, hf.2.mono hG hl⟩) id

theorem ResultFacts.mono {rs : List CycleResult}
    (h : ResultFacts policy G l rs) (hG : Later G) (hl : l <:+ l') :
    ResultFacts policy G l' rs := fun r hr =>
  ⟨(h r hr).copy, fun hn => done_mono hG l l' hl ((h r hr).good hn), (h r hr).failed⟩

theorem LoopFact.mono (h : LoopFact policy copier prev kept G l x)
    (hG : Later G) (hl : l <:+ l') : LoopFact policy copier prev kept G l' x where
  shown s hs := (h.shown s hs).mono hG hl
  ended s hs hc hn := done_mono hG l l' hl (h.ended s hs hc hn)
  results := h.results.mono hG hl
  known r hr := (h.known r hr).mono hG hl
  failures := h.failures

end Loop

variable {policy : Policy} {copier : Bool} {prev : List SubVolumeStatus} {I : World → Prop}
  {kept : List CycleResult} {G : List Job → Name → Job → Prop}

/-- What is kept of the world, with what the loop has found. -/
def Going (policy : Policy) (copier : Bool) (prev : List SubVolumeStatus) (kept : List CycleResult)
    (I : World → Prop) (G : List Job → Name → Job → Prop) (x : Loop) (w : World) : Prop :=
  I w ∧ LoopFact policy copier prev kept G w.finished x

end FilePool.CycleLoop
