import FilePool.CallRules
import FilePool.VMCopier

/-!
The commands of a copy reach QEMU and the staging files only: none of them makes or
deletes a Job or writes a status.
-/
namespace FilePool.CopierSteps

open UndoNames DurableSteps ReplicationWorld ReplicationCalls CallRules VMCopier Prog

/-- A step on QEMU or on a staging file, or what others do. -/
def Qemu : Step → Prop
  | .next | .createStaging .. | .removeStaging .. | .removeAllStaging .. | .transaction ..
  | .removeList .. | .cancel .. | .dismiss .. => True
  | .createJob _ | .deleteJob _ | .writeStatus .. | .pause _ => False

variable {pod : Name} {volumes : List Name} {id : Name} {cp : Copy}

theorem only_queryBlock : Only Qemu (queryBlock pod) := only_query trivial _

theorem only_queryJobs : Only Qemu (queryJobs pod) := only_query trivial _

theorem only_removeBitmaps {select : Name → Bool} :
    Only Qemu (removeBitmaps pod volumes select) := by
  apply only_bind only_queryBlock
  intro devs
  apply only_forEach
  intro _ volume _
  cases findDisk devs volume with
  | none => exact only_pure _
  | some d => exact only_forEach _ _ (fun _ name _ => only_request trivial _ trivial) 0

theorem only_release {jobs : List CopyJob} {i : ℕ} :
    Only Qemu (release pod jobs id i) := by
  refine only_bind ?_ (fun _ => only_ask trivial)
  unfold dismissEnded
  cases jobOf jobs id i with
  | none => exact only_pure _
  | some j =>
    dsimp only
    split
    · exact only_request trivial _ trivial
    · exact only_pure _

theorem only_dropBitmap : Only Qemu (dropBitmap pod cp) := by
  refine only_ite (only_pure _) ?_
  exact only_removeBitmaps

theorem only_cleanup {removeStaging : Bool} :
    Only Qemu (cleanup pod cp removeStaging) := by
  refine only_bind only_queryJobs (fun jobs => ?_)
  refine only_bind (only_ask trivial) (fun _ => ?_)
  refine only_bind (only_forEach _ _ (fun i _ _ => only_release) 0) (fun _ => ?_)
  split
  · refine only_bind only_dropBitmap (fun _ => ?_)
    exact only_forAll _ _ (fun d _ => only_request trivial _ trivial)
  · exact only_pure _

theorem only_commit : Only Qemu (commit pod cp) := by
  refine only_ite (only_pure _) ?_
  exact only_removeBitmaps

theorem only_progress : Only Qemu (progress pod cp) := only_map only_queryJobs

theorem only_awaitStop {n : ℕ} : Only Qemu (awaitStop pod cp n) := by
  induction n with
  | zero => exact only_pure _
  | succ n ih =>
    refine only_bind only_progress (fun st => ?_)
    split
    · exact only_bind (only_ask trivial) (fun _ => ih)
    · exact only_pure _

theorem only_cancel : Only Qemu (VMCopier.cancel pod cp) := by
  refine only_bind (only_forEach _ _ (fun i _ _ => ?_) 0) (fun _ => ?_)
  · exact only_map (only_attempt (only_request trivial _ trivial))
  · exact only_bind only_awaitStop (fun _ => only_cleanup)

theorem only_checkIdle : Only Qemu (checkIdle pod) := by
  refine only_bind only_queryJobs (fun jobs => ?_)
  refine only_ite (only_pure _) ?_
  exact only_fail _

theorem only_removeStale {keep : Name} :
    Only Qemu (removeStale pod volumes keep) := by
  refine only_bind only_checkIdle (fun _ => ?_)
  refine only_bind (only_ask trivial) (fun _ => only_bind (only_ask trivial) (fun _ => ?_))
  refine only_bind only_removeBitmaps (fun _ => ?_)
  exact only_forEach _ _ (fun _ volume _ => only_request trivial _ trivial) 0

theorem only_startCopies {base : Name} :
    Only Qemu (startCopies pod volumes id base) := by
  refine only_bind (only_forEach _ _ (fun _ volume _ => ?_) 0)
    (fun _ => only_call trivial _ trivial)
  exact only_bind (only_request trivial _ trivial) (fun _ => only_ask trivial)

theorem only_start (id base : Name) :
    Only Qemu (start pod volumes id base) := by
  unfold start
  split
  · exact only_fail _
  · refine only_bind only_queryBlock (fun devs => only_bind (only_inspect _) (fun _ => ?_))
    refine only_try only_startCopies (fun begun => ?_)
    cases begun with
    | ok a => exact only_pure _
    | error e =>
      exact only_try only_cleanup (fun _ => only_fail _)

end FilePool.CopierSteps
