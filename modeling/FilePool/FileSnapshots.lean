import FilePool.SnapshotCalls
import FilePool.StepRuns

/-!
A snapshot that is a copy of the files of its volume. A Job copies one file after another, and
a VM may start, write and stop meanwhile. A call looks for a VM pod before it goes to the Job
and again when the Job has ended; if there is one, the snapshot is left to the VM path. The
folder of a deleted snapshot is removed by another Job, file by file. What the source was since
the copy was started is kept beside the state.
-/
namespace FilePool.FileSnapshots

open UndoNames StepRuns Function List Option

/-- The files of a folder and their contents. -/
abbrev Files := Name → Option ℕ

inductive Method
  | file
  | vm
  deriving DecidableEq, Repr

/-- A Job has no pod yet, works, or has ended. -/
inductive JobPhase
  | starting
  | running
  | succeeded
  | failed
  deriving DecidableEq, Repr

/-- A Job on the snapshot's folder, with the files that its pod has still to go through. -/
structure FolderJob where
  rest : List Name
  phase : JobPhase
  deriving DecidableEq, Repr

namespace FolderJob

/-- A pod of the Job, the first or a later one, begins anew. -/
def begins (files : List Name) (j : FolderJob) : Option FolderJob :=
  if j.phase = .starting || j.phase = .running then some ⟨files, .running⟩ else none

/-- The next file. -/
def takes (j : FolderJob) : Option (Name × FolderJob) :=
  match j.phase, j.rest with
  | .running, f :: rest => some (f, ⟨rest, .running⟩)
  | _, _ => none

/-- The Job succeeds when it has gone through all files, and can fail at any time. -/
def ends (ok : Bool) (j : FolderJob) : Option FolderJob :=
  match j.phase, ok with
  | .running, true => if j.rest.isEmpty then some ⟨[], .succeeded⟩ else none
  | .running, false => some ⟨[], .failed⟩
  | _, _ => none

end FolderJob

/-- How far a call has come: it found no VM, then the Job had ended, then it found no VM. -/
inductive Stage
  | asked
  | looked
  | copied
  | clear
  deriving DecidableEq, Repr

/-- The source and whether a VM runs, the copy Job and the Job that removes the folder, the
snapshot's folder and entry, the call, and what the source was since the copy Job was started,
the newest first. -/
structure State where
  source : Files
  vm : Bool
  job : Option FolderJob
  removal : Option FolderJob
  folder : Files
  entry : Option Method
  ready : Bool
  stage : Stage
  past : List Files

variable (files : List Name) (looks : Bool)

/-- The entry is made. Its method is the VM path if a VM pod is found. -/
def createSnapshot (s : State) : Option State :=
  if s.stage ≠ .asked || s.entry.isSome then none
  else some { s with entry := some (if looks && s.vm then .vm else .file), ready := false }

/-- Where a call goes on when no VM pod was found. -/
def Stage.next : Stage → Option Stage
  | .asked => some .looked
  | .copied => some .clear
  | _ => none

/-- A look for a VM pod. If there is one the call ends: the Job is asked to stop, and once it
and its pods are gone the snapshot moves to the VM path. Nothing is looked for if VM snapshots
are off. -/
def switchToVMPath (podsGone recorded : Bool) (s : State) : Option State :=
  if s.entry ≠ some .file || s.ready then none
  else s.stage.next.map (fun stage =>
    if !(looks && s.vm) then { s with stage := stage }
    else if s.job.isNone && podsGone && recorded then
      { s with entry := some .vm, stage := .asked }
    else { s with stage := .asked })

/-- The copy Job is started, or reported on. A Job that has failed takes the entry with it. -/
def copyDir (read started cleaned deleted : Bool) (s : State) : Option State :=
  if s.stage ≠ .looked then none
  else if !read then some { s with stage := .asked }
  else match s.job with
    | none =>
      if started then
        some { s with job := some ⟨[], .starting⟩, stage := .asked, past := [s.source] }
      else some { s with stage := .asked }
    | some j =>
      let left := if cleaned then none else some j
      match j.phase with
      | .succeeded => some { s with job := left, stage := .copied }
      | .failed => some { s with
          job := left, stage := .asked, entry := if deleted then none else s.entry }
      | _ => some { s with stage := .asked }

def markReady (saved : Bool) (s : State) : Option State :=
  if s.stage ≠ .clear then none else some { s with ready := saved, stage := .asked }

/-- A pod of the copy Job removes the folder first. -/
def beginCopy (s : State) : Option State :=
  (s.job.bind (·.begins files)).map (fun j => { s with job := some j, folder := fun _ => none })

def copyFile (s : State) : Option State :=
  (s.job.bind FolderJob.takes).map (fun x =>
    { s with job := some x.2, folder := update s.folder x.1 (s.source x.1) })

/-- A copy that fails removes the folder. -/
def endCopy (ok : Bool) (s : State) : Option State :=
  (s.job.bind (·.ends ok)).map (fun j =>
    { s with job := some j, folder := if ok then s.folder else fun _ => none })

/-- A VM writes or removes a file. -/
def write (f : Name) (x : Option ℕ) (s : State) : Option State :=
  if s.vm && f ∈ files then
    let source := update s.source f x
    some { s with source := source, past := source :: s.past }
  else none

/-- Once the copy Job is gone, the Job that removes the folder is started, or reported on; when
it is done the entry goes. -/
def deleteSnapshot (read started cleaned deleted : Bool) (s : State) : Option State :=
  if s.stage ≠ .asked || s.job.isSome || !read then none
  else match s.removal with
    | none => if started then some { s with removal := some ⟨[], .starting⟩ } else none
    | some r =>
      let left := if cleaned then none else some r
      match r.phase with
      | .succeeded => some { s with
          removal := left, entry := if deleted then none else s.entry }
      | .failed => some { s with removal := left }
      | _ => none

def beginRemoval (s : State) : Option State :=
  (s.removal.bind (·.begins files)).map (fun r => { s with removal := some r })

def removeFile (s : State) : Option State :=
  (s.removal.bind FolderJob.takes).map (fun x =>
    { s with removal := some x.2, folder := update s.folder x.1 none })

def endRemoval (ok : Bool) (s : State) : Option State :=
  (s.removal.bind (·.ends ok)).map (fun r => { s with removal := some r })

/-- A VM starts, writes and stops; a call makes its steps or ends early; the Jobs make their
steps or are gone; the VM path gives the snapshot back, and its own Jobs write the folder. -/
inductive Event
  | vmStarts
  | write (f : Name) (x : Option ℕ)
  | vmStops
  | create
  | look (podsGone recorded : Bool)
  | copyDir (read started cleaned deleted : Bool)
  | markReady (saved : Bool)
  | callEnds
  | beginCopy
  | copyFile
  | endCopy (ok : Bool)
  | jobGone
  | toFile
  | applyVM (made : Files)
  | delete (read started cleaned deleted : Bool)
  | beginRemoval
  | removeFile
  | endRemoval (ok : Bool)
  | removalGone

def step (s : State) : Event → Option State
  | .vmStarts => some { s with vm := true }
  | .write f x => write files f x s
  | .vmStops => some { s with vm := false }
  | .create => createSnapshot looks s
  | .look podsGone recorded => switchToVMPath looks podsGone recorded s
  | .copyDir read started cleaned deleted => copyDir read started cleaned deleted s
  | .markReady saved => markReady saved s
  | .callEnds => some { s with stage := .asked }
  | .beginCopy => beginCopy files s
  | .copyFile => copyFile s
  | .endCopy ok => endCopy ok s
  | .jobGone => some { s with job := none }
  | .toFile => if s.entry = some .vm then some { s with entry := some .file } else none
  | .applyVM made => some { s with folder := made }
  | .delete read started cleaned deleted => deleteSnapshot read started cleaned deleted s
  | .beginRemoval => beginRemoval files s
  | .removeFile => removeFile s
  | .endRemoval ok => endRemoval ok s
  | .removalGone => some { s with removal := none }

section Calls

open PoolRecords PoolWorld Threads SnapshotCalls

/-- A call is past its look for a VM pod, also if it does not look at all. -/
def Passed (looks : Bool) (stage after : Stage) : Prop :=
  if looks then stage = after else stage.next = some after

/-- What the questions of a call tell of its stage: the Job is asked for after a first look and
the snapshot is marked ready after a second one, when the Job was done. -/
def stages (looks : Bool) : Protocol Stage Query Answer where
  answers q := match q with
    | .updateSnapshot s => fun (r : Except ApiErr Snapshot) =>
      ∀ s', r = .ok s' → s'.readyToUse = s.readyToUse
    | _ => fun _ => True
  step stage q := match q with
    | .vmPod _ => fun (pod : Except ApiErr (Option PodKind)) after =>
      after = if pod = .ok none then stage.next.getD stage else stage
    | .job _ _ => fun (done : Except JobErr Bool) after => Passed looks stage .looked ∧
      after = if done = .ok true then .copied else .asked
    | .updateSnapshotStatus s => fun _ after => after = stage ∧
      (s.readyToUse = true → Passed looks stage .clear)
    | _ => fun _ after => after = stage

variable {cfg : ShareCreation.Config} {s : Snapshot} {pool : Pool} {stage after : Stage}

/-- A look that does not find a VM leads on. -/
theorem meets_switchToVMPath (hshare : cfg.shareData = true) (hready : s.readyToUse = false)
    (hnext : stage.next = some after) :
    Meets (stages cfg.vmSnapshots) (SnapshotCalls.switchToVMPath cfg s)
      (fun handled st => handled = none → Passed cfg.vmSnapshots st after)
      (fun _ => True) stage := by
  unfold SnapshotCalls.switchToVMPath
  split
  · rename_i hoff
    refine meets_pure _ fun _ => ?_
    have hlooks : cfg.vmSnapshots = false := by simpa [hshare] using hoff
    simpa [Passed, hlooks] using hnext
  · rename_i hon
    have hlooks : cfg.vmSnapshots = true := by simpa [hshare] using hon
    refine meets_ask fun v _ => ⟨stage, rfl, meets_value fun v _ => ?_⟩
    refine meets_ask fun pod _ => ⟨_, rfl, meets_value fun p hp => ?_⟩
    obtain rfl : pod = .ok p := hp
    cases p with
    | none =>
      refine meets_pure _ fun _ => ?_
      simp [Passed, hlooks, hnext]
    | some k =>
      simp only [Option.isNone_some, Bool.false_eq_true, if_false]
      refine meets_ask fun _ _ => ⟨_, rfl, meets_value fun b _ => ?_⟩
      split
      · exact meets_pure _ nofun
      · refine meets_ask fun r hr => ⟨_, rfl, meets_value fun s' hs' => ?_⟩
        have hwaits : s'.readyToUse = false := (hr s' hs').trans hready
        exact meets_ask fun _ _ => ⟨_, ⟨rfl, fun h => opposed h hwaits⟩,
          meets_value fun _ _ => meets_pure _ nofun⟩

theorem meets_unbookShare {poolName shareID : Name} {gb : ℕ} :
    Meets (stages cfg.vmSnapshots) (unbookShare poolName shareID gb) (fun _ _ => True)
      (fun _ => True) stage := by
  refine meets_asks (fun q hq l a _ => ?_) asks_unbookShare (fun _ => trivial) trivial
  cases q <;> first | rfl | exact hq.elim

/-- The questions of the call that copies a snapshot's data follow the stages. -/
theorem copySnapshotData_stages (hready : s.readyToUse = false) :
    Meets (stages cfg.vmSnapshots) (copySnapshotData cfg s pool) (fun _ _ => True) (fun _ => True)
      .asked := by
  unfold copySnapshotData
  refine meets_unless trivial fun hdata => ?_
  have hshare : cfg.shareData = true := by simpa using hdata
  refine meets_then (meets_switchToVMPath hshare hready rfl) fun handled st hst => ?_
  cases handled with
  | some s' => exact meets_pure _ trivial
  | none =>
    refine meets_value fun share _ => ?_
    refine meets_ask fun done _ => ⟨_, ⟨hst rfl, rfl⟩, ?_⟩
    match done with
    | .error .api => exact meets_fail _ trivial
    | .error .failed =>
      refine meets_ask fun _ _ => ⟨_, rfl, meets_value fun _ _ => ?_⟩
      exact meets_then meets_unbookShare fun _ _ _ => meets_fail _ trivial
    | .ok false => exact meets_pure _ trivial
    | .ok true =>
      refine meets_then (meets_switchToVMPath hshare hready rfl) fun handled st hst => ?_
      cases handled with
      | some s' => exact meets_pure _ trivial
      | none =>
        exact meets_ask fun _ _ => ⟨_, ⟨rfl, fun _ => hst rfl⟩,
          meets_orFail _ _ (fun _ _ => trivial) fun _ _ => trivial⟩

end Calls

section OneMoment

variable {files : List Name} {looks : Bool} {s s' : State} {source folder : Files} {j : FolderJob}

/-- A Job that has not failed. -/
def FolderJob.live (j : FolderJob) : Bool := j.phase ≠ .failed

/-- A Job that has not ended. -/
def FolderJob.works (j : FolderJob) : Bool := j.phase = .starting || j.phase = .running

/-- A copy is under way: its Job is there, or the call that found its end goes on. -/
def copying (s : State) : Bool := s.job.any FolderJob.live || s.stage = .copied

/-- A VM that has written since the copy Job was started does not stop while the copy is under
way. A VM writes during a copy only if VM pods are looked for. The Jobs of the VM path write
only to a snapshot of that path. No copy is started while a Job removes the folder. -/
def Fitting (looks : Bool) (s : State) : Event → Prop
  | .vmStops => copying s = true → s.past.length = 1
  | .write _ _ => copying s = true → looks = true
  | .applyVM _ => s.entry = some .vm
  | .copyDir _ _ _ _ => s.job = none → s.removal.any FolderJob.works = false
  | _ => True

instance (looks : Bool) (s : State) : ∀ e, Decidable (Fitting looks s e)
  | .vmStops | .write _ _ | .copyDir _ _ _ _ => inferInstanceAs (Decidable (_ → _))
  | .applyVM _ => inferInstanceAs (Decidable (_ = _))
  | .vmStarts | .create | .look _ _ | .markReady _ | .callEnds | .beginCopy | .copyFile
  | .endCopy _ | .jobGone | .toFile | .delete _ _ _ _ | .beginRemoval | .removeFile
  | .endRemoval _ | .removalGone => isTrue trivial

/-- What the pod of a Job has made, if the source stays as it is. -/
def Made (source folder : Files) (j : FolderJob) : Prop :=
  match j.phase with
  | .running => ∀ f, f ∈ j.rest ∨ folder f = source f
  | .succeeded => folder = source
  | _ => True

structure Kept (files : List Name) (looks : Bool) (s : State) : Prop where
  outside : ∀ f, f ∉ files → s.source f = none
  idle : s.entry ≠ some .file → s.stage = .asked ∧ s.job.any FolderJob.live = false
  now : copying s = true → s.past.head? = some s.source
  seen : copying s = true → s.past ≠ [s.source] → (looks && s.vm) = true
  made : ∀ j, s.job = some j → s.past = [s.source] → Made s.source s.folder j
  ended : s.stage = .copied ∨ s.stage = .clear → ∀ j, s.job = some j → j.phase = .succeeded
  copied : s.stage = .copied → s.past = [s.source] → s.folder = s.source
  clear : s.stage = .clear → s.folder ∈ s.past
  removing : s.removal.any FolderJob.works = true →
    (s.stage = .asked ∨ s.stage = .looked) ∧ s.job.any FolderJob.live = false

theorem made_of_failed (h : j.live = false) :
    Made source folder j := by
  have hphase : j.phase = .failed := by simpa [FolderJob.live] using h
  simp [Made, hphase]

theorem made_begin (h : ∀ f, f ∉ files → source f = none) :
    Made source (fun _ => none) ⟨files, .running⟩ := by
  intro f
  by_cases hf : f ∈ files
  · exact .inl hf
  · exact .inr (h f hf).symm

theorem made_copy {f : Name} {rest : List Name}
    (h : Made source folder ⟨f :: rest, .running⟩) :
    Made source (update folder f (source f)) ⟨rest, .running⟩ := by
  intro g
  have hmade : g ∈ f :: rest ∨ folder g = source g := h g
  by_cases hg : g = f
  · subst hg
    exact .inr (update_self ..)
  · rw [update_of_ne hg]
    exact hmade.imp_left (fun hmem => (mem_cons.mp hmem).resolve_left hg)

theorem made_end (h : Made source folder ⟨[], .running⟩) :
    Made source folder ⟨[], .succeeded⟩ := by
  have hmade : ∀ f, f ∈ [] ∨ folder f = source f := h
  exact funext (fun f => (hmade f).resolve_left not_mem_nil)

theorem takes_some {x : Name × FolderJob} (h : j.takes = some x) :
    ∃ f rest, j = ⟨f :: rest, .running⟩ ∧ x = (f, ⟨rest, .running⟩) := by
  obtain ⟨rest, phase⟩ := j
  cases phase <;> cases rest <;> cases h
  exact ⟨_, _, rfl, rfl⟩

theorem ends_some {ok : Bool} {k : FolderJob} (h : j.ends ok = some k) : j.works = true ∧
    ((ok = true ∧ j = ⟨[], .running⟩ ∧ k = ⟨[], .succeeded⟩) ∨
      (ok = false ∧ k = ⟨[], .failed⟩)) := by
  obtain ⟨rest, phase⟩ := j
  cases phase <;> cases ok <;> try cases h
  case running.false.refl => exact ⟨rfl, .inr ⟨rfl, rfl⟩⟩
  case running.true =>
    cases rest with
    | cons f rest => cases h
    | nil =>
      cases h
      exact ⟨rfl, .inl ⟨rfl, rfl, rfl⟩⟩

theorem copying_of_live (hj : s.job = some j) (h : j.live = true) :
    copying s = true := by
  simp [copying, hj, h]

theorem copying_of_copied (h : s.stage = .copied) : copying s = true := by
  simp [copying, h]

section Steps

variable (h : Kept files looks s) {j : FolderJob}

include h

/-- While a copy is under way something is known of the past. -/
theorem Kept.past_ne_nil (hcopy : copying s = true) : s.past ≠ [] := by
  intro hnil
  have hnow := h.now hcopy
  rw [hnil] at hnow
  cases hnow

theorem Kept.vmStarts : Kept files looks { s with vm := true } where
  __ := h
  seen hcopy hpast := by
    have hseen := h.seen hcopy hpast
    simp only [Bool.and_eq_true] at hseen ⊢
    exact ⟨hseen.1, trivial⟩

theorem Kept.vmStops (hfit : copying s = true → s.past.length = 1) :
    Kept files looks { s with vm := false } where
  __ := h
  seen hcopy hpast := by
    obtain ⟨source, hone⟩ := length_eq_one_iff.mp (hfit hcopy)
    have hnow := h.now hcopy
    rw [hone] at hnow
    cases hnow
    exact absurd hone hpast

theorem Kept.written (hfit : copying s = true → looks = true)
    {f : Name} {x : Option ℕ} (hs : write files f x s = some s') : Kept files looks s' := by
  obtain ⟨hcond, rfl⟩ := when_some hs
  obtain ⟨hvm, hf⟩ : s.vm = true ∧ f ∈ files := by simpa using hcond
  -- a write during a copy leaves two moments, so nothing is known of the folder any more
  have hlong {g : Files} (hcopy : copying s = true) : g :: s.past ≠ [g] := fun he =>
    h.past_ne_nil hcopy (cons.inj he).2
  refine ⟨?_, h.idle, fun _ => rfl, ?_, ?_, h.ended, ?_, ?_, h.removing⟩
  · intro g hg
    have hne : g ≠ f := fun he => hg (he ▸ hf)
    simpa [update_of_ne hne] using h.outside g hg
  · intro hcopy _
    simp [hfit hcopy, hvm]
  · intro j hj hpast
    cases hlive : j.live with
    | false => exact made_of_failed hlive
    | true => exact absurd hpast (hlong (copying_of_live hj hlive))
  · intro hstage hpast
    exact absurd hpast (hlong (copying_of_copied hstage))
  · intro hstage
    exact mem_cons_of_mem _ (h.clear hstage)

theorem Kept.toAsked {entry : Option Method}
    (hentry : entry ≠ some .file → s.job.any FolderJob.live = false) :
    Kept files looks { s with stage := .asked, entry := entry } where
  outside := h.outside
  idle hne := ⟨rfl, hentry hne⟩
  now hcopy := h.now (by simp_all [copying])
  seen hcopy := h.seen (by simp_all [copying])
  made := h.made
  ended hstage := by simp at hstage
  copied hstage := nomatch hstage
  clear hstage := nomatch hstage
  removing hremoving := ⟨.inl rfl, (h.removing hremoving).2⟩

theorem Kept.jobless : Kept files looks { s with job := none } where
  outside := h.outside
  idle hne := ⟨(h.idle hne).1, rfl⟩
  now hcopy := h.now (by simp_all [copying])
  seen hcopy := h.seen (by simp_all [copying])
  made _ hj := nomatch hj
  ended _ _ hj := nomatch hj
  copied := h.copied
  clear := h.clear
  removing hremoving := ⟨(h.removing hremoving).1, rfl⟩

theorem Kept.callEnds : Kept files looks { s with stage := .asked } :=
  h.toAsked (fun hne => (h.idle hne).2)

theorem Kept.created (hs : createSnapshot looks s = some s') : Kept files looks s' := by
  obtain ⟨hcond, rfl⟩ := unless_some hs
  obtain ⟨hstage, hentry⟩ : s.stage = .asked ∧ s.entry = none := by simpa using hcond
  have hne : s.entry ≠ some .file := by simp [hentry]
  exact { h with idle := fun _ => h.idle hne }

/-- A look that finds no VM at the end of a copy shows that nothing was written. -/
theorem Kept.unwritten (hstage : s.stage = .copied)
    (hlook : (looks && s.vm) = false) : s.past = [s.source] := by
  by_contra hpast
  have hseen := h.seen (copying_of_copied hstage) hpast
  exact opposed hseen hlook

theorem Kept.passed (hentry : s.entry = some .file) {stage : Stage}
    (hnext : s.stage.next = some stage) (hlook : (looks && s.vm) = false) :
    Kept files looks { s with stage := stage } := by
  have hfile : s.entry ≠ some .file → stage = .asked ∧ s.job.any FolderJob.live = false :=
    fun hne => absurd hentry hne
  cases hstage : s.stage <;> rw [hstage] at hnext <;> cases hnext
  case asked =>
    exact ⟨h.outside, hfile, fun hcopy => h.now (by simp_all [copying]),
      fun hcopy => h.seen (by simp_all [copying]), h.made, by simp, nofun, nofun,
      fun hremoving => ⟨.inr rfl, (h.removing hremoving).2⟩⟩
  case copied =>
    have hpast := h.unwritten hstage hlook
    have hfolder : s.folder ∈ s.past := by
      rw [h.copied hstage hpast, hpast]
      exact mem_singleton.mpr rfl
    refine ⟨h.outside, hfile, fun _ => h.now (copying_of_copied hstage),
      fun _ => h.seen (copying_of_copied hstage), h.made, fun _ => h.ended (.inl hstage),
      nofun, fun _ => hfolder, fun hremoving => ?_⟩
    have hearly := (h.removing hremoving).1
    simp [hstage] at hearly

theorem Kept.looked {podsGone recorded : Bool}
    (hs : switchToVMPath looks podsGone recorded s = some s') : Kept files looks s' := by
  obtain ⟨hcond, hs⟩ := ite_none_left_eq_some.mp hs
  obtain ⟨hentry, -⟩ : s.entry = some .file ∧ s.ready = false := by simpa using hcond
  obtain ⟨stage, hnext, rfl⟩ := map_eq_some_iff.mp hs
  split_ifs with hlook hstop
  · exact h.passed hentry hnext (by simpa only [Bool.not_eq_true'] using hlook)
  · have hjob : s.job = none := by simp_all
    exact h.toAsked (fun _ => by simp [hjob])
  · exact h.callEnds

theorem Kept.started (hstage : s.stage = .looked)
    (hfree : s.removal.any FolderJob.works = false) :
    Kept files looks
      { s with job := some ⟨[], .starting⟩, stage := .asked, past := [s.source] } where
  outside := h.outside
  idle hne := by
    have hasked := (h.idle hne).1
    cases hstage.symm.trans hasked
  now _ := rfl
  seen _ hpast := absurd rfl hpast
  made _ hj _ := by
    cases hj
    trivial
  ended hstage := by simp at hstage
  copied hstage := nomatch hstage
  clear hstage := nomatch hstage
  removing hremoving := opposed hremoving hfree

/-- Nothing removes the folder beside a copy Job that has not failed. -/
theorem Kept.alone (hj : s.job = some j) (hlive : j.live = true) :
    s.removal.any FolderJob.works = false := by
  by_contra hremoving
  have hjob := (h.removing (by simpa using hremoving)).2
  simp [hj, hlive] at hjob

theorem Kept.reported (hstage : s.stage = .looked)
    (hj : s.job = some j) (hphase : j.phase = .succeeded) :
    Kept files looks { s with stage := .copied } := by
  have hlive : j.live = true := by simp [FolderJob.live, hphase]
  have hcopy : copying s = true := copying_of_live hj hlive
  refine ⟨h.outside, ?_, fun _ => h.now hcopy, fun _ => h.seen hcopy, h.made, ?_, ?_, nofun,
    fun hremoving => opposed hremoving (h.alone hj hlive)⟩
  · intro hne
    have hasked := (h.idle hne).1
    cases hstage.symm.trans hasked
  · intro _ k hk
    cases hj.symm.trans hk
    exact hphase
  · intro _ hpast
    simpa [Made, hphase] using h.made j hj hpast

theorem Kept.left (cleaned : Bool)
    (hj : s.job = some j) :
    Kept files looks { s with job := if cleaned then none else some j } := by
  cases cleaned with
  | false => simpa [← hj] using h
  | true => exact h.jobless

theorem Kept.copyCall {read started cleaned deleted : Bool}
    (hfit : s.job = none → s.removal.any FolderJob.works = false)
    (hs : copyDir read started cleaned deleted s = some s') : Kept files looks s' := by
  by_cases hstage : s.stage = .looked
  case neg => simp [copyDir, hstage] at hs
  cases read with
  | false =>
    obtain rfl : { s with stage := .asked } = s' := by simpa [copyDir, hstage] using hs
    exact h.callEnds
  | true =>
    simp only [copyDir, hstage] at hs
    cases hj : s.job with
    | none =>
      simp only [hj] at hs
      cases started with
      | true =>
        cases hs
        exact h.started hstage (hfit hj)
      | false =>
        cases hs
        simpa [hj] using h.callEnds
    | some j =>
      simp only [hj] at hs
      cases hphase : j.phase with
      | starting | running =>
        simp only [hphase] at hs
        cases hs
        simpa [hj] using h.callEnds
      | succeeded =>
        simp only [hphase] at hs
        cases hs
        exact (h.reported hstage hj hphase).left cleaned hj
      | failed =>
        simp only [hphase] at hs
        cases hs
        refine (h.left cleaned hj).toAsked (fun _ => ?_)
        cases cleaned <;> simp [FolderJob.live, hphase]

theorem Kept.copies {k : FolderJob} (hj : s.job = some j) (hworks : j.works = true)
    {folder : Files} (hmade : s.past = [s.source] → Made s.source folder k) :
    Kept files looks { s with job := some k, folder := folder } := by
  have hphase : j.phase = .starting ∨ j.phase = .running := by simpa [FolderJob.works] using hworks
  have hlive : j.live = true := by
    rcases hphase with hphase | hphase <;> simp [FolderJob.live, hphase]
  have hcopy : copying s = true := copying_of_live hj hlive
  -- a call that found the end of the copy, or a snapshot of the VM path, has no such Job
  have hended : ¬ (s.stage = .copied ∨ s.stage = .clear) := by
    intro hstage
    have hsucc := h.ended hstage j hj
    rcases hphase with hphase | hphase <;> rw [hphase] at hsucc <;> cases hsucc
  refine ⟨h.outside, ?_, fun _ => h.now hcopy, fun _ => h.seen hcopy, ?_,
    fun hstage => absurd hstage hended, fun hstage => absurd (.inl hstage) hended,
    fun hstage => absurd (.inr hstage) hended,
    fun hremoving => opposed hremoving (h.alone hj hlive)⟩
  · intro hne
    have hidle := (h.idle hne).2
    simp [hj, hlive] at hidle
  · intro i hi hpast
    cases hi
    exact hmade hpast

theorem Kept.begun (hs : beginCopy files s = some s') : Kept files looks s' := by
  obtain ⟨k, hk, rfl⟩ := map_eq_some_iff.mp hs
  obtain ⟨j, hj, hbegins⟩ := bind_eq_some_iff.mp hk
  obtain ⟨hworks, rfl⟩ := when_some hbegins
  exact h.copies hj hworks (fun _ => made_begin h.outside)

theorem Kept.fileCopied (hs : copyFile s = some s') : Kept files looks s' := by
  obtain ⟨x, hx, rfl⟩ := map_eq_some_iff.mp hs
  obtain ⟨j, hj, htakes⟩ := bind_eq_some_iff.mp hx
  obtain ⟨f, rest, rfl, rfl⟩ := takes_some htakes
  exact h.copies hj rfl (fun hpast => made_copy (h.made _ hj hpast))

theorem Kept.copyEnded {ok : Bool} (hs : endCopy ok s = some s') : Kept files looks s' := by
  obtain ⟨k, hk, rfl⟩ := map_eq_some_iff.mp hs
  obtain ⟨j, hj, hends⟩ := bind_eq_some_iff.mp hk
  obtain ⟨hworks, ⟨rfl, rfl, rfl⟩ | ⟨rfl, rfl⟩⟩ := ends_some hends
  · exact h.copies hj rfl (fun hpast => made_end (h.made _ hj hpast))
  · exact h.copies hj hworks (fun _ => trivial)

theorem Kept.folderOf (hstage : s.stage = .asked ∨ s.stage = .looked)
    (hjob : s.job.any FolderJob.live = false) (folder : Files) :
    Kept files looks { s with folder := folder } where
  __ := h
  made j hj _ := by
    rw [hj] at hjob
    exact made_of_failed hjob
  copied hcopied := absurd hstage (by simp [show s.stage = .copied from hcopied])
  clear hclear := absurd hstage (by simp [show s.stage = .clear from hclear])

/-- The Job that removes the folder goes on, or is not there any more. -/
theorem Kept.removalOf {removal : Option FolderJob}
    (hworks : removal.any FolderJob.works = true → s.removal.any FolderJob.works = true ∨
      (s.stage = .asked ∧ s.job = none)) : Kept files looks { s with removal := removal } where
  __ := h
  removing hremoving := by
    rcases hworks hremoving with hold | ⟨hstage, hjob⟩
    · exact h.removing hold
    · exact ⟨.inl hstage, by simp [hjob]⟩

theorem Kept.removalRuns {r r' : FolderJob} (hr : s.removal = some r) (hworks : r.works = true)
    (folder : Files) : Kept files looks { s with removal := some r', folder := folder } := by
  have hold : s.removal.any FolderJob.works = true := by simp [hr, hworks]
  obtain ⟨hstage, hjob⟩ := h.removing hold
  exact (h.folderOf hstage hjob folder).removalOf (fun _ => .inl hold)

theorem Kept.deleted {read started cleaned deleted : Bool}
    (hs : deleteSnapshot read started cleaned deleted s = some s') : Kept files looks s' := by
  obtain ⟨hcond, hs⟩ := ite_none_left_eq_some.mp hs
  obtain ⟨⟨hstage, hjob⟩, -⟩ : (s.stage = .asked ∧ s.job = none) ∧ read = true := by
    simpa using hcond
  split at hs
  · obtain ⟨-, rfl⟩ := when_some hs
    exact h.removalOf (fun _ => .inr ⟨hstage, hjob⟩)
  · rename_i r hr
    have hleft : Kept files looks { s with removal := if cleaned then none else some r } :=
      h.removalOf (fun _ => .inr ⟨hstage, hjob⟩)
    cases hphase : r.phase with
    | starting | running =>
      simp only [hphase] at hs
      cases hs
    | succeeded =>
      simp only [hphase] at hs
      cases hs
      exact { hleft with idle := fun _ => ⟨hstage, by simp [hjob]⟩ }
    | failed =>
      simp only [hphase] at hs
      cases hs
      exact hleft

theorem Kept.removes {e : Event}
    (he : e = .beginRemoval ∨ e = .removeFile ∨ ∃ ok, e = .endRemoval ok)
    (hs : step files looks s e = some s') : Kept files looks s' := by
  obtain rfl | rfl | ⟨ok, rfl⟩ := he
  · obtain ⟨k, hk, rfl⟩ := map_eq_some_iff.mp hs
    obtain ⟨r, hr, hbegins⟩ := bind_eq_some_iff.mp hk
    exact h.removalRuns hr (when_some hbegins).1 s.folder
  · obtain ⟨x, hx, rfl⟩ := map_eq_some_iff.mp hs
    obtain ⟨r, hr, htakes⟩ := bind_eq_some_iff.mp hx
    obtain ⟨f, rest, rfl, rfl⟩ := takes_some htakes
    exact h.removalRuns hr rfl _
  · obtain ⟨k, hk, rfl⟩ := map_eq_some_iff.mp hs
    obtain ⟨r, hr, hends⟩ := bind_eq_some_iff.mp hk
    exact h.removalRuns hr (ends_some hends).1 s.folder

end Steps

theorem markReady_cases {saved : Bool} (hs : markReady saved s = some s') :
    s.stage = .clear ∧ s' = { s with ready := saved, stage := .asked } := by
  obtain ⟨hstage, rfl⟩ := unless_some hs
  exact ⟨by simpa using hstage, rfl⟩

theorem step_kept (s : State) (e : Event) (s' : State) (hfit : Fitting looks s e)
    (h : Kept files looks s) (hs : step files looks s e = some s') : Kept files looks s' := by
  cases e with
  | vmStarts => cases hs; exact h.vmStarts
  | write f x => exact h.written hfit hs
  | vmStops => cases hs; exact h.vmStops hfit
  | create => exact h.created hs
  | look podsGone recorded => exact h.looked hs
  | copyDir read started cleaned deleted => exact h.copyCall hfit hs
  | markReady saved =>
    obtain ⟨-, rfl⟩ := markReady_cases hs
    exact { h.callEnds with }
  | callEnds => cases hs; exact h.callEnds
  | beginCopy => exact h.begun hs
  | copyFile => exact h.fileCopied hs
  | endCopy ok => exact h.copyEnded hs
  | jobGone => cases hs; exact h.jobless
  | toFile =>
    obtain ⟨-, rfl⟩ := when_some hs
    exact { h with idle := fun hne => absurd rfl hne }
  | applyVM made =>
    cases hs
    have hvm : s.entry = some .vm := hfit
    obtain ⟨hstage, hjob⟩ := h.idle (by simp [hvm])
    exact h.folderOf (.inl hstage) hjob made
  | delete read started cleaned deleted => exact h.deleted hs
  | beginRemoval => exact h.removes (.inl rfl) hs
  | removeFile => exact h.removes (.inr (.inl rfl)) hs
  | endRemoval ok => exact h.removes (.inr (.inr ⟨ok, rfl⟩)) hs
  | removalGone =>
    cases hs
    exact h.removalOf nofun

/-- No Job and no entry yet, and only the given files in the source. -/
structure Fresh (files : List Name) (s : State) : Prop where
  outside : ∀ f, f ∉ files → s.source f = none
  job : s.job = none
  removal : s.removal = none
  stage : s.stage = .asked

theorem Fresh.kept (h : Fresh files s) : Kept files looks s := by
  have hidle : copying s = false := by simp [copying, h.job, h.stage]
  refine ⟨h.outside, fun _ => ⟨h.stage, by simp [h.job]⟩, ?_, ?_, ?_, ?_, ?_, ?_, ?_⟩
  all_goals simp [hidle, h.job, h.stage, h.removal]

/-- In every run of fitting steps, the folder of a snapshot that is marked ready is the source
as it was at one moment since its copy was started. -/
theorem ready_shows_one_moment (files : List Name) (looks : Bool) (s₀ s s' : State)
    (hs₀ : Fresh files s₀) (hrun : Run (step files looks) (Fitting looks) s₀ s)
    (hready : step files looks s (.markReady true) = some s') : s'.folder ∈ s'.past := by
  have h : Kept files looks s := hrun.keeps step_kept hs₀.kept
  obtain ⟨hstage, rfl⟩ := markReady_cases hready
  exact h.clear hstage

end OneMoment

def twoFiles : List Name := ["a".toList, "b".toList]

/-- Both files are there, no VM runs and no snapshot was asked for. -/
def atRest : State where
  source := fun f => if f ∈ twoFiles then some 0 else none
  vm := false
  job := none
  removal := none
  folder := fun _ => none
  entry := none
  ready := false
  stage := .asked
  past := []

theorem atRest_fresh : Fresh twoFiles atRest where
  outside f hf := by simp [atRest, hf]
  job := rfl
  removal := rfl
  stage := rfl

def look : Event := .look true true

def ask : Event := .copyDir true true true true

def firstCall : List Event := [.create, look, ask, .beginCopy, .copyFile]

def lastCall : List Event := [.copyFile, .endCopy true, look, ask, look]

/-- Between two looks a VM starts, writes both files and stops. -/
def passingVM : List Event :=
  [.vmStarts, .write "a".toList (some 1), .write "b".toList (some 1), .vmStops]

/-- A copy is stopped for the removal of its folder, and started again beside it. -/
def besideRemoval : List Event :=
  [.create, look, ask, .jobGone, .delete true true true true, .beginRemoval, look, ask, .beginCopy,
    .copyFile, .removeFile] ++ lastCall

/-- At every moment of the past some file was not what the folder has. -/
def mixesMoments (s : State) : Bool :=
  s.past.all (fun t => twoFiles.any (fun f => s.folder f ≠ t f))

theorem not_mem_of_mixesMoments {s : State} (h : mixesMoments s = true) : s.folder ∉ s.past := by
  intro hmem
  have hsome := all_eq_true.mp h _ hmem
  simp at hsome

/-- The first file is copied before the VM writes and the second one after it; or the first file
is removed after it was copied. -/
theorem ready_mixes_moments : [firstCall ++ passingVM ++ lastCall, besideRemoval].Forall
    fun run => ∃ s s', steps (step twoFiles true) (fun _ _ => true) run atRest = some s ∧
      step twoFiles true s (.markReady true) = some s' ∧ s'.folder ∉ s'.past := by
  have hall : ∀ run ∈ [firstCall ++ passingVM ++ lastCall, besideRemoval],
      (steps (step twoFiles true) (fun _ _ => true) run atRest).any (fun s =>
        (step twoFiles true s (.markReady true)).any mixesMoments) = true := by
    decide +kernel
  refine forall_iff_forall_mem.mpr fun run hrun => ?_
  obtain ⟨s, hs, hmark⟩ := (any_eq_true _ _).mp (hall run hrun)
  obtain ⟨s', hs', hmixes⟩ := (any_eq_true _ _).mp hmark
  exact ⟨s, s', hs, hs', not_mem_of_mixesMoments hmixes⟩

/-- The folder of the snapshot is removed, and the entry with it. -/
def removed : List Event :=
  [.delete true true true true, .beginRemoval, .removeFile, .removeFile, .endRemoval true,
    .delete true true true true]

/-- A snapshot is made, deleted and made again after a VM has written; another VM comes and
goes during the copy and writes nothing. -/
theorem ready_shows_one_moment_again : ∃ s s',
    Run (step twoFiles true) (Fitting true) atRest s ∧
      step twoFiles true s (.markReady true) = some s' ∧ s'.folder ∈ s'.past ∧
      s'.folder "a".toList = some 1 := by
  have hany : (steps (step twoFiles true) (fun s e => decide (Fitting true s e))
      (firstCall ++ lastCall ++ .markReady true :: removed ++ passingVM ++ firstCall ++
        [.vmStarts, .vmStops] ++ lastCall) atRest).any (fun s =>
      (step twoFiles true s (.markReady true)).any (fun s' =>
        s'.folder "a".toList = some 1)) = true := by
    decide +kernel
  obtain ⟨s, hs, hmark⟩ := (any_eq_true _ _).mp hany
  obtain ⟨s', hs', hone⟩ := (any_eq_true _ _).mp hmark
  have hrun : Run (step twoFiles true) (Fitting true) atRest s :=
    run_steps (fun _ _ => of_decide_eq_true) _ _ _ hs
  exact ⟨s, s', hrun, hs', ready_shows_one_moment twoFiles true atRest s s' atRest_fresh hrun hs',
    of_decide_eq_true hone⟩

end FilePool.FileSnapshots
