import FilePool.StepRuns
import FilePool.UndoNames

/-!
The Jobs that work on shares. An operation of an object is run as a Job, which is found by
its name alone: a first call starts it, later calls tell whether it runs, is done or has
failed, and remove it in the last two cases. The name comes from the kind of the operation
and the name of the object.
-/
namespace FilePool.ShareJobs

open UndoNames StepRuns Function

def shareJobNameMax : ℕ := 56

/-- A key that is too long is cut, and eight digits of its digest are added. -/
def shareJobName (digest : Name → Name) (key : Name) : Name :=
  let name := "share-data-".toList ++ key
  if name.length ≤ shareJobNameMax then name
  else name.take (shareJobNameMax - 9) ++ '-' :: (digest key).take 8

/-- The operations that are run as Jobs: those of a volume, of a snapshot, also of one in the
chain of a disk, of a restore of a backup, of a restore of files, of the export of a volume's
backup, of the repository of a policy's exports and of a share. -/
inductive Kind
  | removeVolume
  | restoreVolume
  | cloneVolume
  | copySnapshot
  | applyDisk
  | removeSnapshot
  | removeSource
  | takeInstant
  | mergeChain
  | restoreBackup
  | fetchBackup
  | removeScratch
  | restoreFiles
  | exportVolume
  | listExport
  | maintainRepo
  | shareUsage
  deriving DecidableEq, Repr

/-- An object and the operations it asks for, each with its source, target and parameters.
The source is the volume of a snapshot. The export of a volume has the names of the policy
and of the volume, joined by a dash. -/
structure Object (W : Type) where
  uid : Name
  name : Name
  source : Name
  work : Kind → Option W

def Kind.all : List Kind :=
  [.removeVolume, .restoreVolume, .cloneVolume, .copySnapshot, .applyDisk, .removeSnapshot,
    .removeSource, .takeInstant, .mergeChain, .restoreBackup, .fetchBackup, .removeScratch,
    .restoreFiles, .exportVolume, .listExport, .maintainRepo, .shareUsage]

theorem Kind.mem_all (k : Kind) : k ∈ Kind.all := by
  cases k <;> decide

def Kind.word : Kind → Name
  | .removeVolume | .removeSource => "rm-".toList
  | .restoreVolume | .restoreBackup => "restore-".toList
  | .cloneVolume => "clone-".toList
  | .copySnapshot => "snap-".toList
  | .applyDisk => "snapvm-".toList
  | .removeSnapshot => "rmsnap-".toList
  | .takeInstant => "chain-".toList
  | .mergeChain => "chain-rm-".toList
  | .fetchBackup => "cosfetch-".toList
  | .removeScratch => "coscleanup-".toList
  | .restoreFiles => "filerestore-".toList
  | .exportVolume => "export-".toList
  | .listExport => "exportlist-".toList
  | .maintainRepo => "exportmaint-".toList
  | .shareUsage => "usage-".toList

/-- What the word of the key is followed by. -/
def Kind.subject {W : Type} (k : Kind) (o : Object W) : Name :=
  match k with
  | .removeSource => o.source
  | .restoreFiles => o.uid
  | _ => o.name

def Kind.key {W : Type} (k : Kind) (o : Object W) : Name := k.word ++ k.subject o

variable {W : Type}

/-- What a Job is made for. -/
structure Operation (W : Type) where
  uid : Name
  kind : Kind
  work : W
  deriving DecidableEq, Repr

inductive JobPhase
  | running
  | succeeded
  | failed
  deriving DecidableEq, Repr

structure Job (W : Type) where
  madeFor : Operation W
  phase : JobPhase

def Job.ends (job : Job W) (ok : Bool) : Job W :=
  { job with phase := if ok then .succeeded else .failed }

abbrev Jobs (W : Type) := Name → Option (Job W)

/-- Which calls of the API succeed: the read of the Job, its creation, its removal. -/
structure Calls where
  read : Bool
  start : Bool
  cleanup : Bool
  deriving DecidableEq, Repr

inductive Report
  | waiting
  | error
  | done
  | failed
  deriving DecidableEq, Repr

/-- An error of the removal is only logged. -/
def cleanup (jobName : Name) (c : Calls) (jobs : Jobs W) : Jobs W :=
  if c.cleanup then update jobs jobName none else jobs

/-- Start the Job, or report on the one that has the name. -/
def runMessages (jobName : Name) (op : Operation W) (c : Calls) (jobs : Jobs W) :
    Report × Jobs W :=
  if !c.read then (.error, jobs)
  else match jobs jobName with
    | none =>
      if c.start then (.waiting, update jobs jobName (some ⟨op, .running⟩))
      else (.error, jobs)
    | some job => match job.phase with
      | .succeeded => (.done, cleanup jobName c jobs)
      | .failed => (.failed, cleanup jobName c jobs)
      | .running => (.waiting, jobs)

/-- An operation that was told done or failed, and what the Job was made for. -/
structure Told (W : Type) where
  op : Operation W
  report : Report
  madeFor : Operation W
  deriving DecidableEq

structure State (W : Type) where
  objects : Name → Option (Object W)
  jobs : Jobs W
  told : List (Told W)

def tells (r : Report) (op : Operation W) (job : Option (Job W)) : List (Told W) :=
  if r = .done || r = .failed then (job.map (fun j => ⟨op, r, j.madeFor⟩)).toList else []

/-- Objects are made, changed and deleted; an object asks for one of its operations or stops
it; Jobs end, and are removed by others. -/
inductive Event (W : Type)
  | put (o : Object W)
  | gone (uid : Name)
  | ask (uid : Name) (kind : Kind) (c : Calls)
  | stop (uid : Name) (kind : Kind)
  | ended (jobName : Name) (ok : Bool)
  | removed (jobName : Name)

def jobNameOf (digest : Name → Name) (k : Kind) (o : Object W) : Name :=
  shareJobName digest (k.key o)

def step (digest : Name → Name) (s : State W) : Event W → Option (State W)
  | .put o => some { s with objects := update s.objects o.uid (some o) }
  | .gone uid => some { s with objects := update s.objects uid none }
  | .ask uid k c =>
    (s.objects uid).bind (fun o => (o.work k).map (fun w =>
      let name := jobNameOf digest k o
      let answer := runMessages name ⟨uid, k, w⟩ c s.jobs
      { s with
        jobs := answer.2, told := s.told ++ tells answer.1 ⟨uid, k, w⟩ (s.jobs name) }))
  | .stop uid k =>
    (s.objects uid).map (fun o =>
      { s with jobs := update s.jobs (jobNameOf digest k o) none })
  | .ended name ok =>
    (s.jobs name).map (fun job =>
      { s with jobs := update s.jobs name (some (job.ends ok)) })
  | .removed name => some { s with jobs := update s.jobs name none }

variable {digest : Name → Name} {jobs : Jobs W} {objects : Name → Option (Object W)}
  {op : Operation W} {c : Calls} {s : State W} {o : Object W}

/-- No two operations that objects ask for have one Job name. -/
def Apart (digest : Name → Name) (objects : Name → Option (Object W)) : Prop :=
  ∀ uid uid' o o' k k' w w', objects uid = some o → objects uid' = some o' →
    o.work k = some w → o'.work k' = some w' →
      jobNameOf digest k o = jobNameOf digest k' o' → uid = uid' ∧ k = k'

/-- A key of this length is not cut. -/
def shortKey : ℕ := 45

/-- The names of the objects, for the operations that they ask for: the keys are short,
operations with one word have different names behind it, and no snapshot that is taken is
called as one that is merged, with rm- before it. -/
structure NamesApart (objects : Name → Option (Object W)) : Prop where
  short : ∀ uid o k w, objects uid = some o → o.work k = some w → (k.key o).length ≤ shortKey
  subjects : ∀ uid uid' o o' k k' w w', objects uid = some o → objects uid' = some o' →
    o.work k = some w → o'.work k' = some w' → k.word = k'.word → k.subject o = k'.subject o' →
      uid = uid' ∧ k = k'
  chains : ∀ uid uid' o o' w w', objects uid = some o → objects uid' = some o' →
    o.work .takeInstant = some w → o'.work .mergeChain = some w' →
      o.name ≠ "rm-".toList ++ o'.name

theorem shareJobName_short {key : Name} (h : key.length ≤ shortKey) :
    shareJobName digest key = "share-data-".toList ++ key := by
  have hlen : ("share-data-".toList ++ key).length ≤ shareJobNameMax := by
    rw [List.length_append]
    exact Nat.add_le_add_left h 11
  exact if_pos hlen

/-- No word is the beginning of another one, but for those of the chains. -/
theorem word_prefix (k k' : Kind) : k.word <+: k'.word →
    k.word = k'.word ∨ (k = .takeInstant ∧ k' = .mergeChain) := by
  have hall : ∀ k ∈ Kind.all, ∀ k' ∈ Kind.all, k.word <+: k'.word →
      k.word = k'.word ∨ (k = .takeInstant ∧ k' = .mergeChain) := by
    decide +kernel
  exact hall k k.mem_all k' k'.mem_all

/-- Two keys that agree have the same word and name, or are those of two chains. -/
theorem key_eq {k k' : Kind} {o o' : Object W} (h : k.key o = k'.key o') :
    (k.word = k'.word ∧ k.subject o = k'.subject o') ∨
      (k = .takeInstant ∧ k' = .mergeChain ∧ o.name = "rm-".toList ++ o'.name) ∨
      (k' = .takeInstant ∧ k = .mergeChain ∧ o'.name = "rm-".toList ++ o.name) := by
  unfold Kind.key at h
  have hcases {k k' : Kind} {o o' : Object W} (h : k.word ++ k.subject o = k'.word ++ k'.subject o')
      (hstarts : k.word <+: k'.word) : (k.word = k'.word ∧ k.subject o = k'.subject o') ∨
        (k = .takeInstant ∧ k' = .mergeChain ∧ o.name = "rm-".toList ++ o'.name) := by
    rcases word_prefix k k' hstarts with hword | ⟨rfl, rfl⟩
    · rw [hword] at h
      exact .inl ⟨hword, List.append_cancel_left h⟩
    · have hword : Kind.mergeChain.word = Kind.takeInstant.word ++ "rm-".toList := by
        decide +kernel
      rw [hword, List.append_assoc] at h
      exact .inr ⟨rfl, rfl, List.append_cancel_left h⟩
  have hleft : k.word <+: k'.word ++ k'.subject o' := h ▸ List.prefix_append _ _
  rcases List.prefix_or_prefix_of_prefix hleft (List.prefix_append _ _) with hstarts | hstarts
  · exact (hcases h hstarts).imp_right .inl
  · rcases hcases h.symm hstarts with ⟨hword, hsubject⟩ | hchain
    · exact .inl ⟨hword.symm, hsubject.symm⟩
    · exact .inr (.inr hchain)

theorem NamesApart.apart (h : NamesApart objects) : Apart digest objects := by
  intro uid uid' o o' k k' w w' ho ho' hw hw' hname
  unfold jobNameOf at hname
  rw [shareJobName_short (h.short _ _ _ _ ho hw), shareJobName_short (h.short _ _ _ _ ho' hw')]
    at hname
  rcases key_eq (List.append_cancel_left hname) with ⟨hword, hsubject⟩ | ⟨rfl, rfl, hrm⟩ |
    ⟨rfl, rfl, hrm⟩
  · exact h.subjects _ _ _ _ _ _ _ _ ho ho' hw hw' hword hsubject
  · exact absurd hrm (h.chains _ _ _ _ _ _ ho ho' hw hw')
  · exact absurd hrm (h.chains _ _ _ _ _ _ ho' ho hw' hw)

/-- The object asked for the operation before, under the same name and for the same work. -/
def AskedBefore (s : State W) (o : Object W) (k : Kind) (w : W) : Prop :=
  ∃ o₀, s.objects o.uid = some o₀ ∧ o₀.work k = some w ∧ k.key o₀ = k.key o

/-- When an object is made or changed, the names stay apart, and no Job is left under
the name of an operation that is new or has new work. -/
def Fitting (digest : Name → Name) (s : State W) : Event W → Prop
  | .put o => NamesApart (update s.objects o.uid (some o)) ∧ ∀ k w, o.work k = some w →
        AskedBefore s o k w ∨ s.jobs (jobNameOf digest k o) = none
  | _ => True

/-- A Job under the name of an operation was made for it. -/
def Owned (digest : Name → Name) (objects : Name → Option (Object W)) (jobs : Jobs W) : Prop :=
  ∀ uid o k w job, objects uid = some o → o.work k = some w →
    jobs (jobNameOf digest k o) = some job → job.madeFor = ⟨uid, k, w⟩

structure Kept (digest : Name → Name) (s : State W) : Prop where
  apart : Apart digest s.objects
  owned : Owned digest s.objects s.jobs
  told : ∀ t ∈ s.told, t.op = t.madeFor

theorem Owned.of_jobs {jobs' : Jobs W}
    (h : Owned digest objects jobs) (hjobs : ∀ n job', jobs' n = some job' →
      ∃ job, jobs n = some job ∧ job.madeFor = job'.madeFor) :
    Owned digest objects jobs' := by
  intro uid o k w job' ho hw hjob'
  obtain ⟨job, hjob, hmade⟩ := hjobs _ job' hjob'
  rw [← hmade]
  exact h uid o k w job ho hw hjob

theorem Owned.remove
    (h : Owned digest objects jobs) (name : Name) :
    Owned digest objects (update jobs name none) :=
  h.of_jobs (fun _ job' hjob' => ⟨job', (update_none_some hjob').2, rfl⟩)

/-- A call starts at most the Job of its own operation. -/
theorem runMessages_jobs {name n : Name}
    {job : Job W} (h : (runMessages name op c jobs).2 n = some job) :
    jobs n = some job ∨ (n = name ∧ job.madeFor = op) := by
  have hclean (hjob : cleanup name c jobs n = some job) : jobs n = some job := by
    unfold cleanup at hjob
    split at hjob
    · exact (update_none_some hjob).2
    · exact hjob
  unfold runMessages at h
  split at h
  · exact .inl h
  · split at h
    · split at h
      · rcases update_some h with ⟨hn, rfl⟩ | ⟨_, h⟩
        · exact .inr ⟨hn, rfl⟩
        · exact .inl h
      · exact .inl h
    · split at h
      · exact .inl (hclean h)
      · exact .inl (hclean h)
      · exact .inl h

theorem mem_tells {r : Report} {job : Option (Job W)} {t : Told W}
    (h : t ∈ tells r op job) : ∃ j, job = some j ∧ t.op = op ∧ t.madeFor = j.madeFor := by
  unfold tells at h
  split at h
  · obtain ⟨j, hj, rfl⟩ := Option.map_eq_some_iff.mp (Option.mem_toList.mp h)
    exact ⟨j, hj, rfl, rfl⟩
  · cases h

theorem ask_kept (h : Kept digest s) {uid : Name} {k : Kind} {w : W}
    (ho : s.objects uid = some o) (hw : o.work k = some w) :
    Kept digest
      { s with
        jobs := (runMessages (jobNameOf digest k o) ⟨uid, k, w⟩ c s.jobs).2
        told := s.told ++ tells (runMessages (jobNameOf digest k o) ⟨uid, k, w⟩ c s.jobs).1
          ⟨uid, k, w⟩ (s.jobs (jobNameOf digest k o)) } := by
  refine ⟨h.apart, fun uid' o' k' w' job ho' hw' hjob => ?_, fun t ht => ?_⟩
  · rcases runMessages_jobs hjob with hold | ⟨hname, hmade⟩
    · exact h.owned uid' o' k' w' job ho' hw' hold
    · -- the Job is new: the names are apart, so the operation is the one that asked
      obtain ⟨rfl, rfl⟩ := h.apart _ _ _ _ _ _ _ _ ho' ho hw' hw hname
      cases ho.symm.trans ho'
      rw [hw] at hw'
      cases hw'
      exact hmade
  · rcases List.mem_append.mp ht with hold | hnew
    · exact h.told t hold
    · obtain ⟨j, hj, hop, hmade⟩ := mem_tells hnew
      rw [hop, hmade]
      exact (h.owned uid o k w j ho hw hj).symm

theorem put_kept (h : Kept digest s)
    (hfit : Fitting digest s (.put o)) :
    Kept digest { s with objects := update s.objects o.uid (some o) } := by
  refine ⟨hfit.1.apart, fun uid o' k w job ho' hw hjob => ?_, h.told⟩
  rcases update_some ho' with ⟨rfl, rfl⟩ | ⟨_, ho'⟩
  · rcases hfit.2 k w hw with ⟨o₀, ho₀, hw₀, hkey⟩ | hnone
    · exact h.owned o'.uid o₀ k w job ho₀ hw₀ (by rwa [jobNameOf, hkey])
    · exact absent hnone hjob
  · exact h.owned uid o' k w job ho' hw hjob

theorem step_kept {s' : State W} {e : Event W} (hfit : Fitting digest s e)
    (h : Kept digest s) (hstep : step digest s e = some s') : Kept digest s' := by
  cases e with
  | put o =>
    cases hstep
    exact put_kept h hfit
  | gone uid =>
    cases hstep
    refine ⟨fun u u' o o' k k' w w' ho ho' => ?_, fun u o k w job ho => ?_, h.told⟩
    · exact h.apart u u' o o' k k' w w' (update_none_some ho).2 (update_none_some ho').2
    · exact h.owned u o k w job (update_none_some ho).2
  | ask uid k c =>
    obtain ⟨o, ho, hask⟩ := Option.bind_eq_some_iff.mp hstep
    obtain ⟨w, hw, rfl⟩ := Option.map_eq_some_iff.mp hask
    exact ask_kept h ho hw
  | stop uid k =>
    obtain ⟨o, _, rfl⟩ := Option.map_eq_some_iff.mp hstep
    exact ⟨h.apart, h.owned.remove _, h.told⟩
  | ended name ok =>
    obtain ⟨job, hjob, rfl⟩ := Option.map_eq_some_iff.mp hstep
    refine ⟨h.apart, h.owned.of_jobs (fun n job' hjob' => ?_), h.told⟩
    rcases update_some hjob' with ⟨rfl, rfl⟩ | ⟨_, hjob'⟩
    · exact ⟨job, hjob, rfl⟩
    · exact ⟨job', hjob', rfl⟩
  | removed name =>
    cases hstep
    exact ⟨h.apart, h.owned.remove name, h.told⟩

/-- An object that asks for one operation; its work is a number. -/
def asks (uid name : Name) (kind : Kind) (work : ℕ) : Object ℕ :=
  ⟨uid, name, [], fun k => if k = kind then some work else none⟩

def allSucceed : Calls := ⟨true, true, true⟩

def restoredVolume : Object ℕ := asks ['1'] ['x'] .restoreVolume 1

def backupRestore : Object ℕ := asks ['2'] ['y'] .restoreBackup 2

end FilePool.ShareJobs
