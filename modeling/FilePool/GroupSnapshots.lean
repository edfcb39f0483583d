import FilePool.SnapshotCalls
import FilePool.StepRuns

/-!
Snapshots of several volumes as one group. The group's record lists its members, each with
a Snapshot record of its own. A member is ready at once, is copied later, or fails; the
deletion of a member ends at once, goes on in a Job, or fails. The calls for one group are
modelled with these outcomes, one for each member that is asked for.
-/
namespace FilePool.GroupSnapshots

open UndoNames StepRuns Function

/-- A Snapshot record: whether its copy is complete, and whether its deletion has begun. -/
structure SnapshotRecord where
  ready : Bool
  going : Bool
  deriving DecidableEq, Repr

abbrev Records := Name → Option SnapshotRecord

/-- What becomes of a call that takes a member's snapshot. A call that fails leaves the
records alone, leaves the record it has made, or removes it with a failed copy. -/
inductive Taken
  | ready
  | copying
  | refused
  | left
  | dropped
  deriving DecidableEq, Repr

def Taken.fails : Taken → Bool
  | .ready | .copying => false
  | .refused | .left | .dropped => true

/-- Whether the member is ready, or an error. A complete snapshot is answered as it is. -/
def createSnapshot (o : Taken) (name : Name) (r : Records) : Except Unit Bool × Records :=
  let put (ready : Bool) : Records :=
    update r name (some ⟨ready, (r name).any SnapshotRecord.going⟩)
  if (r name).any SnapshotRecord.ready then
    if o = .refused then (.error (), r) else (.ok true, r)
  else match o with
    | .ready => (.ok true, put true)
    | .copying => (.ok false, put false)
    | .refused => (.error (), r)
    | .left => (.error (), put false)
    | .dropped => (.error (), update r name none)

inductive Removed
  | gone
  | inProgress
  | failed
  deriving DecidableEq, Repr

/-- A deletion; it reports success only when the record is gone by it. -/
def deleteSnapshot (o : Removed) (name : Name) (r : Records) : Bool × Records :=
  match r name with
  | none => (false, r)
  | some x => match o with
    | .gone => (true, update r name none)
    | .inProgress => (false, update r name (some { x with going := true }))
    | .failed => (false, r)

inductive FailurePolicy
  | abort
  | continue_
  deriving DecidableEq, Repr

inductive GroupPhase
  | pending
  | inProgress
  | complete
  | partialFailure
  | failed
  deriving DecidableEq, Repr

inductive MemberPhase
  | pending
  | creating
  | ready
  | failed
  deriving DecidableEq, Repr

structure Member where
  subVolumeName : Name
  snapshotName : Name
  phase : MemberPhase
  deriving DecidableEq, Repr

structure Group where
  poolName : Name
  failurePolicy : FailurePolicy
  phase : GroupPhase
  members : List Member
  readyCount : ℕ
  failedCount : ℕ
  deriving DecidableEq, Repr

/-- The sources are given by the names of their volumes. -/
structure GroupRequest where
  groupName : Name
  poolName : Name
  sources : List Name
  copyOrder : List Name
  failurePolicy : FailurePolicy
  deriving DecidableEq, Repr

inductive GroupErr
  | emptySourceList
  | sourceNotFound
  | otherPool
  | createRecord
  | groupFailed
  deriving DecidableEq, Repr

structure GroupResult where
  members : List Name
  readyToUse : Bool
  deriving DecidableEq, Repr

/-- The record of the group and the records of all snapshots. -/
structure State where
  group : Option Group
  records : Records

/-- The sources of the copy order first, then the others as they were given. -/
def resolveCopyOrder (sources copyOrder : List Name) : List Name :=
  let first := copyOrder.filter (· ∈ sources)
  first ++ sources.filter (· ∉ first)

def sortByName (sources : List Name) : List Name :=
  sources.insertionSort (fun a b => ¬b < a)

def orderedSources (req : GroupRequest) : List Name :=
  if req.copyOrder = [] then sortByName req.sources
  else resolveCopyOrder req.sources req.copyOrder

def snapshotNameOf (req : GroupRequest) (source : Name) : Name := req.groupName ++ ['-'] ++ source

def newMembers (req : GroupRequest) : List Member :=
  (orderedSources req).map (fun v => ⟨v, snapshotNameOf req v, .pending⟩)

/-- Every source exists and is in the pool of the group. -/
def checkSources (req : GroupRequest) (volumes : Name → Option Name) : Except GroupErr Unit :=
  (orderedSources req).forM (fun v =>
    match volumes v with
    | none => .error .sourceNotFound
    | some pool => if pool = req.poolName then .ok () else .error .otherPool)

def deleteSnapshots (removed : ℕ → Removed) : ℕ → List Name → Records → Records
  | _, [], r => r
  | j, n :: ns, r => deleteSnapshots removed (j + 1) ns (deleteSnapshot (removed j) n r).2

/-- One snapshot after another. With the policy Abort the first failure ends the loop: it
leaves the names of the snapshots that were taken until then. -/
def takeMembers (policy : FailurePolicy) (taken : ℕ → Taken) :
    ℕ → List Name → List Member → Records → List Member × Records × Option (List Name)
  | _, _, [], r => ([], r, none)
  | i, completed, m :: rest, r =>
    match createSnapshot (taken i) m.snapshotName r with
    | (.error _, r') =>
      if policy = .abort then
        ({ m with phase := .failed } :: rest.map (fun x => { x with phase := .failed }), r',
          some completed)
      else
        let later := takeMembers policy taken (i + 1) completed rest r'
        ({ m with phase := .failed } :: later.1, later.2)
    | (.ok ready, r') =>
      let later := takeMembers policy taken (i + 1) (completed ++ [m.snapshotName]) rest r'
      ({ m with phase := if ready then .ready else .creating } :: later.1, later.2)

def countPhase (p : MemberPhase) (members : List Member) : ℕ :=
  (members.filter (fun m => m.phase = p)).length

/-- The phase of a group whose members have been asked for. -/
def finalPhase (members : List Member) : GroupPhase :=
  if members.any (fun m => m.phase ≠ .ready && m.phase ≠ .failed) then .inProgress
  else if members.any (fun m => m.phase = .failed) then .partialFailure
  else .complete

def withMembers (g : Group) (members : List Member) : Group :=
  { g with
    phase := finalPhase members, members := members
    readyCount := countPhase .ready members, failedCount := countPhase .failed members }

def groupResult (g : Group) : GroupResult :=
  ⟨(g.members.filter (fun m => m.phase = .ready)).map Member.snapshotName, g.phase = .complete⟩

/-- What the surroundings decide in one call: whether the group can be read, whether the
cluster takes a new record, the pools of the sources, and the outcomes of the members. -/
structure Choices where
  readable : Bool
  creatable : Bool
  volumes : Name → Option Name
  taken : ℕ → Taken
  removed : ℕ → Removed

def newGroupSnapshot (req : GroupRequest) (c : Choices) (s : State) :
    Except GroupErr GroupResult × State :=
  let g : Group := ⟨req.poolName, req.failurePolicy, .inProgress, newMembers req, 0, 0⟩
  let taken := takeMembers req.failurePolicy c.taken 0 [] g.members s.records
  match taken.2.2 with
  | some completed =>
    (.error .groupFailed,
      ⟨some { g with
          phase := .failed, members := taken.1, readyCount := 0, failedCount := taken.1.length },
        deleteSnapshots c.removed 0 completed taken.2.1⟩)
  | none =>
    (.ok (groupResult (withMembers g taken.1)), ⟨some (withMembers g taken.1), taken.2.1⟩)

/-- The members whose copies were still running are asked for again. -/
def refreshMembers (taken : ℕ → Taken) : ℕ → List Member → Records → List Member × Records
  | _, [], r => ([], r)
  | i, m :: rest, r =>
    if m.phase = .pending || m.phase = .creating then
      let asked := createSnapshot (taken i) m.snapshotName r
      let phase := match asked.1 with
        | .error _ => .failed
        | .ok true => .ready
        | .ok false => .creating
      let later := refreshMembers taken (i + 1) rest asked.2
      ({ m with phase := phase } :: later.1, later.2)
    else
      let later := refreshMembers taken (i + 1) rest r
      (m :: later.1, later.2)

def refreshGroupSnapshot (g : Group) (c : Choices) (s : State) :
    Except GroupErr GroupResult × State :=
  let asked := refreshMembers c.taken 0 g.members s.records
  (.ok (groupResult (withMembers g asked.1)), ⟨some (withMembers g asked.1), asked.2⟩)

/-- The part of a call after it has found no group to answer from. The cluster refuses a
second record of one name. -/
def startGroupSnapshot (req : GroupRequest) (c : Choices) (s : State) :
    Except GroupErr GroupResult × State :=
  match checkSources req c.volumes with
  | .error e => (.error e, s)
  | .ok _ =>
    if s.group.isNone && c.creatable then newGroupSnapshot req c s else (.error .createRecord, s)

/-- A group that failed, or that cannot be read, is made again. -/
def createVolumeGroupSnapshot (req : GroupRequest) (c : Choices) (s : State) :
    Except GroupErr GroupResult × State :=
  if req.sources = [] then (.error .emptySourceList, s)
  else match if c.readable then s.group else none with
    | none => startGroupSnapshot req c s
    | some g =>
      if g.phase = .inProgress then refreshGroupSnapshot g c s
      else if g.phase = .complete || g.phase = .partialFailure then (.ok (groupResult g), s)
      else startGroupSnapshot req c s

/-- A member without a snapshot is passed over; an error of the deletion is only logged. -/
def deleteMember (removed : ℕ → Removed) (r : Records) (x : Member × ℕ) : Records :=
  if x.1.snapshotName = [] then r else (deleteSnapshot (removed x.2) x.1.snapshotName r).2

/-- The members of the group are deleted one after another, then its own record. A group
that cannot be read counts as deleted. -/
def deleteVolumeGroupSnapshot (readable recordGoes : Bool) (removed : ℕ → Removed) (s : State) :
    Bool × State :=
  match s.group with
  | none => (true, s)
  | some g =>
    if !readable then (true, s)
    else
      let records := g.members.zipIdx.foldl (deleteMember removed) s.records
      if recordGoes then (true, ⟨none, records⟩) else (false, ⟨some g, records⟩)

section Calls

open PoolRecords PoolWorld Threads SnapshotCalls InstantSnapshots

/-- Whether the record of a snapshot was deleted by a call. -/
def deletions : Protocol Bool Query Answer where
  answers _ _ := True
  step gone q := match q with
    | .deleteSnapshot _ => fun (r : Except ApiErr Unit) after => after = (gone || r.isOk)
    | _ => fun _ after => after = gone

theorem step_deletions (q : Query) (hq : ∀ n, q ≠ .deleteSnapshot n) (gone : Bool) (a : Answer q)
    (_ : deletions.answers q a) : deletions.step gone q a gone := by
  cases q <;> first | rfl | exact absurd rfl (hq _)

/-- The call succeeds only if it has deleted the record. -/
def Reports (p : Driver Unit) : Prop :=
  Meets deletions p (fun _ gone => gone = true) (fun _ => True) false

/-- The record goes, then the charge. -/
theorem reports_dropRecord {n pool share : Name} {gb : ℕ} : Reports (do
      Proc.orFail (fun _ => Err.api) (← PoolWorld.ask (.deleteSnapshot n))
      unbookShare pool share gb) := by
  refine meets_ask fun r _ => ⟨_, rfl, meets_value fun u hu => ?_⟩
  obtain rfl : r = .ok u := hu
  refine meets_asks step_deletions (asks_mono asks_unbookShare ?_) (fun _ => rfl) trivial
  rintro q hq n rfl
  exact hq

theorem deleteSnapshotBody_reports (cfg : ShareCreation.Config) (n : Name) :
    Reports (deleteSnapshotBody cfg n) := by
  have hcopied (s : Snapshot) : Reports (deleteCopied cfg s) := by
    have hcancel : (cancelVMSnapshotForDelete cfg s).Asks
        (fun q => ∀ n, q ≠ .deleteSnapshot n) := by
      refine asks_ite asks_pure (asks_call nofun fun f => asks_ite asks_pure ?_)
      exact asks_call nofun fun _ => asks_pure
    refine meets_bind (meets_asks step_deletions hcancel (fun _ => ?_) trivial)
    refine meets_unless trivial fun _ => meets_ask fun _ _ => ⟨_, rfl, meets_value fun p _ => ?_⟩
    refine meets_value fun share _ => ?_
    refine meets_bind (meets_asks step_deletions (asks_stopCopies fun _ => nofun) (fun _ => ?_)
      trivial)
    refine meets_ask fun _ _ => ⟨_, rfl, meets_value fun done _ => ?_⟩
    exact meets_unless trivial fun _ => reports_dropRecord
  have hinstant (s : Snapshot) : Reports (deleteInstantSnapshot cfg s) := by
    refine meets_unless trivial fun _ => meets_unless trivial fun _ => ?_
    refine meets_ask fun _ _ => ⟨_, rfl, meets_value fun p _ => ?_⟩
    refine meets_bind (meets_asks step_deletions (asks_mono (asks_deleteInstant cfg) ?_)
      (fun _ => reports_dropRecord) trivial)
    rintro q hq n rfl
    exact hq
  refine meets_ask fun _ _ => ⟨_, rfl, meets_value fun s _ => ?_⟩
  refine meets_ask fun pool _ => ⟨_, rfl, ?_⟩
  rcases pool with ⟨_ | _ | _ | _⟩ | p
  case error.notFound =>
    refine meets_ask fun r _ => ⟨_, rfl, meets_orFail _ _ (fun u hu => ?_) fun _ _ => trivial⟩
    obtain rfl : r = .ok u := hu
    rfl
  all_goals
    dsimp only
    split
    · exact hinstant s
    · exact hcopied s

end Calls

variable {o : Taken} {n name : Name} {r : Records} {removed : ℕ → Removed}

theorem createSnapshot_other (o : Taken) (r : Records) (h : n ≠ name) :
    (createSnapshot o name r).2 n = r n := by
  unfold createSnapshot
  split
  · split <;> rfl
  · cases o <;> simp [h]

theorem createSnapshot_keeps_ready (o : Taken) (name : Name)
    (h : (r n).any SnapshotRecord.ready = true) :
    ((createSnapshot o name r).2 n).any SnapshotRecord.ready = true := by
  by_cases hn : n = name
  · subst hn
    unfold createSnapshot
    rw [if_pos h]
    split <;> exact h
  · rw [createSnapshot_other o r hn]
    exact h

theorem createSnapshot_ready (h : (createSnapshot o name r).1 = .ok true) :
    ((createSnapshot o name r).2 name).any SnapshotRecord.ready = true := by
  unfold createSnapshot at h ⊢
  split
  · rename_i hr
    split <;> exact hr
  · rename_i hr
    rw [if_neg hr] at h
    cases o <;> simp at h ⊢

theorem createSnapshot_succeeds (name : Name) (r : Records) (h : o.fails = false) :
    ∃ ready, (createSnapshot o name r).1 = .ok ready := by
  unfold createSnapshot
  cases o <;> simp [Taken.fails] at h <;> split <;> simp

/-- A call that fails makes no record, unless it leaves one behind. -/
theorem createSnapshot_no_record {e : Unit} (ho : o ≠ .left)
    (h : (createSnapshot o name r).1 = .error e)
    (hn : (createSnapshot o name r).2 n ≠ none) : r n ≠ none := by
  by_cases heq : n = name
  · subst heq
    unfold createSnapshot at h hn
    split at h
    · rename_i hr
      intro hnone
      rw [hnone] at hr
      cases hr
    · rename_i hr
      cases o <;> simp_all
  · rwa [createSnapshot_other o r heq] at hn

/-- The record, if there is one, is being deleted. -/
def Going (r : Records) (n : Name) : Prop := ∀ x, r n = some x → x.going = true

theorem deleteSnapshot_other (o : Removed) (r : Records) (h : n ≠ name) :
    (deleteSnapshot o name r).2 n = r n := by
  unfold deleteSnapshot
  split
  · rfl
  · cases o <;> simp [h]

theorem deleteSnapshot_going {o : Removed} (ho : o ≠ .failed) (name : Name) (r : Records) :
    Going (deleteSnapshot o name r).2 name := by
  intro x hx
  unfold deleteSnapshot at hx
  split at hx
  · rename_i hnone
    exact absent hnone hx
  · cases o <;> simp at hx ho
    rw [← hx]

theorem deleteSnapshot_keeps_going {o : Removed} (ho : o ≠ .failed) (name : Name)
    (h : Going r n) : Going (deleteSnapshot o name r).2 n := by
  by_cases hn : n = name
  · subst hn
    exact deleteSnapshot_going ho n r
  · intro x hx
    rw [deleteSnapshot_other o r hn] at hx
    exact h x hx

theorem deleteSnapshots_keeps_going (ho : ∀ j, removed j ≠ .failed)
    (j : ℕ) (ns : List Name) (r : Records) (h : Going r n) :
    Going (deleteSnapshots removed j ns r) n := by
  induction ns generalizing j r with
  | nil => exact h
  | cons m ns ih => exact ih (j + 1) _ (deleteSnapshot_keeps_going (ho j) m h)

/-- Deletions that do not fail leave no record whose deletion has not begun. -/
theorem deleteSnapshots_going (ho : ∀ j, removed j ≠ .failed)
    (j : ℕ) (ns : List Name) (r : Records) (hn : n ∈ ns) :
    Going (deleteSnapshots removed j ns r) n := by
  induction ns generalizing j r with
  | nil => cases hn
  | cons m ns ih =>
    rcases List.mem_cons.mp hn with rfl | hn
    · exact deleteSnapshots_keeps_going ho (j + 1) ns _ (deleteSnapshot_going (ho j) n r)
    · exact ih (j + 1) _ hn

/-- Some deletion of the snapshot ends with the record gone. -/
def DeletionEnds (removed : ℕ → Removed) (members : List (Member × ℕ)) (n : Name) : Prop :=
  ∃ x ∈ members, x.1.snapshotName = n ∧ n ≠ [] ∧ removed x.2 = .gone

theorem deleteSnapshot_none {o : Removed} :
    (deleteSnapshot o name r).2 n = none ↔ r n = none ∨ (n = name ∧ o = .gone) := by
  by_cases hn : n = name
  · subst hn
    unfold deleteSnapshot
    split
    · rename_i h
      simp [h]
    · rename_i x h
      cases o <;> simp [h]
  · rw [deleteSnapshot_other o r hn]
    simp [hn]

theorem deleteMember_none {x : Member × ℕ} :
    deleteMember removed r x n = none ↔
      r n = none ∨ (x.1.snapshotName = n ∧ n ≠ [] ∧ removed x.2 = .gone) := by
  unfold deleteMember
  split
  · rename_i hempty
    refine ⟨.inl, fun h => h.elim id ?_⟩
    rintro ⟨rfl, hne, _⟩
    exact absurd hempty hne
  · rename_i hne
    rw [deleteSnapshot_none]
    refine or_congr_right ⟨?_, ?_⟩
    · rintro ⟨rfl, hgone⟩
      exact ⟨rfl, hne, hgone⟩
    · rintro ⟨rfl, _, hgone⟩
      exact ⟨rfl, hgone⟩

/-- After the loop a record is gone exactly when it was not there or a deletion of it ends. -/
theorem deleteMembers_none {members : List (Member × ℕ)} :
    members.foldl (deleteMember removed) r n = none ↔
      r n = none ∨ DeletionEnds removed members n := by
  induction members generalizing r with
  | nil => simp [DeletionEnds]
  | cons x members ih =>
    rw [List.foldl_cons, ih, deleteMember_none]
    simp [DeletionEnds, or_assoc]

/-- What the call has to keep to for the members of a group: success only when no record of
a member is left, and otherwise an error and the group's record as it was. -/
def DeletesAll (g : Group) (answer : Bool × State) : Prop :=
  (∀ m ∈ g.members, answer.2.records m.snapshotName = none) ∨
    (answer.1 = false ∧ answer.2.group = some g)

/-- What it takes: a group that cannot be read has no record of a member; of a group that is
read every record's deletion ends, or the deletion of its own record is refused. -/
def Deletable (readable recordGoes : Bool) (removed : ℕ → Removed) (g : Group) (r : Records) :
    Prop :=
  ∀ m ∈ g.members, r m.snapshotName ≠ none →
    readable = true ∧
      (recordGoes = false ∨ DeletionEnds removed g.members.zipIdx m.snapshotName)

theorem group_deleted_with_members (readable recordGoes : Bool) (removed : ℕ → Removed)
    (g : Group) (r : Records) :
    DeletesAll g (deleteVolumeGroupSnapshot readable recordGoes removed ⟨some g, r⟩) ↔
      Deletable readable recordGoes removed g r := by
  have hloop (m : Member) : g.members.zipIdx.foldl (deleteMember removed) r m.snapshotName = none ↔
      r m.snapshotName = none ∨ DeletionEnds removed g.members.zipIdx m.snapshotName :=
    deleteMembers_none
  cases readable with
  | false =>
    -- the call succeeds at once and leaves everything as it was
    show ((∀ m ∈ g.members, r m.snapshotName = none) ∨ (true = false ∧ _)) ↔ _
    simp [Deletable]
  | true =>
    cases recordGoes with
    | false =>
      show ((∀ m ∈ g.members,
        g.members.zipIdx.foldl (deleteMember removed) r m.snapshotName = none) ∨
          (false = false ∧ some g = some g)) ↔ _
      simp [Deletable]
    | true =>
      show ((∀ m ∈ g.members,
        g.members.zipIdx.foldl (deleteMember removed) r m.snapshotName = none) ∨
          (true = false ∧ _)) ↔ _
      simp only [hloop, Deletable]
      refine ⟨fun h m hm hr => ⟨trivial, .inr ?_⟩, fun h => .inl (fun m hm => ?_)⟩
      · rcases h with h | h
        · exact (h m hm).resolve_left hr
        · cases h.1
      · by_cases hr : r m.snapshotName = none
        · exact .inl hr
        · exact .inr ((h m hm hr).2.resolve_left nofun)

/-- A group of one member, whose snapshot is complete. -/
def oneMember : Group :=
  ⟨['p'], .abort, .complete, [⟨['a'], ['g', '-', 'a'], .ready⟩], 1, 0⟩

/-- The member's folder is removed by a Job, so its first deletion is in progress: the group
is reported as deleted, and its record is gone, while the member's record is still there. -/
theorem group_deleted_before_members :
    ¬DeletesAll oneMember (deleteVolumeGroupSnapshot true true (fun _ => .inProgress)
      ⟨some oneMember, fun _ => some ⟨true, false⟩⟩) := by
  rintro (h | h)
  · exact absurd (h _ (List.mem_singleton_self _)) (by decide)
  · cases h.1

end FilePool.GroupSnapshots
