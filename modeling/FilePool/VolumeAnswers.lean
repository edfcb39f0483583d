import FilePool.StepRuns
import FilePool.VolumeCalls

/-!
The driver's answers to repeated calls for one volume. The driver looks for the record of the
volume first and answers from it; otherwise it asks the pool manager, which looks for the
record again, or makes it. A call may stop at any point, and its answer may be lost.
-/
namespace FilePool.VolumeAnswers

open UndoNames PoolRecords PoolWorld VolumeCalls StepRuns List Option

inductive Source
  | none
  | snapshot (name : Name)
  | volume (name : Name)
  deriving DecidableEq, Repr

structure VolumeRequest where
  alloc : AllocationRequest
  source : Source
  deriving DecidableEq, Repr

/-- The volume of an answer. An empty name stands for an entry of the context that is not
there; the servers are those of the zones. -/
structure Volume where
  volumeID : Name
  capacityBytes : ℕ
  server : Name
  share : Name
  subDir : Name
  pool : Name
  shareID : Name
  permissions : Name
  uid : Option ℤ
  gid : Option ℤ
  servers : Name → Option Name
  topology : List Name
  source : Source

def volumeIDOf (pool shareID name : Name) : Name := pool ++ '/' :: shareID ++ '/' :: name

/-- The answer for a record that the driver has found. -/
def subVolumeToCSIVolume (v : SubVolume) : Volume :=
  { volumeID := volumeIDOf v.poolName v.shareID v.name, capacityBytes := v.requestedGB * 2 ^ 30
    server := v.shareMountTargetIP, share := v.shareExportPath, subDir := v.subPath
    pool := v.poolName, shareID := v.shareID, permissions := v.permissions, uid := v.uid
    gid := v.gid, servers := fun _ => none, topology := [], source := .none }

def serversOf (targets : List (Name × Name)) : Name → Option Name :=
  targets.foldl (fun f t => Function.update f t.1 (some t.2)) (fun _ => none)

/-- The answer from what the pool manager returns. A volume with a content source gets
neither an owner nor zones. -/
def volumeOf (req : VolumeRequest) (result : AllocationResult) : Volume :=
  let plain := req.source = .none
  { volumeID := volumeIDOf req.alloc.poolName result.shareID req.alloc.pvName
    capacityBytes := req.alloc.requestedGB * 2 ^ 30
    server := result.mountTargetIP, share := result.sharePath, subDir := result.subPath
    pool := req.alloc.poolName, shareID := result.shareID
    permissions := if plain then result.permissions else []
    uid := if plain then result.uid else none
    gid := if plain then result.gid else none
    servers := if plain then serversOf result.mountTargets else fun _ => none
    topology := if plain then
      if result.accessibleZones = [] then [req.alloc.zone] else result.accessibleZones else []
    source := req.source }

/-- What one call meets: whether the reads of the record succeed, whether the checks of the
driver pass, the pool, whether the source can be used, the share with its pool, whether the
directory and the record are made, whether the copy of a snapshot has ended and is stored,
and whether the answer arrives. -/
structure Env where
  driverRead : Bool
  managerRead : Bool
  checks : Bool
  pool : Option Pool
  source : Bool
  share : Option (Pool × PoolShareStatus)
  directory : Bool
  create : Bool
  copied : Bool
  answered : Bool

abbrev Outcome := Option AllocationResult × Option SubVolume

/-- A new record is refused if there is one of the name. -/
def makeRecord (env : Env) (record : Option SubVolume) (v : Pool → PoolShareStatus → SubVolume) :
    Option (Pool × PoolShareStatus × SubVolume) :=
  env.share.bind (fun p =>
    if env.create && record.isNone then some (p.1, p.2, v p.1 p.2) else none)

def allocate (req : AllocationRequest) (env : Env) (record : Option SubVolume) : Outcome :=
  match env.pool with
  | none => (none, record)
  | some pool =>
    if req.zone ≠ [] && !pool.spec.isAccessibleZone req.zone then (none, record)
    else match if env.managerRead then record else none with
      | some v => (some (subVolumeAllocationResult v), record)
      | none =>
        if pool.spec.tiers ≠ [] && req.tier = [] || !env.directory then (none, record)
        else match makeRecord env record (newSubVolume req) with
          | none => (none, record)
          | some (p, s, v) => (some (allocationResult p s v), some v)

/-- The copy of a restored volume has to end before its volume is answered. -/
def restoreSnapshot (snapshot : Name) (req : AllocationRequest) (env : Env)
    (record : Option SubVolume) : Outcome :=
  match if env.managerRead then record else none with
  | some v =>
    if v.phase = .bound || v.restoreSnapshot = [] then
      (some (subVolumeAllocationResult v), record)
    else if env.source && env.copied then
      (some (subVolumeAllocationResult v), some { v with phase := .bound })
    else (none, record)
  | none =>
    if !env.source then (none, record)
    else match makeRecord env record (fun p s =>
        { newSubVolume req p s with restoreSnapshot := snapshot, phase := .creating }) with
      | none => (none, record)
      | some (_, _, v) =>
        if env.copied then
          (some (subVolumeAllocationResult v), some { v with phase := .bound })
        else (none, some v)

def cloneVolume (source : Name) (req : AllocationRequest) (env : Env)
    (record : Option SubVolume) : Outcome :=
  match if env.managerRead then record else none with
  | some v =>
    if v.cloneStatus = .failed then (none, record)
    else (some (subVolumeAllocationResult v), record)
  | none =>
    if !env.source then (none, record)
    else match makeRecord env record (fun p s =>
        { newSubVolume req p s with
          cloneSource := source, sourceVolume := source, phase := .cloning
          cloneStatus := .pending }) with
      | none => (none, record)
      | some (_, _, v) => (some (subVolumeAllocationResult v), some v)

def askManager (req : VolumeRequest) (env : Env) (record : Option SubVolume) : Outcome :=
  match req.source with
  | .none => allocate req.alloc env record
  | .snapshot name => restoreSnapshot name req.alloc env record
  | .volume name => cloneVolume name req.alloc env record

/-- The driver's call: its answer and the record after it. -/
def createVolume (req : VolumeRequest) (env : Env) (record : Option SubVolume) :
    Option Volume × Option SubVolume :=
  let manager :=
    if !env.checks then (none, record)
    else
      let outcome := askManager req env record
      (outcome.1.map (volumeOf req), outcome.2)
  match if env.driverRead then record else none with
  | none => manager
  | some v =>
    if v.cloneStatus = .failed then (none, record)
    else if req.source = .none then (some (subVolumeToCSIVolume v), record)
    else manager

/-- An answer, with what its call met and the record before the call. -/
structure Answered where
  env : Env
  before : Option SubVolume
  volume : Volume

/-- The record and the answers that arrived. -/
structure State where
  record : Option SubVolume
  answers : List Answered

/-- One of the identical calls, or the worker that copies a clone writes its status. -/
inductive Event
  | call (env : Env)
  | worker (phase : VolumePhase) (status : CloneStatus)

def step (req : VolumeRequest) (s : State) : Event → Option State
  | .call env =>
    let called := createVolume req env s.record
    let arrived := if env.answered then called.1 else none
    some ⟨called.2, s.answers ++ (arrived.map (fun a => ⟨env, s.record, a⟩)).toList⟩
  | .worker phase status =>
    s.record.map (fun v => { s with
      record := some { v with phase := phase, cloneStatus := status } })

variable {req : VolumeRequest} {record : Option SubVolume} {v : SubVolume} {v' : SubVolume}
  {env : Env}

/-- The call makes the record in a pool with accessor zones, on a share with mount targets. -/
def Zoned (env : Env) (record : Option SubVolume) : Prop :=
  record = none ∧ ∃ p s, env.share = some (p, s) ∧ p.spec.accessorZones ≠ [] ∧ s.mountTargets ≠ []

/-- What the pool manager returns for a record: the zones are those of a new record. -/
def ResultFor (req : VolumeRequest) (env : Env) (record : Option SubVolume) (v : SubVolume)
    (result : AllocationResult) : Prop :=
  ∃ targets zones, result =
      { subVolumeAllocationResult v with mountTargets := targets, accessibleZones := zones } ∧
    (req.source = .none → Zoned env record → targets ≠ []) ∧
    ((req.source = .none → ¬Zoned env record) → targets = [] ∧ zones = [])

/-- Only the status of the record differs. -/
def Same (v v' : SubVolume) : Prop :=
  ∃ phase status, v' = { v with phase := phase, cloneStatus := status }

theorem Same.refl (v : SubVolume) : Same v v := ⟨v.phase, v.cloneStatus, rfl⟩

/-- What a call does: a record stays, and what is answered is right for the record. -/
structure Answers {α : Type} (right : SubVolume → α → Prop) (record : Option SubVolume)
    (o : Option α × Option SubVolume) : Prop where
  stays : ∀ v, record = some v → ∃ v', o.2 = some v' ∧ Same v v'
  answers : ∀ a, o.1 = some a → ∃ v, o.2 = some v ∧ right v a

theorem answers_error {α : Type} {right : SubVolume → α → Prop} :
    Answers right record (none, record) :=
  ⟨fun v hv => ⟨v, hv, Same.refl v⟩, nofun⟩

abbrev Manages (req : VolumeRequest) (env : Env) (record : Option SubVolume) : Outcome → Prop :=
  Answers (ResultFor req env record) record

/-- A result without zones is right for a record that was there, or has a content source. -/
theorem resultFor_record (h : req.source = .none → ¬Zoned env record) :
    ResultFor req env record v (subVolumeAllocationResult v) :=
  ⟨[], [], rfl, fun hplain hzoned => absurd hzoned (h hplain), fun _ => ⟨rfl, rfl⟩⟩

theorem not_zoned (hv : record = some v) : ¬Zoned env record :=
  fun h => absent h.1 hv

theorem manages_found (hv : record = some v) (hsame : Same v v') :
    Manages req env record (some (subVolumeAllocationResult v'), some v') := by
  refine ⟨fun u hu => ⟨v', rfl, ?_⟩, fun result h => ?_⟩
  · cases hv.symm.trans hu
    exact hsame
  · cases h
    exact ⟨v', rfl, resultFor_record fun _ => not_zoned hv⟩

theorem makeRecord_some {f : Pool → PoolShareStatus → SubVolume} {p : Pool}
    {s : PoolShareStatus} (h : makeRecord env record f = some (p, s, v)) :
    record = none ∧ env.share = some (p, s) ∧ v = f p s := by
  obtain ⟨q, hshare, hq⟩ := bind_eq_some_iff.mp h
  obtain ⟨hnone, heq⟩ := when_some hq
  cases heq
  exact ⟨isNone_iff_eq_none.mp (Bool.and_eq_true_iff.mp hnone).2, hshare, rfl⟩

theorem manages_made (hnone : record = none) {result : AllocationResult}
    (hresult : ResultFor req env record v result) :
    Manages req env record (some result, some v) := by
  refine ⟨fun u hu => absent hnone hu, fun result' h => ?_⟩
  cases h
  exact ⟨v, rfl, hresult⟩

/-- The answer for a new record names the zones of its pool and the servers of its share. -/
theorem resultFor_allocationResult {p : Pool} {s : PoolShareStatus} {alloc : AllocationRequest}
    (hplain : req.source = .none) (hnone : record = none) (hshare : env.share = some (p, s)) :
    ResultFor req env record (newSubVolume alloc p s)
      (allocationResult p s (newSubVolume alloc p s)) := by
  refine ⟨_, _, rfl, fun _ hzoned => ?_, fun hno => ?_⟩
  · obtain ⟨-, p', s', hshare', hzones, htargets⟩ := hzoned
    cases hshare.symm.trans hshare'
    simp [hzones, htargets]
  · have hz : ¬(p.spec.accessorZones ≠ [] ∧ s.mountTargets ≠ []) :=
      fun h => hno hplain ⟨hnone, p, s, hshare, h.1, h.2⟩
    simp only [Bool.and_eq_true, decide_eq_true_eq, if_neg hz, and_self]

theorem manages_allocate (hplain : req.source = .none) :
    Manages req env record (allocate req.alloc env record) := by
  unfold allocate
  split
  · exact answers_error
  · split
    · exact answers_error
    · split
      · rename_i v hv
        obtain ⟨_, rfl⟩ := ite_none_right_eq_some.mp hv
        exact manages_found rfl (Same.refl v)
      · split
        · exact answers_error
        · split
          · exact answers_error
          · rename_i p s v hmade
            obtain ⟨hnone, hshare, rfl⟩ := makeRecord_some hmade
            exact manages_made hnone (resultFor_allocationResult hplain hnone hshare)

theorem manages_restoreSnapshot {snapshot : Name} (hsource : req.source ≠ .none) :
    Manages req env record (restoreSnapshot snapshot req.alloc env record) := by
  unfold restoreSnapshot
  split
  · rename_i v hv
    obtain ⟨_, rfl⟩ := ite_none_right_eq_some.mp hv
    split
    · exact manages_found rfl (Same.refl v)
    · split
      · exact manages_found rfl ⟨.bound, v.cloneStatus, rfl⟩
      · exact answers_error
  · split
    · exact answers_error
    · split
      · exact answers_error
      · rename_i p s v hmade
        obtain ⟨hnone, -, -⟩ := makeRecord_some hmade
        split
        · exact manages_made hnone (resultFor_record fun h => absurd h hsource)
        · exact ⟨fun u hu => absent hnone hu, nofun⟩

theorem manages_cloneVolume {source : Name} (hsource : req.source ≠ .none) :
    Manages req env record (cloneVolume source req.alloc env record) := by
  unfold cloneVolume
  split
  · rename_i v hv
    obtain ⟨_, rfl⟩ := ite_none_right_eq_some.mp hv
    split
    · exact answers_error
    · exact manages_found rfl (Same.refl v)
  · split
    · exact answers_error
    · split
      · exact answers_error
      · rename_i p s v hmade
        obtain ⟨hnone, -, -⟩ := makeRecord_some hmade
        exact manages_made hnone (resultFor_record fun h => absurd h hsource)

theorem manages_askManager : Manages req env record (askManager req env record) := by
  unfold askManager
  split
  · rename_i hplain
    exact manages_allocate hplain
  · rename_i hsource
    exact manages_restoreSnapshot (by simp [hsource])
  · rename_i hsource
    exact manages_cloneVolume (by simp [hsource])

/-- The driver's own read finds the record. -/
def Stored (env : Env) (record : Option SubVolume) : Prop :=
  env.driverRead = true ∧ record ≠ none

/-- The answer for a plain volume whose record the driver has found is made from the record,
any other one from what the pool manager returns. -/
structure AnswerFor (req : VolumeRequest) (env : Env) (record : Option SubVolume) (v : SubVolume)
    (volume : Volume) : Prop where
  stored : req.source = .none → Stored env record → volume = subVolumeToCSIVolume v
  asked : (req.source = .none → ¬Stored env record) →
    ∃ result, ResultFor req env record v result ∧ volume = volumeOf req result

theorem AnswerFor.same {volume : Volume} (h : AnswerFor req env record v volume)
    (hsame : Same v v') : AnswerFor req env record v' volume := by
  obtain ⟨phase, status, rfl⟩ := hsame
  exact ⟨h.stored, h.asked⟩

theorem answers_createVolume :
    Answers (AnswerFor req env record) record (createVolume req env record) := by
  have hmanager (hasked : req.source = .none → ¬Stored env record) :
      Answers (AnswerFor req env record) record (if !env.checks then (none, record) else
        ((askManager req env record).1.map (volumeOf req), (askManager req env record).2)) := by
    split
    · exact answers_error
    · have h : Manages req env record (askManager req env record) := manages_askManager
      refine ⟨h.stays, fun volume hvolume => ?_⟩
      obtain ⟨result, hresult, rfl⟩ := map_eq_some_iff.mp hvolume
      obtain ⟨v, hv, hfor⟩ := h.answers result hresult
      exact ⟨v, hv, fun hplain hstored => absurd hstored (hasked hplain),
        fun _ => ⟨result, hfor, rfl⟩⟩
  unfold createVolume
  dsimp only
  split
  · rename_i hread
    refine hmanager fun _ hstored => hstored.2 ?_
    rwa [if_pos hstored.1] at hread
  · rename_i v hv
    obtain ⟨hread, rfl⟩ := ite_none_right_eq_some.mp hv
    split
    · exact answers_error
    · split
      · rename_i hplain
        refine ⟨fun u hu => ⟨u, hu, Same.refl u⟩, fun volume hvolume => ?_⟩
        cases hvolume
        exact ⟨v, rfl, fun _ _ => rfl, fun h => absurd ⟨hread, nofun⟩ (h hplain)⟩
      · rename_i hsource
        exact hmanager fun hplain => absurd hplain hsource

/-- Every answer is that of the record, and only one comes from a call that found none. -/
structure Kept (req : VolumeRequest) (s : State) : Prop where
  answers : ∀ x ∈ s.answers, ∃ v, s.record = some v ∧ AnswerFor req x.env x.before v x.volume
  once : ∀ x ∈ s.answers, ∀ y ∈ s.answers, x.before = none → y.before = none → x = y

theorem step_kept {s s' : State} {e : Event} (h : Kept req s) (hstep : step req s e = some s') :
    Kept req s' := by
  cases e with
  | worker phase status =>
    obtain ⟨v, hv, rfl⟩ := map_eq_some_iff.mp hstep
    refine ⟨fun x hx => ?_, h.once⟩
    obtain ⟨u, hu, hx⟩ := h.answers x hx
    cases hv.symm.trans hu
    exact ⟨_, rfl, hx.same ⟨phase, status, rfl⟩⟩
  | call env =>
    cases hstep
    have hcall : Answers (AnswerFor req env s.record) s.record (createVolume req env s.record) :=
      answers_createVolume
    have hnew {x : Answered}
        (hx : x ∈ ((if env.answered then (createVolume req env s.record).1 else none).map
          (fun a => (⟨env, s.record, a⟩ : Answered))).toList) :
        x.env = env ∧ x.before = s.record ∧
          (createVolume req env s.record).1 = some x.volume := by
      obtain ⟨a, ha, rfl⟩ := map_eq_some_iff.mp (mem_toList.mp hx)
      exact ⟨rfl, rfl, (ite_none_right_eq_some.mp ha).2⟩
    -- a call that finds no record is the first one that is answered
    have hfirst {y : Answered} (hy : y ∈ s.answers) : s.record ≠ none := by
      obtain ⟨v, hv, -⟩ := h.answers y hy
      simp [hv]
    refine ⟨fun x hx => ?_, fun x hx y hy hxnone hynone => ?_⟩
    · rcases mem_append.mp hx with hx | hx
      · obtain ⟨v, hv, hfor⟩ := h.answers x hx
        obtain ⟨v', hv', hsame⟩ := hcall.stays v hv
        exact ⟨v', hv', hfor.same hsame⟩
      · obtain ⟨henv, hbefore, hvolume⟩ := hnew hx
        rw [henv, hbefore]
        exact hcall.answers _ hvolume
    · rcases mem_append.mp hx with hx | hx <;> rcases mem_append.mp hy with hy | hy
      · exact h.once x hx y hy hxnone hynone
      · exact absurd ((hnew hy).2.1.symm.trans hynone) (hfirst hx)
      · exact absurd ((hnew hx).2.1.symm.trans hxnone) (hfirst hy)
      · obtain ⟨a, ha, rfl⟩ := map_eq_some_iff.mp (mem_toList.mp hx)
        obtain ⟨b, hb, rfl⟩ := map_eq_some_iff.mp (mem_toList.mp hy)
        rw [Option.some.inj (ha.symm.trans hb)]

/-- The driver's own read of the record answers both calls or neither, and in the second case
both make the record with zones or neither does; or the volume has a content source. -/
def Agree (req : VolumeRequest) (x y : Answered) : Prop :=
  req.source ≠ .none ∨ (Stored x.env x.before ∧ Stored y.env y.before) ∨
    (¬Stored x.env x.before ∧ ¬Stored y.env y.before ∧
      (Zoned x.env x.before ↔ Zoned y.env y.before))

theorem serversOf_ne {targets : List (Name × Name)} (h : targets ≠ []) :
    serversOf targets ≠ fun _ => none := by
  rcases eq_nil_or_concat targets with hnil | ⟨init, last, rfl⟩
  · exact absurd hnil h
  · intro heq
    have hlast := congrFun heq last.1
    simp [serversOf] at hlast

/-- Only the pool manager's answers name a topology. -/
theorem stored_ne (hplain : req.source = .none) (result : AllocationResult) :
    subVolumeToCSIVolume v ≠ volumeOf req result := by
  intro heq
  have htopology := congrArg Volume.topology heq
  simp only [volumeOf, hplain, if_true] at htopology
  split at htopology
  · cases htopology
  · exact absurd htopology.symm ‹_›

/-- Only the call that makes the record with zones names servers of zones. -/
theorem servers_answer {result : AllocationResult} (hplain : req.source = .none)
    (h : ResultFor req env record v result) :
    (volumeOf req result).servers = (fun _ => none) ↔ ¬Zoned env record := by
  obtain ⟨targets, zones, rfl, hzoned, hnot⟩ := h
  simp only [volumeOf, hplain, if_true]
  constructor
  · exact fun hservers hz => serversOf_ne (hzoned hplain hz) hservers
  · intro hz
    rw [(hnot fun _ => hz).1]
    rfl

/-- Results without zones are alike. -/
theorem ResultFor.eq {result result' : AllocationResult} {x y : Answered}
    (h : ResultFor req x.env x.before v result) (h' : ResultFor req y.env y.before v result')
    (hx : req.source = .none → ¬Zoned x.env x.before)
    (hy : req.source = .none → ¬Zoned y.env y.before) : result = result' := by
  obtain ⟨targets, zones, rfl, -, hnot⟩ := h
  obtain ⟨targets', zones', rfl, -, hnot'⟩ := h'
  obtain ⟨rfl, rfl⟩ := hnot hx
  obtain ⟨rfl, rfl⟩ := hnot' hy
  rfl

/-- Two answers from the pool manager agree if both are of the call that makes the record
with zones, or neither is. -/
theorem manager_answers_iff {result result' : AllocationResult} {x y : Answered}
    (hplain : req.source = .none) (h : ResultFor req x.env x.before v result)
    (h' : ResultFor req y.env y.before v result')
    (hone : Zoned x.env x.before → Zoned y.env y.before →
      volumeOf req result = volumeOf req result') :
    volumeOf req result = volumeOf req result' ↔
      (Zoned x.env x.before ↔ Zoned y.env y.before) := by
  constructor
  · intro heq
    rw [← not_iff_not, ← servers_answer hplain h, ← servers_answer hplain h', heq]
  · intro hzoned
    by_cases hz : Zoned x.env x.before
    · exact hone hz (hzoned.mp hz)
    · rw [h.eq h' (fun _ => hz) (fun _ hy => hz (hzoned.mpr hy))]

/-- Two identical calls that succeed return the same volume exactly when what they met, and
the record before each of them, agree. -/
theorem same_volume_iff (req : VolumeRequest) (s : State)
    (hrun : Run (step req) (fun _ _ => True) ⟨none, []⟩ s) (x y : Answered)
    (hx : x ∈ s.answers) (hy : y ∈ s.answers) : x.volume = y.volume ↔ Agree req x y := by
  have hkept : Kept req s := hrun.keeps (fun _ _ _ _ h hstep => step_kept h hstep)
    ⟨by rintro _ ⟨⟩, by rintro _ ⟨⟩⟩
  obtain ⟨v, hv, hxv⟩ := hkept.answers x hx
  obtain ⟨v', hv', hyv⟩ := hkept.answers y hy
  obtain rfl : v = v' := Option.some.inj (hv.symm.trans hv')
  unfold Agree
  by_cases hplain : req.source = .none
  · by_cases hsx : Stored x.env x.before <;> by_cases hsy : Stored y.env y.before
    · exact iff_of_true ((hxv.stored hplain hsx).trans (hyv.stored hplain hsy).symm)
        (.inr (.inl ⟨hsx, hsy⟩))
    · obtain ⟨result, -, hresult⟩ := hyv.asked fun _ => hsy
      rw [hxv.stored hplain hsx, hresult]
      exact iff_of_false (stored_ne hplain result) (by simp [hplain, hsx, hsy])
    · obtain ⟨result, -, hresult⟩ := hxv.asked fun _ => hsx
      rw [hyv.stored hplain hsy, hresult]
      exact iff_of_false (stored_ne hplain result).symm (by simp [hplain, hsx, hsy])
    · obtain ⟨result, hfor, hresult⟩ := hxv.asked fun _ => hsx
      obtain ⟨result', hfor', hresult'⟩ := hyv.asked fun _ => hsy
      have hone (hzx : Zoned x.env x.before) (hzy : Zoned y.env y.before) :
          volumeOf req result = volumeOf req result' := by
        rw [← hresult, ← hresult', hkept.once x hx y hy hzx.1 hzy.1]
      rw [hresult, hresult', manager_answers_iff hplain hfor hfor' hone]
      simp [hplain, hsx, hsy]
  · obtain ⟨result, hfor, hresult⟩ := hxv.asked fun h => absurd h hplain
    obtain ⟨result', hfor', hresult'⟩ := hyv.asked fun h => absurd h hplain
    refine iff_of_true ?_ (.inl hplain)
    rw [hresult, hresult', hfor.eq hfor' (fun h => absurd h hplain) (fun h => absurd h hplain)]

/-- A pool without accessor zones, and its share. -/
def plainPool : Pool × PoolShareStatus :=
  (⟨['p'], 0, false, true,
      ⟨['z'], [], 100, 1, 1, false, 0, .spread, [], none, none, [], [], [], []⟩,
      ⟨.ready, [], 0, 0, 0, 0, []⟩⟩,
    ⟨['x'], ['s'], ['1'], ['t'], [], 100, 0, 0, .stable, [], ['z'], []⟩)

/-- A call in which everything succeeds; its answer arrives or is lost. -/
def allSucceed (answered : Bool) : Env :=
  ⟨true, true, true, some plainPool.1, true, some plainPool, true, true, true, answered⟩

def requestOf (source : Source) : VolumeRequest :=
  ⟨⟨['v'], ['c'], ['n'], ['p'], 1, ['z'], [], none, none, [], false⟩, source⟩

/-- The first answer for a plain volume has its zone and the default share path; the second
one, from the record, has no topology and an empty share path. -/
theorem repeated_answer_differs : ∃ s x y,
    Run (step (requestOf .none)) (fun _ _ => True) ⟨none, []⟩ s ∧ s.answers = [x, y] ∧
      x.volume.topology = [['z']] ∧ y.volume.topology = [] ∧
      x.volume.share = ['/'] ∧ y.volume.share = [] :=
  ⟨_, _, _, .next (.call (allSucceed true)) (.next (.call (allSucceed true)) .start trivial rfl)
    trivial rfl, rfl, rfl, rfl, rfl, rfl⟩

/-- The answer of the call that made the record is lost, and the next two calls find it; a
volume from a snapshot is answered alike by all calls. -/
theorem same_volume_iff_lost :
    (∃ s x y, Run (step (requestOf .none)) (fun _ _ => True) ⟨none, []⟩ s ∧
      s.answers = [x, y] ∧ x.volume = y.volume) ∧
    ∃ s x y, Run (step (requestOf (.snapshot ['b']))) (fun _ _ => True) ⟨none, []⟩ s ∧
      s.answers = [x, y] ∧ x.before ≠ y.before ∧ x.volume = y.volume := by
  have hplain : Run (step (requestOf .none)) (fun _ _ => True) ⟨none, []⟩ _ :=
    .next (.call (allSucceed true)) (.next (.call (allSucceed true))
      (.next (.call (allSucceed false)) .start trivial rfl) trivial rfl) trivial rfl
  have hsnapshot : Run (step (requestOf (.snapshot ['b']))) (fun _ _ => True) ⟨none, []⟩ _ :=
    .next (.call (allSucceed true)) (.next (.call (allSucceed true)) .start trivial rfl)
      trivial rfl
  refine ⟨⟨_, _, _, hplain, rfl, ?_⟩, ⟨_, _, _, hsnapshot, rfl, nofun, ?_⟩⟩
  · exact (same_volume_iff _ _ hplain _ _ (mem_cons_self ..)
      (mem_cons_of_mem _ (mem_singleton_self _))).mpr
      (.inr (.inl ⟨⟨rfl, Option.some_ne_none _⟩, ⟨rfl, Option.some_ne_none _⟩⟩))
  · exact (same_volume_iff _ _ hsnapshot _ _ (mem_cons_self ..)
      (mem_cons_of_mem _ (mem_singleton_self _))).mpr (.inl nofun)

end FilePool.VolumeAnswers
