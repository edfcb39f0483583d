import FilePool.PoolWorld

/-!
How a share is made and recorded. The create call of the VPC client takes an existing
share of the same name when it matches the request and no pool records it. Initial
provisioning, proactive expansion and the expansion inside a call use the same request.
-/
namespace FilePool.ShareCreation

open UndoNames PoolRecords PoolWorld Threads Proc

/-- How the driver was set up. -/
structure Config where
  nfsOps : Bool
  shareData : Bool
  vmSnapshots : Bool
  instantSnapshots : Bool
  network : Bool
  defaultResourceGroup : Name
  instantFileName : Name → Name
  maxSnapshots : ℕ

variable (cfg : Config)

/-- The body runs while the lock is held, and the lock is given back however it ends. -/
def locked {α : Type} (l : Lock) (body : Driver α) : Driver α := do
  ask (.lock l)
  let r ← body.attempt
  ask (.unlock l)
  match r with
  | .ok a => return a
  | .error e => fail e

def newShareInput (pool : Pool) (tier : Name) : Driver CreateShareInput := do
  let t ← orFail id (pool.spec.tierConfig tier)
  if !cfg.network then fail .networkNotSet
  else do
    orFail (fun _ => .vpc) (← ask (.network pool.spec.zone))
    let group :=
      if pool.spec.resourceGroup = [] then cfg.defaultResourceGroup else pool.spec.resourceGroup
    return ⟨nextShareName pool tier, pool.spec.zone, t.sizeGB, group, pool.spec.tags, []⟩

/-- The IDs of every share that a pool records. -/
def recordedShareIDs : Driver (List Name) := do
  let pools : List Pool ← orFail (fun _ => .api) (← ask .listPools)
  return pools.flatMap (fun p => p.status.shares.map PoolShareStatus.shareID)

/-- The share is the one that the request would have made, and no pool records it. -/
def shareMatchesRequest (s : ShareInfo) (input : CreateShareInput) : Bool :=
  s.id ∉ input.claimedShareIDs && s.zone = input.zone &&
    (input.resourceGroupID = [] || s.resourceGroupID = input.resourceGroupID) &&
    input.tags.all (fun t => t ∈ s.tags)

/-- Of several shares of one name, one that has a mount target is taken first. -/
def chooseShare : List ShareInfo → Option ShareInfo
  | [] => none
  | s :: rest => ((s :: rest).find? (fun x => x.mountTargets ≠ [])).or (some s)

def getShareByName (input : CreateShareInput) : Driver ShareInfo := do
  let named : List ShareInfo ← orFail (fun _ => .vpc) (← ask (.sharesByName input.name))
  if named = [] then fail .vpc
  else match chooseShare (named.filter (fun s => shareMatchesRequest s input)) with
    | none => fail .notOurShare
    | some s => orFail (fun _ => .vpc) (← ask (.awaitShare s.id))

def createFileShare (input : CreateShareInput) : Driver ShareInfo := do
  let made : Except VpcErr Name ← ask (.createShare input)
  match made with
  | .error .alreadyExists => getShareByName input
  | .error _ => fail .vpc
  | .ok id => orFail (fun _ => .vpc) (← ask (.awaitShare id))

def newPoolShareStatus (info : ShareInfo) (tier : Name) : PoolShareStatus :=
  let base : PoolShareStatus :=
    { shareID := info.id, shareName := info.name, mountTargetIP := [], mountTargetID := []
      exportPath := [], totalGB := info.sizeGB, allocatedGB := 0, pvcCount := 0
      state := if info.lifecycleState = .stable then .stable else .creating
      tier := tier, zone := info.zone, mountTargets := [] }
  match info.mountTargets with
  | [] => base
  | mt :: _ =>
    if mt.ipAddress = [] then base
    else { base with
      mountTargetIP := mt.ipAddress, mountTargetID := mt.id, exportPath := mt.exportPath
      mountTargets := [⟨info.zone, mt.id, mt.ipAddress, mt.exportPath⟩] }

theorem newPoolShareStatus_same (info : ShareInfo) (tier : Name) :
    (newPoolShareStatus info tier).shareID = info.id ∧
      (newPoolShareStatus info tier).shareName = info.name ∧
      (newPoolShareStatus info tier).tier = tier ∧
      (newPoolShareStatus info tier).allocatedGB = 0 ∧
      (newPoolShareStatus info tier).pvcCount = 0 := by
  unfold newPoolShareStatus
  dsimp only
  split
  · exact ⟨rfl, rfl, rfl, rfl, rfl⟩
  · split <;> exact ⟨rfl, rfl, rfl, rfl, rfl⟩

/-- A new share at the end of the pool's list. -/
def addShare (pool : Pool) (s : PoolShareStatus) (sizeGB : ℤ) : Pool :=
  { pool with status := { pool.status with
      shares := pool.status.shares ++ [s]
      shareCount := (pool.status.shares ++ [s]).length
      totalCapacityGB := pool.status.totalCapacityGB + sizeGB } }

/-- A share for the pool: the request, the shares that are taken, and the create call. -/
def requestShare (pool : Pool) (tier : Name) : Driver ShareInfo := do
  let input ← newShareInput cfg pool tier
  let claimed ← recordedShareIDs
  createFileShare { input with claimedShareIDs := claimed }

/-- The checks before a call makes a new share, and the share. -/
def expandPool (pool : Pool) (requestedGB : ℤ) (tier : Name) : Driver ShareInfo := do
  if !pool.spec.autoExpand then fail .poolExhausted
  else do
    let t ← orFail id (pool.spec.tierConfig tier)
    if pool.status.shares.any (fun s => s.tier = tier && s.state = .creating) then
      fail .poolExpanding
    else if sharesWithoutMountTarget pool.status.shares tier ≠ [] then
      fail (.noUsableShare (sharesWithoutMountTarget pool.status.shares tier))
    else if t.maxShares ≤ tierCount pool.status.shares tier then fail .poolExhausted
    else if t.sizeGB < requestedGB then fail .requestTooLarge
    else requestShare cfg pool tier

/-- The pool with the share that was made, and the share when it is ready. -/
def tryAutoExpand (pool : Pool) (requestedGB : ℤ) (tier : Name) :
    Driver (Pool × Except Err PoolShareStatus) := do
  let made ← (expandPool cfg pool requestedGB tier).attempt
  match made with
  | .error e => return (pool, .error e)
  | .ok info =>
    let share := newPoolShareStatus info tier
    let pool' := addShare pool share info.sizeGB
    return (pool', if shareReady share then .ok share else .error .poolExpanding)

/-- A new share of the reconciler. -/
def createPoolShare (pool : Pool) (tier : Name) : Driver Pool := do
  let info ← requestShare cfg pool tier
  return addShare pool (newPoolShareStatus info tier) info.sizeGB

end FilePool.ShareCreation
