import FilePool.SnapshotCalls

/-!
One pass of the reconciler over a pool. It reads the pool, makes the first shares, looks
at every share in the VPC, works on drain requests, counts what is on the shares again,
makes a share ahead of need, and stores the status it has worked out. A pool that is
being deleted loses its shares once no volume and no snapshot is left.
-/
namespace FilePool.PoolReconciler

open UndoNames PoolRecords PoolWorld Threads Proc ShareCreation

variable (cfg : Config)

/-- The share matches what the pool creates: zone, resource group and tags. -/
def shareIsOurs (pool : Pool) (c : ShareInfo) : Bool :=
  let group :=
    if pool.spec.resourceGroup = [] then cfg.defaultResourceGroup else pool.spec.resourceGroup
  c.zone = pool.spec.zone && (group = [] || c.resourceGroupID = group) &&
    pool.spec.tags.all (fun t => t ∈ c.tags)

/-- The first mount target of a candidate that holds the expected name and an address. -/
def adoptable (pool : Pool) (s : PoolShareStatus) (claimed : List Name) (c : ShareInfo) :
    Option (ShareInfo × MountTargetInfo) :=
  if c.id = s.shareID || !shareIsOurs cfg pool c || c.id ∈ claimed then none
  else (c.mountTargets.find? (fun t =>
    t.name = s.shareName ++ ['-', 'm', 't'] && t.ipAddress ≠ [])).map (fun t => (c, t))

/-- The bare share of a pair; the delete can fail without notice. -/
def dropBare (s : PoolShareStatus) : Driver Unit :=
  if s.pvcCount = 0 then do
    let _r ← ask (.deleteShare s.shareID)
    return ()
  else return ()

/-- Another share of the same name holds the mount target: it is recorded instead, and
the bare one is deleted if no volume is on it. -/
def adoptShareWithMountTarget (pool : Pool) (s : PoolShareStatus) :
    Driver (Option PoolShareStatus) := do
  let candidates : Except VpcErr (List ShareInfo) ← ask (.sharesByName s.shareName)
  match candidates with
  | .error _ => return none
  | .ok candidates => do
    let claimed ← recordedShareIDs.attempt
    match claimed with
    | .error _ => return none
    | .ok claimed =>
      match candidates.findSome? (adoptable cfg pool s claimed) with
      | none => return none
      | some (c, t) => do
        dropBare s
        return some { s with
          shareID := c.id, mountTargetIP := t.ipAddress, mountTargetID := t.id
          exportPath := t.exportPath, mountTargets := [⟨s.zone, t.id, t.ipAddress, t.exportPath⟩] }

/-- The state of a share after a look at the VPC. -/
def stateSeen (pool : Pool) (s : PoolShareStatus) (info : ShareInfo) : ShareState :=
  match info.lifecycleState with
  | .stable =>
    if s.state = .draining && s.shareID ∉ pool.spec.drainShares then .stable
    else if s.state = .creating then .stable
    else s.state
  | .failed | .degraded => .draining
  | .pending => .creating
  | .updating => s.state

/-- The address and the export path, filled in when the VPC knows them. -/
def backfill (s : PoolShareStatus) (info : ShareInfo) : PoolShareStatus :=
  match info.lifecycleState, info.mountTargets with
  | .stable, mt :: mts =>
    let s₁ := if s.mountTargetIP = [] then
      { s with mountTargetIP := mt.ipAddress, mountTargetID := mt.id } else s
    let s₂ := if s₁.exportPath = [] && mt.exportPath ≠ [] then
      { s₁ with exportPath := mt.exportPath } else s₁
    let known := s₂.mountTargets.map ZoneMountTarget.mountTargetID
    let found := ((mt :: mts).filter (fun t => t.ipAddress ≠ [] && t.id ∉ known)).map
      (fun t => (⟨s.zone, t.id, t.ipAddress, t.exportPath⟩ : ZoneMountTarget))
    { s₂ with mountTargets := (s₂.mountTargets ++ found).map (fun t =>
        if t.exportPath = [] && s₂.exportPath ≠ [] then { t with exportPath := s₂.exportPath }
        else t) }
  | _, _ => s

/-- A stable share without an address takes over the mount target of another share or
gets a new one. -/
def recoverMountTarget (pool : Pool) (s : PoolShareStatus) (info : ShareInfo) :
    Driver PoolShareStatus := do
  if s.state ≠ .stable || s.mountTargetIP ≠ [] || info.mountTargets ≠ [] then return s
  else do
    let adopted ← adoptShareWithMountTarget cfg pool s
    match adopted with
    | some s' => return s'
    | none =>
      if !cfg.network then return s
      else do
        let net : Except VpcErr Unit ← ask (.network pool.spec.zone)
        match net with
        | .error _ => return s
        | .ok _ => do
          let made : Except VpcErr MountTargetInfo ← ask (.createMountTarget s.shareID)
          match made with
          | .error _ => return s
          | .ok t => return { s with
              mountTargetIP := t.ipAddress, mountTargetID := t.id, exportPath := t.exportPath
              mountTargets := [⟨s.zone, t.id, t.ipAddress, t.exportPath⟩] }

/-- One share of the health check; none when it is dropped from the pool. -/
def checkShare (pool : Pool) (s : PoolShareStatus) : Driver (Option PoolShareStatus) := do
  let info : Except VpcErr ShareInfo ← ask (.getShare s.shareID)
  match info with
  | .error .notFound => return if s.pvcCount = 0 then none else some s
  | .error _ => return some s
  | .ok info => do
    let s' ← recoverMountTarget cfg pool (backfill { s with state := stateSeen pool s info } info)
      info
    return some s'

/-- The shares are looked at from the last to the first. The capacity that is taken off
for a dropped share is that of the share which has moved into its place. -/
def checkShares (pool : Pool) : List PoolShareStatus → Driver (List PoolShareStatus × ℤ)
  | [] => return ([], 0)
  | s :: rest => do
    let later ← checkShares pool rest
    let kept ← checkShare cfg pool s
    match kept with
    | some s' => return (s' :: later.1, later.2)
    | none => return (later.1, later.2 + (later.1.headD s).totalGB)

def healthCheck (pool : Pool) : Driver Pool := do
  let checked ← checkShares cfg pool pool.status.shares
  return { pool with status := { pool.status with
    shares := checked.1
    shareCount := if checked.1.length = pool.status.shares.length then pool.status.shareCount
      else checked.1.length
    totalCapacityGB := pool.status.totalCapacityGB - checked.2 } }

/-- The zones that the mount target of a share is reached from. -/
def accessorTargets (pool : Pool) (s : PoolShareStatus) : PoolShareStatus :=
  if s.state ≠ .stable || s.mountTargetIP = [] then s
  else
    let home := if s.mountTargets = [] then
      [⟨s.zone, s.mountTargetID, s.mountTargetIP, s.exportPath⟩] else s.mountTargets
    { s with mountTargets := pool.spec.accessorZones.foldl (fun ts z =>
        if ts.any (fun t => t.zone = z) then ts
        else ts ++ [⟨z, s.mountTargetID, s.mountTargetIP, s.exportPath⟩]) home }

def ensureAccessorMountTargets (pool : Pool) : Pool :=
  if pool.spec.accessorZones = [] then pool
  else { pool with status := { pool.status with
    shares := pool.status.shares.map (accessorTargets pool) } }

/-- What is left on one share that is to be drained; none when it cannot be counted. -/
def countDrain (shareID : Name) : Driver (Option ShareDrainStatus) := do
  let vs : Except ApiErr (List SubVolume) ← ask (.listSubVolumesByShare shareID)
  match vs with
  | .error _ => return none
  | .ok vs => do
    let ss : Except ApiErr (List Snapshot) ← ask (.listSnapshotsByShare shareID)
    match ss with
    | .error _ => return none
    | .ok ss => return some ⟨shareID, vs.length, ss.length, vs.length = 0 && ss.length = 0⟩

def countDrains : List Name → Driver (List ShareDrainStatus)
  | [] => return []
  | id :: ids => do
    let d ← countDrain id
    let ds ← countDrains ids
    return d.toList ++ ds

/-- A share that is asked for takes no new volumes from now on. -/
def markDraining (pool : Pool) (s : PoolShareStatus) : PoolShareStatus :=
  if s.shareID ∈ pool.spec.drainShares && s.state = .stable then { s with state := .draining }
  else s

def processDrainRequests (pool : Pool) : Driver Pool := do
  if pool.spec.drainShares = [] then
    return { pool with status := { pool.status with drainStatus := [] } }
  else do
    let ds ← countDrains pool.spec.drainShares
    return { pool with status := { pool.status with
      shares := pool.status.shares.map (markDraining pool), drainStatus := ds } }

/-- What is on a share, counted from the records. -/
def countedGB (vs : List SubVolume) (ss : List Snapshot) (shareID : Name) : ℤ :=
  VersionedStore.total (fun v => if v.shareID = shareID then v.requestedGB else 0) vs +
    VersionedStore.total (fun s => if s.shareID = shareID then snapshotChargeGB s else 0) ss

def countedPVCs (vs : List SubVolume) (shareID : Name) : ℤ :=
  VersionedStore.total (fun v => if v.shareID = shareID then 1 else 0) vs

/-- The books of a pool as the records of its volumes and snapshots give them. -/
def recount (pool : Pool) (vs : List SubVolume) (ss : List Snapshot) : Pool :=
  let shares := pool.status.shares.map (fun s =>
    { s with allocatedGB := countedGB vs ss s.shareID, pvcCount := countedPVCs vs s.shareID })
  { pool with status := { pool.status with
    shares := shares
    totalAllocatedGB := VersionedStore.total PoolShareStatus.allocatedGB shares
    totalPVCCount := VersionedStore.total PoolShareStatus.pvcCount shares
    shareCount := shares.length
    totalCapacityGB := VersionedStore.total PoolShareStatus.totalGB shares } }

def reconcileMetrics (pool : Pool) : Driver Pool := do
  let vs : Except ApiErr (List SubVolume) ← ask (.listSubVolumes pool.name)
  match vs with
  | .error _ => return pool
  | .ok vs => do
    let ss : Except ApiErr (List Snapshot) ← ask (.listSnapshots pool.name)
    match ss with
    | .error _ => return pool
    | .ok ss => return recount pool vs ss

/-- A share is made for the tier; a failure is only logged. -/
def growTier (pool : Pool) (tier : Name) : Driver Pool := do
  let made ← (createPoolShare cfg pool tier).attempt
  match made with
  | .ok pool' => return pool'
  | .error _ => return pool

/-- One tier of the check whether a share is needed. -/
def expandTier (pool : Pool) (tier : ShareTier) : Driver Pool := do
  let own := pool.status.shares.filter (fun s => s.tier = tier.name)
  let capacity := VersionedStore.total PoolShareStatus.totalGB own
  let allocated := VersionedStore.total PoolShareStatus.allocatedGB own
  if tier.maxShares ≤ own.length || capacity = 0 ||
      (allocated * 100).tdiv capacity ≤ pool.spec.expandThresholdPercent then return pool
  else growTier cfg pool tier.name

def proactiveExpansion (pool : Pool) : Driver Pool := do
  if !pool.spec.autoExpand then return pool
  else if pool.status.shares.any (fun s =>
      s.state = .creating || (s.state = .stable && !shareReady s)) then return pool
  else if pool.spec.tiers ≠ [] then foldEach (expandTier cfg) pool pool.spec.tiers
  else if pool.spec.maxShares ≤ pool.status.shares.length || pool.status.totalCapacityGB = 0 ||
      (pool.status.totalAllocatedGB * 100).tdiv pool.status.totalCapacityGB ≤
        pool.spec.expandThresholdPercent then return pool
  else growTier cfg pool []

/-- A number of shares for one tier. The pool is kept as it is when a share fails. -/
def provisionTier (tier : Name) : ℕ → Pool → Driver (Pool × Bool)
  | 0, pool => return (pool, true)
  | n + 1, pool => do
    let made ← (createPoolShare cfg pool tier).attempt
    match made with
    | .ok pool' => provisionTier tier n pool'
    | .error _ => return (pool, false)

/-- The shares of a tier that are there or on their way. -/
def usableCount (shares : List PoolShareStatus) (tier : Name → Bool) : ℤ :=
  (shares.filter (fun s => tier s.tier && (s.state = .creating || s.state = .stable))).length

/-- The missing shares of one tier, unless an earlier tier has failed. -/
def provisionNext (x : Pool × Bool) (t : ShareTier) : Driver (Pool × Bool) :=
  if x.2 then provisionTier cfg t.name
    (t.initialShares - usableCount x.1.status.shares (fun n => n = t.name)).toNat x.1
  else return x

def initialProvisioning (pool : Pool) : Driver (Pool × Bool) :=
  if pool.spec.tiers ≠ [] then foldEach (provisionNext cfg) (pool, true) pool.spec.tiers
  else provisionTier cfg []
    (pool.spec.initialShares - usableCount pool.status.shares (fun _ => true)).toNat pool

def determinePhase (pool : Pool) : PoolPhase :=
  let shares := pool.status.shares
  if shares = [] then .initializing
  else if shares.any (fun s => s.state = .draining || s.state = .degraded) then .degraded
  else if shares.any (fun s => s.state = .creating) then .expanding
  else if !shares.any shareReady then .degraded
  else if pool.spec.maxShares ≤ shares.length &&
      !shares.any (fun s => shareReady s && s.allocatedGB < s.totalGB) then .full
  else .ready

def withPhase (pool : Pool) (phase : PoolPhase) : Pool :=
  { pool with status := { pool.status with phase := phase } }

/-- After a conflict the status is put on a fresh copy of the pool and written again. -/
def updateStatusRetryingConflict : ℕ → Pool → Driver Unit
  | 0, _ => fail .api
  | n + 1, pool => do
    let r : Except ApiErr Pool ← ask (.updatePoolStatus pool)
    match r with
    | .ok _ => return ()
    | .error .conflict => do
      let fresh : Pool ← orFail (fun _ => .api) (← ask (.getPool pool.name))
      updateStatusRetryingConflict n { fresh with status := pool.status }
    | .error _ => fail .api

def deleteShares : List PoolShareStatus → Driver Unit
  | [] => return ()
  | s :: rest => do
    orFail (fun _ => .vpc) (← ask (.deleteShare s.shareID))
    deleteShares rest

/-- A pool that is being deleted: its shares go when nothing is left on them. -/
def handleDeletion (pool : Pool) : Driver Unit := do
  let vs : List SubVolume ← orFail (fun _ => .api) (← ask (.listSubVolumes pool.name))
  if vs ≠ [] then do
    let _r ← ask (.updatePoolStatus pool)
    return ()
  else do
    let ss : List Snapshot ← orFail (fun _ => .api) (← ask (.listSnapshots pool.name))
    if ss ≠ [] then do
      let _r ← ask (.updatePoolStatus pool)
      return ()
    else do
      deleteShares pool.status.shares
      let _p : Pool ← orFail (fun _ => .api) (← ask (.updatePool { pool with finalizer := false }))
      return ()

/-- The pool with its finalizer, read again when that had to be written. -/
def ensureFinalizer (pool : Pool) : Driver Pool := do
  if pool.finalizer then return pool
  else do
    let _p : Pool ← orFail (fun _ => .api) (← ask (.updatePool { pool with finalizer := true }))
    orFail (fun _ => .api) (← ask (.getPool pool.name))

/-- The first shares of a pool are made and stored at once. None when the pass ends. -/
def provision (pool : Pool) : Driver (Option Pool) := do
  if pool.status.phase ≠ .unset && pool.status.phase ≠ .initializing then return some pool
  else do
    let made ← initialProvisioning cfg pool
    if !made.2 then do
      let _r ← (updateStatusRetryingConflict 5 (withPhase made.1 .initializing)).attempt
      return none
    else do
      updateStatusRetryingConflict 5 (withPhase made.1 .expanding)
      let fresh : Pool ← orFail (fun _ => .api) (← ask (.getPool pool.name))
      return some fresh

/-- The part of a pass that works out a new status, and stores it. -/
def refresh (pool : Pool) : Driver Unit := do
  let checked ← healthCheck cfg pool
  let drained ← processDrainRequests (ensureAccessorMountTargets checked)
  let counted ← reconcileMetrics drained
  let grown ← proactiveExpansion cfg counted
  let _p : Pool ← orFail (fun _ => .api)
    (← ask (.updatePoolStatus (withPhase grown (determinePhase grown))))
  return ()

def reconcile (name : Name) : Driver Unit := do
  let pool : Except ApiErr Pool ← ask (.getPool name)
  match pool with
  | .error _ => return ()
  | .ok pool =>
    if pool.deleting then handleDeletion pool
    else do
      let pool ← ensureFinalizer pool
      let pool ← provision cfg pool
      match pool with
      | none => return ()
      | some pool => refresh cfg pool

end FilePool.PoolReconciler
