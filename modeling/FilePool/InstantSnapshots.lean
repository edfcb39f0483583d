import FilePool.ShareCreation

/-!
Instant snapshots of a VM's disk. A take adds a file on top of the disk's chain, in the
running VM or with a Job, and a delete merges a file away. The volume names the work
that changes its chain while it runs. The files of a deleted volume stay for the instant
snapshots that are left.
-/
namespace FilePool.InstantSnapshots

open UndoNames PoolRecords PoolWorld Threads Proc ShareCreation

def chainKey : Name := ['c', 'h', 'a', 'i', 'n', '-']

def mergeKey : Name := chainKey ++ ['r', 'm', '-']

def liveMergeKey : Name := chainKey ++ ['l', 'i', 'v', 'e', '-', 'r', 'm', '-']

def rmKey : Name := ['r', 'm', '-']

def restoreKey : Name := ['r', 'e', 's', 't', 'o', 'r', 'e', '-']

def baseFile : Name := ['d', 'i', 's', 'k', '.', 'i', 'm', 'g']

def subVolumeFolder (v : SubVolume) : Folder :=
  ⟨⟨v.shareMountTargetIP, v.shareExportPath⟩, v.subPath⟩

def claimOf (v : SubVolume) : Claim := ⟨v.pvcNamespace, v.pvcName⟩

/-- The export of one share of a pool. -/
def poolShareMount (p : Pool) (shareID : Name) : Except Err ShareMount :=
  match findShare p.status.shares shareID with
  | some s => .ok ⟨s.mountTargetIP, s.exportPath⟩
  | none => .error .shareNotInPool

/-- The chain of a disk, disk.img alone for a plain one. -/
def diskChainOf (v : SubVolume) : List Name := if v.diskChain = [] then [baseFile] else v.diskChain

/-- A chain as it is recorded: a plain disk has none. -/
def chainNamesOf (chain : List Name) : List Name := if chain.length ≤ 1 then [] else chain

variable (cfg : Config)

def saveDiskChain (name : Name) (chain : List Name) (operation : Name) : Driver Unit := do
  let v : SubVolume ← orFail (fun _ => .api) (← ask (.getSubVolume name))
  let _v : SubVolume ← orFail (fun _ => .api)
    (← ask (.updateSubVolumeStatus { v with diskChain := chain, chainOperation := operation }))
  return ()

def markInstantReady (s : Snapshot) (frozen : Name) : Driver Snapshot := do
  orFail (fun _ => .api) (← ask (.updateSnapshotStatus
    { s with phase := .ready, readyToUse := true, chainFile := frozen }))

/-- The snapshot has failed; a save that does not work is only logged. -/
def failVMSnapshot (s : Snapshot) : Driver Unit := do
  let _r ← ask (.updateSnapshotStatus { s with phase := .failed })
  return ()

/-- No VM runs or starts with the disk. -/
def checkVMStopped (v : SubVolume) : Driver Unit := do
  let pod : Option PodKind ← orFail (fun _ => .api) (← ask (.vmPod (claimOf v)))
  if pod.isSome then fail .operationInProgress
  else do
    let starts : Bool ← orFail (fun _ => .api) (← ask (.vmInstance (claimOf v)))
    if starts then fail .operationInProgress else return ()

/-- The volume names the Job that is about to change its chain. The mark is taken back
when a VM has started before it was saved. -/
def markChain (v : SubVolume) (key : Name) : Driver Unit := do
  if v.chainOperation = key then return ()
  else if v.chainOperation ≠ [] then fail .operationInProgress
  else do
    saveDiskChain v.name v.diskChain key
    let stopped ← (checkVMStopped v).attempt
    match stopped with
    | .ok _ => return ()
    | .error e => do
      saveDiskChain v.name v.diskChain []
      fail e

/-- How an instant snapshot is taken: in the pod of a running VM, or with a Job. None
when the snapshot is a copy. -/
def planInstant (v : SubVolume) : Driver (Option (Option PodKind)) := do
  let pod : Option PodKind ← orFail (fun _ => .api) (← ask (.vmPod (claimOf v)))
  let gate : Driver (Option (Option PodKind)) := do
    let on : Bool ← orFail (fun _ => .api) (← ask .sidecarGate)
    return if on then some pod else none
  match pod with
  | none => do
    checkVMStopped v
    let vm : Bool ← orFail (fun _ => .api) (← ask (.vmForClaim (claimOf v)))
    if vm then gate else return none
  | some .hotplugDisk => fail .snapshotUnsupported
  | some (.launcher _) => gate

/-- A file is added to the chain of a stopped VM's disk with a Job. The snapshot is not
ready yet while the Job runs. -/
def takeInstantOffline (s : Snapshot) (v : SubVolume) (key newFile : Name) : Driver Snapshot := do
  let chain := diskChainOf v
  let finish (chain : List Name) : Driver Snapshot := do
    saveDiskChain v.name chain []
    markInstantReady s (chain.getD 1 [])
  if chain.head? = some newFile then finish chain
  else if cfg.maxSnapshots < chain.length then do
    failVMSnapshot s
    fail .snapshotFailed
  else do
    markChain v key
    let done : Bool ← orFail (fun _ => .api)
      (← ask (.job key (.takeChain (subVolumeFolder v) newFile)))
    if done then finish (newFile :: chain) else return s

def takeInstant (s : Snapshot) (v : SubVolume) : Driver Snapshot := do
  let newFile := cfg.instantFileName s.name
  let key := chainKey ++ s.name
  if v.chainOperation = key then takeInstantOffline cfg s v key newFile
  else if v.chainOperation ≠ [] then fail .operationInProgress
  else do
    let plan ← planInstant v
    match plan with
    | none => fail .operationInProgress
    | some none => takeInstantOffline cfg s v key newFile
    | some (some pod) =>
      if pod ≠ .launcher true then fail .api
      else do
        orFail (fun _ => .api) (← ask .ensureHook)
        let taken : Except TakeErr (List Name × Name) ←
          ask (.takeInVM (subVolumeFolder v) newFile)
        match taken with
        | .error .other => fail .api
        | .error _ => do
          failVMSnapshot s
          fail .snapshotFailed
        | .ok (chain, frozen) => do
          saveDiskChain v.name (chainNamesOf chain) []
          ask (.setDiskTop (claimOf v) newFile)
          markInstantReady s frozen

/-- The claim of a restore still waits for it. -/
def restoreWanted (v : SubVolume) : Driver Bool := do
  let c : Except ApiErr BoundClaim ← ask (.getClaim (claimOf v))
  match c with
  | .error .notFound => return false
  | .error _ => fail .api
  | .ok b => return b.uid ≠ [] && hasSuffix v.name b.uid

/-- A restore from a snapshot of the disk still reads the chain. Only the volumes of the
snapshot's own pool are looked at. -/
def anyRestoreRunning (volume : Name) : List SubVolume → Driver Bool
  | [] => return false
  | r :: rest => do
    if r.restoreSnapshot = [] || r.phase = .bound then anyRestoreRunning volume rest
    else do
      let s : Except ApiErr Snapshot ← ask (.getSnapshot r.restoreSnapshot)
      match s with
      | .error _ => anyRestoreRunning volume rest
      | .ok s =>
        if s.sourceSubVolume ≠ volume || s.method ≠ .instant then anyRestoreRunning volume rest
        else do
          let wanted ← restoreWanted r
          if wanted then return true else anyRestoreRunning volume rest

def chainRestoreRunning (pool volume : Name) : Driver Bool := do
  let vs : List SubVolume ← orFail (fun _ => .api) (← ask (.listSubVolumes pool))
  anyRestoreRunning volume vs

/-- An instant snapshot was taken of the volume. -/
def hasInstantSnapshots (volume : Name) : Driver Bool := do
  let ss : List Snapshot ← orFail (fun _ => .api) (← ask (.listSnapshotsBySource volume))
  return ss.any (fun s => s.method = .instant && s.chainFile ≠ [])

/-- The file of a snapshot whose take was not recorded; none when it was never taken. -/
def findUntrackedInstant (s : Snapshot) : Driver (Option Snapshot) := do
  let v : Except ApiErr SubVolume ← ask (.getSubVolume s.sourceSubVolume)
  match v with
  | .error .notFound => return none
  | .error _ => fail .api
  | .ok v =>
    let newFile := cfg.instantFileName s.name
    if v.chainOperation = chainKey ++ s.name then do
      let s' ← takeInstantOffline cfg s v (chainKey ++ s.name) newFile
      if s'.chainFile = [] then fail .operationInProgress else return some s'
    else match (diskChainOf v).dropWhile (· ≠ newFile) with
      | _ :: below :: _ => return some { s with chainFile := below }
      | _ => return none

/-- The snapshot's disk was deleted. The last snapshot removes the folder. -/
def deleteInstantOfGoneVolume (s : Snapshot) (p : Pool) : Driver Unit := do
  let others : List Snapshot ← orFail (fun _ => .api)
    (← ask (.listSnapshotsBySource s.sourceSubVolume))
  if others.any (fun o => o.name ≠ s.name) then return ()
  else do
    let share ← orFail id (poolShareMount p s.shareID)
    let done : Bool ← orFail (fun _ => .api)
      (← ask (.job (rmKey ++ s.sourceSubVolume) (.removeDir ⟨share, s.sourceSubPath⟩)))
    if done then return () else fail .operationInProgress

/-- The child is merged into the file with a Job; none while the Job runs. -/
def mergeOffline (v : SubVolume) (key file child : Name) : Driver (Option (List Name)) := do
  let chain := diskChainOf v
  if child ∉ chain then return some chain
  else do
    markChain v key
    let done : Bool ← orFail (fun _ => .api)
      (← ask (.job key (.mergeChain (subVolumeFolder v) file child)))
    return if done then some (chain.erase child) else none

def mergeRunning (v : SubVolume) (file child : Name) : Driver (List Name) := do
  let moving : Bool ← orFail (fun _ => .api) (← ask (.vmMoving (claimOf v)))
  if moving then fail .operationInProgress
  else do
    let merged : Except MergeErr (List Name) ←
      ask (.mergeInVM (subVolumeFolder v) file child)
    match merged with
    | .error .running => fail .operationInProgress
    | .error .other => fail .api
    | .ok chain => do
      ask (.setDiskTop (claimOf v) (if chain.length ≤ 1 then [] else chain.headD []))
      return chain

/-- The merge of a delete: in a running VM, with a Job, or to be waited for. -/
def mergeChain (v : SubVolume) (s : Snapshot) (file child : Name) :
    Driver (Option (List Name)) := do
  let key := mergeKey ++ s.name
  let liveKey := liveMergeKey ++ s.name
  if v.chainOperation = key then mergeOffline v key file child
  else if v.chainOperation ≠ [] && v.chainOperation ≠ liveKey then fail .operationInProgress
  else do
    let pod : Option PodKind ← orFail (fun _ => .api) (← ask (.vmPod (claimOf v)))
    if pod.isSome then do
      if v.chainOperation ≠ liveKey then saveDiskChain v.name v.diskChain liveKey
      let chain ← mergeRunning v file child
      return some chain
    else if v.chainOperation = liveKey then do
      -- the VM stopped, and the merge with it
      saveDiskChain v.name v.diskChain []
      fail .operationInProgress
    else do
      checkVMStopped v
      mergeOffline v key file child

/-- The snapshot that was held in the child is held in the file now. -/
def moveSnapshots (s : Snapshot) (file child : Name) : List Snapshot → Driver Unit
  | [] => return ()
  | o :: rest => do
    if o.name ≠ s.name && o.chainFile = child then do
      let _o : Snapshot ← orFail (fun _ => .api)
        (← ask (.updateSnapshotStatus { o with chainFile := file }))
      moveSnapshots s file child rest
    else moveSnapshots s file child rest

/-- The snapshot's file is merged away, or nothing has to be merged. -/
def deleteTaken (s : Snapshot) (p : Pool) : Driver Unit := do
  let v : Except ApiErr SubVolume ← ask (.getSubVolume s.sourceSubVolume)
  match v with
  | .error .notFound => deleteInstantOfGoneVolume s p
  | .error _ => fail .api
  | .ok v => do
    let busy ← chainRestoreRunning s.poolName v.name
    if busy then fail .operationInProgress
    else do
      let merge (s : Snapshot) (child : Name) : Driver Unit := do
        let merged ← mergeChain v s s.chainFile child
        match merged with
        | none => fail .operationInProgress
        | some chain => do
          let others : List Snapshot ← orFail (fun _ => .api)
            (← ask (.listSnapshotsBySource s.sourceSubVolume))
          moveSnapshots s s.chainFile child others
          saveDiskChain v.name (chainNamesOf chain) []
      if s.mergeChild ≠ [] then merge s s.mergeChild
      else match (diskChainOf v).idxOf? s.chainFile with
        | some (i + 1) => do
          let child := (diskChainOf v).getD i []
          let s' : Snapshot ← orFail (fun _ => .api)
            (← ask (.updateSnapshotStatus { s with mergeChild := child, phase := .deleting }))
          merge s' child
        | _ => return ()

def deleteInstant (s : Snapshot) (p : Pool) : Driver Unit := do
  if s.chainFile = [] then do
    let taken ← findUntrackedInstant cfg s
    match taken with
    | none => return ()
    | some s' => deleteTaken s' p
  else deleteTaken s p

/-- An instant snapshot is written into a restored volume with a Job. -/
def restoreInstant (v : SubVolume) (s : Snapshot) (src : ShareMount) : Driver Bool := do
  if !cfg.instantSnapshots then fail .instantNotSet
  else do
    let source : Except ApiErr SubVolume ← ask (.getSubVolume s.sourceSubVolume)
    let convert : Driver Bool := do
      orFail (fun _ => .api) (← ask (.job (restoreKey ++ v.name)
        (.convert ⟨src, s.sourceSubPath⟩ s.chainFile (subVolumeFolder v))))
    match source with
    | .ok u => if u.chainOperation ≠ [] then return false else convert
    | .error _ => convert

/-- The questions that the work on a chain asks: it changes no record but the status of
volumes and snapshots. -/
def ChainQuestion : Query → Prop
  | .getSubVolume _ | .updateSubVolumeStatus _ | .updateSnapshotStatus _ | .getSnapshot _
  | .listSnapshotsBySource _ | .listSubVolumes _ | .getClaim _ | .vmPod _ | .vmInstance _
  | .vmForClaim _ | .vmMoving _ | .sidecarGate | .ensureHook | .takeInVM _ _
  | .mergeInVM _ _ _ | .setDiskTop _ _ | .job _ _ => True
  | _ => False

theorem asks_saveDiskChain {name : Name} {chain : List Name} {operation : Name} :
    (saveDiskChain name chain operation).Asks ChainQuestion := by
  refine asks_call trivial (fun v => ?_)
  refine asks_call trivial (fun _ => ?_)
  exact asks_pure

variable {s : Snapshot} {p : Pool} {v : SubVolume} {key volume file child : Name}

theorem asks_markInstantReady {frozen : Name} : (markInstantReady s frozen).Asks ChainQuestion :=
  asks_ask trivial (fun _ => asks_orFail)

theorem asks_failVMSnapshot : (failVMSnapshot s).Asks ChainQuestion :=
  asks_ask trivial (fun _ => asks_pure)

theorem asks_checkVMStopped : (checkVMStopped v).Asks ChainQuestion := by
  refine asks_call trivial (fun pod => ?_)
  refine asks_ite asks_fail ?_
  refine asks_call trivial (fun on => ?_)
  exact asks_ite asks_fail asks_pure

theorem asks_markChain : (markChain v key).Asks ChainQuestion := by
  refine asks_ite asks_pure ?_
  refine asks_ite asks_fail ?_
  refine asks_bind asks_saveDiskChain (fun _ => ?_)
  refine asks_bind (asks_attempt asks_checkVMStopped) (fun r => ?_)
  cases r with
  | ok _ => exact asks_pure
  | error e => exact asks_bind asks_saveDiskChain (fun _ => asks_fail)

theorem asks_planInstant : (planInstant v).Asks ChainQuestion := by
  refine asks_call trivial (fun pod => ?_)
  have hgate : ((do
      let on : Bool ← orFail (fun _ => Err.api) (← ask .sidecarGate)
      return if on then some pod else none : Driver (Option (Option PodKind)))).Asks
      ChainQuestion :=
    asks_call trivial (fun _ => asks_pure)
  match pod with
  | none =>
    refine asks_bind asks_checkVMStopped (fun _ => ?_)
    refine asks_call trivial (fun vm => ?_)
    split
    · exact hgate
    · exact asks_pure
  | some .hotplugDisk => exact asks_fail
  | some (.launcher _) => exact hgate

theorem asks_takeInstantOffline {newFile : Name} :
    (takeInstantOffline cfg s v key newFile).Asks ChainQuestion := by
  have hfinish : ∀ chain : List Name, ((do
      saveDiskChain v.name chain []
      markInstantReady s (chain.getD 1 []) : Driver Snapshot)).Asks ChainQuestion :=
    fun chain => asks_bind asks_saveDiskChain (fun _ => asks_markInstantReady)
  unfold takeInstantOffline
  dsimp only
  split
  · exact hfinish _
  · split
    · exact asks_bind asks_failVMSnapshot (fun _ => asks_fail)
    · refine asks_bind asks_markChain (fun _ => ?_)
      refine asks_call trivial (fun done => ?_)
      split
      · exact hfinish _
      · exact asks_pure

theorem asks_takeInstant : (takeInstant cfg s v).Asks ChainQuestion := by
  unfold takeInstant
  dsimp only
  split
  · exact asks_takeInstantOffline cfg
  · refine asks_ite asks_fail ?_
    refine asks_bind asks_planInstant (fun plan => ?_)
    match plan with
    | none => exact asks_fail
    | some none => exact asks_takeInstantOffline cfg
    | some (some pod) =>
      refine asks_ite asks_fail ?_
      refine asks_call trivial (fun _ => ?_)
      refine asks_ask trivial (fun taken => ?_)
      match taken with
      | .error .other => exact asks_fail
      | .error .chainFull | .error .notOwned =>
        exact asks_bind asks_failVMSnapshot (fun _ => asks_fail)
      | .ok (chain, frozen) =>
        refine asks_bind asks_saveDiskChain (fun _ => ?_)
        exact asks_ask trivial (fun _ => asks_markInstantReady)

theorem asks_restoreWanted : (restoreWanted v).Asks ChainQuestion := by
  refine asks_ask trivial (fun c => ?_)
  match c with
  | .error .notFound => exact asks_pure
  | .error .alreadyExists | .error .conflict | .error .other => exact asks_fail
  | .ok b => exact asks_pure

theorem asks_anyRestoreRunning {vs : List SubVolume} :
    (anyRestoreRunning volume vs).Asks ChainQuestion := by
  induction vs with
  | nil => exact asks_pure
  | cons r rest ih =>
    unfold anyRestoreRunning
    split
    · exact ih
    · refine asks_ask trivial (fun s => ?_)
      match s with
      | .error _ => exact ih
      | .ok s =>
        dsimp only
        split
        · exact ih
        · refine asks_bind asks_restoreWanted (fun wanted => ?_)
          exact asks_ite asks_pure ih

theorem asks_chainRestoreRunning {pool : Name} :
    (chainRestoreRunning pool volume).Asks ChainQuestion :=
  asks_call trivial (fun _ => asks_anyRestoreRunning)

theorem asks_hasInstantSnapshots :
    (hasInstantSnapshots volume).Asks ChainQuestion :=
  asks_call trivial (fun _ => asks_pure)

theorem asks_findUntrackedInstant : (findUntrackedInstant cfg s).Asks ChainQuestion := by
  refine asks_ask trivial (fun v => ?_)
  match v with
  | .error .notFound => exact asks_pure
  | .error .alreadyExists | .error .conflict | .error .other => exact asks_fail
  | .ok v =>
    dsimp only
    split
    · refine asks_bind (asks_takeInstantOffline cfg) (fun s' => ?_)
      exact asks_ite asks_fail asks_pure
    · split
      · exact asks_pure
      · exact asks_pure

theorem asks_deleteInstantOfGoneVolume : (deleteInstantOfGoneVolume s p).Asks ChainQuestion := by
  refine asks_call trivial (fun others => ?_)
  refine asks_ite asks_pure ?_
  refine asks_bind asks_orFail (fun share => ?_)
  refine asks_call trivial (fun done => ?_)
  exact asks_ite asks_pure asks_fail

theorem asks_mergeOffline :
    (mergeOffline v key file child).Asks ChainQuestion := by
  unfold mergeOffline
  refine asks_ite asks_pure ?_
  refine asks_bind asks_markChain (fun _ => ?_)
  exact asks_call trivial (fun _ => asks_pure)

theorem asks_mergeRunning :
    (mergeRunning v file child).Asks ChainQuestion := by
  refine asks_call trivial (fun moving => ?_)
  refine asks_ite asks_fail ?_
  refine asks_ask trivial (fun merged => ?_)
  match merged with
  | .error .running => exact asks_fail
  | .error .other => exact asks_fail
  | .ok chain => exact asks_ask trivial (fun _ => asks_pure)

theorem asks_mergeChain :
    (mergeChain v s file child).Asks ChainQuestion := by
  unfold mergeChain
  dsimp only
  split
  · exact asks_mergeOffline
  · refine asks_ite asks_fail ?_
    refine asks_call trivial (fun pod => ?_)
    split
    · split
      · refine asks_bind asks_saveDiskChain (fun _ => ?_)
        exact asks_bind asks_mergeRunning (fun _ => asks_pure)
      · exact asks_bind asks_mergeRunning (fun _ => asks_pure)
    · split
      · exact asks_bind asks_saveDiskChain (fun _ => asks_fail)
      · exact asks_bind asks_checkVMStopped (fun _ => asks_mergeOffline)

theorem asks_moveSnapshots {others : List Snapshot} :
    (moveSnapshots s file child others).Asks ChainQuestion := by
  induction others with
  | nil => exact asks_pure
  | cons o rest ih =>
    unfold moveSnapshots
    split
    · exact asks_call trivial (fun _ => ih)
    · exact ih

theorem asks_deleteTaken : (deleteTaken s p).Asks ChainQuestion := by
  refine asks_ask trivial (fun v => ?_)
  match v with
  | .error .notFound => exact asks_deleteInstantOfGoneVolume
  | .error .alreadyExists | .error .conflict | .error .other => exact asks_fail
  | .ok v =>
    have hmerge : ∀ (s : Snapshot) (child : Name), ((do
        let merged ← mergeChain v s s.chainFile child
        match merged with
        | none => fail .operationInProgress
        | some chain => do
          let others : List Snapshot ← orFail (fun _ => Err.api)
            (← ask (.listSnapshotsBySource s.sourceSubVolume))
          moveSnapshots s s.chainFile child others
          saveDiskChain v.name (chainNamesOf chain) [] : Driver Unit)).Asks ChainQuestion := by
      intro s child
      refine asks_bind asks_mergeChain (fun merged => ?_)
      match merged with
      | none => exact asks_fail
      | some chain =>
        refine asks_call trivial (fun _ => ?_)
        exact asks_bind asks_moveSnapshots (fun _ => asks_saveDiskChain)
    refine asks_bind asks_chainRestoreRunning (fun busy => ?_)
    refine asks_ite asks_fail ?_
    split
    · exact hmerge _ _
    · split
      · refine asks_call trivial (fun _ => ?_)
        exact hmerge _ _
      · exact asks_pure

theorem asks_deleteInstant : (deleteInstant cfg s p).Asks ChainQuestion := by
  unfold deleteInstant
  split
  · refine asks_bind (asks_findUntrackedInstant cfg) (fun taken => ?_)
    match taken with
    | none => exact asks_pure
    | some s' => exact asks_deleteTaken
  · exact asks_deleteTaken

theorem asks_restoreInstant {src : ShareMount} :
    (restoreInstant cfg v s src).Asks ChainQuestion := by
  refine asks_ite asks_fail ?_
  refine asks_ask trivial (fun source => ?_)
  have hconvert : ((do orFail (fun _ => Err.api) (← ask (.job (restoreKey ++ v.name)
        (.convert ⟨src, s.sourceSubPath⟩ s.chainFile (subVolumeFolder v)))) :
      Driver Bool)).Asks ChainQuestion :=
    asks_ask trivial (fun r => asks_orFail)
  match source with
  | .ok u =>
    exact asks_ite asks_pure hconvert
  | .error _ => exact hconvert

end FilePool.InstantSnapshots
