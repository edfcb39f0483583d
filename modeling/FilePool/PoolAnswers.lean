import FilePool.PoolWorld

/-!
How the world answers the questions of the driver, and what happens in it beside the
driver's calls. The choice in an answer is what the driver cannot know beforehand: that a
call is refused, the ID of a new share, what QEMU leaves in a folder.
-/
namespace FilePool.PoolAnswers

open UndoNames PoolRecords VersionedStore PoolWorld

inductive Choice
  | ok
  | refused
  | made (id : Name)
  | bare (id : Name)
  | kept
  | mountTarget (t : MountTargetInfo)
  | taken (chain : List Name) (frozen : Name) (content : Content)
  | merged (chain : List Name) (content : Content)
  | chainFull
  | notOwned
  | busy

variable {α V : Type}

def found : Option α → Except ApiErr α
  | some a => .ok a
  | none => .error .notFound

/-- A read is answered truly or refused. -/
def reads (w : World) (r : Except ApiErr α) : Choice → Option (Except ApiErr α × World)
  | .ok => some (r, w)
  | .refused => some (.error .other, w)
  | _ => none

/-- A write is carried out as the store takes it, or refused. -/
def writes (w : World) (put : List V → World) (r : Except Refusal (V × List V)) :
    Choice → Option (Except ApiErr V × World)
  | .ok =>
    match r with
    | .ok (v, l) => some (.ok v, { put l with rev := w.rev + 1 })
    | .error e => some (.error (refusalErr e), w)
  | .refused => some (.error .other, w)
  | _ => none

def deletes (w : World) (there : Bool) (w' : World) : Choice → Option (Except ApiErr Unit × World)
  | .ok => if there then some (.ok (), w') else some (.error .notFound, w)
  | .refused => some (.error .other, w)
  | _ => none

/-- The pools after a write of a pool's metadata: a deleted pool without a finalizer goes. -/
def settlePools (l : List Pool) : List Pool := l.filter (fun p => !(p.deleting && !p.finalizer))

def mtSuffix : Name := ['-', 'm', 't']

/-- A new share of the VPC, not stable yet. -/
def newShareInfo (input : CreateShareInput) (id : Name) (targets : List MountTargetInfo) :
    ShareInfo :=
  ⟨id, input.name, input.zone, input.resourceGroupID, input.tags, input.sizeGB, .pending, targets⟩

def createShare (w : World) (input : CreateShareInput) :
    Choice → Option (Except VpcErr Name × World)
  | .ok =>
    if w.shares.any (fun s => s.name = input.name) then some (.error .alreadyExists, w) else none
  | .made id =>
    if w.shares.any (fun s => s.name = input.name) || id ∈ w.issued.map Prod.fst then none
    else some (.ok id, { w with
      shares := w.shares ++ [newShareInfo input id [⟨id, input.name ++ mtSuffix, [], []⟩]]
      issued := (id, input.name) :: w.issued })
  | .bare id =>
    if id ∈ w.issued.map Prod.fst then none
    else some (.error .other, { w with
      shares := w.shares ++ [newShareInfo input id []], issued := (id, input.name) :: w.issued })
  | .refused => some (.error .other, w)
  | _ => none

def findInfo (w : World) (id : Name) : Option ShareInfo := w.shares.find? (fun s => s.id = id)

/-- The driver waits until the share is stable, or gives up. -/
def awaitShare (w : World) (id : Name) : Choice → Option (Except VpcErr ShareInfo × World)
  | .ok =>
    match findInfo w id with
    | none => some (.error .notFound, w)
    | some s => match s.lifecycleState with
      | .stable => some (.ok s, w)
      | .failed => some (.error .other, w)
      | _ => none
  | .refused => some (.error .other, w)
  | _ => none

def getShare (w : World) (id : Name) : Choice → Option (Except VpcErr ShareInfo × World)
  | .ok =>
    match findInfo w id with
    | none => some (.error .notFound, w)
    | some s => some (.ok s, w)
  | .refused => some (.error .other, w)
  | _ => none

/-- A share that is gone already is deleted. -/
def deleteShare (w : World) (id : Name) : Choice → Option (Except VpcErr Unit × World)
  | .ok => some (.ok (), { w with shares := w.shares.filter (fun s => s.id ≠ id) })
  | .refused => some (.error .other, w)
  | _ => none

def changeInfo (w : World) (id : Name) (f : ShareInfo → ShareInfo) : World :=
  { w with shares := w.shares.map (fun s => if s.id = id then f s else s) }

def createMountTarget (w : World) (id : Name) :
    Choice → Option (Except VpcErr MountTargetInfo × World)
  | .mountTarget t =>
    some (.ok t, changeInfo w id (fun s => { s with mountTargets := s.mountTargets ++ [t] }))
  | .refused => some (.error .other, w)
  | _ => none

def setJob (w : World) (key : Name) (j : Option Job) : World :=
  { w with jobs := Function.update w.jobs key j }

/-- The Job of a key is started, or its state is looked at. A finished Job is removed,
which can fail without notice. -/
def job (w : World) (key : Name) (work : Work) : Choice → Option (Except JobErr Bool × World)
  | .ok =>
    match w.jobs key with
    | none => some (.ok false, setJob w key (some ⟨work, .running, fun _ => none⟩))
    | some j => match j.state with
      | .succeeded => some (.ok true, setJob w key none)
      | .failed => some (.error .failed, setJob w key none)
      | _ => some (.ok false, w)
  | .kept =>
    match w.jobs key with
    | none => none
    | some j => match j.state with
      | .succeeded => some (.ok true, w)
      | .failed => some (.error .failed, w)
      | _ => none
  | .refused => some (.error .api, w)
  | _ => none

def stopJob (w : World) (key : Name) : Choice → Option (Except ApiErr Bool × World)
  | .ok =>
    match w.jobs key with
    | none => some (.ok true, w)
    | some j => some (.ok false, setJob w key (some { j with state := .stopping }))
  | .refused => some (.error .other, w)
  | _ => none

def setFolder (w : World) (f : Folder) (c : Option Content) : World :=
  { w with folders := Function.update w.folders f c }

def takeInVM (w : World) (f : Folder) : Choice → Option (Except TakeErr (List Name × Name) × World)
  | .taken chain frozen content => some (.ok (chain, frozen), setFolder w f (some content))
  | .chainFull => some (.error .chainFull, w)
  | .notOwned => some (.error .notOwned, w)
  | .refused => some (.error .other, w)
  | _ => none

def mergeInVM (w : World) (f : Folder) : Choice → Option (Except MergeErr (List Name) × World)
  | .merged chain content => some (.ok chain, setFolder w f (some content))
  | .busy => some (.error .running, w)
  | .refused => some (.error .other, w)
  | _ => none

/-- A claim that a restore makes is not bound yet. -/
def createClaim (w : World) (c : Claim) (restore : Name) :
    Choice → Option (Except ApiErr Unit × World)
  | .made uid =>
    if w.claims.any (fun b => b.claim = c) then some (.error .alreadyExists, w)
    else some (.ok (), { w with claims := w.claims ++ [⟨c, uid, [], restore⟩] })
  | .refused => some (.error .other, w)
  | _ => none

/-- The answer to a question of thread i, and the world after it. -/
def answer (i : ℕ) (q : Query) (ch : Choice) (w : World) : Option (Answer q × World) :=
  match q with
  | .lock l => match w.locks l with
    | none => some ((), { w with locks := Function.update w.locks l (some i) })
    | some _ => none
  | .unlock l => some ((), { w with locks := Function.update w.locks l none })
  | .getPool n => reads w (found (find poolKind w.pools n)) ch
  | .listPools => reads w (.ok w.pools) ch
  | .updatePoolStatus p => writes w (fun l => { w with pools := l })
      (update poolKind withStatus (w.rev + 1) w.pools p) ch
  | .updatePool p => writes w (fun l => { w with pools := settlePools l })
      (update poolKind withMetadata (w.rev + 1) w.pools p) ch
  | .getSubVolume n => reads w (found (find subVolumeKind w.subVolumes n)) ch
  | .listSubVolumes p => reads w (.ok (w.subVolumes.filter (fun v => v.poolName = p))) ch
  | .listSubVolumesByShare s => reads w (.ok (w.subVolumes.filter (fun v => v.shareID = s))) ch
  | .listRestorePending => reads w (.ok (w.subVolumes.filter (fun v => v.restorePending))) ch
  | .createSubVolume v => writes w (fun l => { w with subVolumes := l })
      (create subVolumeKind (w.rev + 1) w.subVolumes (noVolumeStatus v)) ch
  | .updateSubVolume v => writes w (fun l => { w with subVolumes := l })
      (update subVolumeKind withVolumeSpec (w.rev + 1) w.subVolumes v) ch
  | .updateSubVolumeStatus v => writes w (fun l => { w with subVolumes := l })
      (update subVolumeKind withVolumeStatus (w.rev + 1) w.subVolumes v) ch
  | .deleteSubVolume n => deletes w (find subVolumeKind w.subVolumes n).isSome
      { w with subVolumes := delete subVolumeKind w.subVolumes n } ch
  | .patchRestorePending n b => deletes w (find subVolumeKind w.subVolumes n).isSome
      { w with rev := w.rev + 1, subVolumes := w.subVolumes.map (fun v =>
        if v.name = n then { v with restorePending := b, version := w.rev + 1 } else v) } ch
  | .getSnapshot n => reads w (found (find snapshotKind w.snapshots n)) ch
  | .listSnapshots p => reads w (.ok (w.snapshots.filter (fun s => s.poolName = p))) ch
  | .listSnapshotsByShare s => reads w (.ok (w.snapshots.filter (fun x => x.shareID = s))) ch
  | .listSnapshotsBySource v =>
    reads w (.ok (w.snapshots.filter (fun s => s.sourceSubVolume = v))) ch
  | .createSnapshot s => writes w (fun l => { w with snapshots := l })
      (create snapshotKind (w.rev + 1) w.snapshots (noSnapshotStatus s)) ch
  | .updateSnapshot s => writes w (fun l => { w with snapshots := l })
      (update snapshotKind withAnnotations (w.rev + 1) w.snapshots s) ch
  | .updateSnapshotStatus s => writes w (fun l => { w with snapshots := l })
      (update snapshotKind withSnapshotStatus (w.rev + 1) w.snapshots s) ch
  | .deleteSnapshot n => deletes w (find snapshotKind w.snapshots n).isSome
      { w with snapshots := delete snapshotKind w.snapshots n } ch
  | .getRestore n => reads w (found (find restoreKind w.restores n)) ch
  | .updateRestoreStatus r => writes w (fun l => { w with restores := l })
      (update restoreKind withRestoreStatus (w.rev + 1) w.restores r) ch
  | .getClaim c => reads w (found (w.claims.find? (fun b => b.claim = c))) ch
  | .createClaim c r => createClaim w c r ch
  | .backupSource _ => match ch with
    | .ok => some (.ok (), w)
    | .busy => some (.error .notFound, w)
    | .refused => some (.error .other, w)
    | _ => none
  | .network _ => match ch with
    | .ok => some (.ok (), w)
    | .refused => some (.error .other, w)
    | _ => none
  | .createShare input => createShare w input ch
  | .sharesByName n => match ch with
    | .ok => some (.ok (w.shares.filter (fun s => s.name = n)), w)
    | .refused => some (.error .other, w)
    | _ => none
  | .awaitShare id => awaitShare w id ch
  | .getShare id => getShare w id ch
  | .deleteShare id => deleteShare w id ch
  | .createMountTarget id => createMountTarget w id ch
  | .createDirectory _ => reads w (.ok ()) ch
  | .job key work => job w key work ch
  | .stopJob key => stopJob w key ch
  | .hasOpenRestore c => reads w (.ok (w.restores.any (fun r =>
      r.target = c && r.phase ≠ .done && r.phase ≠ .failed))) ch
  | .vmPod c => reads w (.ok (w.pods c)) ch
  | .vmInstance c => reads w (.ok (w.instances c)) ch
  | .vmForClaim c => reads w (.ok (w.machines c)) ch
  | .vmMoving c => reads w (.ok (w.moving c)) ch
  | .sidecarGate => reads w (.ok w.sidecarGate) ch
  | .ensureHook => reads w (.ok ()) ch
  | .takeInVM f _ => takeInVM w f ch
  | .mergeInVM f _ _ => mergeInVM w f ch
  | .setDiskTop _ _ => some ((), w)
  | .mount v => match ch with
    | .ok => some (.ok (), { w with mounted := v :: w.mounted })
    | .refused => some (.error .other, w)
    | _ => none

end FilePool.PoolAnswers
