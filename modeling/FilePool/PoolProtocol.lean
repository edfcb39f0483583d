import FilePool.PoolMachine

/-!
What the calls of the driver know and may do about pools, volumes and snapshots. A call
keeps a local state of what it was answered: the copy of the pool it works on, the shares
it has made since, the records it has read under a lock, and the debt between the records
it has changed and the books it has not written yet. The step relation tells for each
question what the call must know to ask it. It is the only thing that the proofs about
interleavings use of the calls.
-/
namespace FilePool.PoolProtocol

open UndoNames RewoundFolders PoolRecords PoolWorld ShareCreation PoolReconciler Threads

/-- What the books of a share still have to get; negative when the books are ahead of the
records. -/
structure Debt where
  pool : Name
  share : Name
  gb : ℤ
  pvcs : ℤ
  deriving DecidableEq

/-- A share that was made since the pool was read, with the request for it. -/
structure Made where
  info : ShareInfo
  tier : Name
  input : CreateShareInput

def Made.status (m : Made) : PoolShareStatus := newPoolShareStatus m.info m.tier

structure Local where
  call : Call
  held : List Lock
  base : Option Pool
  forced : Bool
  made : List Made
  claimed : Option (List Name)
  finalized : Option Name
  asked : Option (CreateShareInput × Name)
  offered : List ShareInfo
  creating : Option Name
  volume : Option SubVolume
  source : Option SubVolume
  snapshot : Option Snapshot
  fresh : Option Snapshot
  sources : List (Name × Name)
  debt : Option Debt
  charged : Bool
  lost : Bool
  skipped : Option Name
  volumes : Option (List SubVolume)
  counted : Option (List SubVolume × List Snapshot)
  onShare : Option (Name × List SubVolume)
  drains : List ShareDrainStatus
  looked : Option ShareInfo
  switches : List (Name × ShareInfo)

/-- The snapshot and the source that a call itself names. -/
def namedSource : Call → List (Name × Name)
  | .createSnapshot n (some src) _ => [(n, src)]
  | _ => []

def start (c : Call) : Local where
  call := c
  held := []
  base := none
  forced := false
  made := []
  claimed := none
  finalized := none
  asked := none
  offered := []
  creating := none
  volume := none
  source := none
  snapshot := none
  fresh := none
  sources := namedSource c
  debt := none
  charged := false
  lost := false
  skipped := none
  volumes := none
  counted := none
  onShare := none
  drains := []
  looked := none
  switches := []

/-- The pool in which a call makes a volume. -/
def volumePool : Call → Option Name
  | .allocate req | .cloneVolume _ req | .restoreSnapshot _ req => some req.poolName
  | _ => none

namespace Local

variable (l : Local)

/-- The call works on a copy of a pool: it holds the Manager's lock or is a pass. -/
def Keeper : Prop := .mu ∈ l.held ∨ ∃ n, l.call = .reconcile n

/-- The work on a pool begins anew from a copy. -/
def startFrom (p : Pool) : Local :=
  { l with
    base := some p, forced := false, made := [], claimed := none
    finalized := if p.finalizer then some p.name else l.finalized
    asked := none, offered := [], creating := none, volumes := none, counted := none
    onShare := none, drains := [], looked := none, switches := [] }

/-- What was read under a lock is forgotten with the lock. -/
def release (x : Lock) : Local :=
  match x with
  | .mu => { l with held := l.held.erase .mu, base := none, made := [], volume := none }
  | .volume n =>
    { l with held := l.held.erase (.volume n), source := none, snapshot := none, fresh := none }
  | x => { l with held := l.held.erase x }

/-- The shares of the copy with those that were made since. -/
def grown (p : Pool) : List PoolShareStatus := p.status.shares ++ l.made.map Made.status

end Local

section Writes

variable (l : Local) (p₀ : Pool)

/-- The volume fits on a ready share of the copy, or on a share that was made for it. -/
def Fits (v : SubVolume) : Prop :=
  ∃ s, s.shareID = v.shareID ∧ shareReady s = true ∧
    ((s ∈ p₀.status.shares ∧ (v.requestedGB : ℤ) ≤ s.freeGB) ∨
      ∃ m ∈ l.made, s = m.status ∧ (v.requestedGB : ℤ) ≤ m.input.sizeGB)

/-- The status of the copy, grown by the shares that were made, with one booking. -/
structure Booked (p : Pool) (share : Name) (gb pvcs : ℤ) : Prop where
  shares : p.status.shares = changeShare share (fun s =>
    { s with allocatedGB := s.allocatedGB + gb, pvcCount := s.pvcCount + pvcs }) (l.grown p₀)
  allocated : p.status.totalAllocatedGB = p₀.status.totalAllocatedGB + gb
  count : p.status.totalPVCCount = p₀.status.totalPVCCount + pvcs
  drains : p.status.drainStatus = p₀.status.drainStatus

/-- What a booking is for: nothing, the debt of the call, or a new charge that fits. A
charge is a debt of the records. -/
inductive Pays (share : Name) : ℤ → ℤ → Option Debt → Bool → Prop
  | nothing : Pays share 0 0 l.debt l.charged
  | debt (gb pvcs : ℤ) (hmu : Lock.mu ∈ l.held) (h : l.debt = some ⟨p₀.name, share, gb, pvcs⟩) :
      Pays share gb pvcs none false
  | charge (gb : ℤ) (hmu : Lock.mu ∈ l.held) (h : l.debt = none) (hmade : l.made = [])
      (hgb : 0 ≤ gb) (s : PoolShareStatus) (hs : findShare p₀.status.shares share = some s)
      (hroom : gb ≤ s.freeGB) : Pays share gb 0 (some ⟨p₀.name, share, -gb, 0⟩) true

/-- What a pass makes of the record of one share. -/
structure Checked (s s' : PoolShareStatus) : Prop where
  name : s'.shareName = s.shareName
  tier : s'.tier = s.tier
  total : s'.totalGB = s.totalGB
  id : s'.shareID = s.shareID ∨
    ∃ c, (s.shareID, c) ∈ l.switches ∧ c.name = s.shareName ∧ s'.shareID = c.id
  books : match l.counted with
    | none => s'.allocatedGB = s.allocatedGB ∧ s'.pvcCount = s.pvcCount
    | some (vs, ss) => s'.allocatedGB = countedGB vs ss s'.shareID ∧
        s'.pvcCount = countedPVCs vs s'.shareID
  drain : s'.shareID ∈ p₀.spec.drainShares → s'.state ≠ .stable

/-- The status that a pass has worked out from the copy. -/
structure Refreshed (p : Pool) : Prop where
  pass : ∃ n, l.call = .reconcile n
  shares : ∃ sub kept, sub.Sublist p₀.status.shares ∧ List.Forall₂ (Checked l p₀) sub kept ∧
    p.status.shares = kept ++ l.made.map Made.status
  drains : ∀ d ∈ p.status.drainStatus, d ∈ l.drains

end Writes

/-- The name of a share of a pool: the tier, when there is one, and a number. -/
def shareNameOf (pool tier : Name) (k : ℕ) : Name :=
  if tier = [] then pool ++ shareWord ++ digitsOf k
  else pool ++ ['-'] ++ tier ++ shareWord ++ digitsOf k

/-- The number of shares that the number in a share's name counts. -/
def shareNumber (shares : List PoolShareStatus) (tier : Name) : ℕ :=
  if tier = [] then shares.length else tierCount shares tier

section Clauses

variable (l : Local)

def poolRead (n : Name) (a : Except ApiErr Pool) (l' : Local) : Prop :=
  match a with
  | .ok p => l' = l ∨ (l.Keeper ∧ l' = l.startFrom p) ∨
      ∃ p₀ m, l.base = some p₀ ∧ p₀.name = p.name ∧ l.call = .reconcile m ∧
        l.finalized = some p.name ∧ l' = { l with
          base := some { p with status := p₀.status }, forced := true, volumes := none
          counted := none, looked := none }
  | .error e => l' = l ∨ ((l.debt.isSome ∨ e = .notFound) ∧ l' = { l with skipped := some n })

def statusWritten (p : Pool) (a : Except ApiErr Pool) (l' : Local) : Prop :=
  ∃ p₀, l.base = some p₀ ∧ l.Keeper ∧ p.name = p₀.name ∧ p.version = p₀.version ∧
    match a with
    | .ok _ => (∃ share gb pvcs d c, Booked l p₀ p share gb pvcs ∧
          Pays l p₀ share gb pvcs d c ∧
          l' = { l with base := none, made := [], debt := d, charged := c }) ∨
        (Refreshed l p₀ p ∧ l.forced = false ∧ l' = { l with base := none, made := [] })
    | .error _ => l' = { l with lost := l.lost || l.debt.isSome }

/-- The finalizer goes only when the lists of the deletion were empty. -/
def metadataWritten (p : Pool) (a : Except ApiErr Pool) (l' : Local) : Prop :=
  ∃ p₀ n, l.base = some p₀ ∧ l.call = .reconcile n ∧ p.name = p₀.name ∧ p.version = p₀.version ∧
    (p.finalizer = true ∨ (p₀.deleting = true ∧ l.counted = some ([], []))) ∧
    match a with
    | .ok _ => l' = { l with
        base := none, made := [], finalized := if p.finalizer then some p.name else none }
    | .error _ => l' = l

def volumeRead (n : Name) (a : Except ApiErr SubVolume) (l' : Local) : Prop :=
  match a with
  | .ok v => l' = l ∨ (Lock.mu ∈ l.held ∧ l' = { l with volume := some v }) ∨
      (Lock.volume n ∈ l.held ∧ l' = { l with source := some v })
  | .error _ => l' = l

def volumeMade (v : SubVolume) (a : Except ApiErr SubVolume) (l' : Local) : Prop :=
  ∃ p₀, l.base = some p₀ ∧ l.forced = false ∧ Lock.mu ∈ l.held ∧ v.poolName = p₀.name ∧
    volumePool l.call = some v.poolName ∧ l.debt = none ∧ Fits l p₀ v ∧
    match a with
    | .ok _ => l' = { l with debt := some ⟨p₀.name, v.shareID, v.requestedGB, 1⟩ }
    | .error _ => l' = l

def volumeGrown (v : SubVolume) (a : Except ApiErr SubVolume) (l' : Local) : Prop :=
  ∃ p₀ v₀ s, l.base = some p₀ ∧ l.forced = false ∧ l.made = [] ∧ Lock.mu ∈ l.held ∧
    l.volume = some v₀ ∧ v₀.poolName = p₀.name ∧ l.debt = none ∧
    v = { v₀ with requestedGB := v.requestedGB } ∧ v₀.requestedGB ≤ v.requestedGB ∧
    findShare p₀.status.shares v₀.shareID = some s ∧
    (v.requestedGB : ℤ) - v₀.requestedGB ≤ s.freeGB ∧
    match a with
    | .ok _ => l' = { l with
        debt := some ⟨p₀.name, v₀.shareID, (v.requestedGB : ℤ) - v₀.requestedGB, 0⟩ }
    | .error _ => l' = l

def volumeGone (n : Name) (a : Except ApiErr Unit) (l' : Local) : Prop :=
  ∃ p₀ v₀, l.base = some p₀ ∧ l.forced = false ∧ l.made = [] ∧ Lock.mu ∈ l.held ∧
    Lock.volume n ∈ l.held ∧ l.volume = some v₀ ∧ v₀.name = n ∧ v₀.poolName = p₀.name ∧
    l.debt = none ∧
    match a with
    | .ok _ => l' = { l with
        debt := some ⟨p₀.name, v₀.shareID, -v₀.requestedGB, -1⟩, source := none }
    | .error _ => l' = l

/-- The lock of the volume that the snapshot was taken of is held. -/
def Guarded (n : Name) : Prop := ∃ u, (n, u) ∈ l.sources ∧ Lock.volume u ∈ l.held

def snapshotRead (n : Name) (a : Except ApiErr Snapshot) (l' : Local) : Prop :=
  match a with
  | .ok s => l' = l ∨ l' = { l with sources := (n, s.sourceSubVolume) :: l.sources } ∨
      (Guarded l n ∧ (l' = { l with snapshot := some s } ∨ l' = { l with fresh := some s }))
  | .error _ => l' = l

def snapshotMade (s : Snapshot) (a : Except ApiErr Snapshot) (l' : Local) : Prop :=
  ∃ v ok, l.call = .createSnapshot s.name (some v.name) ok ∧ l.source = some v ∧
    Lock.volume v.name ∈ l.held ∧ (s.name, v.name) ∈ l.sources ∧ s.sourceSubVolume = v.name ∧
    s.poolName = v.poolName ∧ s.shareID = v.shareID ∧
    l.debt = some ⟨v.poolName, v.shareID, -(snapshotChargeGB s), 0⟩ ∧ l.charged = true ∧
    match a with
    | .ok s' => l' = { l with debt := none, charged := false, snapshot := some s' }
    | .error _ => l' = l

/-- A write of the method does not make a snapshot an instant one, or one no more. -/
def snapshotMarked (s : Snapshot) (l' : Local) : Prop :=
  l' = l ∧ Guarded l s.name ∧ ∃ s₀, (l.snapshot = some s₀ ∨ l.fresh = some s₀) ∧
    s.name = s₀.name ∧ (s.method = .instant ↔ s₀.method = .instant)

def snapshotGone (n : Name) (a : Except ApiErr Unit) (l' : Local) : Prop :=
  ∃ s, l.snapshot = some s ∧ s.name = n ∧ Guarded l n ∧ l.debt = none ∧
    match a with
    | .ok _ => l' = { l with
        debt := some ⟨s.poolName, s.shareID, -(snapshotChargeGB s), 0⟩, snapshot := none
        fresh := none }
    | .error _ => l' = l

def poolsListed (a : Except ApiErr (List Pool)) (l' : Local) : Prop :=
  match a with
  | .ok ps => l' = { l with
      claimed := some (ps.flatMap (fun p => p.status.shares.map PoolShareStatus.shareID)) }
  | .error _ => l' = l

def shareCreated (input : CreateShareInput) (a : Except VpcErr Name) (l' : Local) : Prop :=
  ∃ p₀ tier k, l.base = some p₀ ∧ l.Keeper ∧ input.name = shareNameOf p₀.name tier k ∧
    (∀ m ∈ l.made, m.input.name ≠ input.name) ∧ l.claimed = some input.claimedShareIDs ∧
    match a with
    | .ok id => l' = { l with asked := some (input, tier), offered := [], creating := some id }
    | .error .alreadyExists =>
      l' = { l with asked := some (input, tier), offered := [], creating := none }
    | .error _ => l' = l

/-- Shares are looked up by name for a create call, or for a share of the copy that was
found in the VPC before. -/
def sharesFound (n : Name) (a : Except VpcErr (List ShareInfo)) (l' : Local) : Prop :=
  match a with
  | .ok cs => (∃ input tier, l.asked = some (input, tier) ∧ n = input.name ∧
        l' = { l with offered := cs }) ∨
      (∃ p₀ info s, l.base = some p₀ ∧ l.looked = some info ∧ s ∈ p₀.status.shares ∧
        s.shareID = info.id ∧ s.shareName = n ∧ l.counted = none ∧
        l.finalized = some p₀.name ∧ (∃ m, l.call = .reconcile m) ∧
        l' = { l with switches := l.switches ++
          (cs.filter (fun c => c.id ≠ info.id)).map (fun c => (info.id, c)) })
  | .error _ => l' = l

def shareAwaited (id : Name) (a : Except VpcErr ShareInfo) (l' : Local) : Prop :=
  ∃ input tier, l.asked = some (input, tier) ∧ l.Keeper ∧
    (l.creating = some id ∨ ∃ c ∈ l.offered, c.id = id ∧ id ∉ input.claimedShareIDs) ∧
    match a with
    | .ok info => l' = { l with
        made := l.made ++ [⟨info, tier, input⟩], asked := none, creating := none }
    | .error _ => l' = l

/-- A share is deleted when the record was switched to another, or with its pool. -/
def shareDropped (id : Name) (l' : Local) : Prop :=
  l' = l ∧ (((∃ c, (id, c) ∈ l.switches) ∧ l.counted = none) ∨
    ∃ p₀ n, l.base = some p₀ ∧ p₀.deleting = true ∧ l.call = .reconcile n ∧
      l.counted = some ([], []) ∧ id ∈ p₀.status.shares.map PoolShareStatus.shareID)

end Clauses

/-- How the local state of a call goes on with a question and its answer. -/
def step (l : Local) : (q : Query) → Answer q → Local → Prop
  | .lock x, _, l' => l' = { l with held := x :: l.held }
  | .unlock x, _, l' => x ∈ l.held ∧ l' = l.release x
  | .getPool n, a, l' => poolRead l n a l'
  | .listPools, a, l' => poolsListed l a l'
  | .updatePoolStatus p, a, l' => statusWritten l p a l'
  | .updatePool p, a, l' => metadataWritten l p a l'
  | .getSubVolume n, a, l' => volumeRead l n a l'
  | .listSubVolumes n, a, l' => l' = l ∨ ∃ p₀ vs, l.base = some p₀ ∧ p₀.name = n ∧
      (∃ m, l.call = .reconcile m) ∧ a = Except.ok vs ∧ l' = { l with volumes := some vs }
  | .listSnapshots n, a, l' => l' = l ∨ ∃ p₀ vs ss, l.base = some p₀ ∧ p₀.name = n ∧
      (∃ m, l.call = .reconcile m) ∧ l.volumes = some vs ∧ a = Except.ok ss ∧
      l' = { l with counted := some (vs, ss) }
  | .listSubVolumesByShare s, a, l' => l' = l ∨ ∃ vs, (∃ m, l.call = .reconcile m) ∧
      a = Except.ok vs ∧ l' = { l with onShare := some (s, vs) }
  | .listSnapshotsByShare s, a, l' => l' = l ∨ ∃ p₀ vs ss, l.base = some p₀ ∧
      s ∈ p₀.spec.drainShares ∧ (∃ m, l.call = .reconcile m) ∧ l.onShare = some (s, vs) ∧
      a = Except.ok ss ∧ l' = { l with
        drains := l.drains ++
          [⟨s, vs.length, ss.length, vs.length = 0 && ss.length = 0⟩] }
  | .createSubVolume v, a, l' => volumeMade l v a l'
  | .updateSubVolume v, a, l' => volumeGrown l v a l'
  | .deleteSubVolume n, a, l' => volumeGone l n a l'
  | .getSnapshot n, a, l' => snapshotRead l n a l'
  | .createSnapshot s, a, l' => snapshotMade l s a l'
  | .updateSnapshot s, _, l' => snapshotMarked l s l'
  | .deleteSnapshot n, a, l' => snapshotGone l n a l'
  | .createShare input, a, l' => shareCreated l input a l'
  | .sharesByName n, a, l' => sharesFound l n a l'
  | .awaitShare id, a, l' => shareAwaited l id a l'
  | .getShare _, a, l' => l' = l ∨ ∃ info, a = Except.ok info ∧ l' = { l with looked := some info }
  | .deleteShare id, _, l' => shareDropped l id l'
  | _, _, l' => l' = l

/-- What can be told of an answer without the world it was given in. -/
def answers : (q : Query) → Answer q → Prop
  | .getPool n, a => ∀ p, a = Except.ok p → p.name = n
  | .getSubVolume n, a => ∀ v, a = Except.ok v → v.name = n
  | .getSnapshot n, a => ∀ s, a = Except.ok s → s.name = n
  | .createSnapshot s, a => ∀ s', a = Except.ok s' →
      s' = { noSnapshotStatus s with version := s'.version }
  | .sharesByName n, a => ∀ cs, a = Except.ok cs → ∀ c ∈ cs, c.name = n
  | .awaitShare id, a => ∀ info, a = Except.ok info → info.id = id
  | .getShare id, a => ∀ info, a = Except.ok info → info.id = id
  | _, _ => True

def protocol : Protocol Local Query Answer := ⟨answers, step⟩

/-- A call ends without a lock. A debt is left only when a write of the books failed, or
when the pool could not be read to give space back. -/
structure Final (l : Local) : Prop where
  held : l.held = []
  debt : ∀ d, l.debt = some d →
    l.lost = true ∨ (d.gb ≤ 0 ∧ d.pvcs = 0 ∧ l.skipped = some d.pool)

end FilePool.PoolProtocol
