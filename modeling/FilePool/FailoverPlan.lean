import FilePool.DiskMoments
import FilePool.GroupedLists

/-!
The choice of a moment for the disks of each VM in a failover. The plan lists the
volumes found on the far-site share. The disks of one VM must all show one moment:
the newest one that each of them shows now or can be rewound to. The walks through
a map are in an order that is not known, so they go through a parameter.
-/
namespace FilePool.FailoverPlan

open UndoFormat UndoNames VolumeSteps UndoFolder DiskMoments GroupedLists

/-- A volume to be failed over. The last three fields are set for a VM's disk; a
moment that was never set is the zero time. -/
structure PlanEntry where
  subVolumeName : Name
  subPath : Name
  lastSyncTime : Moment
  localDir : Name
  vmGroup : Name
  vmMoment : Moment
  rewind : Bool
  deriving DecidableEq, Repr

structure Plan where
  subVolumes : List PlanEntry
  rpo : ℤ
  deriving DecidableEq, Repr

structure VMOptions where
  rewindTo : Option Moment
  force : Bool
  now : Moment
  vms : List Name

/-- The folders on the mounted share. -/
abbrev Share := Name → Option Volume

structure DiskInGroup where
  idx : ℕ
  name : Name
  state : DiskState
  deriving DecidableEq, Repr

structure VMGroupAnalysis where
  disks : List DiskInGroup
  common : List Moment
  deriving DecidableEq, Repr

inductive FailoverErr
  | diskState (name : Name) (e : Err)
  | unknownVMs (missing present : List Name)
  | busy (names : List Name)
  | momentUnknown (name key : Name)
  | noCommonMoment (key : Name) (disks : List DiskInGroup) (limit : Option Moment)
  | modified (name : Name)
  deriving DecidableEq, Repr

/-- The orders in which the walks through the maps go. -/
structure MapOrder where
  groups : List (Name × List DiskInGroup) → List (Name × List DiskInGroup)
  groups_perm : ∀ l, (groups l).Perm l
  marks : List (Name × VMGroupAnalysis) → List (Name × VMGroupAnalysis)
  marks_perm : ∀ l, (marks l).Perm l
  moments : List Moment → List Moment
  moments_perm : ∀ l, (moments l).Perm l

def MapOrder.listed : MapOrder :=
  ⟨fun l => l, List.Perm.refl, fun l => l, List.Perm.refl, fun l => l, List.Perm.refl⟩

/-- The VM filter, sorted, without repeats or empty names. -/
def normalizeVMs (vms : List Name) : List Name :=
  (vms.filter (· ≠ [])).dedup.insertionSort (fun a b => a ≤ b)

/-- Whether the filter lets a VM through; an empty filter lets every VM through. -/
def chosen (opts : VMOptions) (key : Name) : Prop :=
  normalizeVMs opts.vms = [] ∨ key ∈ normalizeVMs opts.vms

instance (opts : VMOptions) (key : Name) : Decidable (chosen opts key) := by
  unfold chosen
  infer_instance

def volumePrefix : Name := ['v', 'o', 'l', 'u', 'm', 'e', '/']

/-- The VM a disk belongs to; a disk without one stands alone. -/
def vmKey (sv : PlanEntry) (st : DiskState) : Name :=
  if st.vmGroup = [] then volumePrefix ++ sv.subVolumeName else st.vmGroup

/-- The folder and the state of an entry's disk. A volume without a disk and a disk
that the receiver did not write give nothing. -/
def seeDisk (share : Share) (sv : PlanEntry) : Except FailoverErr (Option (Volume × DiskState)) :=
  if sv.localDir = [] then .ok none
  else
    match share sv.localDir with
    | none => .ok none
    | some v =>
      match diskInfo v with
      | .error _ => .ok none
      | .ok _ =>
        match readDiskState v with
        | .error e => .error (.diskState sv.subVolumeName e)
        | .ok st => if st.moment = none ∧ st.vmGroup = [] then .ok none else .ok (some (v, st))

structure Scan where
  groups : List (Name × List DiskInGroup)
  found : List Name
  busy : List Name

def scanEntry (share : Share) (opts : VMOptions) (s : Scan) (x : PlanEntry × ℕ) :
    Except FailoverErr Scan := do
  match ← seeDisk share x.1 with
  | none => return s
  | some (v, st) =>
    let key := vmKey x.1 st
    let found := if st.vmGroup = [] then s.found else s.found ++ [key]
    if chosen opts key then
      let busy := leaseActive v opts.now && !opts.force
      return ⟨addTo key ⟨x.2, x.1.subVolumeName, st⟩ s.groups, found,
        if busy then s.busy ++ [x.1.subVolumeName] else s.busy⟩
    else return { s with found := found }

def unknownVMs (want found : List Name) : Except FailoverErr Unit :=
  let missing := (normalizeVMs want).filter (· ∉ found)
  if missing = [] then .ok () else .error (.unknownVMs missing (normalizeVMs found))

/-- The moments a disk can show, as a set. -/
def showable (st : DiskState) : List Moment :=
  (st.moment.getD zeroTime :: st.restorePoints).dedup

def notAfter (limit : Option Moment) (t : Moment) : Prop := ∀ r ∈ limit, t ≤ r

instance (limit : Option Moment) (t : Moment) : Decidable (notAfter limit t) := by
  unfold notAfter
  infer_instance

def unknownDisk (opts : VMOptions) (disks : List DiskInGroup) : Option DiskInGroup :=
  disks.find? (fun d => d.state.moment = none ∧ (1 < disks.length ∨ opts.rewindTo ≠ none))

/-- The common moments of one VM. A lone disk whose moment is not known has none. -/
def analyzeGroup (ord : MapOrder) (opts : VMOptions) (g : Name × List DiskInGroup) :
    Except FailoverErr (Name × VMGroupAnalysis) :=
  match unknownDisk opts g.2 with
  | some d => .error (.momentUnknown d.name g.1)
  | none =>
    if g.2.length = 1 ∧ ∀ d ∈ g.2, d.state.moment = none then .ok (g.1, ⟨g.2, []⟩)
    else
      let common := commonOf (g.2.map (fun d => showable d.state))
      let kept := newestFirst ((ord.moments common).filter (notAfter opts.rewindTo))
      if kept = [] then .error (.noCommonMoment g.1 g.2 opts.rewindTo)
      else .ok (g.1, ⟨g.2, kept⟩)

/-- The disks of each VM and the moments they all can show. -/
def analyzeVMs (ord : MapOrder) (share : Share) (p : Plan) (opts : VMOptions) :
    Except FailoverErr (List (Name × VMGroupAnalysis)) := do
  let s ← p.subVolumes.zipIdx.foldlM (scanEntry share opts) ⟨[], [], []⟩
  unknownVMs opts.vms s.found
  if s.busy = [] then (ord.groups s.groups).mapM (analyzeGroup ord opts)
  else .error (.busy s.busy)

def markDisk (key : Name) (t : Moment) (d : DiskInGroup) (sv : PlanEntry) : PlanEntry :=
  { sv with
    vmGroup := key
    vmMoment := t
    rewind := d.state.moment ≠ some t
    lastSyncTime := t }

/-- Mark the disks of one VM. A disk that something has written to cannot be rewound. -/
def markDisks (key : Name) (t : Moment) :
    List DiskInGroup → List PlanEntry → Except FailoverErr (List PlanEntry)
  | [], svs => .ok svs
  | d :: ds, svs =>
    if d.state.moment ≠ some t ∧ d.state.modified then .error (.modified d.name)
    else markDisks key t ds (svs.modify d.idx (markDisk key t d))

def markGroup (svs : List PlanEntry) (g : Name × VMGroupAnalysis) :
    Except FailoverErr (List PlanEntry) :=
  match g.2.common with
  | [] => .ok svs
  | t :: _ => markDisks g.1 t g.2.disks svs

/-- Drop every volume that is not a disk of a chosen VM. -/
def keepOnly (groups : List (Name × VMGroupAnalysis)) (svs : List PlanEntry) : List PlanEntry :=
  (svs.zipIdx.filter (fun x => ∃ g ∈ groups, ∃ d ∈ g.2.disks, d.idx = x.2)).map Prod.fst

/-- The difference of two times, cut to what a 64-bit duration can hold. -/
def subTime (a b : Moment) : ℤ := max (-2 ^ 63) (min (2 ^ 63 - 1) (a - b))

def oldestSync (svs : List PlanEntry) : Moment :=
  svs.foldl (fun oldest sv =>
    if oldest = zeroTime ∨ sv.lastSyncTime < oldest then sv.lastSyncTime else oldest) zeroTime

def recomputeRPO (now : Moment) (p : Plan) : Plan :=
  let oldest := oldestSync p.subVolumes
  if oldest = zeroTime then p else { p with rpo := subTime now oldest }

/-- Choose the moment of each VM and mark the disks that must be rewound to it. -/
def resolveVMs (ord : MapOrder) (share : Share) (p : Plan) (opts : VMOptions) :
    Except FailoverErr Plan := do
  let groups ← analyzeVMs ord share p opts
  let svs ← (ord.marks groups).foldlM markGroup p.subVolumes
  let kept := if opts.vms = [] then svs else keepOnly groups svs
  return recomputeRPO opts.now { p with subVolumes := kept }

end FilePool.FailoverPlan
