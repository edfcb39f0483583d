import FilePool.UndoFolder

/-!
The moment a far-site disk shows and the state that failover reads. The newest
restore point knows the moment, because its copy ended there; a disk without
one relies on the moment file. The moment file also seals the disk: it holds
the modification time and the size that the last copy left.
-/
namespace FilePool.DiskMoments

open UndoFormat UndoNames VolumeSteps DurableSteps UndoFolder

/-- The moment file, if there is one. -/
def readMomentFile (v : Volume) : Except Err (Option MomentFile) :=
  match v.momentFile with
  | none => .ok none
  | some none => .error .momentUnreadable
  | some (some mf) => .ok (some mf)

/-- The moment for the restore point undo files already listed. -/
def momentFrom (v : Volume) (files : List UndoFile) : Except Err (Option Moment) :=
  match files.getLast? with
  | some u => .ok (some u.hdr.toMoment)
  | none => do
    match ← readMomentFile v with
    | none => return none
    | some mf => if mf.moment = zeroTime then return none else return some mf.moment

/-- The moment the disk shows now, or none if it is not known. -/
def moment (v : Volume) : Except Err (Option Moment) := do
  let files ← appliedUndo v
  momentFrom v files

/-- The moment file with the disk sealed as it is now. -/
def sealDisk (v : Volume) (mf : MomentFile) : MomentFile :=
  match diskInfo v with
  | .ok d => { mf with diskMtimeNs := d.mtime, diskSize := d.bytes.length }
  | .error _ => mf

def writeMomentFile (mf : MomentFile) : VolProg Unit := do
  let mf ← Prog.inspect (fun v => .ok (sealDisk v mf))
  Prog.perform (.writeMoment mf)

/-- Record the disk's modification time again, after a roll back. -/
def reseal : VolProg Unit := do
  match ← Prog.inspect readMomentFile with
  | none => return ()
  | some mf => writeMomentFile mf

/-- What a far-site disk shows, for failover. -/
structure DiskState where
  moment : Option Moment
  vmGroup : Name
  restorePoints : List Moment
  unfinished : Bool
  modified : Bool
  deriving DecidableEq, Repr

/-- Whether the disk's modification time is not the sealed one. -/
def sealBroken (v : Volume) (mf : MomentFile) : Bool :=
  match diskInfo v with
  | .ok d => mf.diskMtimeNs ≠ 0 ∧ d.mtime ≠ mf.diskMtimeNs
  | .error _ => false

/-- The state for the restore point undo files already listed. -/
def stateFrom (v : Volume) (files : List UndoFile) : Except Err DiskState := do
  let t ← momentFrom v files
  let mf ← readMomentFile v
  let unfinished ← hasUnfinishedCopy v
  return {
    moment := t
    vmGroup := match mf with | some mf => mf.vmGroup | none => []
    restorePoints := (files.filter (fun u => u.hdr.fromMoment / 1000000000 > 0)).map
      (fun u => u.hdr.fromMoment)
    unfinished := unfinished
    modified := match mf with | some mf => sealBroken v mf && !unfinished | none => false }

def readDiskState (v : Volume) : Except Err DiskState := do
  let files ← appliedUndo v
  stateFrom v files

/-- Whether a commit may be changing the disk. A lease that cannot be read is live. -/
def leaseActive (v : Volume) (now : Moment) : Bool :=
  match v.lease with
  | none => false
  | some none => true
  | some (some expires) => now < expires

end FilePool.DiskMoments
