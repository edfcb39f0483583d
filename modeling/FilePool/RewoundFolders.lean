import FilePool.FailoverPlan
import FilePool.PathNames
import FilePool.Recovery

/-!
A failover writes each disk that must show an earlier moment into a new folder next to
the disk's own. The folder's name ends in the second of the moment, and a folder that
holds a disk is taken as finished. The disk is written in a part folder first, which is
renamed when it is complete; a stop can leave the part folder with anything in it.
-/
namespace FilePool.RewoundFolders

open ByteFiles UndoFormat UndoNames VolumeSteps DurableSteps ApplyCopy FailoverPlan PathNames
open Function List

def digitsOf (n : ℕ) : Name := decimal (Nat.log 10 n + 1) n

/-- A number in decimal digits, as strconv.FormatInt writes it. -/
def formatInt (z : ℤ) : Name := if z < 0 then '-' :: digitsOf z.natAbs else digitsOf z.natAbs

def unix (t : ℤ) : ℤ := t / 1000000000

def rewindWord : Name := ['.', 'r', 'e', 'w', 'i', 'n', 'd', '-']

def rewindSuffix (t : Moment) : Name := rewindWord ++ formatInt (unix t)

def partSuffix : Name := ['.', 'p', 'a', 'r', 't']

/-- The folder of a rewound disk; a path that ends so already stays as it is. -/
def rewoundSubPath (subPath : Name) (t : Moment) : Name :=
  if hasSuffix subPath (rewindSuffix t) then subPath
  else pathJoin (pathDir subPath) (pathBase subPath ++ rewindSuffix t)

inductive SiteStep
  | inFolder (dir : Name) (t : Step)
  | removeAll (dir : Name)
  | mkdir (dir : Name)
  | newDisk (dir : Name) (content : Bytes) (mtime : ℤ)
  | rename (old new : Name)

namespace SiteStep

def apply : SiteStep → Share → Share
  | inFolder dir t, s => update s dir ((s dir).map t.apply)
  | removeAll dir, s => update s dir none
  | mkdir dir, s => update s dir (some Volume.empty)
  | newDisk dir content mtime, s =>
    update s dir ((s dir).map (fun v => { v with disk := some ⟨content, mtime, true⟩ }))
  | rename old new, s => update (update s new (s old)) old none

/-- A removal or a write of a disk that was stopped can leave anything in its folder;
to make a folder and to rename one are single steps. -/
def Torn : SiteStep → Share → Share → Prop
  | inFolder dir t, s, s' => ∃ v v', s dir = some v ∧ device.Torn t v v' ∧
      s' = update s dir (some v')
  | removeAll dir, s, s' => ∃ o, s' = update s dir o
  | mkdir _, _, _ => False
  | newDisk dir _ _, s, s' => ∃ o, s' = update s dir o
  | rename _ _, _, _ => False

end SiteStep

def site : Device Share SiteStep := ⟨SiteStep.apply, SiteStep.Torn⟩

inductive SiteErr
  | rollBack (name : Name) (e : Err)
  | rewind (name : Name) (t : Moment) (e : Err)
  | notExist
  | notEmpty
  | notPermitted
  deriving DecidableEq, Repr

abbrev SiteProg (α : Type) := Prog site SiteErr α

/-- A program on one disk's folder, as a program on the share. -/
def inFolder {α : Type} (dir : Name) (wrap : Err → SiteErr) (p : VolProg α) : SiteProg α :=
  fun s =>
    match s dir with
    | none => ([], .error .notExist)
    | some v => ((p v).1.map (SiteStep.inFolder dir), (p v).2.mapError wrap)

def hasDisk (s : Share) (dir : Name) : Bool :=
  match s dir with
  | none => false
  | some v => v.disk.isSome

/-- A folder can be renamed over another one only if that one is empty. -/
def renameFolder (old new : Name) : SiteProg Unit := do
  Prog.inspect (fun s =>
    match s new with
    | none => .ok ()
    | some v => if v = Volume.empty then .ok () else .error .notEmpty)
  Prog.perform (.rename old new)

/-- What a failover takes from its surroundings: a time stamp, and whether the new disk
of a folder could be given to the user that runs VMs. -/
structure Surroundings where
  stamp : ℤ
  granted : Name → Bool

/-- Write the disk as it was at the moment into the folder out. -/
def writeRewound (env : Surroundings) (name dir : Name) (t : Moment) (out : Name) :
    SiteProg Unit := do
  let part := out ++ partSuffix
  Prog.perform (.removeAll part)
  Prog.perform (.mkdir part)
  match ← (inFolder dir (.rewind name t) (rewind t false env.stamp)).attempt with
  | .error e => do
    Prog.perform (.removeAll part)
    Prog.fail e
  | .ok content => do
    Prog.perform (.newDisk part content env.stamp)
    if env.granted out then renameFolder part out else Prog.fail .notPermitted

/-- Prepare the disk of one entry of a plan. -/
def materialize (env : Surroundings) (sv : PlanEntry) : SiteProg PlanEntry :=
  if sv.vmGroup = [] then return sv
  else if sv.rewind then do
    let out := sv.localDir ++ rewindSuffix sv.vmMoment
    let finished ← Prog.inspect (fun s => .ok (hasDisk s out))
    if finished then return { sv with subPath := rewoundSubPath sv.subPath sv.vmMoment }
    else do
      writeRewound env sv.subVolumeName sv.localDir sv.vmMoment out
      return { sv with subPath := rewoundSubPath sv.subPath sv.vmMoment }
  else do
    let _ ← inFolder sv.localDir (.rollBack sv.subVolumeName) (recover env.stamp)
    return sv

/-- Prepare the disks that the choice of moments marked. -/
def materializeVMs (env : Surroundings) : List PlanEntry → SiteProg (List PlanEntry)
  | [] => return []
  | sv :: svs => do
    let sv' ← materialize env sv
    let svs' ← materializeVMs env svs
    return sv' :: svs'

theorem atoi_formatInt (z : ℤ) : atoi (formatInt z) = some z := by
  have hlt : z.natAbs < 10 ^ (Nat.log 10 z.natAbs + 1) :=
    Nat.lt_pow_succ_log_self (by decide) _
  unfold formatInt digitsOf
  by_cases hz : z < 0
  · rw [if_pos hz, atoi, if_pos rfl, unsigned?_decimal (Nat.succ_pos _) hlt]
    simp only [Option.map_some]
    congr 1
    omega
  · rw [if_neg hz, atoi_decimal _ _ (Nat.succ_pos _) hlt]
    congr 1
    omega

theorem formatInt_inj (y z : ℤ) (h : formatInt y = formatInt z) : y = z := by
  have hy := atoi_formatInt y
  rw [h, atoi_formatInt z] at hy
  exact (Option.some.inj hy).symm

/-- Two names that are equal are cut at the same last sign of a kind. -/
theorem append_cut_inj (s : Char) (a b x y : Name) (hx : s ∉ x) (hy : s ∉ y)
    (h : a ++ s :: x = b ++ s :: y) : a = b ∧ x = y := by
  rcases append_eq_append_iff.mp h with ⟨m, hb, hm⟩ | ⟨m, ha, hm⟩
  · cases m with
    | nil =>
      obtain ⟨-, hxy⟩ := cons.inj hm
      exact ⟨by simpa using hb.symm, hxy⟩
    | cons c m =>
      obtain ⟨-, hrest⟩ := cons.inj hm
      exact absurd (hrest ▸ mem_append_right m mem_cons_self) hx
  · cases m with
    | nil =>
      obtain ⟨-, hxy⟩ := cons.inj hm
      exact ⟨by simpa using ha, hxy.symm⟩
    | cons c m =>
      obtain ⟨-, hrest⟩ := cons.inj hm
      exact absurd (hrest ▸ mem_append_right m mem_cons_self) hy

/-- What follows the last dot of a rewound folder's name. -/
def rewindTail (t : Moment) : Name := ['r', 'e', 'w', 'i', 'n', 'd', '-'] ++ formatInt (unix t)

variable {t : Moment} {d d' : Name} {t' : Moment}

theorem dot_notMem_rewindTail : '.' ∉ rewindTail t := by
  unfold rewindTail
  rw [mem_append, not_or]
  exact ⟨by decide, fun hmem => ne_of_atoi (by decide) (atoi_formatInt (unix t)) '.' hmem rfl⟩

theorem proper_rewindSuffix (t : Moment) : Proper (rewindSuffix t) := by
  refine ⟨nofun, nofun, nofun, ?_⟩
  unfold rewindSuffix
  rw [mem_append, not_or]
  exact ⟨by decide, fun hmem => ne_of_atoi (by decide) (atoi_formatInt (unix t)) '/' hmem rfl⟩

/-- The name of a rewound folder tells the disk and the second. -/
theorem rewound_name_inj
    (h : d ++ rewindSuffix t = d' ++ rewindSuffix t') : d = d' ∧ unix t = unix t' := by
  obtain ⟨hd, htail⟩ := append_cut_inj '.' d d' _ _ dot_notMem_rewindTail dot_notMem_rewindTail h
  exact ⟨hd, formatInt_inj _ _ (append_cancel_left htail)⟩

theorem part_ne_rewound :
    d ++ rewindSuffix t ++ partSuffix ≠ d' ++ rewindSuffix t' := by
  intro h
  have hsplit : d ++ rewindSuffix t ++ '.' :: ['p', 'a', 'r', 't'] = d' ++ '.' :: rewindTail t' := h
  obtain ⟨-, htail⟩ := append_cut_inj '.' _ d' _ _ (by decide) dot_notMem_rewindTail hsplit
  cases htail

/-- The path of a rewound disk, for the clean path of a folder that is not itself named as one. -/
theorem rewoundSubPath_eq {p : Name} (hroot : p.head? = some '/')
    (hnew : hasSuffix (pathClean p) (rewindSuffix t) = false) :
    rewoundSubPath (pathClean p) t = pathClean p ++ rewindSuffix t := by
  unfold rewoundSubPath
  rw [hnew, if_neg Bool.false_ne_true]
  exact join_dir_base hroot (proper_rewindSuffix t)

end FilePool.RewoundFolders
