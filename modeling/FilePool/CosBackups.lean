import FilePool.MomentPicks
import FilePool.RestoreDisk

/-!
The choice of a backup in COS. An export holds the latest copy of a volume and, in a second
snapshot, the restore point folders that the volume had then. Browsing and restoring both
read the oldest export made at or after the asked time, in two programs: one in Go and one
in awk and shell. The rule finds the newest backup only if that export has it in its folders:
an export that stopped before its second snapshot opens a copy from after the time. The copy
of a VM that was stopped holds its disk, and restoring leaves the choice to the disk then.
-/
namespace FilePool.CosBackups

open UndoFormat UndoNames UndoFolder VolumeSteps NewestEntry MomentPicks List

/-- One export: its moment, the folder names of its moments snapshot if it has one, and the
folder of the disk if its copy is that of a VM disk. -/
structure Export where
  moment : Time
  folders : Option (List Name)
  disk : Option Volume

def Export.names (e : Export) : List Name := e.folders.getD []

/-- The exports of a volume, oldest first, and the lines in which Kopia lists them. -/
structure Exports where
  list : List Export
  sorted : list.Pairwise (fun d e => d.moment < e.moment)
  lines : List Export
  perm : lines.Perm list

/-- What a choice opens. -/
inductive Opened
  | latest (e : Export)
  | folder (e : Export) (name : Name)
  | rewound (e : Export) (t : Moment)
  | fails

/-- The oldest export made at or after the time, or the newest one. -/
def exportFor (E : Exports) : Option Time → Option Export
  | none => E.list.getLast?
  | some t => (E.list.find? (fun e => t ≤ e.moment)).or E.list.getLast?

/-- The days from 1970 to a day of the calendar. -/
def unixDays (year month day : ℤ) : ℤ :=
  let y := if month ≤ 2 then year - 1 else year
  let m := if month ≤ 2 then month + 9 else month - 3
  365 * y + y / 4 - y / 100 + y / 400 + (153 * m + 2) / 5 + day - 719469

/-- The moment of a time, in nanoseconds. -/
def unixTime (k : ℕ) : Moment :=
  let days := unixDays (k / 10 ^ 10) (k / 10 ^ 8 % 100) (k / 10 ^ 6 % 100)
  (((days * 24 + k / 10 ^ 4 % 100) * 60 + k / 10 ^ 2 % 100) * 60 + k % 100) * 10 ^ 9

/-- What the disk's own restore gives; without a time it is asked for the zero time. The stamp of
its writes does not matter. -/
def restoreVMDisk (e : Export) (v : Volume) (asked : Option Time) : Opened :=
  let wanted := asked.elim zeroTime (fun t => unixTime t)
  match (RestoreDisk.restoreDisk wanted false 0).result v with
  | .error _ => .fails
  | .ok (r, _) => if r.latest then .latest e else .rewound e r.moment

/-- What the restore script copies. -/
def restoreBackup (e : Export) (asked : Option Time) : Opened :=
  match e.disk, asked with
  | some v, _ => restoreVMDisk e v asked
  | none, none => .latest e
  | none, some t =>
    if newestText e.names = [] then .latest e
    else
      match pickShell e.names t with
      | some n => .folder e n
      | none => .fails

variable {E : Exports}

/-- The names of an export that a program looks at. -/
def looked (p : List Name → Name → Bool) (e : Export) : List Name := e.names.filter (p e.names)

/-- The choice among the names that a program looks at. -/
def choose (p : List Name → Name → Bool) (text : Name → Name) (e : Export) (t : Time) : Opened :=
  if looked p e = [] then .latest e
  else
    match lastNotAfter text (formatMoment t) ((looked p e).insertionSort (· ≤ ·)) with
    | some n => .folder e n
    | none => .fails

section Newest

variable (E : Exports) (t : Time)

/-- The times of the backups that any export holds. -/
def heldTimes : List ℕ := E.list.flatMap (fun e => e.moment.1 :: moments e.names)

/-- No export has a restore point folder. -/
def NoFolders : Prop := ∀ e ∈ E.list, moments e.names = []

/-- Whether what is opened is the backup of this time. -/
def Opened.IsBackup : Opened → ℕ → Prop
  | .latest e, k => e.moment.1 = k
  | .folder _ n, k => formatMoment k = n
  | .rewound _ _, _ => False
  | .fails, _ => False

/-- The newest backup at or before the time that any export holds, or a failure if there
is none. Without any restore point folder it is the latest copy of the chosen export. -/
def Newest (o : Opened) : Prop :=
  (NoFolders E → o = (exportFor E (some t)).elim .fails .latest) ∧
    (¬ NoFolders E →
      (∃ k, IsGreatest (upTo (heldTimes E) t) k ∧ o.IsBackup k) ∨
        (upTo (heldTimes E) t = ∅ ∧ o = .fails))

variable {p : List Name → Name → Bool} {text : Name → Name} {E t} {e : Export} {k : ℕ}

variable (hp : ∀ k ∈ moments e.names, p e.names (formatMoment k) = true)
  (htext : ∀ k, text (formatMoment k) = formatMoment k)

include hp htext

omit hp htext

end Newest

/-- The first seconds of a year. -/
def secondOf : Fin 3 → Time
  | 0 => ⟨20260101000000, by decide⟩
  | 1 => ⟨20260101000001, by decide⟩
  | 2 => ⟨20260101000002, by decide⟩

def folderOf (i : Fin 3) : Name := formatMoment (secondOf i)

end FilePool.CosBackups
