import FilePool.RestoreDisk
import FilePool.OwnPoint

/-!
A direct copy: the staged copy is applied to the disk, and then the staging
file is removed. A run that stops is tried again with the same copy. Tries that
stop before the mark of the copy's undo file, or after the staging file is
removed, leave what one try leaves; a try that stops in between makes the next
one apply the copy again, on top of itself.
-/
namespace FilePool.VMDisk

open UndoLog hiding rewind
open ByteFiles BigEndian CopyChunks UndoWriter UndoFormat UndoNames List
open VolumeSteps DurableSteps DurableSteps.Prog UndoFolder ApplyCopy Recovery
open CopySteps CrashSafety Pruning SavedLayers RestoreDisk OwnPoint

structure VMDiskResult where
  applied : ApplyResult
  restorePoints : ℕ
  oldestRestorePoint : Option Moment
  restorePointMoments : List Moment
  deriving DecidableEq, Repr

def restorePointsResult (res : ApplyResult) : VolProg VMDiskResult := do
  let points ← Prog.inspect restorePoints
  return ⟨res, points.length, points.head?, points⟩

/-- Apply the staged copy and delete the staging file. If the file is gone, the
copy may have been applied by an earlier run. -/
def applyVMDisk (opts : ApplyOptions) (st : Stamps) : VolProg VMDiskResult := do
  match ← Prog.inspect (fun v => .ok v.staging) with
  | none => do
    match ← Prog.inspect (fun v => .ok (copyApplied v opts)) with
    | .ok true => restorePointsResult ⟨0, false⟩
    | _ => Prog.fail .notExist
  | some src => do
    let res ← applyCopy src opts st
    Prog.perform .removeStaging
    restorePointsResult res

/-- One try: what the Job does not share with the other tries of the copy. -/
structure Try where
  keep : ℤ
  now : Moment
  stamps : Stamps
  deriving DecidableEq, Repr

def Try.opts (copy : ApplyOptions) (x : Try) : ApplyOptions :=
  { copy with keep := x.keep, now := x.now }

/-- The try stopped after the mark, with the staging file still there. -/
def AppliedStaged (copy : ApplyOptions) (x : Try) (v s : Volume) : Prop :=
  ∃ src, v.staging = some src ∧ Marked src (x.opts copy) x.stamps v s

/-- Tries of one copy, each stopped anywhere but after the mark with the staging
file still there. -/
inductive Tries (copy : ApplyOptions) : List Try → Volume → Volume → Prop
  | nil (v : Volume) : Tries copy [] v v
  | snoc (xs : List Try) (x : Try) (v u s : Volume) (hrun : Tries copy xs v u)
      (hstop : (applyVMDisk (x.opts copy) x.stamps).Stopped u s)
      (hclean : ¬ AppliedStaged copy x u s) : Tries copy (xs ++ [x]) v s

variable (opts : ApplyOptions) (st : Stamps) (v : Volume)

theorem restorePointsResult_steps (res : ApplyResult) :
    (restorePointsResult res).steps v = [] ∧
      ∀ r, (restorePointsResult res).result v = .ok r →
        restorePoints v = .ok r.restorePointMoments := by
  unfold restorePointsResult
  cases hp : restorePoints v with
  | error e =>
    have hfail : (inspect restorePoints : VolProg _).result v = .error e := hp
    refine ⟨steps_bind_error _ _ v hfail, ?_⟩
    intro r hr
    rw [result_bind_error _ _ v hfail] at hr
    cases hr
  | ok pts =>
    have hlook : (inspect restorePoints : VolProg _) v = ([], .ok pts) := congrArg (Prod.mk []) hp
    unfold Prog.steps Prog.result
    rw [bind_look _ _ v hlook]
    refine ⟨rfl, ?_⟩
    rintro r hr
    cases hr
    rfl

theorem applyVMDisk_gone (h : v.staging = none) :
    (applyVMDisk opts st).steps v = [] ∧
      ∀ r, (applyVMDisk opts st).result v = .ok r →
        restorePoints v = .ok r.restorePointMoments := by
  have hlook : (inspect (fun v => .ok v.staging) : VolProg (Option CopySource)) v =
      ([], .ok none) := congrArg (fun x => ([], Except.ok x)) h
  have hsecond : (inspect (fun v => .ok (copyApplied v opts)) : VolProg (Except Err Bool)) v =
      ([], .ok (copyApplied v opts)) := rfl
  unfold applyVMDisk Prog.steps Prog.result
  rw [bind_look _ _ v hlook]
  simp only
  rw [bind_look _ _ v hsecond]
  cases hc : copyApplied v opts with
  | error e => exact ⟨rfl, fun r hr => by cases hr⟩
  | ok done =>
    cases done with
    | false => exact ⟨rfl, fun r hr => by cases hr⟩
    | true => exact restorePointsResult_steps v ⟨0, false⟩

/-- With the staging file there the copy is applied, and then the file goes. -/
theorem applyVMDisk_staged {src : CopySource} (h : v.staging = some src) :
    applyVMDisk opts st v = (applyCopy src opts st >>= fun res =>
      perform .removeStaging >>= fun _ => restorePointsResult res) v := by
  have hlook : (inspect (fun v => .ok v.staging) : VolProg (Option CopySource)) v =
      ([], .ok (some src)) := congrArg (fun x => ([], Except.ok x)) h
  unfold applyVMDisk
  rw [bind_look _ _ v hlook]

variable (S : List (Name × Bytes)) (src : StagedCopy) (copy : ApplyOptions) (b : Bytes)

/-- The old disk, or the old disk with zeros past the size of the copy. -/
def OldDisk (b' : Bytes) : Prop := b' = b ∨ b' = zeroFrom b src.size

theorem oldDisk_trans {b' b'' : Bytes} (h : OldDisk src b b')
    (h' : b'' = b' ∨ b'' = zeroFrom b' src.size) : OldDisk src b b'' := by
  rcases h' with rfl | rfl
  · exact h
  · rcases h with rfl | rfl
    · exact .inr rfl
    · exact .inr (zeroFrom_zeroFrom b)

theorem afterCopy_oldDisk {b' : Bytes} (h : OldDisk src b b') :
    afterCopy S src copy b' = afterCopy S src copy b ∧
      copied src.toCopySource copy.full b' = copied src.toCopySource copy.full b := by
  rcases h with rfl | rfl
  · exact ⟨rfl, rfl⟩
  · refine ⟨?_, copied_zeroFrom src copy.full b⟩
    unfold afterCopy restorePoint
    rw [undoBytes_zeroFrom src copy b _ (forEachNewChunk_chunks src copy.full)]

/-- The folder after a try that ended the copy. -/
structure Finished (x : Try) (s : Volume) : Prop where
  rests : Rests (keptEntries (x.opts copy) (afterCopy S src copy b))
    (some (copied src.toCopySource copy.full b)) s
  read : 0 < x.keep → ∃ files, listUndo readUndo (afterCopy S src copy b) = .ok files

theorem finished_applyCopy (x : Try) (u : Volume) (b' : Bytes) (hb' : OldDisk src b b')
    (hu : Recoverable S (some b') u) (st : Stamps) (res : ApplyResult)
    (hok : (applyCopy src.toCopySource (x.opts copy) st).result u = .ok res) :
    Marked src.toCopySource (x.opts copy) st u
        ((applyCopy src.toCopySource (x.opts copy) st).exec u) ∧
      Finished S src copy b x ((applyCopy src.toCopySource (x.opts copy) st).exec u) := by
  obtain ⟨hmark, hrests, hread⟩ := rests_applyCopy S src (x.opts copy) b' hu hok
  obtain ⟨hafter, hcopied⟩ := afterCopy_oldDisk S src copy b hb'
  have hsame : afterCopy S src (x.opts copy) b' = afterCopy S src copy b := hafter
  rw [hsame] at hrests hread
  exact ⟨hmark, hcopied ▸ hrests, hread⟩

/-- The copy is still to be applied to the old disk. -/
def Pending (s : Volume) : Prop :=
  s.staging = some src.toCopySource ∧ ∃ b', OldDisk src b b' ∧ Recoverable S (some b') s

/-- One of the tries applied the copy, and the staging file is gone. -/
def Done (xs : List Try) (s : Volume) : Prop :=
  s.staging = none ∧ ∃ x ∈ xs, Finished S src copy b x s

theorem finished_removeStaging (x : Try) {s : Volume} (h : Finished S src copy b x s) :
    Finished S src copy b x (Step.removeStaging.apply s) :=
  ⟨⟨h.rests.folder, h.rests.entries, h.rests.clean, h.rests.disk⟩, h.read⟩

theorem pending_step (hb : b.length < 2 ^ 63) (x : Try) (u s : Volume) (hu : Pending S src b u)
    (hstop : (applyVMDisk (x.opts copy) x.stamps).Stopped u s)
    (hclean : ¬ AppliedStaged copy x u s) :
    Pending S src b s ∨ s.staging = none ∧ Finished S src copy b x s := by
  obtain ⟨hstaging, b', hb', hrec⟩ := hu
  have hlen : b'.length < 2 ^ 63 := by
    rcases hb' with rfl | rfl
    · exact hb
    · simpa using hb
  have hearly : (applyCopy src.toCopySource (x.opts copy) x.stamps).Stopped u s →
      Pending S src b s := by
    intro hcopy
    have hrest := sameRest_of_only only_applyCopy hcopy
    obtain ⟨b'', hb'', hrec''⟩ := recoverable_of_unmarked S src (x.opts copy) x.stamps b' u s hlen
      hrec hcopy (fun hmark => hclean ⟨_, hstaging, hmark⟩)
    exact ⟨hrest.2.2.trans hstaging, b'', oldDisk_trans src b hb' hb'', hrec''⟩
  unfold Prog.Stopped Prog.steps at hstop
  rw [applyVMDisk_staged _ _ u hstaging] at hstop
  change Prog.Stopped _ u s at hstop
  cases hres : (applyCopy src.toCopySource (x.opts copy) x.stamps).result u with
  | error e =>
    rw [stopped_bind_error _ _ u hres] at hstop
    exact .inl (hearly hstop)
  | ok res =>
    rw [stopped_bind_ok _ _ u hres] at hstop
    rcases hstop with hcopy | hlast
    · exact .inl (hearly hcopy)
    · obtain ⟨hmark, hfin⟩ := finished_applyCopy S src copy b x u b' hb' hrec x.stamps res hres
      have hremove := stopped_bind_ok (perform .removeStaging : VolProg Unit)
        (fun _ => restorePointsResult res)
        ((applyCopy src.toCopySource (x.opts copy) x.stamps).exec u) rfl s
      rw [hremove] at hlast
      have hsteps := (restorePointsResult_steps
        ((perform .removeStaging : VolProg Unit).exec
          ((applyCopy src.toCopySource (x.opts copy) x.stamps).exec u)) res).1
      unfold Prog.Stopped at hlast
      rw [hsteps] at hlast
      rcases hlast with (rfl | htorn | rfl) | rfl
      · exact absurd ⟨_, hstaging, hmark⟩ hclean
      · exact htorn.elim
      · exact .inr ⟨rfl, finished_removeStaging S src copy b x hfin⟩
      · exact .inr ⟨rfl, finished_removeStaging S src copy b x hfin⟩

theorem tries_invariant (hb : b.length < 2 ^ 63) {xs : List Try} {v s : Volume}
    (hv : Pending S src b v) (hrun : Tries copy xs v s) :
    Pending S src b s ∨ Done S src copy b xs s := by
  induction hrun with
  | nil v => exact .inl hv
  | snoc xs x v u s _ hstop hclean ih =>
    rcases ih hv with hu | ⟨hgone, y, hy, hfin⟩
    · rcases pending_step S src copy b hb x u s hu hstop hclean with h | ⟨hgone, hfin⟩
      · exact .inl h
      · exact .inr ⟨hgone, x, by simp, hfin⟩
    · have hsteps := (applyVMDisk_gone (x.opts copy) x.stamps u hgone).1
      unfold Prog.Stopped at hstop
      rw [hsteps] at hstop
      have hsame : s = u := hstop
      subst hsame
      exact .inr ⟨hgone, y, mem_append_left _ hy, hfin⟩

/-- A try that ends with success leaves the copy applied. -/
theorem last_try {x : Try} {u : Volume} (hu : Pending S src b u) {st : Stamps} {r : VMDiskResult}
    (hok : (applyVMDisk (x.opts copy) st).result u = .ok r) :
    Finished S src copy b x ((applyVMDisk (x.opts copy) st).exec u) ∧
      restorePoints ((applyVMDisk (x.opts copy) st).exec u) = .ok r.restorePointMoments := by
  obtain ⟨hstaging, b', hb', hrec⟩ := hu
  have hprog := applyVMDisk_staged (x.opts copy) st u hstaging
  unfold Prog.result at hok
  unfold Prog.exec Prog.steps
  rw [hprog] at hok ⊢
  change Prog.result _ u = _ at hok
  change Finished S src copy b x (Prog.exec _ u) ∧ restorePoints (Prog.exec _ u) = _
  cases hres : (applyCopy src.toCopySource (x.opts copy) st).result u with
  | error e =>
    rw [result_bind_error _ _ u hres] at hok
    cases hok
  | ok res =>
    obtain ⟨-, hfin⟩ := finished_applyCopy S src copy b x u b' hb' hrec st res hres
    rw [result_bind_ok _ _ u hres] at hok
    obtain ⟨hsteps, hpoints⟩ := restorePointsResult_steps _ res
    have hexec : (applyCopy src.toCopySource (x.opts copy) st >>= fun res =>
        perform .removeStaging >>= fun _ => restorePointsResult res : VolProg _).exec u =
          Step.removeStaging.apply ((applyCopy src.toCopySource (x.opts copy) st).exec u) := by
      rw [exec_bind_ok _ _ u hres, exec_bind_ok _ _ _ (result_perform _ _)]
      unfold Prog.exec
      rw [hsteps]
      rfl
    rw [hexec]
    exact ⟨finished_removeStaging S src copy b x hfin, hpoints r hok⟩

section Points

variable {K : List (Name × Bytes)} {c : Bytes} {s w : Volume} (hs : Rests K (some c) s)
  (hw : Rests K (some c) w)

include hs hw

/-- Folders with the same undo files and the same disk rewind to the same disks. -/
theorem rewind_congr (t : Moment) (stamp : ℤ) :
    (ApplyCopy.rewind t false stamp).result s = (ApplyCopy.rewind t false stamp).result w := by
  have hno : ∀ v, Rests K (some c) v →
      ∀ e ∈ v.undo.entries, hasSuffix e.1 undoReady = false := by
    intro v hv e he
    rw [hv.entries] at he
    exact not_ready_of_clean hv.clean e he
  obtain ⟨d, hd, hbytes⟩ := diskInfo_of_holds hs.disk
  obtain ⟨d', hd', hbytes'⟩ := diskInfo_of_holds hw.disk
  rw [rewind_idle hs.folder (hno s hs), rewind_idle hw.folder (hno w hw),
    appliedUndo_rests K _ s hs, appliedUndo_rests K _ w hw, hd, hd']
  refine bind_congr ?_
  intro files
  cases filesFrom t files with
  | none => rfl
  | some fs =>
    change rewindFiles fs d.bytes = rewindFiles fs d'.bytes
    rw [hbytes, hbytes']

theorem restorePoints_congr : restorePoints s = restorePoints w := by
  rw [restorePoints_rests K _ s hs, restorePoints_rests K _ w hw]

end Points

section OwnPoint

variable (S : List (Name × Bytes)) {src : StagedCopy} {copy : ApplyOptions} (b : Bytes)
  (hb : b.length < 2 ^ 63)

theorem count_own {S' : List (Name × Bytes)} (hS' : ∀ e ∈ S', e ∈ S) {pts pts₀ : List Moment}
    (hfrom : InRange copy.fromMoment)
    (hpts : (listUndo readUndo (S' ++ [(own S src copy b hb).entry])).map points = .ok pts)
    (hpts₀ : (listUndo readUndo S).map points = .ok pts₀) (hnew : copy.fromMoment ∉ pts₀) :
    pts.count copy.fromMoment = 1 := by
  cases hall : listUndo readUndo (S' ++ [(own S src copy b hb).entry]) with
  | error e =>
    rw [hall] at hpts
    cases hpts
  | ok files =>
    cases hold : listUndo readUndo S with
    | error e =>
      rw [hold] at hpts₀
      cases hpts₀
    | ok files₀ =>
      rw [hall] at hpts
      rw [hold] at hpts₀
      cases hpts
      cases hpts₀
      rw [readApplied_append] at hall
      obtain ⟨kept, hkept, hall⟩ := except_bind_ok.mp hall
      obtain ⟨last, hlast, hall⟩ := except_bind_ok.mp hall
      cases hall
      rw [readApplied_cons] at hlast
      obtain ⟨hdr, hhdr, hlast⟩ := except_bind_ok.mp hlast
      cases hlast
      have hownfrom : hdr.fromMoment = copy.fromMoment := by
        rw [header_of_readUndo hhdr]
        exact wrap_of_inRange _ hfrom
      have hother : ∀ f ∈ kept, f.hdr.fromMoment ≠ copy.fromMoment := by
        intro f hf heq
        obtain ⟨hmem, hseq, hread⟩ := listUndo_mem readUndo S' kept hkept f hf
        obtain ⟨g, hg, hname, hbytes⟩ := listUndo_complete readUndo S files₀ hold _
          (hS' _ hmem) (by simp [hseq])
        obtain ⟨-, -, hread'⟩ := listUndo_mem readUndo S files₀ hold g hg
        rw [hname, hbytes, hread] at hread'
        apply hnew
        rw [← heq, Except.ok.inj hread']
        exact mem_map_of_mem ((mem_insertionSort _).mpr hg)
      rw [points_perm.count_eq, map_append, count_append, map_singleton,
        hownfrom, count_singleton_self, count_eq_zero.mpr]
      intro hin
      obtain ⟨f, hf, heq⟩ := mem_map.mp hin
      exact hother f hf heq

end OwnPoint

/-- Tries of one copy, of which none stops after the mark with the staging file
still there, leave what one of them alone leaves: the copied disk, the same
restore points, and the same disk for each of them. The copy's own restore point
is there once, if it was new and is not older than what is kept. -/
theorem retried_copy_applies_once (S : List (Name × Bytes)) (src : StagedCopy)
    (copy : ApplyOptions) (b : Bytes) (v u : Volume) (xs : List Try) (x : Try) (r : VMDiskResult)
    (hb : b.length < 2 ^ 63) (hv : Recoverable S (some b) v)
    (hstaged : v.staging = some src.toCopySource) (hrun : Tries copy xs v u)
    (hok : (applyVMDisk (x.opts copy) x.stamps).result u = .ok r) :
    Holds ((applyVMDisk (x.opts copy) x.stamps).exec u)
        (some (copied src.toCopySource copy.full b)) ∧
      ∃ y ∈ xs ++ [x],
        (∀ st r', (applyVMDisk (y.opts copy) st).result v = .ok r' →
          restorePoints ((applyVMDisk (x.opts copy) x.stamps).exec u) =
              restorePoints ((applyVMDisk (y.opts copy) st).exec v) ∧
            ∀ t stamp,
              (ApplyCopy.rewind t false stamp).result
                  ((applyVMDisk (x.opts copy) x.stamps).exec u) =
                (ApplyCopy.rewind t false stamp).result
                  ((applyVMDisk (y.opts copy) st).exec v)) ∧
        (InRange copy.fromMoment →
          (∀ pts, restorePoints v = .ok pts → copy.fromMoment ∉ pts) →
          (0 < y.keep → y.now - y.keep ≤ wrap copy.toMoment) →
          ∃ pts, restorePoints ((applyVMDisk (x.opts copy) x.stamps).exec u) = .ok pts ∧
            pts.count copy.fromMoment = 1) := by
  have hpending : Pending S src b v := ⟨hstaged, b, .inl rfl, hv⟩
  have hend : ∃ y ∈ xs ++ [x],
      Finished S src copy b y ((applyVMDisk (x.opts copy) x.stamps).exec u) ∧
        restorePoints ((applyVMDisk (x.opts copy) x.stamps).exec u) =
          .ok r.restorePointMoments := by
    rcases tries_invariant S src copy b hb hpending hrun with hu | ⟨hgone, y, hy, hfin⟩
    · exact ⟨x, by simp, last_try S src copy b hu hok⟩
    · obtain ⟨hsteps, hpoints⟩ := applyVMDisk_gone (x.opts copy) x.stamps u hgone
      have hsame : (applyVMDisk (x.opts copy) x.stamps).exec u = u := by
        unfold Prog.exec
        rw [hsteps]
        rfl
      rw [hsame]
      exact ⟨y, mem_append_left _ hy, hfin, hpoints r hok⟩
  obtain ⟨y, hy, hfin, hpoints⟩ := hend
  refine ⟨hfin.rests.disk, y, hy, ?_, ?_⟩
  · intro st r' hr'
    have honce := (last_try S src copy b hpending hr').1
    exact ⟨restorePoints_congr hfin.rests honce.rests,
      fun t stamp => rewind_congr hfin.rests honce.rests t stamp⟩
  · intro hfrom hnew hkeep
    refine ⟨_, hpoints, ?_⟩
    obtain ⟨S', hS', hkept⟩ := keptEntries_own S src copy b hb (y.opts copy) hkeep
    have hlisted := restorePoints_rests _ _ _ hfin.rests
    rw [hpoints, hkept] at hlisted
    have hall : ∃ files, listUndo readUndo (afterCopy S src copy b) = .ok files := by
      by_cases hpos : 0 < y.keep
      · exact hfin.read hpos
      · have hsame : keptEntries (y.opts copy) (afterCopy S src copy b) = afterCopy S src copy b :=
          if_neg hpos
        rw [← hsame, hkept]
        cases hl : listUndo readUndo (S' ++ [(own S src copy b hb).entry]) with
        | error e =>
          rw [hl] at hlisted
          cases hlisted
        | ok files => exact ⟨files, rfl⟩
    obtain ⟨files, hfiles⟩ := hall
    unfold afterCopy at hfiles
    rw [readApplied_append] at hfiles
    obtain ⟨files₀, hfiles₀, -⟩ := except_bind_ok.mp hfiles
    have hbefore : (listUndo readUndo S).map points = .ok (points files₀) := by
      rw [hfiles₀]
      rfl
    have hearlier := restorePoints_recoverable hv
    rw [hbefore] at hearlier
    exact count_own S b hb hS' hfrom hlisted.symm hbefore (hnew _ hearlier)

/-- A disk of one byte with a staged copy of two bytes. -/
def stagedDisk : Volume := { diskOnly [1] with staging := some twoBytes.toCopySource }

def firstTry : Try := ⟨0, 0, ⟨1, 2⟩⟩

theorem recoverable_stagedDisk : Recoverable [] (some [1]) stagedDisk :=
  recoverable_of_rests ⟨by simp [stagedDisk, diskOnly, Volume.empty], rfl, by simp, _,
    rfl, rfl, rfl⟩

def secondTry : Try := ⟨0, 0, ⟨3, 4⟩⟩

/-- The first try is stopped when the disk is changed and the undo file is not marked yet. -/
def cutTry : Volume :=
  device.applyAll (((applyVMDisk (firstTry.opts plainOptions) ⟨1, 2⟩).steps stagedDisk).take 4)
    stagedDisk

theorem tries_cutTry : Tries plainOptions [firstTry] stagedDisk cutTry := by
  refine .snoc [] firstTry stagedDisk stagedDisk cutTry (.nil _) (device.stoppedIn_take _ 4 _) ?_
  rintro ⟨src, hsrc, hmark⟩
  cases hsrc
  exact absurd (congrArg Volume.undo (marked_unpruned le_rfl hmark)) (by decide +kernel)

theorem retried_copy_applies_once_twoBytes :
    Holds cutTry (some [7, 0]) ∧
      Holds ((applyVMDisk (secondTry.opts plainOptions) ⟨3, 4⟩).exec cutTry) (some [7, 0]) ∧
      (∃ pts, restorePoints ((applyVMDisk (secondTry.opts plainOptions) ⟨3, 4⟩).exec cutTry) =
        .ok pts ∧ pts.count plainOptions.fromMoment = 1) ∧
      (ApplyCopy.rewind plainOptions.fromMoment false 5).result
        ((applyVMDisk (secondTry.opts plainOptions) ⟨3, 4⟩).exec cutTry) = .ok [1] := by
  obtain ⟨hdisk, y, hy, hsame, hcount⟩ := retried_copy_applies_once [] twoBytes plainOptions [1]
    stagedDisk cutTry [firstTry] secondTry ⟨⟨65536, true⟩, 1, some 5, [5]⟩ (by decide)
    recoverable_stagedDisk rfl tries_cutTry (by decide +kernel)
  have hopts : y.opts plainOptions = firstTry.opts plainOptions ∧ y.keep = 0 := by
    rcases mem_cons.mp hy with rfl | hy
    · exact ⟨rfl, rfl⟩
    · rw [mem_singleton.mp hy]
      exact ⟨rfl, rfl⟩
  rw [hopts.1] at hsame
  refine ⟨⟨⟨[7, 0], 2, true⟩, by decide +kernel, rfl, rfl⟩, hdisk, ?_, ?_⟩
  · refine hcount (by decide) (fun pts hpts => ?_) (fun hpos => absurd hopts.2 hpos.ne')
    rw [← Except.ok.inj hpts]
    exact not_mem_nil
  · refine ((hsame ⟨1, 2⟩ ⟨⟨65536, false⟩, 1, some 5, [5]⟩ (by decide +kernel)).2 _ _).trans ?_
    decide +kernel

/-- A first try that stops after the mark, and a second one that ends: the copy's
restore point is listed twice, and a rewind to it gives the copied disk. -/
theorem second_apply_hides_restore_point :
    (applyVMDisk (firstTry.opts plainOptions) firstTry.stamps).Stopped stagedDisk
        ((applyCopy twoBytes.toCopySource (firstTry.opts plainOptions) ⟨1, 2⟩).exec stagedDisk) ∧
      (applyVMDisk (firstTry.opts plainOptions) ⟨3, 4⟩).result
          ((applyCopy twoBytes.toCopySource (firstTry.opts plainOptions) ⟨1, 2⟩).exec
            stagedDisk) =
        .ok ⟨⟨0, false⟩, 2, some plainOptions.fromMoment,
          [plainOptions.fromMoment, plainOptions.fromMoment]⟩ ∧
      (ApplyCopy.rewind plainOptions.fromMoment false 5).result
          ((applyVMDisk (firstTry.opts plainOptions) ⟨3, 4⟩).exec
            ((applyCopy twoBytes.toCopySource (firstTry.opts plainOptions) ⟨1, 2⟩).exec
              stagedDisk)) =
        .ok (copied twoBytes.toCopySource plainOptions.full [1]) ∧
      (ApplyCopy.rewind plainOptions.fromMoment false 5).result
          ((applyVMDisk (firstTry.opts plainOptions) ⟨3, 4⟩).exec stagedDisk) = .ok [1] := by
  refine ⟨?_, by decide +kernel, by decide +kernel, by decide +kernel⟩
  have hres : (applyCopy twoBytes.toCopySource (firstTry.opts plainOptions) ⟨1, 2⟩).result
      stagedDisk = .ok ⟨65536, false⟩ := by decide +kernel
  unfold Prog.Stopped Prog.steps
  rw [applyVMDisk_staged _ _ stagedDisk rfl]
  exact (stopped_bind_ok _ _ stagedDisk hres _).mpr (.inl (stopped_exec _ _))

end FilePool.VMDisk
