import FilePool.FailoverOutcome
import FilePool.MomentHistory
import FilePool.ReplicationStatus

/-!
The common restore points of a VM, as the source lists them and as failover finds them.
The source knows a disk from the answer to its last copy; failover reads the disk's
folder at the far site. A moment that the source lists is then one that every disk of
the VM can show, so a failover asked for that moment chooses it.
-/
namespace FilePool.CommonPoints

open UndoFormat UndoNames VolumeSteps DurableSteps DurableSteps.Prog UndoFolder DiskMoments List
  Recovery UploadSessions OwnPoint CommitCopy CommitSteps ReceivedCopy MomentHistory GroupedLists
  BigEndian FailoverPlan FailoverChoice FailoverOutcome ReplicationStatus ByteFiles

variable {v : Volume} {lease : Option (Option Moment)}

theorem readDiskState_same {s : Volume} (h : SameDisk v s) :
    readDiskState s = readDiskState v := by
  obtain ⟨hdisk, hundo, hmoment⟩ := h
  unfold readDiskState stateFrom momentFrom sealBroken diskInfo hasUnfinishedCopy appliedUndo
    undoFiles undoEntries readMomentFile
  rw [hdisk, hundo, hmoment]

theorem moment_of_state {st : DiskState} (h : readDiskState v = .ok st) :
    moment v = .ok st.moment := by
  obtain ⟨files, hfiles, ht, -⟩ := readDiskState_files h
  exact except_bind_ok.mpr ⟨files, hfiles, ht⟩

/-- Failover leaves out the restore points whose moment was never known. -/
theorem restorePoints_of_state {st : DiskState} (h : readDiskState v = .ok st) :
    ∃ ps, restorePoints v = .ok ps ∧ ∀ t ∈ ps, 0 < t / 1000000000 → t ∈ st.restorePoints := by
  obtain ⟨files, hfiles, -, hpoints⟩ := readDiskState_files h
  rw [hpoints]
  refine ⟨files.map (fun u => u.hdr.fromMoment), ?_, ?_⟩
  · unfold restorePoints
    rw [hfiles]
    rfl
  · intro t ht hpos
    obtain ⟨u, hu, rfl⟩ := mem_map.mp ht
    exact mem_map_of_mem (mem_filter.mpr ⟨hu, decide_eq_true hpos⟩)

theorem moment_known {t : Moment} {st : DiskState} (ht : t ≠ zeroTime)
    (hfile : fileMoment v = .ok (some t)) (h : readDiskState v = .ok st) :
    st.moment ≠ none := by
  have hmoment := moment_of_state h
  obtain ⟨files, -, hfrom⟩ := except_bind_ok.mp hmoment
  rw [momentFrom_eq, hfile] at hfrom
  intro hnone
  rw [hnone] at hfrom
  cases hlast : files.getLast? with
  | some u =>
    rw [hlast] at hfrom
    cases hfrom
  | none =>
    rw [hlast] at hfrom
    change (if t = zeroTime then pure none else pure (some t)) = _ at hfrom
    rw [if_neg ht] at hfrom
    cases hfrom

theorem chosen_singleton {opts : VMOptions} {n k : Name} (hn : n ≠ []) (hvms : opts.vms = [n]) :
    chosen opts k ↔ k = n := by
  have hmem : ∀ k, k ∈ normalizeVMs opts.vms ↔ k = n := by
    intro k
    rw [mem_normalizeVMs, hvms, mem_singleton]
    exact ⟨And.left, fun h => ⟨h, h ▸ hn⟩⟩
  unfold chosen
  rw [hmem]
  refine or_iff_right ?_
  intro hnil
  have hin := (hmem n).mpr rfl
  rw [hnil] at hin
  cases hin

section Answers

variable {δ : Type} [DecidableEq δ] (hash : Bytes → δ) (limit : ℕ) {st : DiskState}

/-- What the answer to a copy puts in the status of its disk. -/
def answered (s : SubVolumeStatus) (shown : Moment) (points : List Moment) : SubVolumeStatus :=
  { s with copyMoment := some shown, restorePointMoments := points }

/-- The status tells of the last copy of the disk in the folder, which the receiver
committed in a folder with any copy history. -/
def Told (s : SubVolumeStatus) (v : Volume) : Prop :=
  ∃ (H : History) (u : Volume) (c : CommitCall δ) (r : CommitResponse) (s₀ : SubVolumeStatus),
    MomentRun hash limit H u ∧ (c.prog hash limit).result u = .ok r ∧
    InRange c.req.toMoment ∧ c.RecordsFit hash u ∧ SameDisk ((c.prog hash limit).exec u) v ∧
    (s = answered s₀ c.req.toMoment r.restorePointMoments ∨
      s = (answered s₀ c.req.toMoment r.restorePointMoments).stored)

variable {hash limit} (hlimit : limit < 2 ^ 63) {v : Volume} {s : SubVolumeStatus}

include hlimit

/-- After a commit that succeeded failover sees the moment and the restore points that
the answer told. -/
theorem state_after_commit {H : History} {u : Volume} {c : CommitCall δ} {r : CommitResponse}
    (hrun : MomentRun hash limit H u) (hr : (c.prog hash limit).result u = .ok r)
    (hrange : InRange c.req.toMoment) (hfit : c.RecordsFit hash u)
    (hsame : SameDisk ((c.prog hash limit).exec u) v) (hst : readDiskState v = .ok st) :
    st.moment = some c.req.toMoment ∧
      ∀ t ∈ r.restorePointMoments, 0 < t / 1000000000 → t ∈ st.restorePoints := by
  obtain ⟨hvalid, x, res, hx, hres, hdone, hpoints⟩ :=
    commit_ok hash limit c.id c.req c.now c.stamp c.stamps hr
  rw [readDiskState_same hsame] at hst
  have hrun' := MomentRun.recorded H u _ c x hrun (stopped_exec _ _)
    ⟨⟨hvalid, hx⟩, res, hres, hdone⟩ hrange hfit
  have hfile : fileMoment ((c.prog hash limit).exec u) = .ok (some c.req.toMoment) := by
    refine (fileMoment_same _ hdone).trans ?_
    rw [recorded_eq, fileMoment_writeMoment, sealDisk_moment]
    rfl
  constructor
  · obtain ⟨t, ht⟩ := Option.ne_none_iff_exists'.mp (moment_known hvalid.2.1 hfile hst)
    obtain ⟨_, _, _, _, hshow⟩ := shows_run hash limit hlimit hrun'
    obtain ⟨b, -, hhead⟩ := hshow t (ht ▸ moment_of_state hst)
    rw [ht, (Prod.mk.inj (Option.some.inj hhead)).1]
  · obtain ⟨ps, hps, hall⟩ := restorePoints_of_state hst
    rw [hpoints ps hps]
    exact hall

theorem moment_told (h : Told hash limit s v)
    (hst : readDiskState v = .ok st) : st.moment ≠ none := by
  obtain ⟨H, u, c, r, s₀, hrun, hr, hrange, hfit, hsame, -⟩ := h
  rw [(state_after_commit hlimit hrun hr hrange hfit hsame hst).1]
  exact nofun

/-- A listed moment after 1970 is one that the disk can show, up to the rounding. -/
theorem canShow_of_told (h : Told hash limit s v)
    (hst : readDiskState v = .ok st) {m t : Moment} (hm : s.copyMoment = some m)
    (ht : t = m ∨ t ∈ s.restorePointMoments) (hpos : 0 < second t) :
    ∃ t₀, CanShow st t₀ ∧ second t₀ = second t := by
  obtain ⟨H, u, c, r, s₀, hrun, hr, hrange, hfit, hsame, hs⟩ := h
  obtain ⟨hmoment, hpoints⟩ := state_after_commit hlimit hrun hr hrange hfit hsame hst
  have hcan : ∀ t₀ ∈ r.restorePointMoments, second t₀ = second t → CanShow st t₀ := by
    intro t₀ ht₀ heq
    refine .inr (hpoints t₀ ht₀ ?_)
    rw [← heq] at hpos
    exact Int.pos_of_mul_pos_left hpos (by decide)
  rcases hs with rfl | rfl
  · cases hm
    rcases ht with rfl | ht
    · exact ⟨_, .inl hmoment, rfl⟩
    · exact ⟨t, hcan t ht rfl, rfl⟩
  · cases hm
    rcases ht with rfl | ht
    · exact ⟨_, .inl hmoment, second_second.symm⟩
    · obtain ⟨t₀, ht₀, rfl⟩ := mem_map.mp ht
      exact ⟨t₀, hcan t₀ ht₀ second_second.symm, second_second.symm⟩

/-- The far-site disks of a VM and the statuses that the source has of them. -/
structure Agrees (hash : Bytes → δ) (limit : ℕ) (share : Share) (p : Plan)
    (statuses : List SubVolumeStatus) (vm : Name) : Prop where
  told : ∀ sv ∈ p.subVolumes, ∀ v st, seeDisk share sv = .ok (some (v, st)) → vmKey sv st = vm →
    ∃ s ∈ statuses, s.vmName = vm ∧ Told hash limit s v
  whole : ∀ sv ∈ p.subVolumes, ∀ v st, seeDisk share sv = .ok (some (v, st)) → vmKey sv st = vm →
    ∀ t, CanShow st t → t % 1000000000 = 0
  there : ∃ sv ∈ p.subVolumes, ∃ v st, seeDisk share sv = .ok (some (v, st)) ∧ st.vmGroup = vm

section Accepts

variable {share : Share} {p : Plan} {opts : VMOptions} {statuses : List SubVolumeStatus}
  {vm : VMStatus} (hagree : Agrees hash limit share p statuses vm.name)

include hagree

theorem known_of_agrees (st : DiskState)
    (hst : st ∈ groupStates share opts p.subVolumes vm.name) : st.moment ≠ none := by
  obtain ⟨sv, hsv, hdisk⟩ := mem_groupStates.mp hst
  obtain ⟨v, hsee, -, hkey⟩ := diskOf_eq_some.mp hdisk
  obtain ⟨s, -, -, htold⟩ := hagree.told sv hsv v st hsee hkey
  exact moment_told hlimit htold (readDiskState_of_seeDisk hsee)

variable (hvm : vm ∈ vmReplicationStatuses statuses)

include hvm

omit hlimit in
theorem disk_of_agrees (hvms : opts.vms = [vm.name]) :
    ∃ sv ∈ p.subVolumes, vm.name ∈ foundOf share sv ∧
      ∃ st, diskOf share opts sv = some (vm.name, st) := by
  have hne := name_ne_nil statuses vm hvm
  obtain ⟨sv, hsv, v, st, hsee, hgroup⟩ := hagree.there
  refine ⟨sv, hsv, ?_, st, ?_⟩
  · unfold foundOf
    rw [hsee]
    simp [hgroup, hne]
  · have hkey : vmKey sv st = vm.name := (vmKey_of_group (hgroup ▸ hne)).trans hgroup
    have hchosen := (chosen_singleton hne hvms).mpr rfl
    exact diskOf_eq_some.mpr ⟨v, hsee, hchosen, hkey⟩

variable {t : Moment} (ht : t ∈ vm.stored.commonRestorePoints) (hpos : 0 < t)

include ht hpos

/-- Every far-site disk of the VM can show the listed moment. -/
theorem canShow_listed {sv : PlanEntry} (hsv : sv ∈ p.subVolumes) {v : Volume}
    (hsee : seeDisk share sv = .ok (some (v, st))) (hkey : vmKey sv st = vm.name) :
    CanShow st t := by
  obtain ⟨t₁, ht₁, rfl⟩ := mem_map.mp ht
  obtain ⟨s, hs, hname, htold⟩ := hagree.told sv hsv v st hsee hkey
  obtain ⟨m, hm, hlisted⟩ := commonRestorePoints_mem hvm ht₁ hs hname
  obtain ⟨t₀, hcan, heq⟩ := canShow_of_told hlimit htold
    (readDiskState_of_seeDisk hsee) hm hlisted hpos
  rw [← heq, second_of_whole (hagree.whole sv hsv v st hsee hkey t₀ hcan)]
  exact hcan

variable (hask : opts.rewindTo = some t)

include hask

/-- The listed moment is the newest one not after it that all the disks can show. -/
theorem isGreatest_listed :
    IsGreatest (Common (groupStates share opts p.subVolumes vm.name) opts.rewindTo) t := by
  rw [hask]
  refine ⟨⟨?_, ?_⟩, fun t' ht' => ht'.2 t rfl⟩
  · intro st hst
    obtain ⟨sv, hsv, hdisk⟩ := mem_groupStates.mp hst
    obtain ⟨v, hsee, -, hkey⟩ := diskOf_eq_some.mp hdisk
    exact canShow_listed hlimit hagree hvm ht hpos hsv hsee hkey
  · intro r hr
    cases hr
    exact le_refl t

theorem common_listed {gs : List (Name × VMGroupAnalysis)} {a : VMGroupAnalysis}
    (hacc : FailoverChoice.Accepted share opts p.subVolumes gs) (ha : (vm.name, a) ∈ gs) :
    a.common.head? = some t := by
  have hgreat := isGreatest_listed hlimit hagree hvm ht hpos hask
  have hstates : a.disks.map DiskInGroup.state = groupStates share opts p.subVolumes vm.name := by
    rw [hacc.disks_eq _ ha, states_planDisks]
  obtain ⟨-, -, ⟨-, hnone, -⟩ | ⟨-, t', ts, hcommon, hgreat'⟩⟩ := hacc.analyzed _ ha
  · rw [hask] at hnone
    cases hnone
  · rw [hstates] at hgreat'
    rw [hcommon, hgreat'.unique hgreat]
    rfl

variable (hvms : opts.vms = [vm.name])

include hvms

/-- Only the disks of the VM stay in the plan, and they get the listed moment. -/
theorem resolved_listed (ord : MapOrder) (p' : Plan)
    (hp' : resolveVMs ord share p opts = .ok p') :
    p'.subVolumes ≠ [] ∧ ∀ sv ∈ p'.subVolumes, sv.vmGroup = vm.name ∧ sv.vmMoment = t := by
  have hkept := resolved_kept hp'
  have hlist : kept share opts p.subVolumes =
      p.subVolumes.filter (fun sv => (diskOf share opts sv).isSome) := by
    unfold kept
    rw [hvms]
    exact if_neg (cons_ne_nil _ _)
  constructor
  · intro hnil
    rw [hnil, forall₂_nil_right_iff, hlist, filter_eq_nil_iff] at hkept
    obtain ⟨sv, hsv, -, st, hdisk⟩ :=
      disk_of_agrees hagree hvm hvms
    exact hkept sv hsv (by rw [hdisk]; rfl)
  · intro sv' hsv'
    obtain ⟨sv, hsv, hres⟩ := forall₂_left _ hkept.flip hsv'
    rw [hlist, mem_filter, Option.isSome_iff_exists] at hsv
    obtain ⟨hmem, ⟨k, st⟩, hdisk⟩ := hsv
    obtain ⟨-, -, hchosen, -⟩ := diskOf_eq_some.mp hdisk
    obtain rfl := (chosen_singleton (name_ne_nil statuses vm hvm) hvms).mp hchosen
    change Resolved share opts p.subVolumes sv sv' at hres
    unfold Resolved at hres
    rw [hdisk] at hres
    rcases hres with ⟨hnone, -⟩ | ⟨-, t', hgreat, rfl⟩
    · exact absurd hnone (known_of_agrees hlimit hagree st
        (mem_groupStates.mpr ⟨sv, hmem, hdisk⟩))
    · exact ⟨rfl, hgreat.unique (isGreatest_listed hlimit hagree hvm ht hpos hask)⟩

variable (hash limit share p opts statuses vm t)

/-- A failover of the VM that is asked for a listed moment accepts it and resolves to
it, while the folders can be read and no commit may be changing the VM's disks. -/
theorem listed_point_accepted (ord : MapOrder)
    (hread : ∀ sv ∈ p.subVolumes, ∃ o, seeDisk share sv = .ok o)
    (hidle : opts.force = false → ∀ sv ∈ p.subVolumes, ∀ v st,
      seeDisk share sv = .ok (some (v, st)) → vmKey sv st = vm.name →
      leaseActive v opts.now = false) :
    ∃ gs a, analyzeVMs ord share p opts = .ok gs ∧ (vm.name, a) ∈ gs ∧
      a.common.head? = some t ∧
      ∀ p', resolveVMs ord share p opts = .ok p' → p'.subVolumes ≠ [] ∧
        ∀ sv ∈ p'.subVolumes, sv.vmGroup = vm.name ∧ sv.vmMoment = t := by
  have hkeys {k : Name} : chosen opts k ↔ k = vm.name :=
    chosen_singleton (name_ne_nil statuses vm hvm) hvms
  have hgreat := isGreatest_listed hlimit hagree hvm ht hpos hask
  obtain ⟨sv₀, hsv₀, hfound₀, st₀, hdisk₀⟩ :=
    disk_of_agrees hagree hvm hvms
  have haccepts : ∃ gs, analyzeVMs ord share p opts = .ok gs := by
    refine analyzeVMs_ok_iff.mpr ⟨hread, ?_, ?_, ?_⟩
    · intro n hn _
      rw [hvms, mem_singleton] at hn
      exact ⟨sv₀, hsv₀, hn ▸ hfound₀⟩
    · intro hforce sv hsv v st hsee hchosen
      exact hidle hforce sv hsv v st hsee (hkeys.mp hchosen)
    · intro sv hsv k st hdisk
      obtain ⟨v, -, hchosen, -⟩ := diskOf_eq_some.mp hdisk
      rw [hkeys.mp hchosen]
      exact .inr
        ⟨known_of_agrees hlimit hagree, t, hgreat.1⟩
  obtain ⟨gs, hgs⟩ := haccepts
  obtain ⟨-, -, -, hforall⟩ := analyzeVMs_eq_ok.mp hgs
  have hacc := accepted_of_forall₂ hforall
  obtain ⟨i, hi⟩ := mem_iff_getElem?.mp hsv₀
  obtain ⟨a, ha⟩ := hacc.covers vm.name ⟨i, sv₀.subVolumeName, st₀⟩
    (mem_planDisks.mpr ⟨sv₀, hi, hdisk₀, rfl⟩)
  exact ⟨gs, a, hgs, ha, common_listed hlimit hagree hvm ht hpos hask hacc ha,
    resolved_listed hlimit hagree hvm ht hpos hask hvms ord⟩

end Accepts

end Answers

/-- A disk of one byte that shows second 5, with one more byte uploaded for it. -/
def secondFive : Volume :=
  { Volume.empty with
    disk := some ⟨[1], 3, true⟩
    momentFile := some (some ⟨5000000000, ['n', '/', 'v'], 3, 1⟩)
    incoming := [(['a'], ⟨some (appendSeg ⟨.data, 0, 1, 0⟩), some [7], none, 0⟩)] }

/-- The commit of that byte for second 6, which keeps a restore point. -/
def secondSix : CommitCall Bytes where
  id := ['a']
  req := ⟨1, some 5000000000, 6000000000, false, uploadDigest (fun b => b) [⟨0, false, 1, [7]⟩],
    ['n', '/', 'v'], 100⟩
  now := 10000000000
  stamp := 4
  stamps := ⟨4, 5⟩

def farFolder : Volume := (secondSix.prog (fun b => b) 10).exec secondFive

def sourceStatus (name : Name) : SubVolumeStatus :=
  ⟨name, some 9000000000, .none, some 6000000000, .crash, ['b'], [5000000000], ['n', '/', 'v'],
    none⟩

def sourceStatuses : List SubVolumeStatus := [sourceStatus ['a'], sourceStatus ['b']]

def sourceVM : VMStatus :=
  ⟨['n', '/', 'v'], [['a'], ['b']], some 6000000000, .crash, [6000000000, 5000000000]⟩

theorem told_sourceStatus (name : Name) (hsame : SameDisk farFolder v) :
    Told (fun b : Bytes => b) 10 (sourceStatus name) v := by
  have hstart : MomentRun (fun b : Bytes => b) 10 [(5000000000, [1])] secondFive := by
    refine .start _ [] (some [1]) _
      (recoverable_of_rests ⟨nofun, rfl, by simp, _, rfl, rfl, rfl⟩) ?_ ?_
    · intro b hb
      cases hb
      decide
    · intro t ht
      have hfive : moment secondFive = .ok (some 5000000000) := by decide +kernel
      cases ht
      exact ⟨[1], rfl, rfl⟩
  have hanswer : (secondSix.prog (fun b => b) 10).result secondFive =
      .ok ⟨65536, false, 1, some 5000000000, [5000000000]⟩ := by decide +kernel
  exact ⟨_, secondFive, secondSix, _, sourceStatus name, hstart, hanswer, by decide +kernel,
    CommitCall.recordsFit_of_stored _ _ _ [⟨.data, 0, 1, 0⟩] (by decide +kernel)
      (by decide), hsame, .inl rfl⟩

/-- The plan of the two disks at the far site, while a commit holds their leases or not. -/
def twoFolders (lease : Option (Option Moment)) : Share := fun dir =>
  if dir = ['a'] ∨ dir = ['b'] then some { farFolder with lease := lease } else none

def twoFoldersPlan : Plan := ⟨[planned ['a'], planned ['b']], 0⟩

def secondFiveAsked : VMOptions := ⟨some 5000000000, false, 10000000000, [['n', '/', 'v']]⟩

def farState : DiskState := ⟨some 6000000000, ['n', '/', 'v'], [5000000000], false, false⟩

theorem sameDisk_lease :
    SameDisk farFolder { farFolder with lease := lease } := ⟨rfl, rfl, rfl⟩

theorem seeDisk_twoFolders (lease : Option (Option Moment)) {sv : PlanEntry}
    (hsv : sv ∈ twoFoldersPlan.subVolumes) :
    seeDisk (twoFolders lease) sv = .ok (some ({ farFolder with lease := lease }, farState)) := by
  have hstate : readDiskState { farFolder with lease := lease } = .ok farState := by
    rw [readDiskState_same (sameDisk_lease)]
    decide +kernel
  obtain ⟨hne, hshare⟩ : sv.localDir ≠ [] ∧
      twoFolders lease sv.localDir = some { farFolder with lease := lease } := by
    rcases mem_cons.mp hsv with rfl | hsv
    · exact ⟨by decide, rfl⟩
    · rw [mem_singleton.mp hsv]
      exact ⟨by decide, rfl⟩
  unfold seeDisk
  rw [hshare]
  simp only [hstate]
  exact if_neg hne

theorem agrees_twoFolders :
    Agrees (fun b : Bytes => b) 10 (twoFolders lease) twoFoldersPlan sourceStatuses
      ['n', '/', 'v'] := by
  refine ⟨?_, ?_, ⟨planned ['a'], mem_cons_self, _, _, seeDisk_twoFolders lease mem_cons_self,
    rfl⟩⟩
  · intro sv hsv v st hsee _
    cases (seeDisk_twoFolders lease hsv).symm.trans hsee
    refine ⟨sourceStatus sv.subVolumeName, ?_, rfl, told_sourceStatus _ sameDisk_lease⟩
    rcases mem_cons.mp hsv with rfl | hsv
    · exact mem_cons_self
    · rw [mem_singleton.mp hsv]
      exact mem_cons_of_mem _ mem_cons_self
  · intro sv hsv v st hsee _ t ht
    cases (seeDisk_twoFolders lease hsv).symm.trans hsee
    rcases ht with ht | ht
    · cases ht
      rfl
    · obtain rfl := mem_singleton.mp ht
      rfl

theorem listed_point_accepted_twoDisks :
    sourceVM ∈ vmReplicationStatuses sourceStatuses ∧
      ∃ gs a, analyzeVMs .listed (twoFolders none) twoFoldersPlan secondFiveAsked = .ok gs ∧
        (['n', '/', 'v'], a) ∈ gs ∧ a.common.head? = some 5000000000 := by
  have hlisted : sourceVM ∈ vmReplicationStatuses sourceStatuses := by decide +kernel
  obtain ⟨gs, a, hgs, ha, hhead, -⟩ := listed_point_accepted (fun b : Bytes => b) 10 (by decide)
    (twoFolders none) twoFoldersPlan secondFiveAsked sourceStatuses sourceVM agrees_twoFolders
    hlisted 5000000000 (by decide +kernel) (by decide) rfl rfl .listed
    (fun sv hsv => ⟨_, seeDisk_twoFolders none hsv⟩)
    (by
      intro _ sv hsv v st hsee _
      cases (seeDisk_twoFolders none hsv).symm.trans hsee
      rfl)
  exact ⟨hlisted, gs, a, hgs, ha, hhead⟩

/-- While a commit may be changing the disks, a failover asked for a listed moment is
refused. -/
theorem running_commit_refuses_listed_point :
    sourceVM ∈ vmReplicationStatuses sourceStatuses ∧
      5000000000 ∈ sourceVM.stored.commonRestorePoints ∧
      Agrees (fun b : Bytes => b) 10 (twoFolders (some (some 11000000000))) twoFoldersPlan
        sourceStatuses ['n', '/', 'v'] ∧
      analyzeVMs .listed (twoFolders (some (some 11000000000))) twoFoldersPlan secondFiveAsked =
        .error (.busy [['a'], ['b']]) :=
  ⟨by decide +kernel, by decide +kernel, agrees_twoFolders, by decide +kernel⟩

end FilePool.CommonPoints
