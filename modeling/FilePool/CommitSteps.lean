import FilePool.CommitCopy
import FilePool.OwnPoint

/-!
What a stop of a commit can leave of the disk, the undo folder and the moment
file: what a stop of the roll back leaves, what a stop of the copy leaves, or
the copy with its moment recorded. The lease and the uploads are apart from it.
-/
namespace FilePool.CommitSteps

open ByteFiles UndoLog CopyChunks UndoFormat UndoNames VolumeSteps DurableSteps DurableSteps.Prog
  UndoFolder DiskMoments ApplyCopy Recovery CrashSafety Pruning OwnPoint UploadSessions CommitCopy

/-- The disk, the undo folder and the moment file are those of another state. -/
structure SameDisk (v s : Volume) : Prop where
  disk : s.disk = v.disk
  undo : s.undo = v.undo
  momentFile : s.momentFile = v.momentFile

section Same

variable (v : Volume) {s : Volume} (h : SameDisk v s)

include h

theorem holds_same {old : Option Bytes} (hv : Holds v old) : Holds s old := by
  cases old with
  | none => exact h.disk.trans hv
  | some b =>
    obtain ⟨d, hd, hreg, hbytes⟩ := hv
    exact ⟨d, h.disk.trans hd, hreg, hbytes⟩

theorem rests_same (S : List (Name × Bytes)) (old : Option Bytes) (hv : Rests S old v) :
    Rests S old s :=
  ⟨h.undo ▸ hv.folder, h.undo ▸ hv.entries, hv.clean, holds_same v h hv.disk⟩

theorem recoverable_same (S : List (Name × Bytes)) (old : Option Bytes)
    (hv : Recoverable S old v) : Recoverable S old s := by
  obtain ⟨u, ps, hu, hbet⟩ := hv
  refine ⟨u, ps, hu, h.undo ▸ hbet.folder, h.undo ▸ hbet.settled, h.undo ▸ hbet.ready, ?_⟩
  rcases hbet.disk with hold | ⟨b, d, e, hb, he, hmem, hready, hd, hreg, hguard⟩
  · exact .inl (holds_same v h hold)
  · exact .inr ⟨b, d, e, hb, he, h.undo ▸ hmem, hready, h.disk.trans hd, hreg, hguard⟩

theorem fileMoment_same : fileMoment s = fileMoment v := by
  unfold fileMoment readMomentFile
  rw [h.momentFile]

end Same

variable {S : List (Name × Bytes)} {old : Option Bytes} {α : Type} {p : VolProg α}

theorem rests_writeMoment {v : Volume}
    {mf : MomentFile} (h : Rests S old v) : Rests S old ((Step.writeMoment mf).apply v) :=
  { h with }

theorem sameDisk_refl {v : Volume} : SameDisk v v := ⟨rfl, rfl, rfl⟩

theorem sameDisk_trans {v w s : Volume} (h : SameDisk v w) (h' : SameDisk w s) : SameDisk v s :=
  ⟨h'.disk.trans h.disk, h'.undo.trans h.undo, h'.momentFile.trans h.momentFile⟩

theorem sameDisk_of_only (hp : Only (fun t => ¬ OnDisk t) p)
    (v s : Volume) (hs : p.Stopped v s) : SameDisk v s := by
  refine stopped_of_only hp (SameDisk v) ?_ ?_ v s sameDisk_refl hs
  · intro t ht x hx
    refine sameDisk_trans hx ?_
    cases t with
    | makeSession id now =>
      simp only [device, Step.apply]
      split
      · exact sameDisk_refl
      · exact ⟨rfl, rfl, rfl⟩
    | _ => first | exact absurd trivial ht | exact ⟨rfl, rfl, rfl⟩
  · intro t ht x y hx hy
    refine sameDisk_trans hx ?_
    cases t with
    | store id records flushed =>
      obtain ⟨j, k, n, rfl⟩ := hy
      exact ⟨rfl, rfl, rfl⟩
    | writeBase id base now =>
      obtain rfl := hy
      exact ⟨rfl, rfl, rfl⟩
    | removeSession id =>
      obtain ⟨manifest, data, base, mtime, rfl⟩ := hy
      exact ⟨rfl, rfl, rfl⟩
    | _ => first | exact hy.elim | exact absurd trivial ht

theorem momentFile_of_only (hp : Only OnUndo p) {v s : Volume}
    (hs : p.Stopped v s) : s.momentFile = v.momentFile := by
  refine stopped_of_only hp (fun x => x.momentFile = v.momentFile) ?_ ?_ v s rfl hs
  · intro t ht x hx
    cases t <;> first | exact hx | exact ht.elim
  · intro t ht x y hx hy
    cases t with
    | putUndo name content =>
      obtain ⟨k, rfl⟩ := hy
      exact hx
    | changeDisk cs mtime =>
      obtain ⟨ds, -, rfl⟩ := hy
      exact hx
    | writeNew content =>
      obtain ⟨content', rfl⟩ := hy
      exact hx
    | _ => first | exact hy.elim | exact ht.elim

theorem fileMoment_writeMoment (v : Volume) (mf : MomentFile) :
    fileMoment ((Step.writeMoment mf).apply v) = .ok (some mf.moment) := rfl

theorem sealDisk_moment (v : Volume) (mf : MomentFile) : (sealDisk v mf).moment = mf.moment := by
  unfold sealDisk
  split <;> rfl

theorem safe_reseal_moment {m : Except Err (Option Moment)} :
    Safe (fun v => fileMoment v = m) reseal (fun _ v => fileMoment v = m)
      (fun v => fileMoment v = m) := by
  unfold reseal
  refine safe_bind (Q := fun mf _ => m = .ok (mf.map MomentFile.moment)) (safe_inspect _ ?_) ?_
  · intro v hv
    refine ⟨hv, ?_⟩
    intro mf hmf
    rw [← hv]
    unfold fileMoment
    rw [hmf]
    rfl
  intro mf
  cases mf with
  | none => exact safe_pure () (fun v hv => ⟨hv.1, hv.1⟩)
  | some mf =>
    unfold writeMomentFile
    refine safe_bind (Q := fun mf' _ => m = .ok (some mf'.moment)) (safe_inspect _ ?_) ?_
    · intro v hv
      refine ⟨hv.1, ?_⟩
      intro mf' hmf'
      cases hmf'
      rw [sealDisk_moment]
      exact hv.2
    · intro mf'
      refine safe_atomic _ (fun _ _ => id) (fun v hv => hv.1) ?_
      intro v hv
      have hnew := (fileMoment_writeMoment v mf').trans hv.2.symm
      exact ⟨hnew, hnew⟩

/-- A roll back, stopped anywhere, does not change the moment in the file. -/
theorem fileMoment_recover (stamp : ℤ) (v s : Volume) (hs : (recover stamp).Stopped v s) :
    fileMoment s = fileMoment v := by
  have hsafe : Safe (fun x => fileMoment x = fileMoment v) (recover stamp)
      (fun _ x => fileMoment x = fileMoment v) (fun x => fileMoment x = fileMoment v) := by
    unfold recover
    refine safe_bind (Q := fun _ x => fileMoment x = fileMoment v)
      (safe_inspect _ (fun x hx => ⟨hx, fun _ _ => hx⟩)) ?_
    intro es
    refine safe_bind (Q := fun _ x => fileMoment x = fileMoment v) ?_ ?_
    · have hkeep : ∀ x y, fileMoment x = fileMoment v →
          (recoverEntries stamp es false).Stopped x y → fileMoment y = fileMoment v := by
        intro x y hx hy
        have hfile := momentFile_of_only (only_recoverEntries stamp es false) hy
        rw [← hx]
        unfold fileMoment readMomentFile
        rw [hfile]
      intro x hx
      exact ⟨fun _ _ => hkeep x _ hx.1 (stopped_exec _ x), fun y hy => hkeep x y hx.1 hy⟩
    · intro rolled
      cases rolled with
      | false => exact safe_pure _ (fun x hx => hx)
      | true =>
        refine safe_bind (safe_from safe_reseal_moment (fun x hx => hx.1))
          (fun _ => safe_pure _ (fun x hx => hx))
  exact (hsafe v rfl).2 s hs

/-- From a folder at rest the copy leaves the moment file alone. -/
theorem momentFile_applyCopy {src : CopySource}
    {opts : ApplyOptions} {st : Stamps} {u s : Volume} (hu : Rests S old u)
    (hs : (applyCopy src opts st).Stopped u s) : s.momentFile = u.momentFile := by
  have hprog : applyCopy src opts st u = ((do
      let x ← writeCopy src opts st.write
      return ((⟨x.1, false⟩ : ApplyResult), x.2)) >>= fun r => do
        pruneFor opts r.2
        return r.1 : VolProg ApplyResult) u := by
    have hfirst : applyUnpruned src opts st u = (do
        let x ← writeCopy src opts st.write
        return ((⟨x.1, false⟩ : ApplyResult), x.2) : VolProg (ApplyResult × Bool)) u := by
      unfold applyUnpruned
      exact bind_look _ _ u (recover_rests S old u hu st.rollBack)
    unfold applyCopy
    change Prog.bind _ _ u = Prog.bind _ _ u
    unfold Prog.bind
    rw [hfirst]
  unfold Prog.Stopped Prog.steps at hs
  rw [hprog] at hs
  refine momentFile_of_only (only_bind (only_bind only_writeCopy ?_) ?_) hs
  · exact fun _ => only_pure _
  · exact fun r => only_map only_pruneFor

section Stops

variable {δ : Type} [DecidableEq δ] (hash : Bytes → δ) (limit : ℕ) (id : Name)
  (req : CommitRequest δ) (now : Moment) (stamp : ℤ) (st : Stamps)

/-- The folder with the lease of a commit that begins. -/
def started (v : Volume) : Volume := (Step.writeLease (now + leaseTTL)).apply v

theorem sameDisk_started (v : Volume) : SameDisk v (started now v) := ⟨rfl, rfl, rfl⟩

/-- The folder when a commit has passed its checks. -/
def prepared (v : Volume) : Volume := (prepareCommit hash id req now stamp).exec (started now v)

theorem only_checkCommit : Only (fun t => ¬ OnDisk t) (checkCommit hash id req now) := by
  have hload : Only (fun t => ¬ OnDisk t) (loadSession id) := by
    refine only_weaken (SessionAge.only_loadSession id) ?_
    rintro t ⟨n, rfl⟩
    exact fun h => h
  refine only_bind (only_inspect _) (fun disk => only_bind (only_inspect _) (fun cur =>
    only_bind (only_inspect _) (fun _ => only_bind (only_inspect _) (fun _ =>
      only_bind hload (fun stored => only_bind (only_inspect _) (fun _ =>
        only_bind (only_inspect _) ?_))))))
  intro data
  cases checkDigest hash data (sortSegs stored) req.digest with
  | error e => exact only_bind (only_perform _ (fun h => h)) (fun _ => only_fail e)
  | ok _ => exact only_pure _

theorem prepare_stops {v s : Volume} (hs : (prepareCommit hash id req now stamp).Stopped v s) :
    ∃ w, (recover stamp).Stopped v w ∧ SameDisk w s := by
  unfold prepareCommit at hs
  cases hrec : (recover stamp).result v with
  | error e =>
    rw [stopped_bind_error _ _ v hrec] at hs
    exact ⟨s, hs, sameDisk_refl⟩
  | ok rolled =>
    rw [stopped_bind_ok _ _ v hrec] at hs
    rcases hs with hs | hs
    · exact ⟨s, hs, sameDisk_refl⟩
    · exact ⟨_, stopped_exec _ v, sameDisk_of_only (only_checkCommit hash id req now) _ s hs⟩

theorem prepare_ok {v : Volume} (x : CopySource × ApplyOptions)
    (hx : (prepareCommit hash id req now stamp).result v = .ok x) :
    ∃ rolled, (recover stamp).result v = .ok rolled ∧
      (checkCommit hash id req now).result ((recover stamp).exec v) = .ok x ∧
      SameDisk ((recover stamp).exec v) ((prepareCommit hash id req now stamp).exec v) := by
  unfold prepareCommit at hx ⊢
  rw [result_bind] at hx
  obtain ⟨rolled, hrec, hx⟩ := except_bind_ok.mp hx
  refine ⟨rolled, hrec, hx, ?_⟩
  rw [exec_bind_ok _ _ v hrec]
  exact sameDisk_of_only (only_checkCommit hash id req now) _ _ (stopped_exec _ _)

/-- The moment file that a commit writes, before it is sealed. -/
def recordOf : MomentFile := ⟨req.toMoment, req.vmGroup, 0, 0⟩

/-- The folder after the copy, with the moment recorded. -/
def recorded (x : CopySource × ApplyOptions) (u : Volume) : Volume :=
  (writeMomentFile (recordOf req)).exec ((applyCopy x.1 x.2 st).exec u)

omit [DecidableEq δ] in
theorem recorded_eq (x : CopySource × ApplyOptions) (u : Volume) :
    recorded req st x u =
      (Step.writeMoment (sealDisk ((applyCopy x.1 x.2 st).exec u) (recordOf req))).apply
        ((applyCopy x.1 x.2 st).exec u) := rfl

/-- What a stop of a commit can leave. -/
inductive CommitStop (v s : Volume) : Prop
  | early (w : Volume) (hw : (recover stamp).Stopped (started now v) w) (hs : SameDisk w s)
  | copying (x : CopySource × ApplyOptions)
      (hx : (prepareCommit hash id req now stamp).result (started now v) = .ok x) (w : Volume)
      (hw : (applyCopy x.1 x.2 st).Stopped (prepared hash id req now stamp v) w)
      (hs : SameDisk w s)
  | recorded (x : CopySource × ApplyOptions)
      (hx : (prepareCommit hash id req now stamp).result (started now v) = .ok x)
      (res : ApplyResult)
      (hres : (applyCopy x.1 x.2 st).result (prepared hash id req now stamp v) = .ok res)
      (hs : SameDisk (CommitSteps.recorded req st x (prepared hash id req now stamp v)) s)

omit [DecidableEq δ] in
theorem recordCommit_eq (res : ApplyResult) (w : Volume) :
    ∃ r, recordCommit id req res w =
        ([.writeMoment (sealDisk w (recordOf req)), .removeSession id], .ok r) ∧
      ∀ ps, restorePoints w = .ok ps → r.restorePointMoments = ps := by
  have hundo : restorePoints (device.applyAll [.removeSession id]
      (device.applyAll [.writeMoment (sealDisk w (recordOf req))] w)) = restorePoints w := rfl
  have hwrite : writeMomentFile (recordOf req) w =
      ([.writeMoment (sealDisk w (recordOf req))], .ok ()) := rfl
  unfold recordCommit
  rw [show (⟨req.toMoment, req.vmGroup, 0, 0⟩ : MomentFile) = recordOf req from rfl,
    bind_eq _ _ w hwrite, bind_eq _ _ _ (show (perform (.removeSession id) : VolProg Unit) _ =
      ([.removeSession id], .ok ()) from rfl)]
  cases hp : restorePoints w with
  | error e =>
    rw [bind_look _ _ _ (show (inspect (fun v => .ok (restorePoints v)) : VolProg _) _ =
      ([], .ok (.error e)) from congrArg (fun x => ([], Except.ok x)) (hundo.trans hp))]
    exact ⟨_, rfl, nofun⟩
  | ok points =>
    rw [bind_look _ _ _ (show (inspect (fun v => .ok (restorePoints v)) : VolProg _) _ =
      ([], .ok (.ok points)) from congrArg (fun x => ([], Except.ok x)) (hundo.trans hp))]
    exact ⟨_, rfl, fun ps hps => Except.ok.inj hps⟩

theorem applyCommit_stops (v s : Volume)
    (hs : (applyCommit hash id req now stamp st).Stopped (started now v) s) :
    CommitStop hash id req now stamp st v s := by
  unfold applyCommit at hs
  cases hx : (prepareCommit hash id req now stamp).result (started now v) with
  | error e =>
    rw [stopped_bind_error _ _ _ hx] at hs
    obtain ⟨w, hw, hsame⟩ := prepare_stops hash id req now stamp hs
    exact .early w hw hsame
  | ok x =>
    rw [stopped_bind_ok _ _ _ hx] at hs
    rcases hs with hs | hs
    · obtain ⟨w, hw, hsame⟩ := prepare_stops hash id req now stamp hs
      exact .early w hw hsame
    · cases hres : (applyCopy x.1 x.2 st).result (prepared hash id req now stamp v) with
      | error e =>
        rw [show (prepareCommit hash id req now stamp).exec (started now v) =
          prepared hash id req now stamp v from rfl, stopped_bind_error _ _ _ hres] at hs
        exact .copying x hx s hs sameDisk_refl
      | ok res =>
        rw [show (prepareCommit hash id req now stamp).exec (started now v) =
          prepared hash id req now stamp v from rfl, stopped_bind_ok _ _ _ hres] at hs
        rcases hs with hs | hs
        · exact .copying x hx s hs sameDisk_refl
        · obtain ⟨r, hrec, -⟩ := recordCommit_eq id req res
            ((applyCopy x.1 x.2 st).exec (prepared hash id req now stamp v))
          have hremove : ∀ w y, (perform (.removeSession id) : VolProg Unit).Stopped w y →
              SameDisk w y :=
            sameDisk_of_only (only_perform _ (fun h => h))
          unfold Prog.Stopped Prog.steps at hs
          rw [hrec] at hs
          rcases hs with rfl | htorn | hs
          · exact .copying x hx _ (stopped_exec _ _) sameDisk_refl
          · exact htorn.elim
          · exact .recorded x hx res hres (hremove _ s hs)

/-- The request passes the checks before the lease. -/
def ValidRequest : Prop := 0 < req.size ∧ req.toMoment ≠ zeroTime ∧ req.size ≤ limit

theorem commit_refused (v : Volume) (hreq : ¬ ValidRequest limit req) :
    ∃ e, commit hash limit id req now stamp st v = ([], .error e) := by
  unfold commit
  by_cases hfirst : req.size ≤ 0 ∨ req.toMoment = zeroTime
  · rw [if_pos hfirst]
    exact ⟨_, rfl⟩
  · have hlimit : (limit : ℤ) < req.size := by
      by_contra hle
      rw [not_or] at hfirst
      exact hreq ⟨by omega, hfirst.2, by omega⟩
    rw [if_neg hfirst, if_pos hlimit]
    exact ⟨_, rfl⟩

theorem commit_eq (v : Volume) (hreq : ValidRequest limit req) :
    commit hash limit id req now stamp st v =
      (.writeLease (now + leaseTTL) ::
          ((applyCommit hash id req now stamp st).steps (started now v) ++ [.removeLease]),
        (applyCommit hash id req now stamp st).result (started now v)) := by
  have hfirst : ¬ (req.size ≤ 0 ∨ req.toMoment = zeroTime) := by
    rintro (h | h)
    · exact absurd hreq.1 (by omega)
    · exact hreq.2.1 h
  unfold commit
  rw [if_neg hfirst, if_neg (by have := hreq.2.2; omega)]
  rfl

/-- Every stop of a commit is one of the cases. -/
theorem commit_stops (v s : Volume) (hs : (commit hash limit id req now stamp st).Stopped v s) :
    s = v ∨ ValidRequest limit req ∧ CommitStop hash id req now stamp st v s := by
  by_cases hreq : ValidRequest limit req
  swap
  · obtain ⟨e, he⟩ := commit_refused hash limit id req now stamp st v hreq
    unfold Prog.Stopped Prog.steps at hs
    rw [he] at hs
    exact .inl hs
  unfold Prog.Stopped Prog.steps at hs
  rw [commit_eq hash limit id req now stamp st v hreq] at hs
  rcases hs with rfl | htorn | hs
  · exact .inl rfl
  · exact htorn.elim
  refine .inr ⟨hreq, ?_⟩
  rcases (device.stoppedIn_append _ _ _ _).mp hs with hs | hs
  · exact applyCommit_stops hash id req now stamp st v s hs
  · rcases hs with rfl | htorn | rfl
    · exact applyCommit_stops hash id req now stamp st v _ (stopped_exec _ _)
    · exact htorn.elim
    · have hend := applyCommit_stops hash id req now stamp st v _ (stopped_exec _ (started now v))
      have hlease : ∀ w, SameDisk w ((applyCommit hash id req now stamp st).exec (started now v)) →
          SameDisk w (device.apply .removeLease
            ((applyCommit hash id req now stamp st).exec (started now v))) :=
        fun w hw => { hw with }
      cases hend with
      | early w hw hsame => exact .early w hw (hlease w hsame)
      | copying x hx w hw hsame => exact .copying x hx w hw (hlease w hsame)
      | recorded x hx res hres hsame => exact .recorded x hx res hres (hlease _ hsame)

/-- A commit that answers success has applied a copy and recorded its moment. -/
theorem commit_ok {v : Volume} {r : CommitResponse}
    (hr : (commit hash limit id req now stamp st).result v = .ok r) :
    ValidRequest limit req ∧ ∃ x res,
      (prepareCommit hash id req now stamp).result (started now v) = .ok x ∧
      (applyCopy x.1 x.2 st).result (prepared hash id req now stamp v) = .ok res ∧
      SameDisk (CommitSteps.recorded req st x (prepared hash id req now stamp v))
        ((commit hash limit id req now stamp st).exec v) ∧
      ∀ ps, restorePoints ((commit hash limit id req now stamp st).exec v) = .ok ps →
        r.restorePointMoments = ps := by
  by_cases hreq : ValidRequest limit req
  swap
  · obtain ⟨e, he⟩ := commit_refused hash limit id req now stamp st v hreq
    have herr : (commit hash limit id req now stamp st).result v = .error e := congrArg Prod.snd he
    rw [herr] at hr
    cases hr
  refine ⟨hreq, ?_⟩
  have heq := commit_eq hash limit id req now stamp st v hreq
  have hok : (applyCommit hash id req now stamp st).result (started now v) = .ok r := by
    rw [← hr]
    exact (congrArg Prod.snd heq).symm
  have hexec : (commit hash limit id req now stamp st).exec v = Step.removeLease.apply
      ((applyCommit hash id req now stamp st).exec (started now v)) := by
    unfold Prog.exec Prog.steps
    rw [heq, Device.applyAll_cons, Device.applyAll_append]
    rfl
  unfold applyCommit at hok
  rw [result_bind] at hok
  obtain ⟨x, hx, hok⟩ := except_bind_ok.mp hok
  rw [result_bind] at hok
  obtain ⟨res, hres, hlast⟩ := except_bind_ok.mp hok
  refine ⟨x, res, hx, hres, ?_⟩
  obtain ⟨r', hrec, hpoints⟩ := recordCommit_eq id req res
    ((applyCopy x.1 x.2 st).exec (prepared hash id req now stamp v))
  have hresponse : r = r' := by
    have hsecond := congrArg Prod.snd hrec
    exact Except.ok.inj (hlast.symm.trans hsecond)
  have hwhole : (applyCommit hash id req now stamp st).exec (started now v) =
      (Step.removeSession id).apply
        (CommitSteps.recorded req st x (prepared hash id req now stamp v)) := by
    unfold applyCommit
    rw [exec_bind_ok _ _ _ hx, exec_bind_ok _ _ _ hres]
    change device.applyAll (recordCommit id req res ((applyCopy x.1 x.2 st).exec
      (prepared hash id req now stamp v))).1 _ = _
    rw [hrec]
    rfl
  have hsame : ∀ w, SameDisk w (Step.removeLease.apply ((Step.removeSession id).apply w)) :=
    fun w => ⟨rfl, rfl, rfl⟩
  have hkeeps : ∀ w mf, restorePoints (Step.removeLease.apply ((Step.removeSession id).apply
      ((Step.writeMoment mf).apply w))) = restorePoints w := fun _ _ => rfl
  rw [hexec, hwhole]
  refine ⟨hsame _, ?_⟩
  intro ps hps
  rw [recorded_eq, hkeeps] at hps
  rw [hresponse]
  exact hpoints ps hps

end Stops

end FilePool.CommitSteps
