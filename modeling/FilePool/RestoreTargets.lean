import FilePool.StepRuns
import FilePool.UndoNames

/-!
The targets of restores of backups. A BackupRestore makes a claim with its name in an
annotation, waits until the claim has a volume, and runs a Job that empties the volume and
writes the backup into it. A claim that exists is used if the annotation has the name of the
restore. Objects are told apart by the moment they were made in.
-/
namespace FilePool.RestoreTargets

open UndoNames StepRuns Function Option

/-- A claim: when it was made, the annotation, and the volume it is bound to. -/
structure Claim where
  made : ℕ
  restore : Option Name
  volume : Option ℕ
  deriving DecidableEq, Repr

inductive Phase
  | pending
  | provisioning
  | restoring
  | done
  | failed
  deriving DecidableEq, Repr

/-- A BackupRestore. One from COS fetches the backup into a scratch folder first. -/
structure Restore where
  uid : ℕ
  name : Name
  target : Name
  classKnown : Bool
  fromCOS : Bool
  phase : Phase
  fetched : Bool
  copied : Bool
  deriving DecidableEq, Repr

/-- What a Job has come to. -/
inductive JobPhase
  | running
  | succeeded
  | failed
  deriving DecidableEq, Repr

/-- The restore that the controller works on, as it was read, and the volume it has found. -/
structure Pass where
  restore : Restore
  target : Option ℕ
  deriving DecidableEq, Repr

/-- A restore Job has written: for which BackupRestore, and into which volume. -/
structure Written where
  uid : ℕ
  volume : ℕ
  deriving DecidableEq, Repr

/-- The restore Jobs are found by the name of the restore. -/
structure World where
  clock : ℕ
  restores : Name → Option Restore
  claims : Name → Option Claim
  volumes : ℕ → Bool
  jobs : Name → Option JobPhase
  pass : Option Pass
  written : List Written

/-- Which calls succeed: the read of the claim, its creation, the read of it afterwards, the
read of the volume. -/
structure TargetCalls where
  read : Bool
  create : Bool
  reread : Bool
  volume : Bool
  deriving DecidableEq, Repr

inductive TargetErr
  | failure
  | later
  deriving DecidableEq, Repr

/-- The claim of the restore, which is made if there is none of the name. -/
def ensureRestoreTarget (br : Restore) (c : TargetCalls) (w : World) :
    Except TargetErr Claim × World :=
  if !c.read then (.error .later, w)
  else match w.claims br.target with
    | some claim => if claim.restore ≠ some br.name then (.error .failure, w) else (.ok claim, w)
    | none =>
      if !br.classKnown then (.error .failure, w)
      else if !c.create then (.error .later, w)
      else
        let claim : Claim := ⟨w.clock, some br.name, none⟩
        let w := { w with claims := update w.claims br.target (some claim) }
        if c.reread then (.ok claim, w) else (.error .later, w)

/-- A status can be stored only in the object that was read. -/
def stillThere (br : Restore) (w : World) : Bool :=
  (w.restores br.name).any (fun old => old.uid = br.uid)

def saveStatus (br : Restore) (saved : Bool) (w : World) : World :=
  if saved && stillThere br w then
    { w with restores := update w.restores br.name (some br) }
  else w

def endPass (w : World) : World := { w with pass := none }

/-- What the controller does until it knows the volume. -/
def findTarget (c : TargetCalls) (saved : Bool) (p : Pass) (w : World) : World :=
  match ensureRestoreTarget p.restore c w with
  | (.error .failure, w) => endPass (saveStatus { p.restore with phase := .failed } saved w)
  | (.error .later, w) => endPass (saveStatus { p.restore with phase := .pending } saved w)
  | (.ok claim, w) =>
    match claim.volume with
    | some v =>
      if c.volume && w.volumes v then { w with pass := some { p with target := some v } }
      else endPass (saveStatus { p.restore with phase := .provisioning } saved w)
    | none => endPass (saveStatus { p.restore with phase := .provisioning } saved w)

/-- The pass goes on if the status was saved. -/
def goOn (p : Pass) (saved : Bool) (w : World) : World :=
  let w' := saveStatus p.restore saved w
  if saved && stillThere p.restore w then { w' with pass := some p } else endPass w'

/-- A fetch writes into a scratch folder; it has ended, or not, or failed. -/
def fetch (outcome : JobPhase) (saved : Bool) (p : Pass) (w : World) : World :=
  match outcome with
  | .running => endPass (saveStatus { p.restore with phase := .restoring } saved w)
  | .failed => endPass (saveStatus { p.restore with phase := .failed } saved w)
  | .succeeded =>
    goOn { p with restore := { p.restore with fetched := true, phase := .restoring } } saved w

/-- The restore Job of the name is started, or reported on. -/
def restoreBackup (read start cleanup saved : Bool) (p : Pass) (v : ℕ) (w : World) : World :=
  let name := p.restore.name
  let removed := if cleanup then { w with jobs := update w.jobs name none } else w
  let waits := endPass (saveStatus { p.restore with phase := .restoring } saved w)
  if !read then waits
  else match w.jobs name with
    | none =>
      if start then
        { waits with
          jobs := update w.jobs name (some .running)
          written := w.written ++ [⟨p.restore.uid, v⟩] }
      else waits
    | some .running => waits
    | some .failed => endPass (saveStatus { p.restore with phase := .failed } saved removed)
    | some .succeeded =>
      if p.restore.fromCOS then
        goOn { p with restore := { p.restore with copied := true, phase := .restoring } } saved
          removed
      else endPass (saveStatus { p.restore with phase := .done } saved removed)

/-- Restores, claims and volumes are made and deleted by others, claims are bound, the
controller starts a pass for a restore and goes on with it, or stops; Jobs end. -/
inductive Event
  | makeRestore (name target : Name) (classKnown fromCOS : Bool)
  | deleteRestore (name : Name)
  | makeVolume
  | deleteVolume (v : ℕ)
  | makeClaim (name : Name) (restore : Option Name) (volume : Option ℕ)
  | deleteClaim (name : Name)
  | bind (name : Name) (v : ℕ)
  | begin (name : Name)
  | find (c : TargetCalls) (saved : Bool)
  | fetch (outcome : JobPhase) (saved : Bool)
  | copy (read start cleanup saved : Bool)
  | clean (ended saved : Bool)
  | restart
  | ended (name : Name) (ok : Bool)
  | removed (name : Name)
  deriving DecidableEq, Repr

def happens (w : World) : Event → Option World
  | .makeRestore name target classKnown fromCOS =>
    if (w.restores name).isSome then none
    else some { w with
      restores := update w.restores name
        (some ⟨w.clock, name, target, classKnown, fromCOS, .pending, false, false⟩) }
  | .deleteRestore name => some { w with restores := update w.restores name none }
  | .makeVolume => some { w with volumes := update w.volumes w.clock true }
  | .deleteVolume v => some { w with volumes := update w.volumes v false }
  | .makeClaim name restore volume =>
    if (w.claims name).isSome then none
    else some { w with
      claims := update w.claims name (some ⟨w.clock, restore, volume⟩) }
  | .deleteClaim name => some { w with claims := update w.claims name none }
  | .bind name v =>
    (w.claims name).bind (fun claim =>
      if claim.volume.isSome || !w.volumes v then none
      else some { w with
        claims := update w.claims name (some { claim with volume := some v }) })
  | .begin name =>
    (w.restores name).bind (fun br =>
      if w.pass.isSome || br.phase = .done || br.phase = .failed then none
      else some { w with pass := some ⟨br, none⟩ })
  | .find c saved => w.pass.bind (fun p =>
      if p.target.isSome then none else some (findTarget c saved p w))
  | .fetch outcome saved => w.pass.bind (fun p =>
      if p.target.isSome && p.restore.fromCOS && !p.restore.fetched then
        some (fetch outcome saved p w)
      else none)
  | .copy read start cleanup saved => w.pass.bind (fun p => p.target.bind (fun v =>
      if p.restore.fromCOS && (!p.restore.fetched || p.restore.copied) then none
      else some (restoreBackup read start cleanup saved p v w)))
  | .clean ended saved => w.pass.bind (fun p =>
      if p.target.isSome && p.restore.fromCOS && p.restore.copied then
        some (endPass (saveStatus
          { p.restore with phase := if ended then .done else .restoring } saved w))
      else none)
  | .restart => some (endPass w)
  | .ended name ok => (w.jobs name).map (fun _ =>
      { w with jobs := update w.jobs name (some (if ok then .succeeded else .failed)) })
  | .removed name => some { w with jobs := update w.jobs name none }

/-- The moments are counted by the steps. -/
def step (w : World) (e : Event) : Option World :=
  (happens w e).map (fun w => { w with clock := w.clock + 1 })

variable {w : World} {p : Pass} {w' : World} {p' : Pass}

/-- A BackupRestore of the name, stored or in the hands of the controller. -/
def Known (w : World) (r : Name) (uid : ℕ) : Prop :=
  (∃ br, w.restores r = some br ∧ br.uid = uid) ∨
    ∃ p, w.pass = some p ∧ p.restore.name = r ∧ p.restore.uid = uid

/-- What the steps have to keep to: a restore is made only when no claim has its name in the
annotation, nobody else makes a claim with the name of a restore and a volume, and a claim
with the annotation is bound to a volume that was made after it. -/
def Fitting (w : World) : Event → Prop
  | .makeRestore name _ _ _ => ∀ n claim, w.claims n = some claim → claim.restore ≠ some name
  | .makeClaim _ restore volume => volume = none ∨ ∀ r uid, restore = some r → ¬Known w r uid
  | .bind name v => ∀ claim, w.claims name = some claim → claim.restore ≠ none → claim.made < v
  | _ => True

/-- The restores of the name in the annotation are older than the claim and its volume. -/
def Younger (w : World) (claim : Claim) : Prop :=
  ∀ r uid, claim.restore = some r → Known w r uid →
    uid < claim.made ∧ ∀ v, claim.volume = some v → uid < v

structure Safe (w : World) : Prop where
  known : ∀ r uid, Known w r uid → uid < w.clock
  named : ∀ r br, w.restores r = some br → br.name = r
  claims : ∀ n claim, w.claims n = some claim → Younger w claim
  target : ∀ p v, w.pass = some p → p.target = some v → p.restore.uid < v
  volumes : ∀ v, w.volumes v = true → v < w.clock
  written : ∀ x ∈ w.written, x.uid < x.volume

theorem Safe.fewer (h : Safe w)
    (hknown : ∀ r uid, Known w' r uid → Known w r uid)
    (hnamed : ∀ r br, w'.restores r = some br → br.name = r)
    (htarget : ∀ p v, w'.pass = some p → p.target = some v → p.restore.uid < v)
    (hclock : w'.clock = w.clock) (hclaims : w'.claims = w.claims)
    (hvolumes : w'.volumes = w.volumes) (hwritten : w'.written = w.written) : Safe w' := by
  refine ⟨fun r uid hr => ?_, hnamed, fun n claim hclaim r uid hres hr => ?_, htarget, ?_, ?_⟩
  · rw [hclock]
    exact h.known r uid (hknown r uid hr)
  · rw [hclaims] at hclaim
    exact h.claims n claim hclaim r uid hres (hknown r uid hr)
  · rw [hvolumes, hclock]
    exact h.volumes
  · rw [hwritten]
    exact h.written

theorem Safe.endPass (h : Safe w) : Safe (endPass w) := by
  refine h.fewer (fun r uid hr => ?_) h.named nofun rfl rfl rfl rfl
  rcases hr with hr | ⟨p, hp, _⟩
  · exact .inl hr
  · cases hp

theorem saveStatus_pass {br : Restore} {saved : Bool} : (saveStatus br saved w).pass = w.pass := by
  unfold saveStatus
  split <;> rfl

theorem Safe.saveStatus (h : Safe w) (br : Restore) (saved : Bool) :
    Safe (saveStatus br saved w) := by
  unfold RestoreTargets.saveStatus
  split
  · rename_i hold
    obtain ⟨old, hold, huid⟩ := any_eq_true _ _ |>.mp (Bool.and_eq_true_iff.mp hold).2
    have huid : old.uid = br.uid := of_decide_eq_true huid
    refine h.fewer (fun r uid hr => ?_) (fun r br' hbr => ?_) h.target rfl rfl rfl rfl
    · rcases hr with ⟨br', hbr, rfl⟩ | hpass
      · rcases update_some hbr with ⟨rfl, rfl⟩ | ⟨_, hbr⟩
        · exact .inl ⟨old, hold, huid⟩
        · exact .inl ⟨br', hbr, rfl⟩
      · exact .inr hpass
    · rcases update_some hbr with ⟨rfl, rfl⟩ | ⟨_, hbr⟩
      · rfl
      · exact h.named r br' hbr
  · exact h

theorem Safe.setPass (h : Safe w) (hp : w.pass = some p)
    (hname : p'.restore.name = p.restore.name) (huid : p'.restore.uid = p.restore.uid)
    (htarget : ∀ v, p'.target = some v → p.restore.uid < v) :
    Safe { w with pass := some p' } := by
  refine h.fewer (fun r uid hr => ?_) h.named (fun q v hq hv => ?_) rfl rfl rfl rfl
  · rcases hr with hr | ⟨q, hq, rfl, rfl⟩
    · exact .inl hr
    · cases hq
      exact .inr ⟨p, hp, hname.symm, huid.symm⟩
  · cases hq
    rw [huid]
    exact htarget v hv

theorem Safe.goOn (h : Safe w) (saved : Bool) (hp : w.pass = some p)
    (hname : p'.restore.name = p.restore.name) (huid : p'.restore.uid = p.restore.uid)
    (htarget : p'.target = p.target) : Safe (goOn p' saved w) := by
  have hstored := h.saveStatus p'.restore saved
  unfold RestoreTargets.goOn
  split
  · refine hstored.setPass (saveStatus_pass.trans hp) hname huid (fun v hv => ?_)
    exact h.target p v hp (htarget ▸ hv)
  · exact hstored.endPass

/-- A claim that is made or changed has to be younger than the restores it names. -/
theorem Safe.setClaim (h : Safe w) (name : Name) (claim : Claim) (hclaim : Younger w claim) :
    Safe { w with claims := update w.claims name (some claim) } := by
  refine { h with claims := fun n c hc => ?_ }
  rcases update_some hc with ⟨_, rfl⟩ | ⟨_, hc⟩
  · exact hclaim
  · exact h.claims n c hc

theorem younger_unbound (h : Safe w) (restore : Option Name) :
    Younger w ⟨w.clock, restore, none⟩ :=
  fun r uid _ hr => ⟨h.known r uid hr, nofun⟩

theorem ensureRestoreTarget_safe (h : Safe w) (hp : w.pass = some p) {c : TargetCalls} :
    Safe (ensureRestoreTarget p.restore c w).2 ∧
      (ensureRestoreTarget p.restore c w).2.pass = w.pass ∧
      ∀ claim v, (ensureRestoreTarget p.restore c w).1 = .ok claim → claim.volume = some v →
        p.restore.uid < v := by
  have hmade := h.setClaim p.restore.target _ (younger_unbound h (some p.restore.name))
  unfold ensureRestoreTarget
  split
  · exact ⟨h, rfl, nofun⟩
  · split
    · rename_i claim hclaim
      split
      · exact ⟨h, rfl, nofun⟩
      · rename_i hres
        refine ⟨h, rfl, fun claim' v hok hv => ?_⟩
        cases hok
        exact (h.claims _ claim hclaim _ _ (not_not.mp hres) (.inr ⟨p, hp, rfl, rfl⟩)).2 v hv
    · split
      · exact ⟨h, rfl, nofun⟩
      · split
        · exact ⟨h, rfl, nofun⟩
        · split
          · refine ⟨hmade, rfl, fun claim v hok hv => ?_⟩
            cases hok
            cases hv
          · exact ⟨hmade, rfl, nofun⟩

theorem Safe.findTarget (h : Safe w) (hp : w.pass = some p) (c : TargetCalls)
    (saved : Bool) : Safe (findTarget c saved p w) := by
  obtain ⟨hsafe, hpass, hvolume⟩ := ensureRestoreTarget_safe h hp
  unfold RestoreTargets.findTarget
  split
  · rename_i w' heq
    rw [heq] at hsafe
    exact (hsafe.saveStatus _ _).endPass
  · rename_i w' heq
    rw [heq] at hsafe
    exact (hsafe.saveStatus _ _).endPass
  · rename_i claim w' heq
    rw [heq] at hsafe hpass hvolume
    split
    · rename_i v hv
      split
      · refine hsafe.setPass (hpass.trans hp) rfl rfl (fun v' hv' => ?_)
        cases hv'
        exact hvolume claim v rfl hv
      · exact (hsafe.saveStatus _ _).endPass
    · exact (hsafe.saveStatus _ _).endPass

theorem Safe.restoreBackup (h : Safe w) {v : ℕ} (hp : w.pass = some p)
    (hv : p.target = some v) (read start cleanup saved : Bool) :
    Safe (restoreBackup read start cleanup saved p v w) := by
  have hwaits := (h.saveStatus { p.restore with phase := .restoring } saved).endPass
  have hremoved : Safe (if cleanup then
      { w with jobs := update w.jobs p.restore.name none } else w) := by
    split
    · exact { h with }
    · exact h
  have hpass : (if cleanup then
      { w with jobs := update w.jobs p.restore.name none } else w).pass = some p := by
    split <;> exact hp
  unfold RestoreTargets.restoreBackup
  dsimp only
  split
  · exact hwaits
  · split
    · split
      · refine { hwaits with written := ?_ }
        intro x hx
        rcases List.mem_append.mp hx with hx | hx
        · exact h.written x hx
        · rw [List.mem_singleton.mp hx]
          exact h.target p v hp hv
      · exact hwaits
    · exact hwaits
    · exact (hremoved.saveStatus _ _).endPass
    · split
      · exact hremoved.goOn saved hpass rfl rfl rfl
      · exact (hremoved.saveStatus _ _).endPass

theorem Safe.tick (h : Safe w) : Safe { w with clock := w.clock + 1 } :=
  { h with
    known := fun r uid hr => Nat.lt_succ_of_lt (h.known r uid hr),
    volumes := fun v hv => Nat.lt_succ_of_lt (h.volumes v hv) }

/-- A restore is made when no claim has its name: it is younger than all others. -/
theorem Safe.makeRestore (h : Safe w) (br : Restore) (huid : br.uid = w.clock)
    (hfit : ∀ n claim, w.claims n = some claim → claim.restore ≠ some br.name) :
    Safe { w with
      restores := update w.restores br.name (some br), clock := w.clock + 1 } := by
  have hknown {r : Name} {uid : ℕ}
      (hr : Known { w with
        restores := update w.restores br.name (some br), clock := w.clock + 1 } r uid) :
      Known w r uid ∨ (r = br.name ∧ uid = w.clock) := by
    rcases hr with ⟨br', hbr, rfl⟩ | hpass
    · rcases update_some hbr with ⟨rfl, rfl⟩ | ⟨_, hbr⟩
      · exact .inr ⟨rfl, huid⟩
      · exact .inl (.inl ⟨br', hbr, rfl⟩)
    · exact .inl (.inr hpass)
  refine ⟨fun r uid hr => ?_, fun r br' hbr => ?_, fun n claim hclaim r uid hres hr => ?_,
    h.target, fun v hv => Nat.lt_succ_of_lt (h.volumes v hv), h.written⟩
  · rcases hknown hr with hr | ⟨_, rfl⟩
    · exact Nat.lt_succ_of_lt (h.known r uid hr)
    · exact Nat.lt_succ_self _
  · rcases update_some hbr with ⟨rfl, rfl⟩ | ⟨_, hbr⟩
    · rfl
    · exact h.named r br' hbr
  · rcases hknown hr with hr | ⟨rfl, _⟩
    · exact h.claims n claim hclaim r uid hres hr
    · exact absurd hres (hfit n claim hclaim)

theorem Safe.makeVolume (h : Safe w) :
    Safe { w with
      volumes := update w.volumes w.clock true, clock := w.clock + 1 } := by
  refine { h with known := h.tick.known, volumes := fun v hv => ?_ }
  rcases of_update (P := (· = true)) hv with ⟨rfl, _⟩ | ⟨_, hv⟩
  · exact Nat.lt_succ_self _
  · exact Nat.lt_succ_of_lt (h.volumes v hv)

theorem step_safe {e : Event} (hfit : Fitting w e) (h : Safe w)
    (hstep : step w e = some w') : Safe w' := by
  obtain ⟨w₁, hw₁, rfl⟩ := map_eq_some_iff.mp hstep
  cases e with
  | makeRestore name target classKnown fromCOS =>
    obtain ⟨_, rfl⟩ := unless_some hw₁
    exact h.makeRestore ⟨w.clock, name, target, classKnown, fromCOS, .pending, false, false⟩
      rfl hfit
  | deleteRestore name =>
    cases hw₁
    apply Safe.tick
    refine h.fewer (fun r uid hr => ?_) (fun r br hbr => ?_) h.target rfl rfl rfl rfl
    · rcases hr with ⟨br, hbr, huid⟩ | hpass
      · exact .inl ⟨br, (update_none_some hbr).2, huid⟩
      · exact .inr hpass
    · exact h.named r br (update_none_some hbr).2
  | makeVolume =>
    cases hw₁
    exact h.makeVolume
  | deleteVolume v =>
    cases hw₁
    refine Safe.tick { h with volumes := fun u hu => ?_ }
    rcases of_update (P := (· = true)) hu with ⟨_, hv⟩ | ⟨_, hu⟩
    · cases hv
    · exact h.volumes u hu
  | makeClaim name restore volume =>
    obtain ⟨_, rfl⟩ := unless_some hw₁
    refine (h.setClaim name _ ?_).tick
    rcases hfit with rfl | hunknown
    · exact younger_unbound h restore
    · exact fun r uid hres hr => absurd hr (hunknown r uid hres)
  | deleteClaim name =>
    cases hw₁
    refine Safe.tick { h with claims := fun n claim hclaim => ?_ }
    exact h.claims n claim (update_none_some hclaim).2
  | bind name v =>
    obtain ⟨claim, hclaim, hbind⟩ := bind_eq_some_iff.mp hw₁
    obtain ⟨_, rfl⟩ := unless_some hbind
    refine (h.setClaim name _ (fun r uid hres hr => ?_)).tick
    have hold := (h.claims name claim hclaim r uid hres hr).1
    refine ⟨hold, fun u hu => ?_⟩
    cases hu
    exact hold.trans (hfit claim hclaim (by rw [hres]; exact nofun))
  | begin name =>
    obtain ⟨br, hbr, hbegin⟩ := bind_eq_some_iff.mp hw₁
    obtain ⟨_, rfl⟩ := unless_some hbegin
    apply Safe.tick
    refine h.fewer (fun r uid hr => ?_) h.named (fun p v hp hv => ?_) rfl rfl rfl rfl
    · rcases hr with hr | ⟨p, hp, rfl, rfl⟩
      · exact .inl hr
      · cases hp
        refine .inl ⟨br, ?_, rfl⟩
        rw [h.named name br hbr]
        exact hbr
    · cases hp
      cases hv
  | find c saved =>
    obtain ⟨p, hp, hfind⟩ := bind_eq_some_iff.mp hw₁
    obtain ⟨_, rfl⟩ := unless_some hfind
    exact (h.findTarget hp c saved).tick
  | fetch outcome saved =>
    obtain ⟨p, hp, hfetch⟩ := bind_eq_some_iff.mp hw₁
    obtain ⟨_, rfl⟩ := when_some hfetch
    refine Safe.tick ?_
    cases outcome with
    | running => exact (h.saveStatus _ _).endPass
    | failed => exact (h.saveStatus _ _).endPass
    | succeeded => exact h.goOn saved hp rfl rfl rfl
  | copy read start cleanup saved =>
    obtain ⟨p, hp, hcopy⟩ := bind_eq_some_iff.mp hw₁
    obtain ⟨v, hv, hcopy⟩ := bind_eq_some_iff.mp hcopy
    obtain ⟨_, rfl⟩ := unless_some hcopy
    exact (h.restoreBackup hp hv read start cleanup saved).tick
  | clean ended saved =>
    obtain ⟨p, hp, hclean⟩ := bind_eq_some_iff.mp hw₁
    obtain ⟨_, rfl⟩ := when_some hclean
    exact (h.saveStatus _ _).endPass.tick
  | restart =>
    cases hw₁
    exact h.endPass.tick
  | ended name ok =>
    obtain ⟨_, _, rfl⟩ := map_eq_some_iff.mp hw₁
    exact Safe.tick { h with }
  | removed name =>
    cases hw₁
    exact Safe.tick { h with }

/-- Nothing is restored yet; claims, volumes and Jobs may exist. -/
structure Idle (w : World) : Prop where
  restores : ∀ r, w.restores r = none
  pass : w.pass = none
  volumes : ∀ v, w.volumes v = true → v < w.clock
  written : w.written = []

theorem Idle.safe (h : Idle w) : Safe w := by
  have hnone {r : Name} {uid : ℕ} (hr : Known w r uid) : False := by
    rcases hr with ⟨br, hbr, _⟩ | ⟨p, hp, _⟩
    · exact absent (h.restores r) hbr
    · exact absent h.pass hp
  refine ⟨fun _ _ hr => (hnone hr).elim, fun r br hbr => ?_, fun _ _ _ _ _ _ hr => (hnone hr).elim,
    fun p v hp => absent h.pass hp, h.volumes, ?_⟩
  · exact absent (h.restores r) hbr
  · rw [h.written]
    exact nofun

/-- In every run whose steps fit, a restore Job writes only into a volume that was made after
its BackupRestore. A volume that exists was made before the present moment, so one that
exists when a restore is made is older than it. -/
theorem restore_writes_new_volume (w w' : World) (hidle : Idle w) (hrun : Run step Fitting w w') :
    (∀ x ∈ w'.written, x.uid < x.volume) ∧ ∀ v, w'.volumes v = true → v < w'.clock := by
  have hsafe : Safe w' := hrun.keeps (fun _ _ _ hfit h hstep => step_safe hfit h hstep) hidle.safe
  exact ⟨hsafe.written, hsafe.volumes⟩

def emptyWorld : World := ⟨0, fun _ => none, fun _ => none, fun _ => false, fun _ => none, none, []⟩

theorem idle_emptyWorld : Idle emptyWorld := ⟨fun _ => rfl, rfl, nofun, rfl⟩

def allSucceed : TargetCalls := ⟨true, true, true, true⟩

/-- A restore x into the claim t, from its making to its end. -/
def restored : List Event :=
  [.makeRestore ['x'] ['t'] true false, .begin ['x'], .find allSucceed true, .makeVolume,
    .bind ['t'] 3, .begin ['x'], .find allSucceed true, .copy true true true true,
    .ended ['x'] true, .begin ['x'], .find allSucceed true, .copy true true true true]

/-- The restore is deleted and made again under its name, and writes into the volume. -/
def restoredAgain : List Event :=
  restored ++ [.deleteRestore ['x'], .makeRestore ['x'] ['t'] true false, .begin ['x'],
    .find allSucceed true, .copy true true true true]

theorem restore_writes_old_volume :
    ∃ w, Run step (fun _ _ => True) emptyWorld w ∧ ⟨13, 3⟩ ∈ w.written :=
  free_run restoredAgain emptyWorld (by decide +kernel)

/-- The steps after the restore is made fit when the claim gets a younger volume. -/
def fits (w : World) : Event → Bool
  | .makeRestore .. | .makeClaim .. => false
  | .bind name v => (w.claims name).all (fun claim => claim.made < v)
  | _ => true

theorem fitting_of_fits (w : World) (e : Event) (h : fits w e = true) : Fitting w e := by
  cases e with
  | makeRestore | makeClaim => cases h
  | bind name v =>
    intro claim hclaim _
    have hall : (w.claims name).all (fun claim => claim.made < v) = true := h
    rw [hclaim] at hall
    exact of_decide_eq_true hall
  | _ => trivial

theorem restore_writes_new_volume_restored :
    ∃ (w : World) (x : Written), x ∈ w.written ∧ x = ⟨0, 3⟩ ∧ x.uid < x.volume := by
  have h : ((step emptyWorld (.makeRestore ['x'] ['t'] true false)).bind
      (steps step fits restored.tail)).any (fun w => decide (⟨0, 3⟩ ∈ w.written)) = true := by
    decide +kernel
  obtain ⟨w, hw, hend⟩ := any_eq_true _ _ |>.mp h
  obtain ⟨w₁, hw₁, hw⟩ := bind_eq_some_iff.mp hw
  have hmake : Fitting emptyWorld (.makeRestore ['x'] ['t'] true false) :=
    nofun
  have hrun : Run step Fitting emptyWorld w :=
    Run.trans (.next _ .start hmake hw₁) (run_steps fitting_of_fits _ _ _ hw)
  have hx := of_decide_eq_true hend
  exact ⟨w, _, hx, rfl, (restore_writes_new_volume emptyWorld w idle_emptyWorld hrun).1 _ hx⟩

end FilePool.RestoreTargets
