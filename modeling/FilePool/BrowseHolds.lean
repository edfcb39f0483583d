import FilePool.HeldCopies
import FilePool.StepRuns

/-!
The readers of a VM disk's backup beside its copies: the helper of a browse session and the
Job of a guest file restore. The backup controller first puts a hold on the volume, then
waits until the status tells of no copy, then starts the reader. A hold counts for a limited
time, and a sweep removes the holds that no session, restore or helper needs.
-/
namespace FilePool.BrowseHolds

open UndoNames StepRuns HeldCopies Function List Option

inductive Kind
  | browse
  | restore
  deriving DecidableEq, Repr

inductive Phase
  | pending
  | started
  | ended
  deriving DecidableEq, Repr

/-- A session or restore, with the time of the first hold that a restore keeps. -/
structure Session where
  phase : Phase
  holdStarted : Option ℤ
  deriving DecidableEq, Repr

structure BrowseHold where
  session : Name
  since : ℤ
  deriving DecidableEq, Repr

/-- How far the controller has come with a session that it starts: the hold is taken, or no
copy was found either. -/
inductive Stage
  | held
  | cleared
  deriving DecidableEq, Repr

/-- The sessions and restores, their readers, the holds of each volume, the session that the
controller is about to start, and the copies. -/
structure State where
  now : ℤ
  sessions : Name → Option Session
  reader : Name → Bool
  holds : Name → List BrowseHold
  attempt : Option (Name × Stage)
  copies : Copies

/-- How old a hold may be and still count, in seconds. -/
def browseHoldLimit : ℤ := 3 * 3600

def browseHoldSkew : ℤ := 5 * 60

def guestHoldBudget : ℤ := browseHoldLimit - 15 * 60

def guestMinRun : ℤ := 60

def counts (now : ℤ) (h : BrowseHold) : Bool :=
  decide (h.since ≤ now + browseHoldSkew) && decide (now - h.since < browseHoldLimit)

def browseHeld (holds : List BrowseHold) (now : ℤ) : Bool := holds.any (counts now)

/-- A session that is there already keeps its first time. -/
def addBrowseHold (holds : List BrowseHold) (session : Name) (since : ℤ) : List BrowseHold :=
  if holds.any (fun h => h.session = session) then holds else holds ++ [⟨session, since⟩]

def live (s : State) (id : Name) : Bool := (s.sessions id).any (fun x => x.phase ≠ .ended)

variable (volume : Name → Name) (kind : Name → Kind)

/-- A restore counts its hold from the first one, which it notes before the hold is taken. -/
def holdSince (id : Name) (now : ℤ) (x : Session) : ℤ :=
  if kind id = .restore then x.holdStarted.getD now else now

def noteHold (id : Name) (now : ℤ) (x : Session) : Session :=
  if kind id = .restore then { x with holdStarted := some (holdSince kind id now x) } else x

/-- A browse session asks for the hold before it starts, a restore until it ends. -/
def asksHold (id : Name) (x : Session) : Bool :=
  x.phase = .pending || (kind id = .restore && x.phase = .started)

/-- The hold on the volume of a session. A restore with little time left fails. One that has
started does not wait for copies. A volume that is gone needs no hold. -/
def holdForGuest (id : Name) (found patched : Bool) (s : State) : Option State :=
  (s.sessions id).bind (fun x =>
    if s.attempt.isSome || !asksHold kind id x then none
    else if kind id = .restore &&
        guestHoldBudget - (s.now - holdSince kind id s.now x) < guestMinRun then
      some { s with sessions := update s.sessions id (some { x with phase := .ended }) }
    else
      let noted := update s.sessions id (some (noteHold kind id s.now x))
      if !found then some { s with sessions := noted, attempt := some (id, .cleared) }
      else if !patched then some { s with sessions := noted }
      else some { s with
        sessions := noted
        holds := update s.holds (volume id)
          (addBrowseHold (s.holds (volume id)) id (holdSince kind id s.now x))
        attempt := some (id, if x.phase = .pending then .held else .cleared) })

/-- The copies that the status tells of are waited for. -/
def checkCopies (known : Bool) (s : State) : Option State :=
  s.attempt.bind (fun a => match a.2 with
    | .held =>
      if !known || s.copies.told (volume a.1) then some { s with attempt := none }
      else some { s with attempt := some (a.1, .cleared) }
    | .cleared => none)

/-- The reader is started. A restore counts as started while its claim is made, too. -/
def startReader (made saved : Bool) (s : State) : Option State :=
  s.attempt.bind (fun a => match a.2 with
    | .held => none
    | .cleared => some { s with
        reader := if made then update s.reader a.1 true else s.reader
        sessions :=
          if saved && (made || kind a.1 = .restore) then
            update s.sessions a.1 ((s.sessions a.1).map (fun x => { x with phase := .started }))
          else s.sessions
        attempt := none })

/-- The helper of a session that has started is gone, and is started again. -/
def watchBrowse (id : Name) (s : State) : Option State :=
  if kind id = .browse && (s.sessions id).any (fun x => x.phase = .started) && s.attempt.isNone then
    some { s with reader := update s.reader id true }
  else none

def setPhase (id : Name) (phase : Phase) (s : State) : Option State :=
  (s.sessions id).bind (fun x =>
    if x.phase = .ended then none
    else some { s with sessions := update s.sessions id (some { x with phase := phase }) })

/-- The holds that are kept: of what is live, or has a helper, while they count. -/
def sweepBrowseHolds (failed : List Name) (s : State) : Option State :=
  if s.attempt.isSome then none
  else some { s with holds := fun v =>
    if failed.contains v then s.holds v
    else (s.holds v).filter (fun h =>
      (live s h.session || (kind h.session = .browse && s.reader h.session)) &&
        decide (s.now - h.since < browseHoldLimit)) }

def withCopies (s : State) (c : Option Copies) : Option State :=
  c.map (fun c => { s with copies := c })

/-- The steps of the backup controller and of the replication pass. Sessions are asked for,
wait again, end and are deleted; readers end; volumes go; the controllers stop. -/
inductive Event
  | tick (d : ℕ)
  | ask (id : Name)
  | hold (id : Name) (found patched : Bool)
  | check (known : Bool)
  | start (made saved : Bool)
  | watch (id : Name)
  | waits (id : Name)
  | close (id : Name)
  | delete (id : Name)
  | readerGone (id : Name)
  | sweep (failed : List Name)
  | volumeGone (v : Name)
  | stopBackups
  | beginCopies (unread : Name → Bool) (volumes : List Name)
  | visit (wanted noticed cleaned : Bool)
  | endCopies (saved : Bool)
  | stopCopies
  | copyEnds (v : Name)
  | copyGone (v : Name)

def step (s : State) : Event → Option State
  | .tick d => some { s with now := s.now + d }
  | .ask id =>
    if (s.sessions id).isSome then none
    else some { s with sessions := update s.sessions id (some ⟨.pending, none⟩) }
  | .hold id found patched => holdForGuest volume kind id found patched s
  | .check known => checkCopies volume known s
  | .start made saved => startReader kind made saved s
  | .watch id => watchBrowse kind id s
  | .waits id => setPhase id .pending s
  | .close id => setPhase id .ended s
  | .delete id => some { s with sessions := update s.sessions id none }
  | .readerGone id => some { s with reader := update s.reader id false }
  | .sweep failed => sweepBrowseHolds kind failed s
  | .volumeGone v => some { s with holds := update s.holds v [] }
  | .stopBackups => some { s with attempt := none }
  | .beginCopies unread volumes =>
    withCopies s (beginPass (fun v => browseHeld (s.holds v) s.now) unread s.copies volumes)
  | .visit wanted noticed cleaned => withCopies s (HeldCopies.visit s.copies wanted noticed cleaned)
  | .endCopies saved => withCopies s (HeldCopies.endPass s.copies saved)
  | .stopCopies => withCopies s (some (breakOff s.copies))
  | .copyEnds v => withCopies s (HeldCopies.copyEnds s.copies v)
  | .copyGone v => withCopies s (some (HeldCopies.copyGone s.copies v))

section Guarding

variable {volume : Name → Name} {kind : Name → Kind} {s s' : State} {id : Name}

/-- The disk is read, or may be read without a further look at its copies. -/
def Guards (s : State) (id : Name) : Prop :=
  s.reader id = true ∨ (∃ x, s.sessions id = some x ∧ x.phase = .started) ∨
    s.attempt = some (id, .cleared)

variable (volume) in
def Guarded (s : State) (v : Name) : Prop := ∃ id, volume id = v ∧ Guards s id

/-- A hold of a session that guards its disk never gets too old. The volume is there when it is
held, and stays while it is guarded. The copies are looked at while the hold counts and a
replication pass under way has passed the disk and seen no copy of it. A restore whose Job
exists has not ended when the holds are swept. A replication pass can tell of a guarded volume
whether its copy exists, lists and tells of every copy that runs, and saves its status before
the controller stops; no copy of a guarded volume is removed by others while a pass has still to
look at it. -/
def Fitting (volume : Name → Name) (kind : Name → Kind) (s : State) : Event → Prop
  | .tick d => ∀ id, Guards s id → ∀ h ∈ s.holds (volume id), h.session = id →
      s.now + d - h.since < browseHoldLimit
  | .hold _ found _ => found = true
  | .check _ => ∀ a, s.attempt = some a → Clear s.copies (volume a.1) ∧
      ∀ h ∈ s.holds (volume a.1), h.session = a.1 → counts s.now h = true
  | .sweep _ => ∀ id, s.reader id = true → kind id = .restore → live s id = true
  | .volumeGone v => ∀ id, volume id = v → ¬ Guards s id ∧ ∀ stage, s.attempt ≠ some (id, stage)
  | .beginCopies unread volumes =>
      (∀ v, unread v = true → ¬ Guarded volume s v) ∧ ∀ v, Runs s.copies v → v ∈ volumes
  | .visit _ noticed _ => noticed = true
  | .endCopies saved => saved = true
  | .stopCopies => ∀ v, Runs s.copies v → s.copies.told v = true
  | .copyGone v => Passed s.copies v ∨ ¬ Guarded volume s v
  | _ => True

/-- A disk that is guarded is held, and no copy of it runs. -/
structure Kept (volume : Name → Name) (s : State) : Prop where
  held : ∀ id, Guards s id → ∃ h ∈ s.holds (volume id), h.session = id ∧ counts s.now h = true
  apart : ∀ id, Guards s id → ¬ Runs s.copies (volume id)
  attempted : ∀ a, s.attempt = some a → ∃ h ∈ s.holds (volume a.1), h.session = a.1
  copies : HeldCopies.Kept (Guarded volume s) s.copies

theorem Kept.fewer (h : Kept volume s) (hnow : s'.now = s.now) (hcopies : s'.copies = s.copies)
    (hguards : ∀ id, Guards s' id → Guards s id)
    (hholds : ∀ id, Guards s' id → ∀ x ∈ s.holds (volume id), x.session = id →
      counts s.now x = true → x ∈ s'.holds (volume id))
    (hattempt : ∀ a, s'.attempt = some a → ∃ x ∈ s'.holds (volume a.1), x.session = a.1) :
    Kept volume s' := by
  refine ⟨fun id hid => ?_, fun id hid => ?_, hattempt, ?_⟩
  · obtain ⟨x, hx, hsession, hcounts⟩ := h.held id (hguards id hid)
    rw [hnow]
    exact ⟨x, hholds id hid x hx hsession hcounts, hsession, hcounts⟩
  · rw [hcopies]
    exact h.apart id (hguards id hid)
  · rw [hcopies]
    exact h.copies.guard (fun v ⟨id, hv, hid⟩ => .inl ⟨id, hv, hguards id hid⟩)

theorem mem_addBrowseHold {holds : List BrowseHold} {since : ℤ} {x : BrowseHold}
    (hx : x ∈ holds) : x ∈ addBrowseHold holds id since := by
  unfold addBrowseHold
  split
  · exact hx
  · exact mem_append_left _ hx

theorem exists_addBrowseHold {holds : List BrowseHold} {since : ℤ} :
    ∃ x ∈ addBrowseHold holds id since, x.session = id := by
  unfold addBrowseHold
  split
  · rename_i hany
    simpa using hany
  · exact ⟨⟨id, since⟩, by simp, rfl⟩

theorem noteHold_phase (id : Name) (now : ℤ) (x : Session) :
    (noteHold kind id now x).phase = x.phase := by
  unfold noteHold
  split <;> rfl

/-- A session whose entry is written guards its disk only if it did, unless it starts. -/
theorem guards_update {id : Name} {o : Option Session} {t : Option (Name × Stage)}
    {f : Name → List BrowseHold}
    (ho : ∀ x, o = some x → x.phase = .started → Guards s id)
    (ht : ∀ u, t = some (u, .cleared) → Guards s u) (u : Name)
    (hu : Guards { s with
      sessions := update s.sessions id o, attempt := t, holds := f } u) :
    Guards s u := by
  rcases hu with hread | ⟨x, hx, hphase⟩ | hattempt
  · exact .inl hread
  · by_cases huid : u = id
    · subst huid
      exact ho x (by simpa using hx) hphase
    · exact .inr (.inl ⟨x, by simpa [update_of_ne huid] using hx, hphase⟩)
  · exact ht u hattempt

theorem Kept.holdForGuest (h : Kept volume s) {patched : Bool}
    (hstep : holdForGuest volume kind id true patched s = some s') : Kept volume s' := by
  obtain ⟨x, hx, hstep⟩ := bind_eq_some_iff.mp hstep
  obtain ⟨hask, hstep⟩ := ite_none_left_eq_some.mp hstep
  simp only [Bool.or_eq_true, not_or] at hask
  have hnew (u : Name) (hu : s.attempt = some (u, .cleared)) : Guards s u :=
    .inr (.inr hu)
  split at hstep
  · cases hstep
    exact h.fewer rfl rfl (guards_update (fun y hy hphase => by cases hy; cases hphase) hnew)
      (fun _ _ _ hmem _ _ => hmem) h.attempted
  · have hsame (y : Session) (hy : some (noteHold kind id s.now x) = some y)
        (hphase : y.phase = .started) : Guards s id := by
      cases hy
      exact .inr (.inl ⟨x, hx, by rwa [noteHold_phase] at hphase⟩)
    cases patched
    · cases hstep
      exact h.fewer rfl rfl (guards_update hsame hnew) (fun _ _ _ hmem _ _ => hmem) h.attempted
    · cases hstep
      refine h.fewer rfl rfl (guards_update hsame (fun u hu => ?_)) (fun u _ y hy _ _ => ?_)
        (fun a ha => ?_)
      · -- the copies are not looked at only if the restore has started
        obtain ⟨rfl, hstage⟩ := Prod.mk.inj (Option.some.inj hu)
        have hphase : x.phase = .pending ∨ (kind id = .restore ∧ x.phase = .started) := by
          have hasks : asksHold kind id x = true := by simpa using hask.2
          simpa [asksHold] using hasks
        rcases hphase with hpending | ⟨_, hstarted⟩
        · cases (if_pos hpending).symm.trans hstage
        · exact .inr (.inl ⟨x, hx, hstarted⟩)
      · by_cases hv : volume u = volume id
        · simp only [hv, update_self]
          exact mem_addBrowseHold (hv ▸ hy)
        · simpa only [update_of_ne hv] using hy
      · cases ha
        simpa only [update_self] using exists_addBrowseHold

theorem Kept.checkCopies (h : Kept volume s) {known : Bool}
    (hfit : ∀ a, s.attempt = some a → Clear s.copies (volume a.1) ∧
      ∀ x ∈ s.holds (volume a.1), x.session = a.1 → counts s.now x = true)
    (hstep : checkCopies volume known s = some s') : Kept volume s' := by
  obtain ⟨⟨id, stage⟩, ha, hstep⟩ := bind_eq_some_iff.mp hstep
  split at hstep
  · split at hstep
    · cases hstep
      exact h.fewer rfl rfl
        (fun u hu => hu.imp_right (Or.imp_right nofun)) (fun _ _ _ hmem _ _ => hmem) nofun
    · rename_i hnot
      cases hstep
      simp only [Bool.or_eq_true, not_or, Bool.not_eq_true] at hnot
      have hguards (u : Name) (hu : Guards { s with attempt := some (id, .cleared) } u) :
          Guards s u ∨ u = id := by
        rcases hu with hread | hstarted | hattempt
        · exact .inl (.inl hread)
        · exact .inl (.inr (.inl hstarted))
        · exact .inr (Prod.mk.inj (Option.some.inj hattempt)).1.symm
      have hid := h.attempted _ ha
      obtain ⟨hclear, hcount⟩ := hfit _ ha
      refine ⟨fun u hu => ?_, fun u hu => ?_, fun a ha' => ?_, h.copies.guard ?_⟩
      · rcases hguards u hu with hu | rfl
        · exact h.held u hu
        · obtain ⟨x, hx, hsession⟩ := hid
          exact ⟨x, hx, hsession, hcount x hx hsession⟩
      · rcases hguards u hu with hu | rfl
        · exact h.apart u hu
        · exact h.copies.not_runs hclear hnot.2
      · cases ha'
        exact hid
      · rintro v ⟨u, rfl, hu⟩
        exact (hguards u hu).imp (fun hu => ⟨u, rfl, hu⟩) (by rintro rfl; exact hclear.1)
  · cases hstep

theorem Kept.startReader (h : Kept volume s) {made saved : Bool}
    (hstep : startReader kind made saved s = some s') : Kept volume s' := by
  obtain ⟨⟨id, stage⟩, ha, hstep⟩ := bind_eq_some_iff.mp hstep
  dsimp only at hstep
  split at hstep
  · cases hstep
  · cases hstep
    have hid : Guards s id := .inr (.inr ha)
    refine h.fewer rfl rfl (fun u hu => ?_) (fun _ _ _ hmem _ _ => hmem) nofun
    by_cases huid : u = id
    · exact huid ▸ hid
    · rcases hu with hread | ⟨x, hx, hphase⟩ | hattempt
      · cases made
        · exact .inl hread
        · exact .inl (by simpa [huid] using hread)
      · refine .inr (.inl ⟨x, ?_, hphase⟩)
        dsimp only at hx
        split at hx
        · rwa [update_of_ne huid] at hx
        · exact hx
      · cases hattempt

theorem Kept.watchBrowse (h : Kept volume s)
    (hstep : watchBrowse kind id s = some s') : Kept volume s' := by
  obtain ⟨hcond, rfl⟩ := when_some hstep
  simp only [Bool.and_eq_true] at hcond
  obtain ⟨x, hx, hphase⟩ := any_eq_true _ _ |>.mp hcond.1.2
  refine h.fewer rfl rfl (fun u hu => ?_) (fun _ _ _ hmem _ _ => hmem) h.attempted
  by_cases huid : u = id
  · exact huid ▸ .inr (.inl ⟨x, hx, of_decide_eq_true hphase⟩)
  · exact hu.imp_left (fun hread => by simpa [huid] using hread)

theorem Kept.setPhase (h : Kept volume s) {phase : Phase}
    (hstep : setPhase id phase s = some s') (hne : phase ≠ .started) : Kept volume s' := by
  obtain ⟨x, hx, hstep⟩ := bind_eq_some_iff.mp hstep
  obtain ⟨_, rfl⟩ := unless_some hstep
  refine h.fewer rfl rfl (guards_update (fun y hy hphase => ?_) (fun u hu => .inr (.inr hu)))
    (fun _ _ _ hmem _ _ => hmem) h.attempted
  cases hy
  exact absurd hphase hne

theorem Kept.sweep (h : Kept volume s) {failed : List Name}
    (hjobs : ∀ id, s.reader id = true → kind id = .restore → live s id = true)
    (hstep : sweepBrowseHolds kind failed s = some s') : Kept volume s' := by
  obtain ⟨hnone, rfl⟩ := unless_some hstep
  have hattempt : s.attempt = none := by simpa using hnone
  refine h.fewer rfl rfl (fun u hu => hu) (fun u hu x hx hsession hcounts => ?_)
    (fun a ha => absent hattempt ha)
  have hneeded : live s u || (kind u = .browse && s.reader u) := by
    rcases hu with hread | ⟨y, hy, hphase⟩ | hcleared
    · cases hkind : kind u
      · simp [show s.reader u = true from hread]
      · simp [hjobs u hread hkind]
    · simp [live, show s.sessions u = some y from hy, hphase]
    · exact absent hattempt hcleared
  simp only [counts, Bool.and_eq_true] at hcounts
  dsimp only
  split
  · exact hx
  · simp only [mem_filter, hsession]
    exact ⟨hx, by simp only [hneeded]; exact hcounts.2⟩

theorem Kept.copiesStep (h : Kept volume s) {c : Copies}
    (hc : Keeps (Guarded volume s) s.copies c) : Kept volume { s with copies := c } := by
  refine ⟨h.held, fun id hid hrun => ?_, h.attempted, hc.kept⟩
  rcases hc.runs _ hrun with hbefore | hnot
  · exact h.apart id hid hbefore
  · exact hnot ⟨id, rfl, hid⟩

theorem step_kept (s : State) (e : Event) (s' : State) (hfit : Fitting volume kind s e)
    (h : Kept volume s) (hstep : step volume kind s e = some s') : Kept volume s' := by
  cases e with
  | tick d =>
    cases hstep
    refine { h with held := fun id hid => ?_ }
    obtain ⟨x, hx, hsession, hcounts⟩ := h.held id hid
    have hyoung := hfit id hid x hx hsession
    simp only [counts, Bool.and_eq_true, decide_eq_true_eq] at hcounts ⊢
    exact ⟨x, hx, hsession, by omega, hyoung⟩
  | ask id =>
    obtain ⟨_, rfl⟩ := unless_some hstep
    exact h.fewer rfl rfl
      (guards_update (fun y hy hphase => by cases hy; cases hphase) (fun u hu => .inr (.inr hu)))
      (fun _ _ _ hmem _ _ => hmem) h.attempted
  | hold id found patched =>
    cases (show found = true from hfit)
    exact h.holdForGuest hstep
  | check known => exact h.checkCopies hfit hstep
  | start made saved => exact h.startReader hstep
  | watch id => exact h.watchBrowse hstep
  | waits id | close id => exact h.setPhase hstep (by rintro ⟨⟩)
  | delete id =>
    cases hstep
    exact h.fewer rfl rfl (guards_update (by rintro _ ⟨⟩) (fun u hu => .inr (.inr hu)))
      (fun _ _ _ hmem _ _ => hmem) h.attempted
  | readerGone id =>
    cases hstep
    refine h.fewer rfl rfl (fun u hu => hu.imp_left (fun hread => ?_))
      (fun _ _ _ hmem _ _ => hmem) h.attempted
    by_cases huid : u = id
    · simp [huid] at hread
    · simpa [huid] using hread
  | sweep failed => exact h.sweep hfit hstep
  | volumeGone v =>
    cases hstep
    have hother (id : Name) (hid : volume id ≠ v) {x : BrowseHold} (hx : x ∈ s.holds (volume id)) :
        x ∈ update s.holds v [] (volume id) := by
      rwa [update_of_ne hid]
    refine h.fewer rfl rfl (fun u hu => hu) (fun u hu x hx _ _ => ?_) (fun a ha => ?_)
    · exact hother u (fun hv => (hfit u hv).1 hu) hx
    · obtain ⟨x, hx, hsession⟩ := h.attempted a ha
      exact ⟨x, hother a.1 (fun hv => (hfit a.1 hv).2 a.2 ha) hx, hsession⟩
  | stopBackups =>
    cases hstep
    exact h.fewer rfl rfl (fun u hu => hu.imp_right (Or.imp_right (by rintro ⟨_, ⟨⟩⟩)))
      (fun _ _ _ hmem _ _ => hmem) (by rintro _ ⟨⟩)
  | beginCopies unread volumes =>
    obtain ⟨c, hc, rfl⟩ := map_eq_some_iff.mp hstep
    refine h.copiesStep (keeps_beginPass (fun v hv => ?_) hfit.1 hfit.2 hc)
    obtain ⟨id, rfl, hid⟩ := hv
    obtain ⟨x, hx, _, hcounts⟩ := h.held id hid
    exact any_eq_true.mpr ⟨x, hx, hcounts⟩
  | visit wanted noticed cleaned =>
    obtain ⟨c, hc, rfl⟩ := map_eq_some_iff.mp hstep
    cases (show noticed = true from hfit)
    exact h.copiesStep (h.copies.visit hc)
  | endCopies saved =>
    obtain ⟨c, hc, rfl⟩ := map_eq_some_iff.mp hstep
    cases (show saved = true from hfit)
    exact h.copiesStep (h.copies.endPass hc)
  | stopCopies =>
    cases hstep
    exact h.copiesStep (keeps_breakOff hfit)
  | copyEnds v =>
    obtain ⟨c, hc, rfl⟩ := map_eq_some_iff.mp hstep
    exact h.copiesStep (h.copies.copyEnds hc)
  | copyGone v =>
    cases hstep
    exact h.copiesStep (h.copies.copyGone v hfit)

/-- Nothing is browsed or restored, and the status tells of all copies. -/
structure Idle (s : State) : Prop where
  reader : ∀ id, s.reader id = false
  sessions : ∀ id, s.sessions id = none
  attempt : s.attempt = none
  pass : s.copies.pass = none
  told : ∀ v, Runs s.copies v → s.copies.told v = true

theorem Idle.kept (h : Idle s) : Kept volume s := by
  have hnot (id : Name) : ¬ Guards s id := by
    rintro (hread | ⟨x, hx, _⟩ | hattempt)
    · exact opposed hread (h.reader id)
    · exact absent (h.sessions id) hx
    · exact absent h.attempt hattempt
  refine ⟨fun id hid => absurd hid (hnot id), fun id hid => absurd hid (hnot id),
    fun a ha => absent h.attempt ha, fun _ => h.told,
    fun p hp => absent h.pass hp,
    fun p hp => absent h.pass hp⟩

end Guarding

def quiet : State :=
  ⟨0, fun _ => none, fun _ => false, fun _ => [], none, ⟨fun _ => none, fun _ => false, none⟩⟩

end FilePool.BrowseHolds
