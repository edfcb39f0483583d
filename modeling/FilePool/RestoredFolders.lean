import FilePool.StepRuns
import FilePool.UndoNames

/-!
The folder that a file restore makes in an existing claim. The Job writes into a hidden folder
and moves it to a free name at the end. The controller reads the outcome of an ended Job,
removes the Job, and then saves the end of the restore.
-/
namespace FilePool.RestoredFolders

open UndoNames StepRuns

/-- The names that Commit tries from number i on: the given one, then with -2, -3 and so on. -/
def freeName (base : Name) (taken : List Name) : ℕ → ℕ → Option Name
  | 0, _ => none
  | fuel + 1, i =>
    let name := if i = 1 then base else base ++ '-' :: Nat.toDigits 10 i
    if name ∈ taken then freeName base taken fuel (i + 1) else some name

def commitName (base : Name) (taken : List Name) : Option Name := freeName base taken 9999 1

inductive Phase
  | waiting
  | restoring
  | done
  | failed
  deriving DecidableEq, Repr

def Phase.ended : Phase → Bool
  | .done => true
  | .failed => true
  | _ => false

/-- The termination message of a Job: the folder it made, and whether it gives a reason why the
restore cannot go on. -/
structure Outcome where
  folder : Option Name
  error : Bool
  deriving DecidableEq, Repr

/-- A Job: while it runs it has moved its folder to a name or not. -/
inductive Job
  | running (moved : Option Name)
  | succeeded (o : Outcome)
  | failed
  deriving DecidableEq, Repr

/-- What is to be saved for a Job that ended. -/
inductive Ending
  | done (folder : Option Name)
  | failed
  deriving DecidableEq, Repr

/-- One restore. The folders that its Jobs have put into the claim are kept for the account; the
names in the claim change as its users like. -/
structure State where
  guest : Bool
  phase : Phase
  folder : Option Name
  job : Option Job
  hand : Option Ending
  claim : List Name
  made : List Name
  deriving DecidableEq, Repr

inductive JobEnd
  | done
  | refused
  | failed
  deriving DecidableEq, Repr

inductive Event
  | ask (message cleaned saved : Bool)
  | save (ok : Bool)
  | giveUp (saved : Bool)
  | stop
  | moves (base : Name)
  | killed
  | ends (e : JobEnd)
  | jobGone
  | claimChanges (names : List Name)

/-- The end of a restore whose Job succeeded. A lost message fails the restore of a VM disk; for
the others the files are taken as written, and the folder is not known. -/
def endingOf (guest message : Bool) (o : Outcome) : Ending :=
  if message then if o.error then .failed else .done o.folder
  else if guest then .failed else .done none

/-- fileRestoreIntoClaim comes to its Job: the Job is started, or is found at work, or has ended
and is removed after its outcome was read. -/
def ask (message cleaned saved : Bool) (s : State) : Option State :=
  if s.phase.ended || s.hand.isSome then none
  else
    let phase := if saved then .restoring else s.phase
    let left := if cleaned then none else s.job
    match s.job with
    | none => some { s with job := some (.running none), phase := phase }
    | some (.running _) => some { s with phase := phase }
    | some .failed => some { s with job := left, hand := some .failed }
    | some (.succeeded o) => some { s with job := left, hand := some (endingOf s.guest message o) }

/-- finishFileRestore and failFileRestore write the end of the restore. -/
def save (ok : Bool) (s : State) : Option State :=
  match s.hand with
  | none => none
  | some e =>
    if ok then
      match e with
      | .done folder => some { s with hand := none, phase := .done, folder := folder }
      | .failed => some { s with hand := none, phase := .failed }
    else some { s with hand := none }

def moves (base : Name) (s : State) : Option State :=
  match s.job with
  | some (.running none) =>
    (commitName base s.claim).map fun name =>
      { s with
        job := some (.running (some name))
        claim := name :: s.claim
        made := name :: s.made }
  | _ => none

/-- A Job succeeds with its folder in place, succeeds with a reason why not, or fails. -/
def ends (e : JobEnd) (s : State) : Option State :=
  match s.job, e with
  | some (.running (some name)), .done =>
    some { s with job := some (.succeeded ⟨some name, false⟩) }
  | some (.running moved), .refused => some { s with job := some (.succeeded ⟨moved, true⟩) }
  | some (.running _), .failed => some { s with job := some .failed }
  | _, _ => none

def step (s : State) : Event → Option State
  | .ask message cleaned saved => ask message cleaned saved s
  | .save ok => save ok s
  -- the restore is failed before the controller comes to its Job
  | .giveUp saved =>
    if s.phase.ended || s.hand.isSome then none
    else some (if saved then { s with phase := .failed } else s)
  | .stop => some { s with hand := none }
  | .moves base => moves base s
  -- the container is killed and started again; it writes the hidden folder anew
  | .killed =>
    match s.job with
    | some (.running _) => some { s with job := some (.running none) }
    | _ => none
  | .ends e => ends e s
  | .jobGone => some { s with job := none }
  | .claimChanges names => some { s with claim := names }

structure Kept (s : State) : Prop where
  one : s.made.length ≤ 1
  running : ∀ moved, s.job = some (.running moved) → s.made = moved.toList
  succeeded : ∀ o, s.job = some (.succeeded o) → o.error = false →
    ∃ n, o.folder = some n ∧ s.made = [n]
  hand : ∀ f, s.hand = some (.done f) → ∃ n, f = some n ∧ s.made = [n]
  gone : s.job = none → s.hand = none → s.phase.ended = true ∨ s.made = []
  done : s.phase = .done → ∃ n, s.folder = some n ∧ s.made = [n]

/-- No folder was made yet, or a Job of the restore is still there. -/
def Covered (s : State) : Prop := s.job.isSome ∨ s.made = []

/-- The message of an ended Job is read; once the Job of a restore that has made its folder is
removed, the end of the restore is saved before the controller stops; a Job's container is not
killed between the move of the folder and its end; and the Job is not removed by others before
its outcome was read. -/
def Fitting (s : State) : Event → Prop
  | .ask message _ _ => message = true
  | .save ok => ok = true ∨ Covered s
  | .stop => s.hand = none ∨ Covered s
  | .killed => s.job = some (.running none)
  | .jobGone => s.made = [] ∨ s.phase.ended = true ∨ s.hand.isSome
  | _ => True

instance (s : State) : Decidable (Covered s) := inferInstanceAs (Decidable (_ ∨ _))

instance (s : State) (e : Event) : Decidable (Fitting s e) :=
  match e with
  | .ask .. | .killed => inferInstanceAs (Decidable (_ = _))
  | .save _ | .stop | .jobGone => inferInstanceAs (Decidable (_ ∨ _))
  | .giveUp _ | .moves _ | .ends _ | .claimChanges _ => inferInstanceAs (Decidable True)

variable {s s' : State}

theorem Kept.ask_job (hs : Kept s) (cleaned saved : Bool) (h : ask true cleaned saved s = some s') :
    Kept s' := by
  obtain ⟨hopen, h⟩ := Option.ite_none_left_eq_some.mp h
  simp only [Bool.or_eq_true, not_or, Bool.not_eq_true] at hopen
  obtain ⟨hphase, hhand⟩ := hopen
  have hnone : s.hand = none := by simpa using hhand
  have hphase' : (if saved then Phase.restoring else s.phase) ≠ .done := by
    split
    · nofun
    · intro hdone
      rw [hdone] at hphase
      cases hphase
  -- a Job that is left after the end was there before
  have hleft {j : Job} (hj : (if cleaned then none else s.job) = some j) : s.job = some j :=
    (Option.ite_none_left_eq_some.mp hj).2
  dsimp only at h
  split at h
  · rename_i hjob
    cases h
    have hmade : s.made = [] := by
      rcases hs.gone hjob hnone with hended | hmade
      · exact opposed hended hphase
      · exact hmade
    refine ⟨hs.one, ?_, nofun, hs.hand, nofun, fun hdone => absurd hdone hphase'⟩
    rintro moved ⟨⟩
    exact hmade
  · rename_i hjob
    cases h
    exact { hs with
      gone := fun hgone => absent hgone hjob,
      done := fun hdone => absurd hdone hphase' }
  · cases h
    exact ⟨hs.one, fun moved hj => hs.running moved (hleft hj),
      fun o hj => hs.succeeded o (hleft hj), nofun, nofun, hs.done⟩
  · rename_i o hjob
    cases h
    refine ⟨hs.one, fun moved hj => hs.running moved (hleft hj),
      fun o' hj => hs.succeeded o' (hleft hj), ?_, nofun, hs.done⟩
    intro f hf
    have hf : endingOf s.guest true o = .done f := Option.some.inj hf
    unfold endingOf at hf
    rw [if_pos rfl] at hf
    split at hf
    · cases hf
    · rename_i herror
      cases hf
      exact hs.succeeded o hjob (by simpa using herror)

theorem Kept.save_end (hs : Kept s) (ok : Bool) (hfit : ok = true ∨ Covered s)
    (h : save ok s = some s') : Kept s' := by
  unfold save at h
  split at h
  · cases h
  · rename_i e hhand
    split at h
    · split at h
      · cases h
        exact ⟨hs.one, hs.running, hs.succeeded, nofun, fun _ _ => .inl rfl,
          fun _ => hs.hand _ hhand⟩
      · cases h
        exact ⟨hs.one, hs.running, hs.succeeded, nofun, fun _ _ => .inl rfl, nofun⟩
    · rename_i hok
      cases h
      refine { hs with hand := nofun, gone := fun hgone _ => ?_ }
      rcases hfit.resolve_left hok with hjob | hmade
      · rw [show s.job = none from hgone] at hjob
        cases hjob
      · exact .inr hmade

theorem Kept.move_folder (hs : Kept s) (base : Name) (h : moves base s = some s') : Kept s' := by
  unfold moves at h
  split at h
  · rename_i hjob
    obtain ⟨name, -, rfl⟩ := Option.map_eq_some_iff.mp h
    have hmade : s.made = [] := hs.running none hjob
    refine ⟨by simp [hmade], ?_, nofun, ?_, nofun, ?_⟩
    · simp [hmade]
    · intro f hf
      obtain ⟨n, -, hn⟩ := hs.hand f hf
      cases hmade.symm.trans hn
    · intro hdone
      obtain ⟨n, -, hn⟩ := hs.done hdone
      cases hmade.symm.trans hn
  · cases h

theorem Kept.end_job (hs : Kept s) (e : JobEnd) (h : ends e s = some s') : Kept s' := by
  unfold ends at h
  split at h
  · rename_i name hjob
    cases h
    refine ⟨hs.one, nofun, ?_, hs.hand, nofun, hs.done⟩
    rintro o ⟨⟩ -
    exact ⟨name, rfl, hs.running (some name) hjob⟩
  · cases h
    refine ⟨hs.one, nofun, ?_, hs.hand, nofun, hs.done⟩
    rintro o ⟨⟩ herror
    cases herror
  · cases h
    exact ⟨hs.one, nofun, nofun, hs.hand, nofun, hs.done⟩
  · cases h

theorem step_kept (s : State) (e : Event) (s' : State) (hfit : Fitting s e) (hs : Kept s)
    (h : step s e = some s') : Kept s' := by
  cases e with
  | ask message cleaned saved =>
    obtain rfl : message = true := hfit
    exact hs.ask_job cleaned saved h
  | save ok => exact hs.save_end ok hfit h
  | giveUp saved =>
    obtain ⟨-, rfl⟩ := unless_some h
    split
    · exact { hs with gone := fun _ _ => .inl rfl, done := nofun }
    · exact hs
  | stop =>
    cases h
    refine { hs with hand := nofun, gone := fun hgone _ => ?_ }
    rcases hfit with hnone | hjob | hmade
    · exact hs.gone hgone hnone
    · rw [show s.job = none from hgone] at hjob
      cases hjob
    · exact .inr hmade
  | moves base => exact hs.move_folder base h
  | killed =>
    have hjob : s.job = some (.running none) := hfit
    simp only [step, hjob] at h
    cases h
    refine ⟨hs.one, ?_, nofun, hs.hand, nofun, hs.done⟩
    rintro moved ⟨⟩
    exact hs.running none hjob
  | ends e => exact hs.end_job e h
  | jobGone =>
    cases h
    refine ⟨hs.one, nofun, nofun, hs.hand, fun _ hnone => ?_, hs.done⟩
    rcases hfit with hmade | hended | hhand
    · exact .inr hmade
    · exact .inl hended
    · rw [show s.hand = none from hnone] at hhand
      cases hhand
  | claimChanges names =>
    cases h
    exact { hs with }

/-- A restore as it is created, into a claim with any names. -/
def new (guest : Bool) (claim : List Name) : State := ⟨guest, .waiting, none, none, none, claim, []⟩

theorem new_kept {guest : Bool} {claim : List Name} : Kept (new guest claim) :=
  ⟨Nat.zero_le _, nofun, nofun, nofun, fun _ _ => .inr rfl, nofun⟩

/-- In every run of fitting steps at most one new folder appears, and a restore that is Done has
made exactly the folder that its status names. -/
theorem restore_makes_one_folder (guest : Bool) (claim : List Name) (s : State)
    (hrun : Run step Fitting (new guest claim) s) :
    s.made.length ≤ 1 ∧ (s.phase = .done → ∃ n, s.folder = some n ∧ s.made = [n]) := by
  have hkept : Kept s := hrun.keeps step_kept new_kept
  exact ⟨hkept.one, hkept.done⟩

def base : Name := "restored-p-latest".toList

/-- The Job has made its folder and is removed; the save of the end fails, so the next pass
starts the Job again. -/
def saveFails : List Event :=
  [.ask true true true, .moves base, .ends .done, .ask true true true, .save false,
   .ask true true true, .moves base, .ends .done, .ask true true true, .save true]

theorem failed_save_makes_second_folder :
    ∃ s, Run step (fun _ _ => True) (new false []) s ∧ s.phase = .done ∧
      s.made = [base ++ "-2".toList, base] :=
  free_run saveFails (new false []) (by decide +kernel)

/-- Stops and failed saves that leave the Job, and a container killed before the move. -/
def savesInTime : List Event :=
  [.ask true true false, .stop, .killed, .ask true true true, .moves base, .ends .done,
   .ask true false true, .save false, .ask true true true, .save true]

theorem one_folder_after_failed_saves :
    ∃ s : State, s.phase = .done ∧ s.made.length ≤ 1 ∧ ∃ n, s.folder = some n ∧ s.made = [n] := by
  have hany : (steps step (fun s e => decide (Fitting s e)) savesInTime (new false [])).any
      (fun s => decide (s.phase = .done)) = true := by decide +kernel
  obtain ⟨s, hs, htest⟩ := (Option.any_eq_true _ _).mp hany
  have hdone := of_decide_eq_true htest
  obtain ⟨hone, hfolder⟩ := restore_makes_one_folder false [] s
    (run_steps (fun _ _ => of_decide_eq_true) _ _ _ hs)
  exact ⟨s, hdone, hone, hfolder hdone⟩

end FilePool.RestoredFolders
