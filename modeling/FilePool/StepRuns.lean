import Mathlib.Logic.Function.Basic
import Mathlib.Tactic.Common

/-!
Runs of a step function. A step takes the state and what happens, and has no result when
that cannot happen. A run is a sequence of steps, each of which is allowed in the state it
is made in. The steps are functions, so a given run can be computed.
-/
namespace FilePool.StepRuns

open Function

variable {S A : Type} (step : S → A → Option S)

/-- The states reached by steps that are allowed. -/
inductive Run (allowed : S → A → Prop) (s : S) : S → Prop
  | start : Run allowed s s
  | next {s₁ s₂ : S} (a : A) (h : Run allowed s s₁) (ha : allowed s₁ a)
      (hs : step s₁ a = some s₂) : Run allowed s s₂

/-- A list of steps, each of which is checked before it is made. -/
def steps (ok : S → A → Bool) : List A → S → Option S
  | [], s => some s
  | a :: as, s => if ok s a then (step s a).bind (steps ok as) else none

variable {step} {allowed : S → A → Prop}

theorem Run.trans {s₁ s₂ s₃ : S} (h : Run step allowed s₁ s₂) (h' : Run step allowed s₂ s₃) :
    Run step allowed s₁ s₃ := by
  induction h' with
  | start => exact h
  | next a _ ha hs ih => exact .next a ih ha hs

theorem run_steps {ok : S → A → Bool} (hok : ∀ s a, ok s a = true → allowed s a) (as : List A)
    (s s' : S) (h : steps step ok as s = some s') : Run step allowed s s' := by
  induction as generalizing s with
  | nil =>
    cases h
    exact .start
  | cons a as ih =>
    unfold steps at h
    split at h
    · rename_i ha
      obtain ⟨s₁, hs, has⟩ := Option.bind_eq_some_iff.mp h
      exact Run.trans (.next a .start (hok s a ha) hs) (ih s₁ has)
    · cases h

theorem absent {α : Type} {o : Option α} {x : α} {p : Prop} (h : o = none) (h' : o = some x) : p :=
  absurd (h.symm.trans h') nofun

theorem opposed {b : Bool} {p : Prop} (h : b = true) (h' : b = false) : p :=
  absurd (h.symm.trans h') nofun

section Guards

variable {α : Type} {c : Prop} [Decidable c] {x y : α}

theorem unless_some (h : (if c then none else some x) = some y) : ¬c ∧ x = y :=
  (Option.ite_none_left_eq_some.mp h).imp_right Option.some.inj

theorem when_some (h : (if c then some x else none) = some y) : c ∧ x = y :=
  (Option.ite_none_right_eq_some.mp h).imp_right Option.some.inj

end Guards

section Computed

variable [∀ s a, Decidable (allowed s a)]

/-- A list of steps leads to a state with a property. -/
theorem free_run {Q : S → Prop} [DecidablePred Q] (as : List A) (s : S)
    (h : (steps step (fun s a => decide (allowed s a)) as s).any (fun s => decide (Q s)) = true) :
    ∃ s', Run step allowed s s' ∧ Q s' := by
  obtain ⟨s', hs, hQ⟩ := (Option.any_eq_true _ _).mp h
  exact ⟨s', run_steps (fun _ _ => of_decide_eq_true) as s s' hs, of_decide_eq_true hQ⟩

/-- A list of steps leads to a state that has an entry with a property. -/
theorem free_run_some {V : Type} {f : S → Option V} {Q : S → V → Prop} [∀ s x, Decidable (Q s x)]
    (as : List A) (s : S) (h : (steps step (fun s a => decide (allowed s a)) as s).any
      (fun s => (f s).any fun x => decide (Q s x)) = true) :
    ∃ s' x, Run step allowed s s' ∧ f s' = some x ∧ Q s' x := by
  obtain ⟨s', hs, h⟩ := (Option.any_eq_true _ _).mp h
  obtain ⟨x, hx, hQ⟩ := (Option.any_eq_true _ _).mp h
  exact ⟨s', x, run_steps (fun _ _ => of_decide_eq_true) as s s' hs, hx, of_decide_eq_true hQ⟩

end Computed

/-- What every allowed step keeps holds in all states of a run. -/
theorem Run.keeps {I : S → Prop}
    (hkeep : ∀ s a s', allowed s a → I s → step s a = some s' → I s') {s s' : S}
    (hrun : Run step allowed s s') (hs : I s) : I s' := by
  induction hrun with
  | start => exact hs
  | next a _ ha hstep ih => exact hkeep _ a _ ha ih hstep

section Entries

variable {K V : Type} [DecidableEq K] {f : K → Option V} {n m : K} {x y : V}

theorem update_none_some (h : update f n none m = some x) : m ≠ n ∧ f m = some x := by
  by_cases hm : m = n
  · rw [hm, update_self] at h
    cases h
  · rw [update_of_ne hm] at h
    exact ⟨hm, h⟩

theorem update_some (h : update f n (some y) m = some x) :
    (m = n ∧ x = y) ∨ (m ≠ n ∧ f m = some x) := by
  by_cases hm : m = n
  · rw [hm, update_self] at h
    exact .inl ⟨hm, (Option.some.inj h).symm⟩
  · rw [update_of_ne hm] at h
    exact .inr ⟨hm, h⟩

theorem of_update {W : Type} {g : K → W} {w : W} {P : W → Prop} (h : P (update g n w m)) :
    (m = n ∧ P w) ∨ (m ≠ n ∧ P (g m)) := by
  by_cases hm : m = n
  · rw [hm, update_self] at h
    exact .inl ⟨hm, h⟩
  · rw [update_of_ne hm] at h
    exact .inr ⟨hm, h⟩

end Entries

end FilePool.StepRuns
