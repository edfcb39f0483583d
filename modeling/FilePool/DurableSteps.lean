import Mathlib.Logic.Relation
import Mathlib.Data.Nat.Notation

/-!
Programs over a device that keeps its state when the program is stopped. A
program reads the state and performs durable steps one after another. It can
be stopped before any step, and inside a step that is not atomic, which then
leaves one of the torn states the device names. The steps of a program from a
given state are a finite list, so a program is its list of steps and its
result, both computed from the state it starts in.
-/
namespace FilePool.DurableSteps

open List

structure Device (σ τ : Type) where
  apply : τ → σ → σ
  Torn : τ → σ → σ → Prop

variable {σ τ ε α β : Type} {x : Except ε α}

theorem except_bind_ok {f : α → Except ε β} {b : β} :
    (x >>= f) = .ok b ↔ ∃ a, x = .ok a ∧ f a = .ok b := by
  cases x with
  | error e => simp [bind, Except.bind]
  | ok a => simp [bind, Except.bind]

theorem except_unless_ok {c : Prop} [Decidable c] {e : ε} {a : α} :
    (if c then .error e else x) = .ok a ↔ ¬ c ∧ x = .ok a := by
  by_cases h : c <;> simp [h]

namespace Device

variable (D : Device σ τ)

def applyAll (ts : List τ) (s : σ) : σ := ts.foldl (fun s t => D.apply t s) s

/-- The states that a stop somewhere in a list of steps can leave. -/
def StoppedIn : List τ → σ → σ → Prop
  | [], s, s' => s' = s
  | t :: ts, s, s' => s' = s ∨ D.Torn t s s' ∨ StoppedIn ts (D.apply t s) s'

@[simp] theorem applyAll_nil (s : σ) : D.applyAll [] s = s := rfl

@[simp] theorem applyAll_cons (t : τ) (ts : List τ) (s : σ) :
    D.applyAll (t :: ts) s = D.applyAll ts (D.apply t s) := rfl

theorem applyAll_append (l m : List τ) (s : σ) :
    D.applyAll (l ++ m) s = D.applyAll m (D.applyAll l s) := by
  simp [applyAll]

@[simp] theorem stoppedIn_nil (s s' : σ) : D.StoppedIn [] s s' ↔ s' = s := Iff.rfl

theorem stoppedIn_cons (t : τ) (ts : List τ) (s s' : σ) :
    D.StoppedIn (t :: ts) s s' ↔
      s' = s ∨ D.Torn t s s' ∨ D.StoppedIn ts (D.apply t s) s' := Iff.rfl

theorem stoppedIn_start (ts : List τ) (s : σ) : D.StoppedIn ts s s := by
  cases ts with
  | nil => rfl
  | cons t ts => exact .inl rfl

theorem stoppedIn_append (l m : List τ) (s s' : σ) :
    D.StoppedIn (l ++ m) s s' ↔
      D.StoppedIn l s s' ∨ D.StoppedIn m (D.applyAll l s) s' := by
  induction l generalizing s with
  | nil =>
    constructor
    · exact .inr
    · rintro (h | h)
      · subst h
        exact D.stoppedIn_start m s'
      · exact h
  | cons t ts ih =>
    simp only [cons_append, stoppedIn_cons, ih, applyAll_cons, or_assoc]

theorem stoppedIn_end (ts : List τ) (s : σ) : D.StoppedIn ts s (D.applyAll ts s) := by
  have h := (D.stoppedIn_append ts [] s (D.applyAll ts s)).mpr (.inr rfl)
  simpa using h

theorem stoppedIn_take (ts : List τ) (k : ℕ) (s : σ) :
    D.StoppedIn ts s (D.applyAll (ts.take k) s) := by
  have h := (D.stoppedIn_append (ts.take k) (ts.drop k) s _).mpr
    (.inl (D.stoppedIn_end (ts.take k) s))
  rwa [take_append_drop] at h

/-- What every step and every torn step keeps, a stop anywhere keeps. -/
theorem stoppedIn_invariant (I : σ → Prop) (ts : List τ) (s s' : σ) (hs : I s)
    (happly : ∀ t ∈ ts, ∀ x, I x → I (D.apply t x))
    (htorn : ∀ t ∈ ts, ∀ x y, I x → D.Torn t x y → I y)
    (h : D.StoppedIn ts s s') : I s' := by
  induction ts generalizing s with
  | nil =>
    exact h ▸ hs
  | cons t ts ih =>
    rcases (D.stoppedIn_cons t ts s s').mp h with h | h | h
    · exact h ▸ hs
    · exact htorn t (mem_cons_self ..) s s' hs h
    · exact ih (D.apply t s) (happly t (mem_cons_self ..) s hs)
        (fun u hu => happly u (mem_cons_of_mem t hu))
        (fun u hu => htorn u (mem_cons_of_mem t hu)) h

end Device

/-- A program: the steps it performs from a state, and how it ends there. -/
def Prog (_D : Device σ τ) (ε α : Type) : Type := σ → List τ × Except ε α

namespace Prog

variable {D : Device σ τ}

def steps (p : Prog D ε α) (s : σ) : List τ := (p s).1

def result (p : Prog D ε α) (s : σ) : Except ε α := (p s).2

/-- The state after a program that was not stopped. -/
def exec (p : Prog D ε α) (s : σ) : σ := D.applyAll (p.steps s) s

/-- The states that a stopped run of the program can leave. -/
def Stopped (p : Prog D ε α) (s s' : σ) : Prop := D.StoppedIn (p.steps s) s s'

protected def pure (a : α) : Prog D ε α := fun _ => ([], .ok a)

protected def bind (p : Prog D ε α) (f : α → Prog D ε β) : Prog D ε β := fun s =>
  match p s with
  | (ts, .ok a) => (ts ++ (f a (D.applyAll ts s)).1, (f a (D.applyAll ts s)).2)
  | (ts, .error e) => (ts, .error e)

instance : Monad (Prog D ε) where
  pure := Prog.pure
  bind := Prog.bind

/-- Look at the state; a refusal ends the program. -/
def inspect (f : σ → Except ε α) : Prog D ε α := fun s => ([], f s)

def perform (t : τ) : Prog D ε Unit := fun _ => ([t], .ok ())

def fail (e : ε) : Prog D ε α := fun _ => ([], .error e)

/-- Run a program for its steps and hand on how it ended. -/
def attempt (p : Prog D ε α) : Prog D ε (Except ε α) := fun s => (p.steps s, .ok (p.result s))

@[simp] theorem steps_pure (a : α) (s : σ) :
    (pure a : Prog D ε α).steps s = [] := rfl

@[simp] theorem result_pure (a : α) (s : σ) :
    (pure a : Prog D ε α).result s = .ok a := rfl

@[simp] theorem exec_pure (a : α) (s : σ) : (pure a : Prog D ε α).exec s = s := rfl

@[simp] theorem steps_inspect (f : σ → Except ε α) (s : σ) :
    (inspect f : Prog D ε α).steps s = [] := rfl

@[simp] theorem result_inspect (f : σ → Except ε α) (s : σ) :
    (inspect f : Prog D ε α).result s = f s := rfl

@[simp] theorem exec_inspect (f : σ → Except ε α) (s : σ) :
    (inspect f : Prog D ε α).exec s = s := rfl

@[simp] theorem steps_perform (t : τ) (s : σ) :
    (perform t : Prog D ε Unit).steps s = [t] := rfl

@[simp] theorem result_perform (t : τ) (s : σ) :
    (perform t : Prog D ε Unit).result s = .ok () := rfl

@[simp] theorem exec_perform (t : τ) (s : σ) :
    (perform t : Prog D ε Unit).exec s = D.apply t s := rfl

@[simp] theorem steps_fail (e : ε) (s : σ) : (fail e : Prog D ε α).steps s = [] := rfl

@[simp] theorem result_fail (e : ε) (s : σ) :
    (fail e : Prog D ε α).result s = .error e := rfl

@[simp] theorem exec_fail (e : ε) (s : σ) : (fail e : Prog D ε α).exec s = s := rfl

@[simp] theorem steps_attempt (p : Prog D ε α) (s : σ) :
    p.attempt.steps s = p.steps s := rfl

@[simp] theorem result_attempt (p : Prog D ε α) (s : σ) :
    p.attempt.result s = .ok (p.result s) := rfl

@[simp] theorem exec_attempt (p : Prog D ε α) (s : σ) : p.attempt.exec s = p.exec s := rfl

variable (p : Prog D ε α) (f : α → Prog D ε β) (s : σ) {a : α} {e : ε}

theorem bind_ok (h : p.result s = .ok a) :
    (p >>= f) s = (p.steps s ++ (f a).steps (p.exec s), (f a).result (p.exec s)) := by
  change Prog.bind p f s = _
  unfold Prog.bind
  unfold result at h
  rcases hp : p s with ⟨ts, r⟩
  rw [hp] at h
  simp only at h
  subst h
  simp only [steps, result, exec, hp]

theorem bind_error (h : p.result s = .error e) :
    (p >>= f) s = (p.steps s, .error e) := by
  change Prog.bind p f s = _
  unfold Prog.bind
  unfold result at h
  rcases hp : p s with ⟨ts, r⟩
  rw [hp] at h
  simp only at h
  subst h
  simp only [steps, hp]

theorem bind_eq {ts : List τ} (h : p s = (ts, .ok a)) :
    (p >>= f) s = (ts ++ (f a (D.applyAll ts s)).1, (f a (D.applyAll ts s)).2) := by
  change Prog.bind p f s = _
  unfold Prog.bind
  simp only [h]

theorem bind_look (h : p s = ([], .ok a)) : (p >>= f) s = f a s := by
  change Prog.bind p f s = _
  unfold Prog.bind
  simp only [h, Device.applyAll_nil, nil_append]

theorem steps_bind_ok (h : p.result s = .ok a) :
    (p >>= f).steps s = p.steps s ++ (f a).steps (p.exec s) :=
  congrArg Prod.fst (bind_ok p f s h)

theorem result_bind_ok (h : p.result s = .ok a) :
    (p >>= f).result s = (f a).result (p.exec s) := by
  change ((p >>= f) s).2 = _
  rw [bind_ok p f s h]

theorem result_bind :
    (p >>= f).result s = (p.result s >>= fun a => (f a).result (p.exec s)) := by
  cases hr : p.result s with
  | error e =>
    change ((p >>= f) s).2 = _
    rw [bind_error p f s hr]
    rfl
  | ok a =>
    rw [result_bind_ok p f s hr]
    rfl

theorem exec_bind_ok (h : p.result s = .ok a) :
    (p >>= f).exec s = (f a).exec (p.exec s) := by
  unfold exec
  rw [steps_bind_ok p f s h, D.applyAll_append]
  rfl

theorem steps_bind_error (h : p.result s = .error e) :
    (p >>= f).steps s = p.steps s :=
  congrArg Prod.fst (bind_error p f s h)

theorem result_bind_error (h : p.result s = .error e) :
    (p >>= f).result s = .error e :=
  congrArg Prod.snd (bind_error p f s h)

theorem stopped_bind_ok (h : p.result s = .ok a) (s' : σ) :
    (p >>= f).Stopped s s' ↔ p.Stopped s s' ∨ (f a).Stopped (p.exec s) s' := by
  unfold Stopped
  rw [steps_bind_ok p f s h, D.stoppedIn_append]
  rfl

theorem stopped_bind_error (h : p.result s = .error e) (s' : σ) :
    (p >>= f).Stopped s s' ↔ p.Stopped s s' := by
  unfold Stopped
  rw [steps_bind_error p f s h]

theorem steps_bind_pure (x : β) : (p >>= fun _ => (pure x : Prog D ε β)).steps s = p.steps s := by
  cases hr : p.result s with
  | error e => exact steps_bind_error p _ s hr
  | ok a => rw [steps_bind_ok p _ s hr, steps_pure, append_nil]

theorem stopped_exec : p.Stopped s (p.exec s) := D.stoppedIn_end (p.steps s) s

/-- From every state that meets P, a stop on the way leaves a state that meets
C, and a program that ends well leaves one that meets Q of its value. -/
def Safe (P : σ → Prop) (p : Prog D ε α) (Q : α → σ → Prop) (C : σ → Prop) : Prop :=
  ∀ s, P s → (∀ a, p.result s = .ok a → Q a (p.exec s)) ∧ ∀ s', p.Stopped s s' → C s'

section Rules

variable {P P' C C' : σ → Prop} {Q Q' : α → σ → Prop} {R : β → σ → Prop}

theorem safe_inspect (f : σ → Except ε α)
    (h : ∀ s, P s → C s ∧ ∀ a, f s = .ok a → Q a s) :
    Safe P (inspect f : Prog D ε α) Q C := by
  intro s hs
  refine ⟨(h s hs).2, ?_⟩
  intro s' hstop
  have heq : s' = s := hstop
  exact heq ▸ (h s hs).1

theorem safe_pure (a : α) (h : ∀ s, P s → C s ∧ Q a s) :
    Safe P (pure a : Prog D ε α) Q C := by
  apply safe_inspect (fun _ => .ok a)
  intro s hs
  refine ⟨(h s hs).1, ?_⟩
  intro b hb
  cases Except.ok.inj hb
  exact (h s hs).2

theorem safe_fail {e : ε} (h : ∀ s, P s → C s) : Safe P (fail e : Prog D ε α) Q C := by
  apply safe_inspect (fun _ => .error e)
  intro s hs
  refine ⟨h s hs, ?_⟩
  intro a ha
  cases ha

theorem safe_perform (t : τ) {Q : Unit → σ → Prop} (hstart : ∀ s, P s → C s)
    (hend : ∀ s, P s → C (D.apply t s) ∧ Q () (D.apply t s))
    (htorn : ∀ s s', P s → D.Torn t s s' → C s') :
    Safe P (perform t : Prog D ε Unit) Q C := by
  intro s hs
  refine ⟨fun _ _ => (hend s hs).2, ?_⟩
  intro s' hstop
  rcases (D.stoppedIn_cons t [] s s').mp hstop with heq | htear | heq
  · exact heq ▸ hstart s hs
  · exact htorn s s' hs htear
  · exact heq ▸ (hend s hs).1

theorem safe_atomic (t : τ) {Q : Unit → σ → Prop} (ht : ∀ s s', ¬ D.Torn t s s')
    (hstart : ∀ s, P s → C s) (hend : ∀ s, P s → C (D.apply t s) ∧ Q () (D.apply t s)) :
    Safe P (perform t : Prog D ε Unit) Q C :=
  safe_perform t hstart hend (fun s s' _ htear => absurd htear (ht s s'))

theorem safe_bind {p : Prog D ε α} {f : α → Prog D ε β} (hp : Safe P p Q C)
    (hf : ∀ a, Safe (fun s => C s ∧ Q a s) (f a) R C) : Safe P (p >>= f) R C := by
  intro s hs
  obtain ⟨hend, hstop⟩ := hp s hs
  cases hr : p.result s with
  | error e =>
    refine ⟨?_, fun s' h => hstop s' ((stopped_bind_error p f s hr s').mp h)⟩
    intro b hb
    rw [result_bind_error p f s hr] at hb
    cases hb
  | ok a =>
    obtain ⟨hend', hstop'⟩ := hf a (p.exec s) ⟨hstop _ (stopped_exec p s), hend a hr⟩
    rw [result_bind_ok p f s hr, exec_bind_ok p f s hr]
    refine ⟨hend', ?_⟩
    intro s' h
    rcases (stopped_bind_ok p f s hr s').mp h with h | h
    · exact hstop s' h
    · exact hstop' s' h

theorem safe_weaken {p : Prog D ε α} (hp : Safe P p Q C) (hP : ∀ s, P' s → P s)
    (hQ : ∀ a s, Q a s → Q' a s) (hC : ∀ s, C s → C' s) : Safe P' p Q' C' := by
  intro s hs
  obtain ⟨hend, hstop⟩ := hp s (hP s hs)
  exact ⟨fun a ha => hQ a _ (hend a ha), fun s' h => hC s' (hstop s' h)⟩

theorem safe_from {p : Prog D ε α} (hp : Safe P p Q C) (hP : ∀ s, P' s → P s) :
    Safe P' p Q C :=
  fun s hs => hp s (hP s hs)

theorem safe_stops {p : Prog D ε α} (hp : Safe P p Q C) (hC : ∀ s, C s → C' s) : Safe P p Q C' :=
  safe_weaken hp (fun _ h => h) (fun _ _ h => h) hC

theorem safe_attempt {p : Prog D ε α} (hp : Safe P p Q C) :
    Safe P p.attempt (fun r s => C s ∧ ∀ a, r = .ok a → Q a s) C := by
  intro s hs
  obtain ⟨hend, hstop⟩ := hp s hs
  refine ⟨?_, hstop⟩
  intro r hr
  cases hr
  exact ⟨hstop _ (stopped_exec p s), hend⟩

/-- A program may be looked at from one state at a time. -/
theorem safe_of_state {p : Prog D ε α}
    (h : ∀ s, P s → Safe (fun x => x = s) p Q C) : Safe P p Q C :=
  fun s hs => h s hs s rfl

end Rules

/-- The program performs only steps of one kind. -/
def Only (K : τ → Prop) (p : Prog D ε α) : Prop := ∀ s, ∀ t ∈ p.steps s, K t

section Frames

variable {K : τ → Prop}

theorem only_pure (a : α) : Only K (pure a : Prog D ε α) := fun _ t ht => by simp at ht

theorem only_inspect (f : σ → Except ε α) : Only K (inspect f : Prog D ε α) :=
  fun _ t ht => by simp at ht

theorem only_fail (e : ε) : Only K (fail e : Prog D ε α) := fun _ t ht => by simp at ht

theorem only_perform (t : τ) (h : K t) : Only K (perform t : Prog D ε Unit) := by
  intro s t' ht'
  rw [steps_perform, mem_singleton] at ht'
  exact ht' ▸ h

theorem only_ite {c : Prop} [Decidable c] {p q : Prog D ε α} (hp : Only K p) (hq : Only K q) :
    Only K (if c then p else q) := by
  split
  · exact hp
  · exact hq

theorem only_bind {p : Prog D ε α} {f : α → Prog D ε β} (hp : Only K p)
    (hf : ∀ a, Only K (f a)) : Only K (p >>= f) := by
  intro s t ht
  cases hres : p.result s with
  | error e =>
    rw [steps_bind_error p f s hres] at ht
    exact hp s t ht
  | ok a =>
    rw [steps_bind_ok p f s hres] at ht
    rcases mem_append.mp ht with h | h
    · exact hp s t h
    · exact hf a _ t h

theorem only_map {p : Prog D ε α} {f : α → β} (hp : Only K p) :
    Only K (p >>= fun a => pure (f a)) := only_bind hp (fun _ => only_pure _)

theorem only_weaken {K' : τ → Prop} {p : Prog D ε α} (h : Only K p) (hK : ∀ t, K t → K' t) :
    Only K' p :=
  fun s t ht => hK t (h s t ht)

/-- What every step of the kind keeps, whole or torn, every stop keeps. -/
theorem stopped_of_only {p : Prog D ε α} (h : Only K p) (I : σ → Prop)
    (happly : ∀ t, K t → ∀ x, I x → I (D.apply t x))
    (htorn : ∀ t, K t → ∀ x y, I x → D.Torn t x y → I y) (s s' : σ) (hs : I s)
    (hstop : p.Stopped s s') : I s' :=
  D.stoppedIn_invariant I (p.steps s) s s' hs (fun t ht => happly t (h s t ht))
    (fun t ht => htorn t (h s t ht)) hstop

end Frames

end Prog

end FilePool.DurableSteps
