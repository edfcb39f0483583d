import Mathlib.Logic.Function.Basic
import Mathlib.Tactic.Common

/-!
Programs that run beside each other. A program asks its surroundings for one thing
after another and goes on with the answer, so it is a tree of questions. A protocol tells
which questions may be asked, from what the program has been answered so far. That a
program follows a protocol is proved once, without the other programs; what holds in all
their interleavings is then proved from the protocol alone.
-/
namespace FilePool.Threads

/-- A program that asks one question after another, or is done. -/
inductive Tree (Q : Type) (A : Q → Type) (α : Type) : Type
  | done (a : α)
  | ask (q : Q) (k : A q → Tree Q A α)

variable {Q : Type} {A : Q → Type} {ε α β L : Type}

def Tree.bind : Tree Q A α → (α → Tree Q A β) → Tree Q A β
  | .done a, f => f a
  | .ask q k, f => .ask q (fun a => (k a).bind f)

/-- A program that can fail. -/
def Proc (Q : Type) (A : Q → Type) (ε α : Type) : Type := Tree Q A (Except ε α)

namespace Proc

def bind (p : Proc Q A ε α) (f : α → Proc Q A ε β) : Proc Q A ε β :=
  Tree.bind p (fun r => match r with
    | .ok a => f a
    | .error e => .done (.error e))

instance : Monad (Proc Q A ε) where
  pure a := .done (.ok a)
  bind := bind

def fail (e : ε) : Proc Q A ε α := .done (.error e)

def query (q : Q) : Proc Q A ε (A q) := .ask q (fun a => .done (.ok a))

/-- The result of a program, a failure of it included. -/
def attempt (p : Proc Q A ε α) : Proc Q A ε (Except ε α) :=
  Tree.bind p (fun r => .done (.ok r))

/-- An answer that is a failure ends the program with the failure that is named. -/
def orFail {δ : Type} (e : δ → ε) (r : Except δ α) : Proc Q A ε α :=
  match r with
  | .ok a => .done (.ok a)
  | .error d => .done (.error (e d))

/-- The program without its result. -/
def forget (p : Proc Q A ε α) : Tree Q A Unit := Tree.bind p (fun _ => .done ())

/-- A step for each element of a list, with an accumulator. -/
def foldEach {γ : Type} (f : β → γ → Proc Q A ε β) : β → List γ → Proc Q A ε β
  | b, [] => pure b
  | b, x :: xs => do
    let b' ← f b x
    foldEach f b' xs

end Proc

/-- Every question that the program can ask is of a kind. -/
def Asks (S : Q → Prop) : Tree Q A α → Prop
  | .done _ => True
  | .ask q k => S q ∧ ∀ a, Asks S (k a)

variable {S S' : Q → Prop} {e : ε} {p : Proc Q A ε α} {c : Prop}

theorem asks_tree_bind {p : Tree Q A α} {f : α → Tree Q A β} (hp : Asks S p)
    (hf : ∀ a, Asks S (f a)) : Asks S (p.bind f) := by
  induction p with
  | done a => exact hf a
  | ask q k ih => exact ⟨hp.1, fun a => ih a (hp.2 a)⟩

theorem asks_mono {p : Tree Q A α} (hp : Asks S p) (h : ∀ q, S q → S' q) : Asks S' p := by
  induction p with
  | done a => trivial
  | ask q k ih => exact ⟨h q hp.1, fun a => ih a (hp.2 a)⟩

/-- As above, for a program that can fail. -/
def Proc.Asks (S : Q → Prop) (p : Proc Q A ε α) : Prop := Threads.Asks S p

theorem asks_pure {a : α} : (pure a : Proc Q A ε α).Asks S := trivial

theorem asks_fail : (Proc.fail e : Proc Q A ε α).Asks S := trivial

theorem asks_query {q : Q} (h : S q) : (Proc.query q : Proc Q A ε (A q)).Asks S :=
  ⟨h, fun _ => trivial⟩

theorem asks_bind {f : α → Proc Q A ε β} (hp : p.Asks S)
    (hf : ∀ a, (f a).Asks S) : (p >>= f).Asks S := by
  refine asks_tree_bind hp (fun r => ?_)
  cases r with
  | ok a => exact hf a
  | error e => trivial

theorem asks_ask {q : Q} {f : A q → Proc Q A ε β} (h : S q) (hf : ∀ a, (f a).Asks S) :
    ((Proc.query q : Proc Q A ε (A q)) >>= f).Asks S := asks_bind (asks_query h) hf

theorem asks_orFail {δ : Type} {e : δ → ε} {r : Except δ α} :
    (Proc.orFail e r : Proc Q A ε α).Asks S := by
  cases r with
  | ok a => trivial
  | error d => trivial

theorem asks_ite [Decidable c] {q : Proc Q A ε α} (hp : p.Asks S) (hq : q.Asks S) :
    (if c then p else q).Asks S := by
  split
  · exact hp
  · exact hq

/-- A question whose answer is handed on, or ends the procedure when it is an error. -/
theorem asks_call {q : Q} {δ : Type} {e : δ → ε} {r : A q → Except δ α} {f : α → Proc Q A ε β}
    (h : S q) (hf : ∀ a, (f a).Asks S) :
    ((Proc.query q : Proc Q A ε (A q)) >>= fun a => Proc.orFail e (r a) >>= f).Asks S :=
  asks_ask h (fun _ => asks_bind asks_orFail hf)

theorem asks_attempt (hp : p.Asks S) : p.attempt.Asks S :=
  asks_tree_bind hp (fun _ => trivial)

/-- A rule for programs, kept in a local state: which answers a question can get at all,
and how the local state may go on with a question and its answer. -/
structure Protocol (L Q : Type) (A : Q → Type) where
  answers : (q : Q) → A q → Prop
  step : L → (q : Q) → A q → L → Prop

section Following

variable (P : Protocol L Q A)

/-- The local state can go on with every question of the program, whatever the answers
are, and the program ends only as the postcondition tells. -/
def Follows : Tree Q A α → (α → L → Prop) → L → Prop
  | .done a, post, l => post a l
  | .ask q k, post, l => ∀ a, P.answers q a → ∃ l', P.step l q a l' ∧ Follows (k a) post l'

variable {P} {post post' : α → L → Prop} {l : L}

theorem follows_mono (p : Tree Q A α) (h : Follows P p post l)
    (hpost : ∀ a l, post a l → post' a l) : Follows P p post' l := by
  induction p generalizing l with
  | done a => exact hpost a l h
  | ask q k ih =>
    intro a ha
    obtain ⟨l', hstep, hk⟩ := h a ha
    exact ⟨l', hstep, ih a hk⟩

theorem follows_bind (p : Tree Q A α) (f : α → Tree Q A β) {post : β → L → Prop}
    (h : Follows P p (fun a l => Follows P (f a) post l) l) : Follows P (p.bind f) post l := by
  induction p generalizing l with
  | done a => exact h
  | ask q k ih =>
    intro a ha
    obtain ⟨l', hstep, hk⟩ := h a ha
    exact ⟨l', hstep, ih a hk⟩

/-- Questions that leave the local state as it is. -/
theorem follows_of_asks {S : Q → Prop} (hS : ∀ q, S q → ∀ l a, P.answers q a → P.step l q a l)
    {p : Tree Q A α} (h : Asks S p) : Follows P p (fun _ l' => l' = l) l := by
  induction p with
  | done a => exact rfl
  | ask q k ih => exact fun a ha => ⟨l, hS q h.1 l a ha, ih a (h.2 a)⟩

end Following

/-- The program follows the protocol, and it ends in the first postcondition or fails in
the second. -/
def Meets (P : Protocol L Q A) (p : Proc Q A ε α) (post : α → L → Prop) (err : L → Prop)
    (l : L) : Prop :=
  Follows P p (fun r l => match r with
    | .ok a => post a l
    | .error _ => err l) l

variable {P : Protocol L Q A} {post post' : α → L → Prop} {err err' : L → Prop} {l : L}

theorem meets_mono (h : Meets P p post err l)
    (hpost : ∀ a l, post a l → post' a l) (herr : ∀ l, err l → err' l) :
    Meets P p post' err' l := by
  refine follows_mono p h (fun r l' hr => ?_)
  cases r with
  | ok a => exact hpost a l' hr
  | error e => exact herr l' hr

theorem meets_pure (a : α) (h : post a l) : Meets P (pure a : Proc Q A ε α) post err l := h

theorem meets_fail (e : ε) (h : err l) : Meets P (Proc.fail e : Proc Q A ε α) post err l := h

/-- The program goes on unless the guard fails it. -/
theorem meets_unless [Decidable c] (herr : err l)
    (hp : ¬c → Meets P p post err l) : Meets P (if c then Proc.fail e else p) post err l := by
  split
  · exact meets_fail e herr
  · exact hp ‹_›

theorem meets_bind {f : α → Proc Q A ε β} {post : β → L → Prop}
    (h : Meets P p (fun a l => Meets P (f a) post err l) err l) :
    Meets P (p >>= f) post err l := by
  refine follows_bind p _ (follows_mono p h (fun r l' hr => ?_))
  cases r with
  | ok a => exact hr
  | error e => exact hr

/-- The rest of the program goes on from the postcondition of its beginning. -/
theorem meets_then {f : α → Proc Q A ε β} {mid : α → L → Prop}
    {post : β → L → Prop} (h : Meets P p mid err l)
    (hf : ∀ a l', mid a l' → Meets P (f a) post err l') : Meets P (p >>= f) post err l :=
  meets_bind (meets_mono h hf (fun _ he => he))

theorem meets_query (q : Q) {post : A q → L → Prop}
    (h : ∀ a, P.answers q a → ∃ l', P.step l q a l' ∧ post a l') :
    Meets P (Proc.query q : Proc Q A ε (A q)) post err l := h

theorem meets_ask {q : Q} {f : A q → Proc Q A ε β} {post : β → L → Prop}
    (h : ∀ a, P.answers q a → ∃ l', P.step l q a l' ∧ Meets P (f a) post err l') :
    Meets P ((Proc.query q : Proc Q A ε (A q)) >>= f) post err l := meets_bind (meets_query q h)

/-- A question that answers with a value or an error; the error ends the program. -/
theorem meets_call {q : Q} {δ : Type} {e : δ → ε} {f : α → Proc Q A ε β} {post : β → L → Prop}
    (h : Except δ α = A q)
    (herr : ∀ d, P.answers q (cast h (.error d)) →
      ∃ l', P.step l q (cast h (.error d)) l' ∧ err l')
    (hok : ∀ a, P.answers q (cast h (.ok a)) →
      ∃ l', P.step l q (cast h (.ok a)) l' ∧ Meets P (f a) post err l') :
    Meets P ((Proc.query q : Proc Q A ε (A q)) >>= fun a => Proc.orFail e (cast h.symm a) >>= f)
      post err l := by
  refine meets_ask (fun a ha => ?_)
  obtain ⟨x, rfl⟩ : ∃ x, a = cast h x := ⟨cast h.symm a, by simp⟩
  cases x with
  | error d =>
    obtain ⟨l', hl', he⟩ := herr d ha
    refine ⟨l', hl', ?_⟩
    rw [cast_cast]
    exact meets_fail (e d) he
  | ok b =>
    obtain ⟨l', hl', hb⟩ := hok b ha
    refine ⟨l', hl', ?_⟩
    rw [cast_cast]
    exact hb

theorem meets_orFail {δ : Type} (e : δ → ε) (r : Except δ α) (hok : ∀ a, r = .ok a → post a l)
    (herr : ∀ d, r = .error d → err l) : Meets P (Proc.orFail e r) post err l := by
  cases r with
  | ok a => exact meets_pure a (hok a rfl)
  | error d => exact meets_fail (e d) (herr d rfl)

/-- A value goes on, and nothing is known when an error ends the program. -/
theorem meets_value {δ : Type} {e : δ → ε} {r : Except δ α} {f : α → Proc Q A ε β}
    {post : β → L → Prop} (h : ∀ a, r = .ok a → Meets P (f a) post (fun _ => True) l) :
    Meets P (Proc.orFail e r >>= f) post (fun _ => True) l :=
  meets_bind (meets_orFail e r h fun _ _ => trivial)

theorem meets_attempt {post : Except ε α → L → Prop}
    (h : Meets P p (fun a l => post (.ok a) l) (fun l => ∀ e, post (.error e) l) l) :
    Meets P p.attempt post err l := by
  refine follows_bind p _ (follows_mono p h (fun r l' hr => ?_))
  cases r with
  | ok a => exact hr
  | error e => exact hr e

theorem meets_foldEach {γ : Type} {f : β → γ → Proc Q A ε β} {I : β → L → Prop}
    (xs : List γ) (h : ∀ b l, I b l → ∀ x ∈ xs, Meets P (f b x) I err l) (b : β) (hb : I b l) :
    Meets P (Proc.foldEach f b xs) I err l := by
  induction xs generalizing b l with
  | nil => exact meets_pure b hb
  | cons x xs ih =>
    refine meets_then (h b l hb x List.mem_cons_self) (fun b' l' hb' => ?_)
    exact ih (fun b l hb y hy => h b l hb y (List.mem_cons_of_mem x hy)) b' hb'

/-- A program whose questions leave the local state as it is. -/
theorem meets_asks {S : Q → Prop} (hS : ∀ q, S q → ∀ l a, P.answers q a → P.step l q a l)
    (h : p.Asks S) (hpost : ∀ a, post a l) (herr : err l) :
    Meets P p post err l := by
  refine follows_mono p (follows_of_asks hS h) (fun r l' hr => ?_)
  subst hr
  cases r with
  | ok a => exact hpost a
  | error e => exact herr

theorem follows_forget {final : L → Prop}
    (h : Meets P p (fun _ l => final l) final l) : Follows P p.forget (fun _ l => final l) l := by
  refine follows_bind p _ (follows_mono p h (fun r l' hr => ?_))
  cases r with
  | ok a => exact hr
  | error e => exact hr

end FilePool.Threads
