import FilePool.ReplicationCalls

/-!
Rules for programs of calls: which steps they perform, what a property that these steps
keep means for a whole program, and what the values they return can be.
-/
namespace FilePool.CallRules

open DurableSteps ReplicationWorld ReplicationCalls Prog List

variable {α β : Type}

variable {K : Step → Prop} {p : WorldProg α}

theorem only_attempt (h : Only K p) : Only K p.attempt :=
  fun w t ht => h w t ht

theorem only_try {f : Except CallErr α → WorldProg β} (hp : Only K p)
    (hf : ∀ r, Only K (f r)) : Only K (p.attempt >>= f) := only_bind (only_attempt hp) hf

theorem only_next (hK : K .next) : Only K next :=
  only_bind (only_inspect _) (fun _ => only_map (only_perform _ hK))

theorem only_call (hK : K .next) (t : Step) (ht : K t) : Only K (call t) := by
  apply only_bind (only_next hK)
  intro a
  cases a.outcome with
  | done =>
    exact only_bind (only_inspect _) (fun _ => only_map (only_perform t ht))
  | refused => exact only_fail _
  | unanswered =>
    exact only_bind (only_inspect _) (fun _ => only_bind (only_perform t ht) (fun _ => only_fail _))

theorem only_request (hK : K .next) (t : Step) (ht : K t) : Only K (request t) :=
  only_map (only_call hK t ht)

theorem only_ask (hK : K .next) : Only K ask := by
  apply only_bind (only_next hK)
  intro a
  refine only_ite (only_pure _) ?_
  exact only_fail _

theorem only_query (hK : K .next) (f : World → Except CallErr α) : Only K (query f) :=
  only_bind (only_ask hK) (fun _ => only_inspect f)

theorem only_now (hK : K .next) : Only K now := only_map (only_next hK)

theorem only_forEach (f : ℕ → α → WorldProg Unit) (xs : List α)
    (hf : ∀ i, ∀ x ∈ xs, Only K (f i x)) (i : ℕ) : Only K (forEach f i xs) := by
  induction xs generalizing i with
  | nil => exact only_pure _
  | cons x xs ih =>
    exact only_bind (hf i x mem_cons_self)
      (fun _ => ih (fun i y hy => hf i y (mem_cons_of_mem x hy)) (i + 1))

theorem only_forAll (f : α → WorldProg Unit) (xs : List α) (hf : ∀ x ∈ xs, Only K (f x)) :
    Only K (forAll f xs) := by
  induction xs with
  | nil => exact only_pure _
  | cons x xs ih =>
    apply only_bind (only_attempt (hf x mem_cons_self))
    intro r
    exact only_bind (ih (fun y hy => hf y (mem_cons_of_mem x hy))) (fun _ => only_inspect _)

theorem only_foldEach (f : β → α → WorldProg β) (xs : List α)
    (hf : ∀ b, ∀ x ∈ xs, Only K (f b x)) (b : β) : Only K (foldEach f b xs) := by
  induction xs generalizing b with
  | nil => exact only_pure _
  | cons x xs ih =>
    exact only_bind (hf b x mem_cons_self)
      (fun b' => ih (fun b y hy => hf b y (mem_cons_of_mem x hy)) b')

variable {I : World → Prop} {P Q : World → Prop}

/-- What every step of a program keeps, a stop anywhere keeps. -/
theorem safe_only (h : Only K p)
    (hI : ∀ t, K t → ∀ w, I w → I (t.apply w)) : Safe I p (fun _ w => I w) I := by
  intro w hw
  have hstop : ∀ w', p.Stopped w w' → I w' := fun w' =>
    stopped_of_only h I hI (fun _ _ _ _ _ htorn => False.elim htorn) w w' hw
  exact ⟨fun _ _ => hstop _ (stopped_exec p w), hstop⟩

theorem safe_carryOut {t : Step} {rest : WorldProg α}
    (ht : ∀ w, P w → t.check w = .ok () → Q (t.apply w))
    (hrest : Safe Q rest (fun _ w => Q w) (fun w => P w ∨ Q w)) :
    Safe P (do Prog.inspect t.check; Prog.perform t; rest) (fun _ w => P w ∨ Q w)
      (fun w => P w ∨ Q w) := by
  refine safe_bind (Q := fun _ w => P w ∧ t.check w = .ok ())
    (safe_inspect _ (fun w hw => ⟨.inl hw, fun _ ha => ⟨hw, ha⟩⟩)) (fun _ => ?_)
  refine safe_bind (Q := fun _ w => Q w) (safe_atomic t (fun _ _ => id) (fun w hw => hw.1) ?_)
    (fun _ => ?_)
  · intro w hw
    exact ⟨.inr (ht w hw.2.1 hw.2.2), ht w hw.2.1 hw.2.2⟩
  · exact safe_weaken hrest (fun _ hw => hw.2) (fun _ _ hw => .inr hw) (fun _ hw => hw)

/-- A request is carried out or not; a stop or a lost answer leaves one or the other. -/
theorem safe_call (t : Step) (hnext : ∀ w, P w → P (World.advance w))
    (ht : ∀ w, P w → t.check w = .ok () → Q (t.apply w)) :
    Safe P (call t) (fun _ w => P w ∨ Q w) (fun w => P w ∨ Q w) := by
  have hask : Safe P next (fun _ w => P w) (fun w => P w ∨ Q w) := by
    refine safe_stops (safe_only (only_next rfl) ?_)
      (fun _ h => .inl h)
    intro t ht w hw
    subst ht
    exact hnext w hw
  refine safe_bind hask (fun a => ?_)
  cases a.outcome with
  | refused => exact safe_fail (fun w hw => hw.1)
  | done =>
    exact safe_from (safe_carryOut ht (safe_pure a (fun w hw => ⟨.inr hw, hw⟩)))
      (fun _ hw => hw.2)
  | unanswered =>
    exact safe_from (safe_carryOut ht (safe_fail (fun w hw => .inr hw))) (fun _ hw => hw.2)

/-- What others do one after another keeps what each of them keeps. -/
theorem advance_keeps (hscript : ∀ w s, I w → I { w with script := s })
    (hevent : ∀ (e : Event) w, I w → I (e.apply w)) (w : World) (hw : I w) :
    I (World.advance w) := by
  unfold World.advance
  cases w.script with
  | nil => exact hw
  | cons a rest =>
    have hfold : ∀ (es : List Event) w, I w → I (es.foldl (fun w e => e.apply w) w) := by
      intro es
      induction es with
      | nil => exact fun w hw => hw
      | cons e es ih => exact fun w hw => ih (e.apply w) (hevent e w hw)
    exact hfold a.before _ (hscript w rest hw)

/-- Every value the program can return, from any state. -/
def Yields (p : WorldProg α) (Q : α → Prop) : Prop := ∀ w a, p.result w = .ok a → Q a

theorem yields_pure (a : α) {Q : α → Prop} (h : Q a) : Yields (pure a) Q := by
  intro w b hb
  cases Except.ok.inj hb
  exact h

theorem yields_any : Yields p (fun _ => True) := fun _ _ _ => trivial

variable {f : α → WorldProg β} {R : α → Prop} {C : World → Prop}

theorem yields_bind {Q : β → Prop}
    (hp : Yields p R) (hf : ∀ a, R a → Yields (f a) Q) : Yields (p >>= f) Q := by
  intro w b hb
  rw [result_bind, except_bind_ok] at hb
  obtain ⟨a, ha, hfa⟩ := hb
  exact hf a (hp w a ha) _ b hfa

theorem yields_then {Q : β → Prop}
    (hf : ∀ a, Yields (f a) Q) : Yields (p >>= f) Q :=
  yields_bind yields_any (fun a _ => hf a)

theorem yields_foldEach (f : β → α → WorldProg β) (xs : List α) {Q : β → Prop}
    (hf : ∀ b, ∀ x ∈ xs, Q b → Yields (f b x) Q) (b : β) (hb : Q b) :
    Yields (foldEach f b xs) Q := by
  induction xs generalizing b with
  | nil => exact yields_pure b hb
  | cons x xs ih =>
    refine yields_bind (hf b x mem_cons_self hb) ?_
    intro b' hb'
    exact ih (fun b y hy => hf b y (mem_cons_of_mem x hy)) b' hb'

/-- What comes after a program may rely on what the program returns. -/
theorem only_bind_yields
    (hp : Only K p) (hR : Yields p R) (hf : ∀ a, R a → Only K (f a)) : Only K (p >>= f) := by
  intro w t ht
  cases hres : p.result w with
  | error e =>
    rw [steps_bind_error p f w hres] at ht
    exact hp w t ht
  | ok a =>
    rw [steps_bind_ok p f w hres] at ht
    rcases mem_append.mp ht with h | h
    · exact hp w t h
    · exact hf a (hR w a hres) _ t h

end FilePool.CallRules
