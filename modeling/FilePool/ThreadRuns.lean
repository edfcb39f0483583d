import FilePool.Threads

/-!
Runs of programs. A machine has a world that all programs share. Calls begin at any
time, each as a thread of its own; a move lets one thread ask its next question, ends a
thread that is done, lets something outside happen, or stops the process with all its
threads. The moves are functions, so a given run can be computed.
-/
namespace FilePool.ThreadRuns

open Threads Function

/-- The surroundings of the threads. The choice in an answer stands for what the thread
cannot know, such as a call that fails. -/
structure Machine (W Q : Type) (A : Q → Type) (C Ch Ev : Type) where
  answer : ℕ → (q : Q) → Ch → W → Option (A q × W)
  event : Ev → W → Option W
  body : C → Tree Q A Unit
  enter : ℕ → C → W → Option W
  leave : ℕ → W → W
  halt : W → W

inductive Move (C Ch Ev : Type)
  | begins (i : ℕ) (c : C)
  | acts (i : ℕ) (ch : Ch)
  | ends (i : ℕ)
  | event (e : Ev)
  | halts

def Move.outside {C Ch Ev : Type} : Move C Ch Ev → Option Ev
  | .event e => some e
  | _ => none

structure State (W Q : Type) (A : Q → Type) where
  world : W
  threads : ℕ → Option (Tree Q A Unit)

variable {L W Q C Ch Ev : Type} {A : Q → Type}

namespace Machine

variable (M : Machine W Q A C Ch Ev) {ls : ℕ → Option L} {i : ℕ}

def next (s : State W Q A) : Move C Ch Ev → Option (State W Q A)
  | .begins i c =>
    match s.threads i with
    | none => (M.enter i c s.world).map (fun w => ⟨w, update s.threads i (some (M.body c))⟩)
    | some _ => none
  | .acts i ch =>
    match s.threads i with
    | some (.ask q k) => (M.answer i q ch s.world).map
        (fun x => ⟨x.2, update s.threads i (some (k x.1))⟩)
    | _ => none
  | .ends i =>
    match s.threads i with
    | some (.done _) => some ⟨M.leave i s.world, update s.threads i none⟩
    | _ => none
  | .event e => (M.event e s.world).map (fun w => ⟨w, s.threads⟩)
  | .halts => some ⟨M.halt s.world, fun _ => none⟩

/-- The states reached by moves that are allowed in the state they are made in. -/
inductive Run (allowed : State W Q A → Move C Ch Ev → Prop) (s : State W Q A) :
    State W Q A → Prop
  | start : Run allowed s s
  | next {s₁ s₂ : State W Q A} (m : Move C Ch Ev) (h : Run allowed s s₁)
      (hm : allowed s₁ m) (hn : M.next s₁ m = some s₂) : Run allowed s s₂

def moves : List (Move C Ch Ev) → State W Q A → Option (State W Q A)
  | [], s => some s
  | m :: ms, s => (M.next s m).bind (moves ms)

theorem run_trans {allowed : State W Q A → Move C Ch Ev → Prop} {s₁ s₂ s₃ : State W Q A}
    (h : M.Run allowed s₁ s₂) (h' : M.Run allowed s₂ s₃) : M.Run allowed s₁ s₃ := by
  induction h' with
  | start => exact h
  | next m _ hm hn ih => exact .next m ih hm hn

/-- A list of moves that can be made is a run. -/
theorem run_moves (ms : List (Move C Ch Ev)) (s s' : State W Q A)
    (h : M.moves ms s = some s') : M.Run (fun _ _ => True) s s' := by
  induction ms generalizing s with
  | nil =>
    cases h
    exact .start
  | cons m ms ih =>
    obtain ⟨s₁, hn, hms⟩ := Option.bind_eq_some_iff.mp h
    exact M.run_trans (.next m .start trivial hn) (ih s₁ hms)

/-- A list of moves, each of which is checked before it is made. -/
def movesWhen (ok : State W Q A → Move C Ch Ev → Bool) :
    List (Move C Ch Ev) → State W Q A → Option (State W Q A)
  | [], s => some s
  | m :: ms, s => if ok s m then (M.next s m).bind (movesWhen ok ms) else none

theorem run_movesWhen {allowed : State W Q A → Move C Ch Ev → Prop}
    {ok : State W Q A → Move C Ch Ev → Bool} (hok : ∀ s m, ok s m = true → allowed s m)
    (ms : List (Move C Ch Ev)) (s s' : State W Q A) (h : M.movesWhen ok ms s = some s') :
    M.Run allowed s s' := by
  induction ms generalizing s with
  | nil =>
    cases h
    exact .start
  | cons m ms ih =>
    unfold movesWhen at h
    split at h
    · rename_i hm
      obtain ⟨s₁, hn, hms⟩ := Option.bind_eq_some_iff.mp h
      exact M.run_trans (.next m .start (hok s m hm) hn) (ih s₁ hms)
    · cases h

/-- An invariant is kept by every allowed move, one fact for each kind of move. It speaks
of the world and of the local states of all threads. Another invariant, which is known to
hold before and after the move, can be used. -/
structure Keeps (allowed : State W Q A → Move C Ch Ev → Prop) (P : Protocol L Q A)
    (start : C → L) (final : L → Prop) (G I : W → (ℕ → Option L) → Prop) : Prop where
  begins : ∀ s ls i c w, allowed s (.begins i c) → G s.world ls → I s.world ls → ls i = none →
    M.enter i c s.world = some w → G w (update ls i (some (start c))) →
    I w (update ls i (some (start c)))
  acts : ∀ s ls i ch q k a w l l', allowed s (.acts i ch) → G s.world ls → I s.world ls →
    ls i = some l → s.threads i = some (.ask q k) → M.answer i q ch s.world = some (a, w) →
    P.step l q a l' → G w (update ls i (some l')) → I w (update ls i (some l'))
  ends : ∀ s ls i l, allowed s (.ends i) → G s.world ls → I s.world ls → ls i = some l →
    final l → G (M.leave i s.world) (update ls i none) →
    I (M.leave i s.world) (update ls i none)
  event : ∀ s ls e w, allowed s (.event e) → G s.world ls → I s.world ls →
    M.event e s.world = some w → G w ls → I w ls
  halts : ∀ s ls, allowed s .halts → G s.world ls → I s.world ls →
    G (M.halt s.world) (fun _ => none) → I (M.halt s.world) (fun _ => none)

/-- The calls follow the protocol, and the invariant is kept. -/
structure Upholds (allowed : State W Q A → Move C Ch Ev → Prop) (P : Protocol L Q A)
    (start : C → L) (final : L → Prop) (I : W → (ℕ → Option L) → Prop) : Prop where
  answers : ∀ i q ch w a w', M.answer i q ch w = some (a, w') → P.answers q a
  follows : ∀ c, Follows P (M.body c) (fun _ l => final l) (start c)
  keeps : M.Keeps allowed P start final (fun _ _ => True) I

variable {M} {allowed allowed' : State W Q A → Move C Ch Ev → Prop} {P : Protocol L Q A}
  {start : C → L} {final : L → Prop} {G I : W → (ℕ → Option L) → Prop} {T : ℕ → L → Prop}
  {s : State W Q A} {t : Tree Q A Unit} {w : W} {s' : State W Q A}

theorem Upholds.add (h : M.Upholds allowed P start final G)
    (hI : M.Keeps allowed' P start final G I) (ha : ∀ s m, allowed' s m → allowed s m) :
    M.Upholds allowed' P start final (fun w ls => G w ls ∧ I w ls) where
  answers := h.answers
  follows := h.follows
  keeps := {
    begins := fun s ls i c w hm _ hGI hi hw _ =>
      have hG := h.keeps.begins s ls i c w (ha _ _ hm) trivial hGI.1 hi hw trivial
      ⟨hG, hI.begins s ls i c w hm hGI.1 hGI.2 hi hw hG⟩
    acts := fun s ls i ch q k a w l l' hm _ hGI hl hask hw hstep _ =>
      have hG := h.keeps.acts s ls i ch q k a w l l' (ha _ _ hm) trivial hGI.1 hl hask hw hstep
        trivial
      ⟨hG, hI.acts s ls i ch q k a w l l' hm hGI.1 hGI.2 hl hask hw hstep hG⟩
    ends := fun s ls i l hm _ hGI hl hf _ =>
      have hG := h.keeps.ends s ls i l (ha _ _ hm) trivial hGI.1 hl hf trivial
      ⟨hG, hI.ends s ls i l hm hGI.1 hGI.2 hl hf hG⟩
    event := fun s ls e w hm _ hGI hw _ =>
      have hG := h.keeps.event s ls e w (ha _ _ hm) trivial hGI.1 hw trivial
      ⟨hG, hI.event s ls e w hm hGI.1 hGI.2 hw hG⟩
    halts := fun s ls hm _ hGI _ =>
      have hG := h.keeps.halts s ls (ha _ _ hm) trivial hGI.1 trivial
      ⟨hG, hI.halts s ls hm hGI.1 hGI.2 hG⟩ }

/-- What holds of each thread holds after a change of one of them. -/
theorem each_update {l' : L} (hi : T i l')
    (h : ∀ j l, j ≠ i → ls j = some l → T j l) :
    ∀ j l, update ls i (some l') j = some l → T j l := by
  intro j l hj
  by_cases hji : j = i
  · subst hji
    rw [update_self] at hj
    cases hj
    exact hi
  · rw [update_of_ne hji] at hj
    exact h j l hji hj

theorem each_drop (h : ∀ j l, j ≠ i → ls j = some l → T j l) :
    ∀ j l, update ls i none j = some l → T j l := by
  intro j l hj
  by_cases hji : j = i
  · subst hji
    rw [update_self] at hj
    cases hj
  · rw [update_of_ne hji] at hj
    exact h j l hji hj

/-- Every thread has a local state from which it goes on following the protocol. -/
def Tracks (P : Protocol L Q A) (final : L → Prop) (s : State W Q A) (ls : ℕ → Option L) : Prop :=
  ∀ i, match s.threads i, ls i with
    | none, none => True
    | some t, some l => Follows P t (fun _ l => final l) l
    | _, _ => False

theorem tracks_none (h : Tracks P final s ls)
    (hi : s.threads i = none) : ls i = none := by
  have := h i
  rw [hi] at this
  cases hl : ls i with
  | none => rfl
  | some l => simp [hl] at this

theorem tracks_some (h : Tracks P final s ls) (hi : s.threads i = some t) :
    ∃ l, ls i = some l ∧ Follows P t (fun _ l => final l) l := by
  have := h i
  rw [hi] at this
  cases hl : ls i with
  | none => simp [hl] at this
  | some l => exact ⟨l, rfl, by simpa [hl] using this⟩

theorem tracks_update (h : Tracks P final s ls) {l : L} (hf : Follows P t (fun _ l => final l) l) :
    Tracks P final ⟨w, update s.threads i (some t)⟩ (update ls i (some l)) := by
  intro j
  by_cases hj : j = i
  · subst hj
    simpa using hf
  · simpa [update_of_ne hj] using h j

theorem tracks_drop (h : Tracks P final s ls)
    : Tracks P final ⟨w, update s.threads i none⟩ (update ls i none) := by
  intro j
  by_cases hj : j = i
  · subst hj
    simp
  · simpa [update_of_ne hj] using h j

/-- The invariant holds with local states that the threads are in. -/
def Held (P : Protocol L Q A) (final : L → Prop) (I : W → (ℕ → Option L) → Prop)
    (s : State W Q A) : Prop := ∃ ls, I s.world ls ∧ Tracks P final s ls

/-- A thread asks its next question: what it did, and the invariant after it. -/
theorem Upholds.acts (h : M.Upholds allowed P start final I)
    (hI : I s.world ls) (ht : Tracks P final s ls) {ch : Ch}
    (hm : allowed s (.acts i ch)) (hn : M.next s (.acts i ch) = some s') :
    ∃ q k a l l', s.threads i = some (.ask q k) ∧ ls i = some l ∧
      M.answer i q ch s.world = some (a, s'.world) ∧ P.step l q a l' ∧
      I s'.world (update ls i (some l')) ∧
      Tracks P final s' (update ls i (some l')) := by
  simp only [Machine.next] at hn
  split at hn
  · rename_i q k hask
    obtain ⟨⟨a, w⟩, hw, rfl⟩ := Option.map_eq_some_iff.mp hn
    obtain ⟨l, hl, hf⟩ := tracks_some ht hask
    obtain ⟨l', hstep, hk⟩ := hf a (h.answers i q ch s.world a w hw)
    exact ⟨q, k, a, l, l', hask, hl, hw, hstep,
      h.keeps.acts s ls i ch q k a w l l' hm trivial hI hl hask hw hstep trivial,
      tracks_update ht hk⟩
  · cases hn

/-- The step lemma: every allowed move keeps the invariant. -/
theorem Upholds.next (h : M.Upholds allowed P start final I)
    (hs : Held P final I s) (m : Move C Ch Ev) (hm : allowed s m) (hn : M.next s m = some s') :
    Held P final I s' := by
  obtain ⟨ls, hI, ht⟩ := hs
  cases m with
  | begins i c =>
    simp only [Machine.next] at hn
    split at hn
    · rename_i hnone
      obtain ⟨w, hw, rfl⟩ := Option.map_eq_some_iff.mp hn
      exact ⟨_, h.keeps.begins s ls i c w hm trivial hI (tracks_none ht hnone) hw trivial,
        tracks_update ht (h.follows c)⟩
    · cases hn
  | acts i ch =>
    obtain ⟨q, k, a, l, l', -, -, -, -, hI', ht'⟩ := h.acts hI ht hm hn
    exact ⟨_, hI', ht'⟩
  | ends i =>
    simp only [Machine.next] at hn
    split at hn
    · rename_i a hdone
      cases hn
      obtain ⟨l, hl, hf⟩ := tracks_some ht hdone
      exact ⟨_, h.keeps.ends s ls i l hm trivial hI hl hf trivial, tracks_drop ht⟩
    · cases hn
  | event e =>
    obtain ⟨w, hw, rfl⟩ := Option.map_eq_some_iff.mp hn
    exact ⟨ls, h.keeps.event s ls e w hm trivial hI hw trivial, ht⟩
  | halts =>
    cases hn
    exact ⟨_, h.keeps.halts s ls hm trivial hI trivial, fun i => trivial⟩

/-- The run lemma. -/
theorem Upholds.run (h : M.Upholds allowed P start final I)
    (hs : Held P final I s) (hrun : M.Run allowed s s') : Held P final I s' := by
  induction hrun with
  | start => exact hs
  | next m _ hm hn ih => exact h.next ih m hm hn

theorem held_still (w : W) (h : I w (fun _ => none)) :
    Held P final I (⟨w, fun _ => none⟩ : State W Q A) := ⟨_, h, fun _ => trivial⟩

end Machine

end FilePool.ThreadRuns
