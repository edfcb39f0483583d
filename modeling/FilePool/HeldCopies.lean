import FilePool.UndoNames

/-!
The copies of a replication policy beside the holds on its volumes. A pass reads the volumes
and their holds once, then looks at one volume after another: it follows a copy that runs,
cleans up one that has ended, and starts one for a volume that is free. What it has seen goes
to the status at its end. A held volume is free too while its copy exists, or while that
cannot be told.
-/
namespace FilePool.HeldCopies

open UndoNames Function

inductive CopyPhase
  | running
  | ended
  deriving DecidableEq, Repr

/-- A pass: the volumes it has still to look at, those that it took for free, and those
whose copies it has seen running. -/
structure CopyPass where
  rest : List Name
  free : Name → Bool
  seen : Name → Bool

/-- The copies that exist, those that the status tells of, and the pass. -/
structure Copies where
  copy : Name → Option CopyPhase
  told : Name → Bool
  pass : Option CopyPass

variable (held unread : Name → Bool) (c : Copies)

def splitHeld (v : Name) : Bool := !held v || (c.copy v).isSome || unread v

def beginPass (volumes : List Name) : Option Copies :=
  if c.pass.isSome then none
  else some { c with pass := some ⟨volumes, splitHeld held unread c, fun _ => false⟩ }

def replicate (wanted cleaned free : Bool) : Option CopyPhase → Option CopyPhase
  | some .running => some .running
  | some .ended => if cleaned then none else some .ended
  | none => if wanted && free then some .running else none

/-- The copy of the next volume. The status tells of it if it runs and that is noticed. -/
def visit (wanted noticed cleaned : Bool) : Option Copies :=
  c.pass.bind (fun p => match p.rest with
    | [] => none
    | v :: rest =>
      let after := replicate wanted cleaned (p.free v) (c.copy v)
      some { c with
        copy := update c.copy v after
        pass := some ⟨rest, update p.free v false,
          update p.seen v (after = some .running && noticed)⟩ })

/-- The status at the end of a pass. -/
def endPass (saved : Bool) : Option Copies :=
  c.pass.bind (fun p => match p.rest with
    | [] => some ⟨c.copy, if saved then p.seen else c.told, none⟩
    | _ :: _ => none)

/-- The controller stops, or a pass ends early with an error. -/
def breakOff : Copies := { c with pass := none }

def copyEnds (v : Name) : Option Copies :=
  (c.copy v).map (fun _ => { c with copy := update c.copy v (some .ended) })

def copyGone (v : Name) : Copies := { c with copy := update c.copy v none }

section Holding

variable {guarded : Name → Prop} {c c' : Copies} {wanted cleaned : Bool} {o : Option CopyPhase}
  {noticed : Bool} {u v : Name}

def Runs (c : Copies) (v : Name) : Prop := c.copy v = some .running

instance (c : Copies) (v : Name) : Decidable (Runs c v) :=
  inferInstanceAs (Decidable (c.copy v = some .running))

/-- The status tells of all copies that run, between passes. A pass has seen every one or has
still to look at it, and takes a guarded volume that it has still to look at for free only if
its copy exists. -/
structure Kept (guarded : Name → Prop) (c : Copies) : Prop where
  told : c.pass = none → ∀ v, Runs c v → c.told v = true
  seen : ∀ p, c.pass = some p → ∀ v, Runs c v → p.seen v = true ∨ v ∈ p.rest
  free : ∀ p, c.pass = some p → ∀ v ∈ p.rest, p.free v = true → guarded v → c.copy v ≠ none

/-- A pass under way has not to look at the volume any more. -/
def Passed (c : Copies) (v : Name) : Prop := ∀ p, c.pass = some p → v ∉ p.rest

/-- Neither has it seen a copy of the volume run. -/
def Clear (c : Copies) (v : Name) : Prop :=
  Passed c v ∧ ∀ p, c.pass = some p → p.seen v = false

theorem Kept.guard {more : Name → Prop} (h : Kept guarded c)
    (hmore : ∀ v, more v → guarded v ∨ Passed c v) : Kept more c :=
  ⟨h.told, h.seen, fun p hp v hmem hv hguard => (hmore v hguard).elim (h.free p hp v hmem hv)
    (fun hpassed => absurd hmem (hpassed p hp))⟩

theorem Kept.not_runs (h : Kept guarded c) (hclear : Clear c v) (htold : c.told v = false) :
    ¬ Runs c v := by
  intro hruns
  cases hp : c.pass with
  | none => exact absurd ((h.told hp v hruns).symm.trans htold) nofun
  | some p =>
    rcases h.seen p hp v hruns with hseen | hrest
    · exact absurd (hseen.symm.trans (hclear.2 p hp)) nofun
    · exact hclear.1 p hp hrest

/-- A step of the copies: a new copy runs only of a volume that is not guarded. -/
structure Keeps (guarded : Name → Prop) (c c' : Copies) : Prop where
  kept : Kept guarded c'
  runs : ∀ v, Runs c' v → Runs c v ∨ ¬ guarded v

theorem keeps_beginPass {held unread : Name → Bool} {volumes : List Name}
    (hheld : ∀ v, guarded v → held v = true) (hread : ∀ v, unread v = true → ¬ guarded v)
    (hall : ∀ v, Runs c v → v ∈ volumes)
    (hstep : beginPass held unread c volumes = some c') : Keeps guarded c c' := by
  obtain ⟨_, heq⟩ := Option.ite_none_left_eq_some.mp hstep
  cases heq
  refine ⟨⟨nofun, fun p hp v hv => ?_, fun p hp v _ hv hguard => ?_⟩, fun _ => .inl⟩
  · cases hp
    exact .inr (hall v hv)
  · cases hp
    simp only [splitHeld, Bool.or_eq_true, Bool.not_eq_true'] at hv
    rcases hv with (hfree | hcopy) | hun
    · exact absurd ((hheld v hguard).symm.trans hfree) nofun
    · exact Option.isSome_iff_ne_none.mp hcopy
    · exact absurd hguard (hread v hun)

theorem replicate_running {free : Bool}
    (h : replicate wanted cleaned free o = some .running) :
    o = some .running ∨ (o = none ∧ free = true) := by
  match o with
  | some .running => exact .inl rfl
  | some .ended => cases cleaned <;> cases h
  | none =>
    cases free
    · simp [replicate] at h
    · exact .inr ⟨rfl, rfl⟩

/-- What a visit does: only the copy of the volume that it looks at changes. -/
theorem visit_cases
    (hstep : visit c wanted noticed cleaned = some c') :
    ∃ p v rest, c.pass = some p ∧ p.rest = v :: rest ∧
      c' = { c with
        copy := update c.copy v (replicate wanted cleaned (p.free v) (c.copy v))
        pass := some ⟨rest, update p.free v false, update p.seen v
          (replicate wanted cleaned (p.free v) (c.copy v) = some .running && noticed)⟩ } := by
  obtain ⟨p, hp, hstep⟩ := Option.bind_eq_some_iff.mp hstep
  split at hstep
  · cases hstep
  · rename_i v rest hrest
    cases hstep
    exact ⟨p, v, rest, hp, hrest, rfl⟩

/-- A copy is started only of a volume that is not guarded. -/
theorem Kept.visit_runs (h : Kept guarded c)
    (hstep : visit c wanted noticed cleaned = some c') (hu : Runs c' u) :
    Runs c u ∨ ¬ guarded u := by
  obtain ⟨p, v, rest, hp, hrest, rfl⟩ := visit_cases hstep
  by_cases huv : u = v
  · subst huv
    simp only [Runs, update_self] at hu
    exact (replicate_running hu).imp_right
      (fun hnew hguard => h.free p hp u (by simp [hrest]) hnew.2 hguard hnew.1)
  · simp only [Runs, update_of_ne huv] at hu
    exact .inl hu

theorem Kept.visit (h : Kept guarded c)
    (hstep : visit c wanted true cleaned = some c') : Keeps guarded c c' := by
  refine ⟨?_, fun _ => h.visit_runs hstep⟩
  obtain ⟨p, v, rest, hp, hrest, rfl⟩ := visit_cases hstep
  refine ⟨nofun, fun q hq u hu => ?_, fun q hq u hmem hu hguard => ?_⟩
  · cases hq
    by_cases huv : u = v
    · subst huv
      simp only [Runs, update_self] at hu
      simp [hu]
    · simp only [Runs, update_of_ne huv] at hu ⊢
      refine (h.seen p hp u hu).imp_right (fun hmem => ?_)
      rw [hrest] at hmem
      exact (List.mem_cons.mp hmem).resolve_left huv
  · cases hq
    by_cases huv : u = v
    · simp [huv] at hu
    · simp only [update_of_ne huv] at hu ⊢
      exact h.free p hp u (by rw [hrest]; exact .tail v hmem) hu hguard

theorem Kept.endPass (h : Kept guarded c) (hstep : endPass c true = some c') :
    Keeps guarded c c' := by
  obtain ⟨p, hp, hstep⟩ := Option.bind_eq_some_iff.mp hstep
  split at hstep
  · rename_i hrest
    cases hstep
    refine ⟨⟨fun _ v hv => ?_, nofun, nofun⟩, fun _ => .inl⟩
    refine (h.seen p hp v hv).resolve_right (fun hmem => ?_)
    rw [hrest] at hmem
    cases hmem
  · cases hstep

theorem keeps_breakOff (htold : ∀ v, Runs c v → c.told v = true) :
    Keeps guarded c (breakOff c) :=
  ⟨⟨fun _ => htold, nofun, nofun⟩, fun _ => .inl⟩

theorem runs_of_update (ho : o ≠ some .running)
    (hu : update c.copy v o u = some .running) : Runs c u := by
  by_cases huv : u = v
  · subst huv
    exact absurd (by simpa using hu) ho
  · simpa only [Runs, update_of_ne huv] using hu

theorem Kept.copyEnds (h : Kept guarded c) (hstep : copyEnds c v = some c') :
    Keeps guarded c c' := by
  obtain ⟨_, _, rfl⟩ := Option.map_eq_some_iff.mp hstep
  have hruns {u : Name} (hu : update c.copy v (some .ended) u = some .running) :=
    runs_of_update (o := some .ended) nofun hu
  refine ⟨⟨fun hp u hu => h.told hp u (hruns hu), fun p hp u hu => h.seen p hp u (hruns hu),
    fun p hp u hmem hu hguard => ?_⟩, fun u hu => .inl (hruns hu)⟩
  by_cases huv : u = v
  · simp [huv]
  · simpa [update_of_ne huv] using h.free p hp u hmem hu hguard

/-- A copy is removed by others while no pass has still to look at it, or its volume is not
guarded. -/
theorem Kept.copyGone (h : Kept guarded c) (v : Name) (hapart : Passed c v ∨ ¬ guarded v) :
    Keeps guarded c (copyGone c v) := by
  have hruns {u : Name} (hu : update c.copy v none u = some .running) :=
    runs_of_update (o := none) nofun hu
  refine ⟨⟨fun hp u hu => h.told hp u (hruns hu), fun p hp u hu => h.seen p hp u (hruns hu),
    fun p hp u hmem hu hguard => ?_⟩, fun u hu => .inl (hruns hu)⟩
  have huv : u ≠ v := by
    rintro rfl
    exact hapart.elim (fun hpassed => hpassed p hp hmem) (fun hnot => hnot hguard)
  simpa [HeldCopies.copyGone, update_of_ne huv] using h.free p hp u hmem hu hguard

end Holding

end FilePool.HeldCopies
