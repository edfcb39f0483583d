import FilePool.CycleOutcome

/-!
When the status of a policy shows a sync, over runs of the controller. A cycle is followed
from a state in which the controller keeps no result of it. The failures that a policy
counts only grow until a copy succeeds, a cycle ends without a failed file copy, or the
policy goes on after a pause; at the limit the policy is paused.
-/
namespace FilePool.CycleRuns

open UndoNames DurableSteps ReplicationNames ReplicationStatus ReplicationWorld Function List
  ReplicationCalls VMCopyPass PolicyPass ReplicationJobs ControllerRuns VMCopyFacts
  CycleOutcome Prog

/-- The Job has succeeded since the state, or had done so before and was still there. -/
def recent (w₀ : World) : List Job → Name → Job → Prop :=
  fun l _ j => (∃ new, l = new ++ w₀.finished ∧ j ∈ new) ∨ w₀.jobs j.name = some j

theorem later_recent {w₀ : World} : Later (recent w₀) := by
  intro l l' v j hl h
  obtain ⟨more, rfl⟩ := hl
  rcases h with ⟨new, rfl, hj⟩ | hold
  · exact .inl ⟨more ++ new, (append_assoc _ _ _).symm, mem_append_right _ hj⟩
  · exact .inr hold

/-- What holds of the Jobs at every later moment of a run. -/
structure Base (w₀ w : World) : Prop where
  known : JobsKnown w
  grown : w₀.finished <:+ w.finished
  succeeded : ∀ n j, w.jobs n = some j → j.state = .succeeded → recent w₀ w.finished n j

variable {w₀ w w' : World}

theorem Base.follow (h : Base w₀ w) (hf : JobsFollow w w') : Base w₀ w' where
  known := h.known.follow hf
  grown := h.grown.trans hf.finished
  succeeded n j hj hstate := by
    obtain ⟨j₀, hj₀, _, hcase⟩ := hf.jobs n j hj
    rcases hcase with rfl | hfail | hnew
    · exact later_recent _ _ n j hf.finished (h.succeeded n j hj₀ hstate)
    · rw [hfail] at hstate
      cases hstate
    · obtain ⟨new, hnew₀⟩ := h.grown
      exact .inl ⟨j :: new, by rw [hnew, ← hnew₀]; rfl, mem_cons_self⟩

theorem Base.same (h : Base w₀ w) (hjobs : w'.jobs = w.jobs)
    (hfinished : w'.finished = w.finished) : Base w₀ w' :=
  h.follow (jobsFollow_of_eq w w' hjobs hfinished)

theorem Base.event (h : Base w₀ w) (e : Event) : Base w₀ (e.apply w) :=
  h.follow (follow_event w h.known)

theorem Base.made (h : Base w₀ w) (j : Job) (hrun : j.state = .running) :
    Base w₀ (w.setJob j.name (some j)) where
  known := known_made h.known hrun
  grown := h.grown
  succeeded n k hk hstate := by
    rcases StepRuns.update_some hk with ⟨_, rfl⟩ | ⟨_, hk⟩
    · cases hrun.symm.trans hstate
    · exact h.succeeded n k hk hstate

theorem keeps_base (policy : Policy) (copier : Bool) (prev : List SubVolumeStatus) (w₀ : World) :
    Keeps policy copier prev (Base w₀) (recent w₀) where
  known _ hw := hw.known
  jobs _ _ j hw := hw.succeeded _ j
  later := later_recent
  keeps := early_keeps (fun _ _ hw => hw.same rfl rfl) (fun e _ hw => hw.event e)
    (fun _ _ hw hjobs hfinished _ => hw.same hjobs hfinished)
    (fun _ j hw hmade => hw.made j (madeBy_running hmade))
    (fun _ _ hw => hw.follow jobsFollow_removed)
  status _ _ hw := hw.same rfl rfl
  paused _ _ hw := hw.same rfl rfl

variable {cfg : Config} {m m' : Memories}

theorem Base.next (h : Base w₀ w) (hn : Next cfg w m w' m') : Base w₀ w' := by
  cases hn with
  | answers s => exact h.same rfl rfl
  | event e => exact h.event e
  | taken policy hp paused ht =>
    have hkeeps := keeps_base policy cfg.copier (w.status policy.name).subVolumeStatuses w₀
    refine ht.keeps ?_ h
    rintro t (hearly | ⟨s, rfl⟩ | rfl) x hx
    · exact hkeeps.keeps t hearly x hx
    · exact hkeeps.status x _ hx
    · exact hkeeps.paused x _ hx

section Cycle

variable (cfg : Config)

/-- The states of a run after one in which the controller keeps no result of the policy. -/
inductive Cycle (p : Policy) (w₀ : World) : World → Memories → Prop
  | begins {m : Memories} (h : Run cfg w₀ m) (hresults : (m p.name).results = []) : Cycle p w₀ w₀ m
  | next {w w' : World} {m m' : Memories} (h : Cycle p w₀ w m) (hn : Next cfg w m w' m') :
      Cycle p w₀ w' m'

variable {cfg} {p : Policy} {w₀ w w' : World} {m m' : Memories}

theorem Cycle.run (h : Cycle cfg p w₀ w m) : Run cfg w m := by
  induction h with
  | begins h _ => exact h
  | next _ hn ih => exact ih.next hn

end Cycle

variable {policy : Policy} {copier : Bool} {kept : List CycleResult}
  {G : List Job → Name → Job → Prop} {S : Name → PolicyStatus} {s : PolicyStatus} {paused : Bool}
  {E : Prop} {b s' : PolicyStatus}

section Failing

variable {cfg : Config} {p : Policy} {w₀ w w' : World} {m m' : Memories}

end Failing

/-- A policy that is paused after one failure. -/
def nightly : Policy := ⟨['n'], false, ['f'], some 1, 2, 1, false⟩

def selecting (volumes : List Name) : World :=
  (Event.selected nightly.name (volumes.map (fun v => ⟨v, [], false, none⟩))).apply initial

def twoFiles : World := selecting [['a'], ['b']]

end FilePool.CycleRuns
