import FilePool.PassSteps
import FilePool.StepRuns

/-!
The Jobs over time. Only the controller makes Jobs. Others can let a Job go on, end or
go away, but never change what it was made for, and a Job that has succeeded is in the
history of the Jobs that did.
-/
namespace FilePool.ReplicationJobs

open UndoNames DurableSteps ReplicationWorld ReplicationCalls CallRules PassSteps VMCopyPass List
open Function (update_of_ne update_self)
open ReplicationStatus PolicyPass Prog

/-- Each Job is under its name, and the ones that succeeded are in the history. -/
structure JobsKnown (w : World) : Prop where
  named : ∀ n j, w.jobs n = some j → j.name = n
  succeeded : ∀ n j, w.jobs n = some j → j.state = .succeeded → j ∈ w.finished

/-- What happens to the Jobs when none is made. -/
structure JobsFollow (w w' : World) : Prop where
  finished : w.finished <:+ w'.finished
  jobs : ∀ n j, w'.jobs n = some j → ∃ j₀, w.jobs n = some j₀ ∧ j = { j₀ with state := j.state } ∧
    (j = j₀ ∨ j.state = .failed ∨ w'.finished = j :: w.finished)

theorem jobsFollow_of_eq (w w' : World) (hjobs : w'.jobs = w.jobs)
    (hfinished : w'.finished = w.finished) : JobsFollow w w' := by
  refine ⟨hfinished ▸ suffix_refl _, ?_⟩
  intro n j hj
  rw [hjobs] at hj
  exact ⟨j, hj, rfl, .inl rfl⟩

theorem jobsFollow_removed {w : World} {name : Name} : JobsFollow w (w.setJob name none) := by
  refine ⟨suffix_refl _, ?_⟩
  intro n j hj
  by_cases hn : n = name
  · subst hn
    simp [World.setJob] at hj
  · rw [show (w.setJob name none).jobs n = w.jobs n from update_of_ne hn _ _] at hj
    exact ⟨j, hj, rfl, .inl rfl⟩

theorem JobsKnown.follow {w w' : World} (h : JobsKnown w) (hf : JobsFollow w w') :
    JobsKnown w' := by
  constructor
  · intro n j hj
    obtain ⟨j₀, hj₀, heq, _⟩ := hf.jobs n j hj
    rw [heq]
    exact h.named n j₀ hj₀
  · intro n j hj hstate
    obtain ⟨j₀, hj₀, heq, hcase⟩ := hf.jobs n j hj
    rcases hcase with rfl | hfail | hmem
    · exact hf.finished.subset (h.succeeded n j hj₀ hstate)
    · rw [hfail] at hstate
      cases hstate
    · rw [hmem]
      exact mem_cons_self

variable (w : World) {n : Name} {j : Job} {t : Step}

theorem copyEnds_same (pod id : Name) (idx : ℕ) (failed : Bool) :
    (w.copyEnds pod id idx failed).jobs = w.jobs ∧
      (w.copyEnds pod id idx failed).finished = w.finished ∧
      (w.copyEnds pod id idx failed).status = w.status := by
  unfold World.copyEnds
  split
  · exact ⟨rfl, rfl, rfl⟩
  · split
    · exact ⟨rfl, rfl, rfl⟩
    · split
      · exact ⟨rfl, rfl, rfl⟩
      · split <;> exact ⟨rfl, rfl, rfl⟩

/-- A Job that ends is the only one that changes. -/
theorem follow_ended {w' : World} {state : JobState}
    (hj : w.jobs n = some j) (hname : j.name = n)
    (hjobs : w'.jobs = (w.setJob j.name (some { j with state := state })).jobs)
    (hfin : w.finished <:+ w'.finished) (hends : state = .failed ∨
      w'.finished = { j with state := state } :: w.finished) : JobsFollow w w' := by
  refine ⟨hfin, ?_⟩
  intro k x hx
  rw [hjobs] at hx
  by_cases hk : k = j.name
  · subst hk
    cases (update_self ..).symm.trans hx
    exact ⟨j, hname ▸ hj, rfl, .inr hends⟩
  · exact ⟨x, (update_of_ne hk _ _).symm.trans hx, rfl, .inl rfl⟩

theorem follow_jobActs {act : JobAct} (hj : w.jobs n = some j)
    (hname : j.name = n) : JobsFollow w (w.jobActs j act) := by
  have hsame := jobsFollow_of_eq w w rfl rfl
  cases act with
  | files d =>
    simp only [World.jobActs]
    split
    · exact jobsFollow_of_eq w _ rfl rfl
    · exact hsame
  | apply other kept =>
    simp only [World.jobActs]
    split
    · exact hsame
    · split
      · exact hsame
      · split
        · exact jobsFollow_of_eq w _ rfl rfl
        · exact hsame
  | removeStaging =>
    simp only [World.jobActs]
    split
    · exact hsame
    · split
      · exact jobsFollow_of_eq w _ rfl rfl
      · exact hsame
  | succeed r =>
    have hfinish : JobsFollow w (w.finishJob j r) :=
      follow_ended w hj hname rfl (suffix_cons _ _) (.inr rfl)
    simp only [World.jobActs]
    split
    · exact hfinish
    · split
      · split
        · exact hfinish
        · exact hsame
      · split
        · exact hfinish
        · exact hsame
  | fail => exact follow_ended w hj hname rfl (suffix_refl _) (.inl rfl)

theorem follow_event {e : Event} (h : JobsKnown w) : JobsFollow w (e.apply w) := by
  cases e with
  | guestWrites _ _ | podEnds _ | podRemoved _ | plugged _ _ _ | unplugged _ _ | migrates _ _
  | listed _ _ _ | selected _ _ | annotated _ _ => exact jobsFollow_of_eq w _ rfl rfl
  | copyEnds pod id idx failed =>
    have hsame := copyEnds_same w pod id idx failed
    exact jobsFollow_of_eq w _ hsame.1 hsame.2.1
  | podStarts _ _ _ _ _ | snapshotStarts _ _ _ | snapshotEnds _ _ | reported _ _ _ =>
    simp only [Event.apply]
    split <;> exact jobsFollow_of_eq w _ rfl rfl
  | jobActs name act =>
    simp only [Event.apply]
    cases hj : w.jobs name with
    | none => exact jobsFollow_of_eq w _ rfl rfl
    | some j =>
      dsimp only
      split
      · exact follow_jobActs w hj (h.named name j hj)
      · exact jobsFollow_of_eq w _ rfl rfl
  | jobRemoved name => exact jobsFollow_removed

theorem jobActs_status (j : Job) (act : JobAct) : (w.jobActs j act).status = w.status := by
  cases act <;> simp only [World.jobActs] <;> repeat' (first | rfl | split)

theorem event_status (e : Event) : (e.apply w).status = w.status := by
  cases e with
  | copyEnds pod id idx failed => exact (copyEnds_same w pod id idx failed).2.2
  | jobActs name act =>
    simp only [Event.apply]
    split
    · rfl
    · split
      · exact jobActs_status w _ act
      · rfl
  | _ =>
    simp only [Event.apply]
    repeat' (first | rfl | split)

theorem transaction_same (pod id list base : Name) (ts : List CopyTarget) (w : World) :
    (ts.foldl (startTarget pod id list base) w).jobs = w.jobs ∧
      (ts.foldl (startTarget pod id list base) w).finished = w.finished ∧
      (ts.foldl (startTarget pod id list base) w).status = w.status := by
  induction ts generalizing w with
  | nil => exact ⟨rfl, rfl, rfl⟩
  | cons t ts ih =>
    have hone : (startTarget pod id list base w t).jobs = w.jobs ∧
        (startTarget pod id list base w t).finished = w.finished ∧
        (startTarget pod id list base w t).status = w.status := by
      unfold startTarget
      split <;> exact ⟨rfl, rfl, rfl⟩
    obtain ⟨hjobs, hfinished, hstatus⟩ := ih (startTarget pod id list base w t)
    exact ⟨hjobs.trans hone.1, hfinished.trans hone.2.1, hstatus.trans hone.2.2⟩

theorem qemu_same (ht : CopierSteps.Qemu t) (hnext : t ≠ .next) {w : World} :
    (t.apply w).jobs = w.jobs ∧ (t.apply w).finished = w.finished ∧
      (t.apply w).status = w.status := by
  cases t with
  | next => exact absurd rfl hnext
  | createStaging _ _ _ | removeStaging _ _ _ | removeAllStaging _ _ =>
    simp only [Step.apply]
    split <;> exact ⟨rfl, rfl, rfl⟩
  | transaction pod id list base ts => exact transaction_same pod id list base ts w
  | removeList _ _ _ | cancel _ _ _ | dismiss _ _ _ => exact ⟨rfl, rfl, rfl⟩
  | createJob _ | deleteJob _ | writeStatus _ _ | pause _ => exact ht.elim

variable {policy : Policy} {copier : Bool} {prev : List SubVolumeStatus}

/-- What is kept by a made Job, by what others do and by Jobs that go on or away, a pass
keeps until it writes the status. -/
theorem early_keeps {I : World → Prop}
    (hscript : ∀ w s, I w → I { w with script := s })
    (hevent : ∀ (e : Event) w, I w → I (e.apply w))
    (hsame : ∀ w w', I w → w'.jobs = w.jobs → w'.finished = w.finished →
      w'.status = w.status → I w')
    (hmade : ∀ w j, I w → MadeBy policy copier prev j → I (w.setJob j.name (some j)))
    (hremoved : ∀ w v, I w → I (w.setJob (ReplicationNames.replJobName policy.name v) none))
    (t : Step) (ht : Early policy copier prev t) (w : World) (hw : I w) : I (t.apply w) := by
  have hqemu : CopierSteps.Qemu t → t ≠ .next → I (t.apply w) := by
    intro hq hne
    obtain ⟨hjobs, hfinished, hstatus⟩ := qemu_same hq hne
    exact hsame w _ hw hjobs hfinished hstatus
  cases t with
  | next => exact advance_keeps hscript hevent w hw
  | createJob j => exact hmade w j hw ht
  | deleteJob n =>
    obtain ⟨v, rfl⟩ := ht
    exact hremoved w v hw
  | writeStatus p s => exact ht.elim
  | pause p => exact ht.elim
  | createStaging _ _ _ | removeStaging _ _ _ | removeAllStaging _ _ | transaction _ _ _ _ _
  | removeList _ _ _ | cancel _ _ _ | dismiss _ _ _ => exact hqemu trivial Step.noConfusion

theorem early_status (ht : Early policy copier prev t) {w : World} :
    (t.apply w).status = w.status :=
  early_keeps (fun _ _ h => h)
    (fun e x h => (event_status x e).trans h) (fun _ _ h _ _ hst => hst.trans h)
    (fun _ _ h _ => h) (fun _ _ h => h) t ht w rfl

theorem madeBy_running (h : MadeBy policy copier prev j) : j.state = .running := by
  rcases h with ⟨v, st, start, _, rfl⟩ | ⟨v, _, rfl⟩ <;> rfl

theorem known_made {w : World} (h : JobsKnown w) (hrun : j.state = .running) :
    JobsKnown (w.setJob j.name (some j)) := by
  constructor
  · intro n k hk
    rcases StepRuns.update_some hk with ⟨rfl, rfl⟩ | ⟨_, hk⟩
    · rfl
    · exact h.named n k hk
  · intro n k hk hstate
    rcases StepRuns.update_some hk with ⟨_, rfl⟩ | ⟨_, hk⟩
    · cases hrun.symm.trans hstate
    · exact h.succeeded n k hk hstate

/-- What the history shows of a Job stays so when it grows. -/
def Later (G : List Job → Name → Job → Prop) : Prop :=
  ∀ l l' v j, l <:+ l' → G l v j → G l' v j

/-- What is known of the Jobs during a pass: a property that the pass keeps, and what the
history then shows of a volume's Job that has succeeded. -/
structure Tracks (policy : Policy) (copier : Bool) (prev : List SubVolumeStatus)
    (I : World → Prop) (G : List Job → Name → Job → Prop) : Prop where
  known : ∀ w, I w → JobsKnown w
  keeps : ∀ t, Early policy copier prev t → ∀ w, I w → I (t.apply w)
  jobs : ∀ w v j, I w → w.jobs (ReplicationNames.replJobName policy.name v) = some j →
    j.state = .succeeded → G w.finished v j
  later : Later G

variable {I : World → Prop} {G : List Job → Name → Job → Prop}

theorem early_finished (ht : Early policy copier prev t) {w : World}
    (h : JobsKnown w) : w.finished <:+ (t.apply w).finished := by
  have hfollow {x x' : World} (hx : JobsKnown x ∧ w.finished <:+ x.finished)
      (hf : JobsFollow x x') : JobsKnown x' ∧ w.finished <:+ x'.finished :=
    ⟨hx.1.follow hf, hx.2.trans hf.finished⟩
  have hkeep := early_keeps (I := fun x => JobsKnown x ∧ w.finished <:+ x.finished)
    (fun _ _ hx => hfollow hx (jobsFollow_of_eq _ _ rfl rfl))
    (fun _ _ hx => hfollow hx (follow_event _ hx.1))
    (fun _ _ hx hjobs hfin _ => hfollow hx (jobsFollow_of_eq _ _ hjobs hfin))
    (fun _ _ hx hmade => ⟨known_made hx.1 (madeBy_running hmade), hx.2⟩)
    (fun _ _ hx => hfollow hx jobsFollow_removed) t ht w ⟨h, suffix_refl _⟩
  exact hkeep.2

/-- What the history of Jobs shows stays known. -/
theorem Tracks.and (h : Tracks policy copier prev I G) (P : List Job → Prop)
    (hP : ∀ l l', l <:+ l' → P l → P l') :
    Tracks policy copier prev (fun w => I w ∧ P w.finished) G where
  known w hw := h.known w hw.1
  keeps t ht w hw := ⟨h.keeps t ht w hw.1, hP _ _ (early_finished ht (h.known w hw.1)) hw.2⟩
  jobs w v j hw := h.jobs w v j hw.1
  later := h.later

theorem Tracks.status (h : Tracks policy copier prev I G) (S : Name → PolicyStatus) :
    Tracks policy copier prev (fun w => I w ∧ w.status = S) G where
  known w hw := h.known w hw.1
  keeps t ht w hw := ⟨h.keeps t ht w hw.1, (early_status ht).trans hw.2⟩
  jobs w v j hw := h.jobs w v j hw.1
  later := h.later

theorem Tracks.safe {α : Type} (h : Tracks policy copier prev I G) {p : WorldProg α}
    (hp : Only (Early policy copier prev) p) : Safe I p (fun _ w => I w) I :=
  safe_only hp h.keeps

/-- A Job of the volume's Job name has succeeded, and the history shows the property of it. -/
def Done (policy : Policy) (G : List Job → Name → Job → Prop) (v : Name) (l : List Job) : Prop :=
  ∃ j ∈ l, j.name = ReplicationNames.replJobName policy.name v ∧ j.state = .succeeded ∧ G l v j

theorem done_mono (hG : Later G) {v : Name} (l l' : List Job)
    (hl : l <:+ l') (h : Done policy G v l) : Done policy G v l' := by
  obtain ⟨j, hj, hname, hstate, hshown⟩ := h
  exact ⟨j, hl.subset hj, hname, hstate, hG l l' v j hl hshown⟩

end FilePool.ReplicationJobs
