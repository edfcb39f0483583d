import FilePool.StepRuns
import FilePool.UndoNames

/-!
The migration of a claim to the pool driver. The call makes the claim that it copies into, or
takes the claim of that name, makes a pod that copies, and reports the phase of the pod that it
finds under the pod's name. The names come from the source's name and are cut at 253 letters.
Between the requests of the call others change the namespace, other migrations among them.
-/
namespace FilePool.Migrations

open UndoNames Function Option

/-- A claim, with the source that its annotation tells. -/
structure Claim where
  bound : Bool
  sourcePVC : Option Name
  deriving DecidableEq, Repr

inductive PodPhase
  | pending
  | running
  | succeeded
  | failed
  deriving DecidableEq, Repr

/-- A pod that copies from one claim to the other. The call may have made it itself. -/
structure Pod where
  own : Bool
  sourcePVC : Name
  targetPVC : Name
  phase : PodPhase
  deriving DecidableEq, Repr

structure Cluster where
  claims : Name → Option Claim
  pods : Name → Option Pod

/-- The claim that the call's pod has copied into, and the pod whose success is reported; a dry
run reports a success without a pod. -/
structure Outcome where
  into : Option Claim
  success : Option (Option Pod)
  deriving DecidableEq, Repr

def targetPVCName (source : Name) : Name := (source ++ "-pooled".toList).take 253

def migrationPodName (source : Name) : Name := ("migrate-".toList ++ source).take 253

def buildTargetPVC (source : Name) : Claim := ⟨false, some source⟩

def buildMigrationPod (source : Name) : Pod := ⟨true, source, targetPVCName source, .pending⟩

/-- A claim of the target's name is used as it is. -/
def createTarget (source : Name) (w : Cluster) : Cluster :=
  if (w.claims (targetPVCName source)).isSome then w
  else { w with claims := update w.claims (targetPVCName source) (some (buildTargetPVC source)) }

def createPod (source : Name) (w : Cluster) : Cluster :=
  { w with pods := update w.pods (migrationPodName source) (some (buildMigrationPod source)) }

/-- The times at which the namespace matters: the requests of the call, and the start of its pod. -/
inductive Time
  | get
  | createTarget
  | bound
  | createPod
  | podStarts
  | podRunning
  | podComplete
  deriving DecidableEq, Repr

/-- What the call's own pod copies into once it starts. -/
def mounted (source : Name) (w : Cluster) : Option Claim :=
  ((w.pods (migrationPodName source)).filter Pod.own).bind (fun p => w.claims p.targetPVC)

/-- The pod is looked up by its name. -/
def waitForPodComplete (source : Name) (w : Cluster) : Option (Option Pod) :=
  ((w.pods (migrationPodName source)).filter (fun p => p.phase = .succeeded)).map some

/-- The call in a namespace that is, at each time, as others have left it; every request can
fail. -/
def execute (source : Name) (dryRun : Bool) (fails : Time → Bool) (w : Time → Cluster) : Outcome :=
  if fails .get || !((w .get).claims source).any Claim.bound then ⟨none, none⟩
  else if dryRun then ⟨none, some none⟩
  else if fails .createTarget || fails .bound ||
      !((w .bound).claims (targetPVCName source)).any Claim.bound then ⟨none, none⟩
  else if fails .createPod || ((w .createPod).pods (migrationPodName source)).isSome then
    ⟨none, none⟩
  else
    ⟨mounted source (w .podStarts),
      if fails .podRunning || fails .podComplete || !((w .podRunning).pods (migrationPodName
        source)).any (fun p => p.phase = .running || p.phase = .succeeded) then none
      else waitForPodComplete source (w .podComplete)⟩

/-- Others make no claim of the target's name for another source. -/
def KeepsTarget (source : Name) (w w' : Cluster) : Prop :=
  ∀ c, w'.claims (targetPVCName source) = some c → c.sourcePVC = some source ∨
    ∃ d, w.claims (targetPVCName source) = some d ∧ d.sourcePVC = c.sourcePVC

/-- Others make no pod of the pod's name; it runs, ends and goes. -/
def KeepsPod (source : Name) (w w' : Cluster) : Prop :=
  ∀ p, w'.pods (migrationPodName source) = some p →
    ∃ q, w.pods (migrationPodName source) = some q ∧ p = { q with phase := p.phase }

/-- A claim that has the target's name at first was made for the source; afterwards others leave
the names of the target and of the pod alone. -/
structure Undisturbed (source : Name) (w : Time → Cluster) : Prop where
  free : ∀ c, (w .createTarget).claims (targetPVCName source) = some c → c.sourcePVC = some source
  bound : KeepsTarget source (createTarget source (w .createTarget)) (w .bound)
  created : KeepsTarget source (w .bound) (w .createPod)
  starts : KeepsTarget source (createPod source (w .createPod)) (w .podStarts)
  started : KeepsPod source (createPod source (w .createPod)) (w .podStarts)
  runs : KeepsPod source (w .podStarts) (w .podRunning)
  ends : KeepsPod source (w .podRunning) (w .podComplete)

/-- The call copies only into a claim that was made for its source and is another one, and reports
only the success of the pod that it has made for them. -/
def Safe (source : Name) (o : Outcome) : Prop :=
  (∀ c, o.into = some c → c.sourcePVC = some source ∧ targetPVCName source ≠ source) ∧
    ∀ r, o.success = some r → ∃ p, r = some p ∧ p.own = true ∧ p.sourcePVC = source ∧
      p.targetPVC = targetPVCName source ∧ p.phase = .succeeded

variable {source : Name} {w w' : Cluster} {p : Pod} {fails : Time → Bool}

/-- The target has the name of the source exactly where the cut takes all that was added. -/
theorem targetPVCName_eq_iff (h : source.length ≤ 253) :
    targetPVCName source = source ↔ source.length = 253 := by
  have hpooled : "-pooled".toList.length = 7 := rfl
  refine ⟨fun heq => ?_, fun hlen => ?_⟩
  · have hlen := congrArg List.length heq
    simp only [targetPVCName, List.length_take, List.length_append] at hlen
    omega
  · rw [targetPVCName, List.take_append_of_le_length (by omega), List.take_of_length_le (by omega)]

theorem KeepsTarget.made (h : KeepsTarget source w w')
    (hmade : ∀ c, w.claims (targetPVCName source) = some c → c.sourcePVC = some source) :
    ∀ c, w'.claims (targetPVCName source) = some c → c.sourcePVC = some source := by
  intro c hc
  obtain hfor | ⟨d, hd, heq⟩ := h c hc
  · exact hfor
  · exact heq.symm.trans (hmade d hd)

theorem createTarget_made
    (h : ∀ c, w.claims (targetPVCName source) = some c → c.sourcePVC = some source) :
    ∀ c, (createTarget source w).claims (targetPVCName source) = some c →
      c.sourcePVC = some source := by
  unfold createTarget
  split
  · exact h
  · intro c hc
    simp only [update_self] at hc
    cases hc
    rfl

/-- The pod of the call, but for its phase. -/
theorem KeepsPod.made (h : KeepsPod source w w')
    (hmade : ∀ p, w.pods (migrationPodName source) = some p →
      p = { buildMigrationPod source with phase := p.phase }) :
    ∀ p, w'.pods (migrationPodName source) = some p →
      p = { buildMigrationPod source with phase := p.phase } := by
  intro p hp
  obtain ⟨q, hq, heq⟩ := h p hp
  rw [heq, hmade q hq]

/-- In a namespace where others leave the names of its target and its pod alone, a call that is no
dry run, for a source with a name of less than 253 letters, is safe. -/
theorem migration_safe (source : Name) (fails : Time → Bool) (w : Time → Cluster)
    (hlen : source.length < 253) (h : Undisturbed source w) :
    Safe source (execute source false fails w) := by
  have htarget := h.starts.made (h.created.made (h.bound.made (createTarget_made h.free)))
  have hpod := h.started.made (fun p hp => by
    simp only [createPod, update_self] at hp
    cases hp
    rfl)
  have hne : targetPVCName source ≠ source :=
    fun heq => hlen.ne ((targetPVCName_eq_iff hlen.le).mp heq)
  unfold execute
  split
  · exact ⟨nofun, nofun⟩
  rw [if_neg nofun]
  split
  · exact ⟨nofun, nofun⟩
  split
  · exact ⟨nofun, nofun⟩
  · refine ⟨fun c hc => ⟨?_, hne⟩, fun r hr => ?_⟩
    · obtain ⟨p, hp, hc⟩ := bind_eq_some_iff.mp hc
      have hown := hpod p (filter_eq_some_iff.mp hp).1
      rw [hown] at hc
      exact htarget c hc
    · obtain ⟨_, hr⟩ := ite_none_left_eq_some.mp hr
      obtain ⟨p, hp, rfl⟩ := map_eq_some_iff.mp hr
      obtain ⟨hp, hphase⟩ := filter_eq_some_iff.mp hp
      have hown := h.ends.made (h.runs.made hpod) p hp
      refine ⟨p, rfl, ?_, ?_, ?_, by simpa using hphase⟩
      all_goals rw [hown]; rfl

/-- A migration of another source, whose names differ, leaves the target and the pod alone. -/
theorem keeps_of_other {other : Name} (htarget : targetPVCName other ≠ targetPVCName source)
    (hpod : migrationPodName other ≠ migrationPodName source) :
    KeepsTarget source w (createTarget other w) ∧ KeepsPod source w (createPod other w) := by
  refine ⟨fun c hc => .inr ⟨c, ?_, rfl⟩, fun p hp => ⟨p, ?_, rfl⟩⟩
  · unfold createTarget at hc
    split at hc
    · exact hc
    · simpa [update_of_ne htarget.symm] using hc
  · simpa [createPod, update_of_ne hpod.symm] using hp

/-- A namespace with the source, and what has the names of the target and of the pod. -/
def holding (source : Name) (target : Option Claim) (pod : Option Pod) : Cluster :=
  ⟨fun n => if n = targetPVCName source then target
    else if n = source then some ⟨true, none⟩ else none,
    fun n => if n = migrationPodName source then pod else none⟩

/-- The namespace of a call that meets its own pod, but for the claim that has the target's name
at first and the pod that is found at the end. -/
def meeting (source : Name) (target : Option Claim) (found : Pod) : Time → Cluster
  | .get | .createTarget => holding source target none
  | .bound | .createPod => holding source (some (bound source target)) none
  | .podComplete => holding source (some (bound source target)) (some found)
  | _ => holding source (some (bound source target))
    (some { buildMigrationPod source with phase := .running })
where
  bound (source : Name) (target : Option Claim) : Claim :=
    { target.getD (buildTargetPVC source) with bound := true }

def ended (source : Name) (own : Bool) : Pod := ⟨own, source, targetPVCName source, .succeeded⟩

/-- A source whose name has 253 letters is copied into itself; a claim that others made is copied
into; the success of a pod that another call has made is reported; a dry run reports success. -/
theorem migration_unsafe :
    (let source := List.replicate 253 'a'
     targetPVCName source = source ∧ (execute source false (fun _ => false)
      (meeting source (some ⟨true, none⟩) (ended source true))).into = some ⟨true, none⟩) ∧
    (execute ['a'] false (fun _ => false) (meeting ['a'] (some ⟨true, some ['b']⟩)
      (ended ['a'] true))).into = some ⟨true, some ['b']⟩ ∧
    (execute ['a'] false (fun _ => false)
      (meeting ['a'] none (ended ['a'] false))).success = some (ended ['a'] false) ∧
    (execute ['a'] true (fun _ => false)
      (meeting ['a'] none (ended ['a'] true))).success = some none := by
  decide +kernel

/-- A call makes its target, copies and succeeds. -/
theorem migration_safe_once : ∃ w, (w .createTarget).claims (targetPVCName ['a']) = none ∧
    (execute ['a'] false (fun _ => false) w).success ≠ none ∧
      Safe ['a'] (execute ['a'] false (fun _ => false) w) := by
  have hfor (t : Time) (c : Claim) (ht : t = .bound ∨ t = .createPod ∨ t = .podStarts)
      (hc : (meeting ['a'] none (ended ['a'] true) t).claims (targetPVCName ['a']) = some c) :
      c.sourcePVC = some ['a'] := by
    rcases ht with rfl | rfl | rfl <;> cases hc <;> rfl
  refine ⟨meeting ['a'] none (ended ['a'] true), rfl, by decide,
    migration_safe ['a'] (fun _ => false) _ (by decide) ⟨by rintro _ ⟨⟩,
      fun c hc => .inl (hfor .bound c (.inl rfl) hc),
      fun c hc => .inl (hfor .createPod c (.inr (.inl rfl)) hc),
      fun c hc => .inl (hfor .podStarts c (.inr (.inr rfl)) hc), ?_, ?_, ?_⟩⟩
  all_goals
    rintro p ⟨⟩
    exact ⟨_, rfl, rfl⟩

end FilePool.Migrations
