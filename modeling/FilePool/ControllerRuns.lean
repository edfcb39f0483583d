import FilePool.ReplicationJobs

/-!
Runs of the replication controller. A pass takes the policies in turn; others act before
and during each turn. The controller can stop at any step of a turn; it then forgets what
it keeps in memory, and goes on from the stored statuses.
-/
namespace FilePool.ControllerRuns

open UndoNames DurableSteps ReplicationStatus ReplicationWorld Function ReplicationCalls CallRules
  VMCopyPass PolicyPass PassSteps ReplicationJobs Prog

/-- The policies of the controller, and whether it can copy running VMs' disks. -/
structure Config where
  policies : List Policy
  copier : Bool
  nodup : (policies.map Policy.name).Nodup

def emptyStatus : PolicyStatus := ⟨.unset, none, 0, [], []⟩

/-- Nothing has happened yet. -/
def initial : World where
  script := []
  jobs := fun _ => none
  finished := []
  reports := fun _ _ => []
  pods := []
  moving := fun _ => false
  staging := fun _ _ => none
  writes := fun _ => []
  far := fun _ _ => ⟨false, zeros, none, []⟩
  volumes := fun _ => []
  status := fun _ => emptyStatus
  paused := fun _ => false

abbrev Memories := Name → Memory

def forgotten : Memories := fun _ => Memory.empty

variable (cfg : Config)

/-- The turn of a policy: what the controller does with the status it has read. -/
def turn (policy : Policy) (m : Memories) (paused : Bool) (s : PolicyStatus) : WorldProg Memory :=
  processOne policy cfg.copier (m policy.name) s paused

/-- The turn of a policy, ended or stopped. -/
inductive Taken (policy : Policy) (paused : Bool) (w : World) (m : Memories) :
    World → Memories → Prop
  | ended (m' : Memory)
    (hend : (turn cfg policy m paused (w.status policy.name)).result w = .ok m') :
      Taken policy paused w m ((turn cfg policy m paused (w.status policy.name)).exec w)
        (update m policy.name m')
  | stopped {w' : World}
      (hstop : (turn cfg policy m paused (w.status policy.name)).Stopped w w') :
      Taken policy paused w m w' forgotten

/-- One step of a run: others fix how the next calls are answered, or act, or the
controller takes a policy's turn. -/
inductive Next (w : World) (m : Memories) : World → Memories → Prop
  | answers (s : List Answer) : Next w m { w with script := s } m
  | event (e : Event) : Next w m (e.apply w) m
  | taken {w' : World} {m' : Memories} (policy : Policy) (hp : policy ∈ cfg.policies)
      (paused : Bool) (h : Taken cfg policy paused w m w' m') : Next w m w' m'

/-- The states of a run, with what the controller remembers. -/
inductive Run : World → Memories → Prop
  | start : Run initial forgotten
  | next {w w' : World} {m m' : Memories} (h : Run w m) (hn : Next cfg w m w' m') : Run w' m'

variable {cfg} {policy : Policy} {paused : Bool} {w w' : World} {m m' : Memories}

theorem Taken.halted (h : Taken cfg policy paused w m w' m') :
    (turn cfg policy m paused (w.status policy.name)).Stopped w w' := by
  cases h with
  | ended m' _ => exact stopped_exec _ w
  | stopped hstop => exact hstop

/-- A property that every step of a turn keeps holds after the turn. -/
theorem Taken.keeps {I : World → Prop} (h : Taken cfg policy paused w m w' m')
    (hI : ∀ t, TurnStep policy cfg.copier (w.status policy.name).subVolumeStatuses t →
      ∀ x, I x → I (t.apply x)) (hw : I w) : I w' :=
  (safe_only only_processOne hI w hw).2 w' h.halted

end FilePool.ControllerRuns
