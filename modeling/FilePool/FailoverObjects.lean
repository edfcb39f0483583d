import FilePool.StepRuns
import FilePool.RewoundFolders

/-!
The objects that a failover makes. The plan takes the name, the claim and the folder of each
volume from the metadata file in the volume's folder on the share. An Execute then makes a
SubVolume, a PersistentVolume and a claim for each volume that the Job reported, and skips those
that exist.
-/
namespace FilePool.FailoverObjects

open UndoFormat UndoNames StepRuns PathNames RewoundFolders Function List Option

/-- The metadata file of a volume's copy. -/
structure Metadata where
  subVolumeName : Name
  pvcName : Name
  pvcNamespace : Name
  subPath : Name
  deriving DecidableEq, Repr

/-- A volume as a Job reports it. -/
structure Volume where
  subVolume : Name
  pvcName : Name
  pvcNamespace : Name
  subPath : Name
  deriving DecidableEq, Repr

/-- A reported volume, with the folder whose metadata and moment it stands for. -/
structure Reported where
  volume : Volume
  used : Name
  deriving DecidableEq, Repr

def pvcsDir : Name := "/pvcs".toList

/-- A folder under pvcs, with what its metadata file says; none when it cannot be read. -/
abbrev Folders := List (Name × Option Metadata)

/-- What the choice of moments says of a folder: whether its volume is failed over, and the moment
that its disk must be rewound to. -/
structure Choice where
  keep : Name → Bool
  rewind : Name → Option Moment

/-- The entry of one folder: the metadata, with the folder of a rewound disk in place of the
folder that the metadata names. -/
def reportOf (choice : Choice) (folder : Name) (m : Metadata) : Reported :=
  let dir := pathJoin pvcsDir folder
  match choice.rewind folder with
  | none => ⟨⟨m.subVolumeName, m.pvcName, m.pvcNamespace, m.subPath⟩, dir⟩
  | some t =>
    ⟨⟨m.subVolumeName, m.pvcName, m.pvcNamespace, rewoundSubPath m.subPath t⟩,
      dir ++ rewindSuffix t⟩

/-- The volumes that the Job reports; a folder without readable metadata is left out. -/
def reports (choice : Choice) (folders : Folders) : List Reported :=
  folders.filterMap fun x =>
    if choice.keep x.1 then x.2.map (reportOf choice x.1) else none

/-- A namespace and a name. -/
abbrev ClaimKey := Name × Name

/-- A PersistentVolume: the server and the path on it, and the claim it is for. -/
structure PV where
  server : Name
  path : Name
  claim : ClaimKey
  deriving DecidableEq, Repr

structure Options where
  server : Name
  exportPath : Name
  namespaceOverride : Name
  deriving DecidableEq, Repr

def pvName (v : Volume) : Name := "dr-".toList ++ v.subVolume

/-- The claim of a volume: the override replaces the namespace of the metadata. -/
def claimOf (o : Options) (v : Volume) : ClaimKey :=
  (if o.namespaceOverride ≠ [] then o.namespaceOverride else v.pvcNamespace, v.pvcName)

def nfsPath (o : Options) (v : Volume) : Name :=
  if o.exportPath ≠ [] then o.exportPath ++ v.subPath else v.subPath

def pvOf (o : Options) (v : Volume) : PV := ⟨o.server, nfsPath o v, claimOf o v⟩

/-- One object to make. -/
inductive Creation
  | subVolume (v : Volume)
  | pv (v : Volume)
  | claim (v : Volume)
  deriving DecidableEq, Repr

/-- What executeOne makes, in its order. -/
def creations (v : Volume) : List Creation := [.subVolume v, .pv v, .claim v]

inductive Progress
  | making
  | done
  | failed
  deriving DecidableEq, Repr

/-- The execution of a Failover whose Job has reported. -/
structure Execution where
  options : Options
  reported : List Reported
  todo : List Creation
  progress : Progress
  deriving DecidableEq, Repr

def startedWith (o : Options) (rs : List Reported) : Execution :=
  ⟨o, rs, rs.flatMap fun r => creations r.volume, .making⟩

structure Cluster where
  subVolumes : Name → Option Bool
  pvs : Name → Option PV
  claims : ClaimKey → Option Name
  admitted : Name → Option (List Name)
  failovers : Name → Option Execution

/-- What others do to the objects of a cluster. -/
inductive Change
  | subVolume (n : Name) (failedOver : Option Bool)
  | pv (n : Name) (pv : Option PV)
  | claim (k : ClaimKey) (volumeName : Option Name)
  deriving DecidableEq, Repr

inductive Event
  | begin (f : Name) (plan : List Name)
  | execute (f : Name) (o : Options) (choice : Choice) (folders : Folders)
  | make (f : Name)
  | callFails (f : Name)
  | finish (f : Name)
  | remove (f : Name)
  | change (c : Change)

def hexOrDash (c : Char) : Bool := ('a' ≤ c && c ≤ 'f') || c.isDigit || c == '-'

/-- The rule for the folder of a SubVolume: a volume's folder, or a rewound one next to it. -/
def subPathRule (path : Name) : Bool :=
  let lead := "/pvcs/pvc-".toList
  let tail := path.drop lead.length
  let id := tail.takeWhile hexOrDash
  let suffix := tail.drop id.length
  let digits := suffix.drop rewindWord.length
  lead.isPrefixOf path && !id.isEmpty &&
    (suffix.isEmpty || (rewindWord.isPrefixOf suffix && !digits.isEmpty &&
      digits.length ≤ 12 && digits.all Char.isDigit))

/-- A create that finds the object there is taken as done. -/
def createObject {K X : Type} [DecidableEq K] (objects : K → Option X) (k : K) (x : X) :
    K → Option X :=
  if (objects k).isSome then objects else update objects k (some x)

def create (o : Options) (s : Cluster) : Creation → Cluster
  | .subVolume v => { s with subVolumes := createObject s.subVolumes v.subVolume true }
  | .pv v => { s with pvs := createObject s.pvs (pvName v) (pvOf o v) }
  | .claim v => { s with claims := createObject s.claims (claimOf o v) (pvName v) }

/-- AlreadyFailedOver: none of the planned volumes has a SubVolume with the failover's label. -/
def begin (f : Name) (plan : List Name) (s : Cluster) : Option Cluster :=
  if plan.any fun n => s.subVolumes n = some true then none
  else some { s with admitted := update s.admitted f (some plan) }

/-- The Job of an admitted Execute has reported volumes of its plan, all in accepted folders. -/
def execute (f : Name) (o : Options) (rs : List Reported) (s : Cluster) : Option Cluster :=
  match s.admitted f, s.failovers f with
  | some plan, none =>
    if rs.all fun r => decide (r.volume.subVolume ∈ plan) && subPathRule r.volume.subPath then
      some { s with failovers := update s.failovers f (some (startedWith o rs)) }
    else none
  | _, _ => none

def make (f : Name) (s : Cluster) : Option Cluster :=
  match s.failovers f with
  | some ⟨o, rs, c :: todo, .making⟩ =>
    let s' := create o s c
    some { s' with failovers := update s.failovers f (some ⟨o, rs, todo, .making⟩) }
  | _ => none

def endWith (p : Progress) (f : Name) (s : Cluster) : Option Cluster :=
  match s.failovers f with
  | some ⟨o, rs, todo, .making⟩ =>
    if p = .done ∧ todo ≠ [] then none
    else some { s with failovers := update s.failovers f (some ⟨o, rs, todo, p⟩) }
  | _ => none

def change (s : Cluster) : Change → Cluster
  | .subVolume n x => { s with subVolumes := update s.subVolumes n x }
  | .pv n x => { s with pvs := update s.pvs n x }
  | .claim k x => { s with claims := update s.claims k x }

def step (s : Cluster) : Event → Option Cluster
  | .begin f plan => begin f plan s
  | .execute f o choice folders => execute f o (reports choice folders) s
  | .make f => make f s
  | .callFails f => endWith .failed f s
  | .finish f => endWith .done f s
  | .remove f => some { s with failovers := update s.failovers f none }
  | .change c => some (change s c)

section Tables

variable {K X : Type} [DecidableEq K] (objects : K → Option X) (k : K) (x : X)

theorem createObject_of_ne {k k' : K} (h : k' ≠ k) : createObject objects k x k' = objects k' := by
  unfold createObject
  split
  · rfl
  · exact update_of_ne h _ _

theorem createObject_self :
    createObject objects k x k = objects k ∨ createObject objects k x k = some x := by
  unfold createObject
  split
  · exact .inl rfl
  · exact .inr (update_self ..)

theorem createObject_isSome : (createObject objects k x k).isSome := by
  unfold createObject
  split
  · assumption
  · rw [update_self]
    rfl

/-- The objects of some volumes: whatever has the name of one is that volume's own, and all are
there that are not pending. -/
structure Filled (objects : K → Option X) (key : Volume → K) (value : Volume → X)
    (pending : Volume → Prop) (vs : List Volume) : Prop where
  right : ∀ v ∈ vs, ∀ x, objects (key v) = some x → x = value v
  made : ∀ v ∈ vs, ¬ pending v → objects (key v) = some (value v)

variable {objects : K → Option X} {key : Volume → K} {value : Volume → X}
  {pending pending' : Volume → Prop} {vs : List Volume}

omit [DecidableEq K] in
theorem Filled.congr {objects' : K → Option X} (h : Filled objects key value pending vs)
    (hkeys : ∀ v ∈ vs, objects' (key v) = objects (key v))
    (hpending : ∀ v, pending v → pending' v) : Filled objects' key value pending' vs where
  right v hv x hx := h.right v hv x (hkeys v hv ▸ hx)
  made v hv hnot := (hkeys v hv).trans (h.made v hv (fun hp => hnot (hpending v hp)))

theorem Filled.create (h : Filled objects key value pending vs)
    (hkeys : ∀ u ∈ vs, ∀ v ∈ vs, key u = key v → u = v) {w : Volume} (hw : w ∈ vs)
    (hpending : ∀ v, pending v → v = w ∨ pending' v) :
    Filled (createObject objects (key w) (value w)) key value pending' vs := by
  have hright : ∀ v ∈ vs, ∀ x, createObject objects (key w) (value w) (key v) = some x →
      x = value v := by
    intro v hv x hx
    by_cases hkey : key v = key w
    · obtain rfl := hkeys v hv w hw hkey
      rcases createObject_self objects (key v) (value v) with hold | hnew
      · exact h.right v hv x (hold ▸ hx)
      · rw [hnew] at hx
        exact (Option.some.inj hx).symm
    · rw [createObject_of_ne _ _ hkey] at hx
      exact h.right v hv x hx
  refine ⟨hright, fun v hv hnot => ?_⟩
  by_cases hkey : key v = key w
  · obtain rfl := hkeys v hv w hw hkey
    obtain ⟨y, hy⟩ := isSome_iff_exists.mp (createObject_isSome objects (key v) (value v))
    rw [hy, hright v hv y hy]
  · rw [createObject_of_ne _ _ hkey]
    refine h.made v hv (fun hp => ?_)
    rcases hpending v hp with rfl | hp'
    · exact hkey rfl
    · exact hnot hp'

end Tables

def Creation.volume : Creation → Volume
  | .subVolume v => v
  | .pv v => v
  | .claim v => v

def Execution.volumes (e : Execution) : List Volume := e.reported.map Reported.volume

/-- The state of the objects of an execution that has not failed. -/
structure Right (pvs : Name → Option PV) (claims : ClaimKey → Option Name) (e : Execution) :
    Prop where
  own : ∀ r ∈ e.reported, r.volume.subPath = r.used
  pvNames : (e.volumes.map pvName).Nodup
  claimNames : (e.volumes.map (claimOf e.options)).Nodup
  todo : ∀ c ∈ e.todo, c.volume ∈ e.volumes
  pvs : Filled pvs pvName (pvOf e.options) (fun v => .pv v ∈ e.todo) e.volumes
  claims : Filled claims (claimOf e.options) pvName (fun v => .claim v ∈ e.todo) e.volumes
  done : e.progress = .done → e.todo = []

/-- Two executions that name no object in common. -/
def Apart (e e' : Execution) : Prop :=
  ∀ u ∈ e.volumes, ∀ v ∈ e'.volumes,
    pvName u ≠ pvName v ∧ claimOf e.options u ≠ claimOf e'.options v

/-- The Failover is executing or Done. -/
def Cluster.Stands (s : Cluster) (f : Name) (e : Execution) : Prop :=
  s.failovers f = some e ∧ e.progress ≠ .failed

structure Kept (s : Cluster) : Prop where
  right : ∀ f e, s.Stands f e → Right s.pvs s.claims e
  apart : ∀ f g e e', f ≠ g → s.Stands f e → s.Stands g e' → Apart e e'

/-- Each metadata file names the folder it is in, and no folder that is to be rewound is named as
a rewound one already. -/
def OwnFolders (choice : Choice) (folders : Folders) : Prop :=
  ∀ folder m, (folder, some m) ∈ folders →
    '/' ∉ folder ∧ m.subPath = pathJoin pvcsDir folder ∧
      ∀ t, choice.rewind folder = some t → hasSuffix m.subPath (rewindSuffix t) = false

/-- The volumes of an execution have claims and PersistentVolumes of their own: no two of them
share a name, and what exists under such a name is already as the execution would make it. -/
structure Unclaimed (s : Cluster) (e : Execution) : Prop where
  pvNames : (e.volumes.map pvName).Nodup
  claimNames : (e.volumes.map (claimOf e.options)).Nodup
  pvs : ∀ v ∈ e.volumes, ∀ x, s.pvs (pvName v) = some x → x = pvOf e.options v
  claims : ∀ v ∈ e.volumes, ∀ x, s.claims (claimOf e.options v) = some x → x = pvName v

/-- An Execute starts with metadata that names its own folders, with claims and volumes of its
own, and apart from the Failovers that are executing or Done. Nobody else changes the claims and
volumes of those. -/
def Fitting (s : Cluster) : Event → Prop
  | .execute _ o choice folders =>
    OwnFolders choice folders ∧ Unclaimed s (startedWith o (reports choice folders)) ∧
      ∀ g e, s.Stands g e → Apart (startedWith o (reports choice folders)) e
  | .change (.pv n _) => ∀ g e, s.Stands g e → ∀ v ∈ e.volumes, pvName v ≠ n
  | .change (.claim k _) => ∀ g e, s.Stands g e → ∀ v ∈ e.volumes, claimOf e.options v ≠ k
  | _ => True

variable {e e' : Execution} {rs : List Reported} {c : Creation} {todo : List Creation}
  {s s' : Cluster}

theorem Apart.symm (h : Apart e e') : Apart e' e :=
  fun u hu v hv => ⟨(h v hv u hu).1.symm, (h v hv u hu).2.symm⟩

/-- A volume is reported with the folder that its metadata and moment are of. -/
theorem reports_own (choice : Choice) (folders : Folders) (h : OwnFolders choice folders) :
    ∀ r ∈ reports choice folders, r.volume.subPath = r.used := by
  intro r hr
  obtain ⟨⟨folder, m⟩, hmem, hreport⟩ := mem_filterMap.mp hr
  split at hreport
  · obtain ⟨m, rfl, rfl⟩ := map_eq_some_iff.mp hreport
    obtain ⟨-, hpath, hrewind⟩ := h folder m hmem
    unfold reportOf
    cases ht : choice.rewind folder with
    | none => exact hpath
    | some t =>
      have hnew := hrewind t ht
      rw [hpath] at hnew
      rw [hpath]
      exact rewoundSubPath_eq (p := pvcsDir ++ '/' :: folder) rfl hnew
  · cases hreport

theorem startedWith_right (o : Options) (s : Cluster)
    (hown : ∀ r ∈ rs, r.volume.subPath = r.used) (hfree : Unclaimed s (startedWith o rs)) :
    Right s.pvs s.claims (startedWith o rs) := by
  have hall : ∀ v ∈ (startedWith o rs).volumes, ∀ c ∈ creations v,
      c ∈ (startedWith o rs).todo := by
    intro v hv c hc
    obtain ⟨r, hr, rfl⟩ := mem_map.mp hv
    exact mem_flatMap.mpr ⟨r, hr, hc⟩
  refine ⟨hown, hfree.pvNames, hfree.claimNames, ?_, ⟨hfree.pvs, ?_⟩, ⟨hfree.claims, ?_⟩, nofun⟩
  · intro c hc
    obtain ⟨r, hr, hcr⟩ := mem_flatMap.mp hc
    have hvolume : c.volume = r.volume := by
      simp only [creations, mem_cons, not_mem_nil, or_false] at hcr
      rcases hcr with rfl | rfl | rfl <;> rfl
    exact hvolume ▸ mem_map_of_mem hr
  · intro v hv hnot
    exact absurd (hall v hv (.pv v) (by simp [creations])) hnot
  · intro v hv hnot
    exact absurd (hall v hv (.claim v) (by simp [creations])) hnot

theorem mem_todo {d : Creation} (h : d ∈ c :: todo) : c = d ∨ d ∈ todo :=
  (mem_cons.mp h).imp_left Eq.symm

theorem Right.make_next {o : Options} (h : Right s.pvs s.claims ⟨o, rs, c :: todo, .making⟩) :
    Right (create o s c).pvs (create o s c).claims ⟨o, rs, todo, .making⟩ := by
  have hc := h.todo c mem_cons_self
  refine ⟨h.own, h.pvNames, h.claimNames, fun d hd => h.todo d (mem_cons_of_mem c hd),
    ?_, ?_, nofun⟩
  · cases c with
    | subVolume _ | claim _ =>
      exact h.pvs.congr (fun _ _ => rfl) fun v hv => (mem_todo hv).resolve_left nofun
    | pv w =>
      refine h.pvs.create (fun _ hu _ hv => inj_on_of_nodup_map h.pvNames hu hv) hc fun v hv => ?_
      exact (mem_todo hv).imp_left fun heq => (Creation.pv.inj heq).symm
  · cases c with
    | subVolume w =>
      exact h.claims.congr (fun _ _ => rfl) fun v hv => (mem_todo hv).resolve_left nofun
    | pv w => exact h.claims.congr (fun _ _ => rfl) fun v hv => (mem_todo hv).resolve_left nofun
    | claim w =>
      refine h.claims.create (fun _ hu _ hv => inj_on_of_nodup_map h.claimNames hu hv) hc
        fun v hv => ?_
      exact (mem_todo hv).imp_left fun heq => (Creation.claim.inj heq).symm

/-- Nothing that has a name of the execution was touched. -/
theorem Right.congr (h : Right s.pvs s.claims e)
    (hpvs : ∀ v ∈ e.volumes, s'.pvs (pvName v) = s.pvs (pvName v))
    (hclaims : ∀ v ∈ e.volumes, s'.claims (claimOf e.options v) = s.claims (claimOf e.options v)) :
    Right s'.pvs s'.claims e :=
  ⟨h.own, h.pvNames, h.claimNames, h.todo, h.pvs.congr hpvs fun _ hv => hv,
    h.claims.congr hclaims fun _ hv => hv, h.done⟩

theorem Right.made_by_other (h : Right s.pvs s.claims e')
    (hapart : Apart e e') (hc : c.volume ∈ e.volumes) :
    Right (create e.options s c).pvs (create e.options s c).claims e' := by
  cases c with
  | subVolume w => exact h
  | pv w =>
    refine h.congr (fun v hv => ?_) (fun _ _ => rfl)
    exact createObject_of_ne _ _ (hapart w hc v hv).1.symm
  | claim w =>
    refine h.congr (fun _ _ => rfl) (fun v hv => ?_)
    exact createObject_of_ne _ _ (hapart w hc v hv).2.symm

theorem Kept.put {f : Name} (hs : Kept s)
    (hfailovers : s'.failovers = update s.failovers f (some e))
    (hapart : ∀ g e', g ≠ f → s.Stands g e' → Apart e e')
    (hright : e.progress ≠ .failed → Right s'.pvs s'.claims e)
    (hothers : ∀ g e', g ≠ f → s.Stands g e' → Right s'.pvs s'.claims e') : Kept s' := by
  have hstands : ∀ g e', s'.Stands g e' →
      (g = f ∧ e' = e ∧ e.progress ≠ .failed) ∨ (g ≠ f ∧ s.Stands g e') := by
    rintro g e' ⟨hg, hlive⟩
    rw [hfailovers] at hg
    rcases update_some hg with ⟨rfl, rfl⟩ | ⟨hne, hg⟩
    · exact .inl ⟨rfl, rfl, hlive⟩
    · exact .inr ⟨hne, hg, hlive⟩
  constructor
  · intro g e' hg
    rcases hstands g e' hg with ⟨-, rfl, hlive⟩ | ⟨hne, hg⟩
    · exact hright hlive
    · exact hothers g e' hne hg
  · intro g k e' e'' hne hg hk
    rcases hstands g e' hg with ⟨rfl, rfl, -⟩ | ⟨hgf, hg⟩ <;>
      rcases hstands k e'' hk with ⟨rfl, rfl, -⟩ | ⟨hkf, hk⟩
    · exact absurd rfl hne
    · exact hapart k e'' hkf hk
    · exact (hapart g e' hgf hg).symm
    · exact hs.apart g k e' e'' hne hg hk

theorem Kept.execute_new (hs : Kept s) (f : Name) (o : Options) (choice : Choice)
    (folders : Folders) (hfit : Fitting s (.execute f o choice folders))
    (h : execute f o (reports choice folders) s = some s') : Kept s' := by
  obtain ⟨hown, hfree, hapart⟩ := hfit
  unfold execute at h
  split at h
  · obtain ⟨-, ⟨⟩⟩ := ite_none_right_eq_some.mp h
    exact hs.put rfl (fun g e _ hg => hapart g e hg)
      (fun _ => startedWith_right o s (reports_own choice folders hown) hfree)
      (fun g e _ hg => hs.right g e hg)
  · cases h

theorem Kept.make_object (hs : Kept s) (f : Name) (h : make f s = some s') :
    Kept s' := by
  unfold make at h
  split at h
  · rename_i o rs c todo hf
    cases h
    have hstands : s.Stands f ⟨o, rs, c :: todo, .making⟩ := ⟨hf, nofun⟩
    have hright := hs.right f _ hstands
    have hapart : ∀ g e', g ≠ f → s.Stands g e' → Apart ⟨o, rs, c :: todo, .making⟩ e' :=
      fun g e' hne hg => hs.apart f g _ e' hne.symm hstands hg
    refine hs.put rfl hapart (fun _ => hright.make_next) (fun g e' hne hg => ?_)
    exact (hs.right g e' hg).made_by_other (hapart g e' hne hg) (hright.todo c mem_cons_self)
  · cases h

theorem Kept.end_with (hs : Kept s) (p : Progress) (f : Name)
    (h : endWith p f s = some s') : Kept s' := by
  unfold endWith at h
  split at h
  · rename_i o rs todo hf
    obtain ⟨hend, ⟨⟩⟩ := ite_none_left_eq_some.mp h
    have hstands : s.Stands f ⟨o, rs, todo, .making⟩ := ⟨hf, nofun⟩
    have hright := hs.right f _ hstands
    refine hs.put rfl
      (fun g e' hne hg => hs.apart f g ⟨o, rs, todo, .making⟩ e' hne.symm hstands hg)
      (fun _ => ?_) (fun g e' _ hg => hs.right g e' hg)
    refine ⟨hright.own, hright.pvNames, hright.claimNames, hright.todo, hright.pvs,
      hright.claims, fun hdone => ?_⟩
    by_contra hne
    exact hend ⟨hdone, hne⟩
  · cases h

theorem Kept.change_other (hs : Kept s) (c : Change)
    (hfit : Fitting s (.change c)) : Kept (change s c) := by
  refine ⟨fun f e hf => ?_, by cases c <;> exact hs.apart⟩
  cases c with
  | subVolume n x => exact hs.right f e hf
  | pv n x =>
    refine (hs.right f e hf).congr (fun v hv => ?_) (fun _ _ => rfl)
    exact update_of_ne (hfit f e hf v hv) _ _
  | claim k x =>
    refine (hs.right f e hf).congr (fun _ _ => rfl) (fun v hv => ?_)
    exact update_of_ne (hfit f e hf v hv) _ _

theorem step_kept (s : Cluster) (e : Event) (s' : Cluster) (hfit : Fitting s e) (hs : Kept s)
    (h : step s e = some s') : Kept s' := by
  cases e with
  | begin f plan =>
    obtain ⟨-, ⟨⟩⟩ := ite_none_left_eq_some.mp h
    exact ⟨hs.right, hs.apart⟩
  | execute f o choice folders => exact hs.execute_new f o choice folders hfit h
  | make f => exact hs.make_object f h
  | callFails f => exact hs.end_with .failed f h
  | finish f => exact hs.end_with .done f h
  | remove f =>
    cases h
    have hstood : ∀ {g e}, update s.failovers f none g = some e ∧ e.progress ≠ .failed →
        s.Stands g e := fun hg => ⟨(update_none_some hg.1).2, hg.2⟩
    exact ⟨fun g e hg => hs.right g e (hstood hg),
      fun g k e e' hne hg hk => hs.apart g k e e' hne (hstood hg) (hstood hk)⟩
  | change c =>
    cases h
    exact hs.change_other c hfit

/-- A Done Failover gave each volume a claim of its own, bound to the volume's own
PersistentVolume, which points at the reported folder; that folder is the one whose metadata and
moment the plan used. -/
structure WellBound (s : Cluster) (e : Execution) : Prop where
  claims : ∀ r ∈ e.reported, s.claims (claimOf e.options r.volume) = some (pvName r.volume)
  pvs : ∀ r ∈ e.reported, s.pvs (pvName r.volume) =
    some ⟨e.options.server, nfsPath e.options r.volume, claimOf e.options r.volume⟩
  folders : ∀ r ∈ e.reported, r.volume.subPath = r.used
  apart : (e.reported.map fun r => claimOf e.options r.volume).Nodup

theorem done_failovers_are_well_bound (s₀ s : Cluster) (hnone : ∀ f, s₀.failovers f = none)
    (hrun : Run step Fitting s₀ s) (f : Name) (e : Execution) (hf : s.failovers f = some e)
    (hdone : e.progress = .done) : WellBound s e := by
  have hno : ∀ g e, ¬ s₀.Stands g e := fun g e hg => nomatch (hnone g).symm.trans hg.1
  have hstart : Kept s₀ :=
    ⟨fun g e hg => absurd hg (hno g e), fun g _ e _ _ hg => absurd hg (hno g e)⟩
  have hkept : Kept s := hrun.keeps step_kept hstart
  have hright := hkept.right f e ⟨hf, by rw [hdone]; nofun⟩
  have htodo := hright.done hdone
  refine ⟨fun r hr => ?_, fun r hr => ?_, hright.own, ?_⟩
  · exact hright.claims.made r.volume (mem_map_of_mem hr) (by simp [htodo])
  · exact hright.pvs.made r.volume (mem_map_of_mem hr) (by simp [htodo])
  · have hnames := hright.claimNames
    rwa [Execution.volumes, List.map_map] at hnames

def emptyCluster : Cluster :=
  ⟨fun _ => none, fun _ => none, fun _ => none, fun _ => none, fun _ => none⟩

def metadataIn (folder ns : String) : Metadata :=
  ⟨folder.toList, "data".toList, ns.toList, "/pvcs/".toList ++ folder.toList⟩

/-- Two copies, whose claims have one name in two namespaces. -/
def twoFolders : Folders :=
  [("pvc-1".toList, some (metadataIn "pvc-1" "shop")),
   ("pvc-2".toList, some (metadataIn "pvc-2" "bank"))]

def keepAll : Choice := ⟨fun _ => true, fun _ => none⟩

def executeTwo (override : Name) : List Event :=
  let f := "f".toList
  [.begin f ["pvc-1".toList, "pvc-2".toList],
   .execute f ⟨"10.0.0.1".toList, "/export".toList, override⟩ keepAll twoFolders,
   .make f, .make f, .make f, .make f, .make f, .make f, .finish f]

def secondVolume : Volume :=
  ⟨"pvc-2".toList, "data".toList, "bank".toList, "/pvcs/pvc-2".toList⟩

/-- An override that merges the namespaces: the claim of the second volume is the first one's. -/
theorem merged_namespaces_share_claim :
    ∃ s e, Run step (fun _ _ => True) emptyCluster s ∧ s.failovers "f".toList = some e ∧
      e.progress = .done ∧ secondVolume ∈ e.volumes ∧
        s.claims (claimOf e.options secondVolume) = some "dr-pvc-1".toList :=
  free_run_some (executeTwo "dr".toList) emptyCluster (by decide +kernel)

/-- The events that fit every state. -/
def alwaysFits : Event → Bool
  | .execute .. => false
  | .change (.pv ..) => false
  | .change (.claim ..) => false
  | _ => true

theorem fitting_of_alwaysFits (s : Cluster) (e : Event) (h : alwaysFits e = true) :
    Fitting s e := by
  cases e with
  | execute f o choice folders => cases h
  | change c =>
    cases c with
    | pv n x => cases h
    | claim k x => cases h
    | subVolume n x => trivial
  | _ => trivial

theorem ownFolders_two : OwnFolders keepAll twoFolders := by
  intro folder m hmem
  simp only [twoFolders, mem_cons, not_mem_nil, or_false] at hmem
  rcases hmem with ⟨rfl, rfl⟩ | ⟨rfl, rfl⟩
  · exact ⟨by decide, by decide, nofun⟩
  · exact ⟨by decide, by decide, nofun⟩

/-- The cluster once the Execute of the two copies is admitted. -/
def admittedCluster : Cluster :=
  { emptyCluster with
    admitted := update (fun _ => none) "f".toList (some ["pvc-1".toList, "pvc-2".toList]) }

theorem execute_two_fits (f : Name) :
    Fitting admittedCluster
      (.execute f ⟨"10.0.0.1".toList, "/export".toList, []⟩ keepAll twoFolders) := by
  refine ⟨ownFolders_two, ⟨by decide +kernel, by decide +kernel, nofun, nofun⟩, ?_⟩
  rintro g e ⟨hg, -⟩
  cases hg

/-- Without the override the two claims are apart, and the run fits. -/
theorem two_namespaces_well_bound :
    ∃ s : Cluster, ∃ e, s.failovers "f".toList = some e ∧ e.progress = .done ∧
      secondVolume ∈ e.volumes ∧ WellBound s e := by
  have hany : (((step admittedCluster
        (.execute "f".toList ⟨"10.0.0.1".toList, "/export".toList, []⟩ keepAll twoFolders)).bind
      (steps step (fun _ => alwaysFits) ((executeTwo []).drop 2))).any fun s =>
        (s.failovers "f".toList).any fun e =>
          decide (e.progress = .done ∧ secondVolume ∈ e.volumes)) = true := by
    decide +kernel
  obtain ⟨s, hs, htest⟩ := (any_eq_true _ _).mp hany
  obtain ⟨e, he, htest⟩ := (any_eq_true _ _).mp htest
  obtain ⟨hdone, hmem⟩ := of_decide_eq_true htest
  obtain ⟨s₂, hexecute, hrest⟩ := bind_eq_some_iff.mp hs
  have hrun : Run step Fitting admittedCluster s :=
    (Run.next _ .start (execute_two_fits _) hexecute).trans
      (run_steps fitting_of_alwaysFits _ _ _ hrest)
  exact ⟨s, e, he, hdone, hmem,
    done_failovers_are_well_bound admittedCluster s (fun _ => rfl) hrun _ e he hdone⟩

end FilePool.FailoverObjects
