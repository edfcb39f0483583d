import FilePool.ShareJobs

/-!
The exports of a policy's backups to a repository in COS. A pass starts an export Job for a
volume with a new backup, follows it, and writes the moment that the Job reports into the
status. Maintenance deletes the exports that began before the keep time. The settings of the
export can change at any time; the status keeps what it has.
-/
namespace FilePool.ExportRecords

open UndoNames StepRuns ShareJobs Function Option

/-- Where a repository is: endpoint, bucket and prefix. -/
structure Repo where
  endpoint : Name
  bucket : Name
  area : Name
  deriving DecidableEq, Repr

/-- The export block of a policy, its schedule and its keep time. -/
structure Settings where
  repo : Repo
  schedule : ℤ
  keep : ℤ
  deriving DecidableEq, Repr

/-- An export, a Kopia snapshot of a backup folder: the moment of the copy that it has, none
if the folder has changed while it was read, and when it began. -/
structure Export where
  volume : Name
  content : Option ℤ
  started : ℤ
  deriving DecidableEq, Repr

/-- What the pod of an export Job does: it sends the backup folder, which it began to read
with a copy in it, or, after that, the folder of the older moments. -/
inductive Sending
  | backup (began content : ℤ)
  | moments
  deriving DecidableEq, Repr

structure MaintenanceJob where
  repo : Repo
  cutoff : ℤ
  deriving DecidableEq, Repr

/-- The policy and its status, the backup folders on the share, the Jobs, which are found by
the names of the policy and the volume and have the repository and the moment that they were
started for, their pods, and what the repositories hold. -/
structure World where
  now : ℤ
  settings : Option Settings
  lastBackup : Name → Option ℤ
  exported : Name → Option ℤ
  folder : Name → Option ℤ
  jobs : Jobs (Repo × ℤ)
  pods : Name → Option Sending
  maintenance : Option MaintenanceJob
  repos : Repo → List Export

/-- A volume has a moment to export now. -/
def exportDue (w : World) (schedule : ℤ) (v : Name) : Bool :=
  match w.lastBackup v with
  | none => false
  | some last =>
    match w.exported v with
    | none => true
    | some e => e < last && (schedule = 0 || schedule ≤ w.now - e)

def saveExported (saved : Bool) (v : Name) (moment : ℤ) (exported : Name → Option ℤ) :
    Name → Option ℤ :=
  if saved then update exported v (some moment) else exported

/-- The export Job of the volume is started, or reported on. A Job that has ended is removed,
and the moment that it reports goes to the status. -/
def exportVolume (calls : Calls) (saved : Bool) (v : Name) (w : World) : Option World :=
  w.settings.bind (fun settings => (w.lastBackup v).bind (fun moment =>
    if !exportDue w settings.schedule v then none
    else
      let answer := runMessages v ⟨v, .exportVolume, settings.repo, moment⟩ calls w.jobs
      match answer.1, w.jobs v with
      | .done, some job =>
        some { w with
          jobs := answer.2
          exported := saveExported saved v job.madeFor.work.2 w.exported }
      | _, _ => some { w with jobs := answer.2 }))

/-- The pod of a running export Job goes on: it begins to send the backup folder, it has sent
it and goes on with the moments, or it ends the Job. -/
def runExport (v : Name) (w : World) : Option World :=
  (w.jobs v).bind (fun job => (w.folder v).bind (fun content =>
    if job.phase ≠ .running then none
    else match w.pods v with
      | none => some { w with pods := update w.pods v (some (.backup w.now content)) }
      | some (.backup began first) =>
        let x : Export := ⟨v, if first = content then some content else none, began⟩
        some { w with
          pods := update w.pods v (some .moments)
          repos := update w.repos job.madeFor.work.1 (x :: w.repos job.madeFor.work.1) }
      | some .moments =>
        some { w with
          jobs := update w.jobs v (some (job.ends true))
          pods := update w.pods v none }))

/-- The pod of a running export Job fails; the Job fails with it or runs it again. -/
def failExport (again : Bool) (v : Name) (w : World) : Option World :=
  (w.jobs v).bind (fun job =>
    if job.phase ≠ .running then none
    else some { w with
      jobs := if again then w.jobs else update w.jobs v (some (job.ends false))
      pods := update w.pods v none })

/-- The maintenance Job deletes the exports that began before its cutoff. -/
def runMaintenance (w : World) : Option World :=
  w.maintenance.map (fun m => { w with
    maintenance := none
    repos := update w.repos m.repo ((w.repos m.repo).filter (fun x => !(x.started < m.cutoff))) })

/-- Time passes; the settings change; copies land in the folders and are reported; a pass
exports a volume, starts the maintenance, or clears the status when there is no export block;
an entry of the status goes; Jobs run. -/
inductive Event
  | tick (d : ℕ)
  | setExport (settings : Option Settings)
  | copy (v : Name) (moment : ℤ)
  | report (v : Name) (moment : ℤ)
  | forget (v : Name)
  | send (v : Name) (calls : Calls) (saved : Bool)
  | maintain
  | clear
  | runExport (v : Name)
  | failExport (v : Name) (again : Bool)
  | stopExport (v : Name)
  | runMaintenance
  deriving DecidableEq, Repr

def step (w : World) : Event → Option World
  | .tick d => some { w with now := w.now + d }
  | .setExport settings => some { w with settings := settings }
  | .copy v moment => some { w with folder := update w.folder v (some moment) }
  | .report v moment => some { w with lastBackup := update w.lastBackup v (some moment) }
  | .forget v => some { w with
      lastBackup := update w.lastBackup v none
      exported := update w.exported v none }
  | .send v calls saved => exportVolume calls saved v w
  | .maintain => w.settings.map (fun settings =>
      { w with maintenance := some ⟨settings.repo, w.now - settings.keep⟩ })
  | .clear => if w.settings = none then some { w with exported := fun _ => none } else none
  | .runExport v => runExport v w
  | .failExport v again => failExport again v w
  | .stopExport v => some { w with
      jobs := update w.jobs v none
      pods := update w.pods v none }
  | .runMaintenance => runMaintenance w

variable {w : World} {w' : World} {v : Name}

def Holds (exports : List Export) (v : Name) (moment : ℤ) : Prop :=
  ∃ x ∈ exports, x.volume = v ∧ x.content = some moment

/-- What the status says of the volumes is true of the repository that the policy names. -/
def Truthful (w : World) : Prop :=
  ∀ settings, w.settings = some settings → ∀ v t, w.exported v = some t →
    Holds (w.repos settings.repo) v t

/-- The place of the exports stays, or nothing has been exported and no Job is left. -/
def SamePlace (w : World) (settings : Settings) : Prop :=
  (∃ old, w.settings = some old ∧ old.repo = settings.repo) ∨
    ∀ v, w.exported v = none ∧ w.jobs v = none

/-- An export that the status names, or that a Job has made which still sends the moments or
has ended and is not reported yet. -/
def Needed (w : World) (x : Export) : Prop :=
  (∃ t ∈ w.exported x.volume, x.content = some t) ∨
    ∃ job ∈ w.jobs x.volume, x.content = some job.madeFor.work.2 ∧
      (job.phase = .succeeded ∨ w.pods x.volume = some .moments)

/-- What the steps have to keep to: the place of the exports changes only before the first
one; no copy lands while an export Job runs; a Job starts when the folder has the copy that
the status names; and maintenance finds no needed export that began before its cutoff. -/
def Fitting (w : World) : Event → Prop
  | .setExport (some settings) => SamePlace w settings
  | .copy v _ => ∀ job ∈ w.jobs v, job.phase ≠ .running
  | .send v _ _ => w.jobs v = none → w.folder v = w.lastBackup v
  | .runMaintenance => ∀ m ∈ w.maintenance, ∀ x ∈ w.repos m.repo,
      x.started < m.cutoff → ¬Needed w x
  | _ => True

/-- What a pod has done for its Job: what it reads is the copy of the Job's moment, and what
it has sent is in the Job's repository. -/
def Sent (repos : Repo → List Export) (v : Name) (job : Job (Repo × ℤ)) : Sending → Prop
  | .backup _ content => content = job.madeFor.work.2
  | .moments => Holds (repos job.madeFor.work.1) v job.madeFor.work.2

/-- A running Job finds the copy of its moment; what a Job has made is in its repository,
which is the one that the policy names. -/
structure Kept (w : World) : Prop where
  truthful : Truthful w
  place : ∀ settings v job, w.settings = some settings → w.jobs v = some job →
    job.madeFor.work.1 = settings.repo
  running : ∀ v job, w.jobs v = some job → job.phase = .running →
    w.folder v = some job.madeFor.work.2
  pods : ∀ v p, w.pods v = some p → ∃ job, w.jobs v = some job ∧ job.phase = .running ∧
    Sent w.repos v job p
  made : ∀ v job, w.jobs v = some job → job.phase = .succeeded →
    Holds (w.repos job.madeFor.work.1) v job.madeFor.work.2

/-- A Job goes whose pod, if it has one, goes with it. -/
theorem Kept.dropJob (h : Kept w) {pods : Name → Option Sending}
    (hpods : ∀ u p, pods u = some p → w.pods u = some p ∧ u ≠ v) :
    Kept { w with jobs := update w.jobs v none, pods := pods } := by
  refine ⟨h.truthful, fun settings u job hs hj => h.place settings u job hs (update_none_some hj).2,
    fun u job hj hp => h.running u job (update_none_some hj).2 hp, fun u p hp => ?_,
    fun u job hj hp => h.made u job (update_none_some hj).2 hp⟩
  obtain ⟨hold, hu⟩ := hpods u p hp
  obtain ⟨job, hj, hrest⟩ := h.pods u p hold
  exact ⟨job, (update_of_ne hu ..).trans hj, hrest⟩

/-- A Job is started for the copy that the folder has. -/
theorem Kept.start (h : Kept w) {settings : Settings} {moment : ℤ} (hs : w.settings = some settings)
    (hfolder : w.folder v = some moment) (hnone : w.jobs v = none) :
    Kept { w with
      jobs := update w.jobs v
        (some ⟨⟨v, .exportVolume, settings.repo, moment⟩, .running⟩) } := by
  refine ⟨h.truthful, fun settings' u job hs' hj => ?_, fun u job hj hp => ?_, fun u p hp => ?_,
    fun u job hj hp => ?_⟩
  · rcases update_some hj with ⟨_, rfl⟩ | ⟨_, hj⟩
    · exact congrArg Settings.repo (Option.some.inj (hs.symm.trans hs'))
    · exact h.place settings' u job hs' hj
  · rcases update_some hj with ⟨rfl, rfl⟩ | ⟨_, hj⟩
    · exact hfolder
    · exact h.running u job hj hp
  · obtain ⟨job, hj, hrun, hsent⟩ := h.pods u p hp
    have hu : u ≠ v := by
      rintro rfl
      exact absent hnone hj
    exact ⟨job, (update_of_ne hu ..).trans hj, hrun, hsent⟩
  · rcases update_some hj with ⟨_, rfl⟩ | ⟨_, hj⟩
    · cases hp
    · exact h.made u job hj hp

/-- The removal of a Job that has ended takes no pod. -/
theorem Kept.cleanup (h : Kept w) {calls : Calls} {job : Job (Repo × ℤ)}
    (hjob : w.jobs v = some job)
    (hended : job.phase ≠ .running) :
    Kept { w with jobs := ShareJobs.cleanup v calls w.jobs } := by
  unfold ShareJobs.cleanup
  split
  · refine h.dropJob fun u p hp => ⟨hp, ?_⟩
    rintro rfl
    obtain ⟨job', hj', hrun, -⟩ := h.pods u p hp
    cases hjob.symm.trans hj'
    exact hended hrun
  · exact h

theorem exportVolume_kept (h : Kept w) {calls : Calls} {saved : Bool}
    (hfit : Fitting w (.send v calls saved))
    (hstep : exportVolume calls saved v w = some w') : Kept w' := by
  obtain ⟨settings, hs, hstep⟩ := bind_eq_some_iff.mp hstep
  obtain ⟨moment, hlast, hstep⟩ := bind_eq_some_iff.mp hstep
  obtain ⟨_, hstep⟩ := ite_none_left_eq_some.mp hstep
  unfold runMessages at hstep
  split at hstep
  · cases hstep
    exact h
  · split at hstep
    · rename_i hnone
      split at hstep
      · cases hstep
        exact h.start hs ((hfit hnone).trans hlast) hnone
      · cases hstep
        exact h
    · rename_i job hjob
      rw [hjob] at hstep
      split at hstep
      · rename_i hphase
        cases hstep
        have hcleaned : Kept { w with jobs := ShareJobs.cleanup v calls w.jobs } :=
          h.cleanup hjob (by simp [hphase])
        refine { hcleaned with truthful := fun settings' hs' u t ht => ?_ }
        unfold saveExported at ht
        split at ht
        · rcases update_some ht with ⟨rfl, rfl⟩ | ⟨_, ht⟩
          · -- what the Job reports is in the repository of the policy
            have hmade := h.made u job hjob hphase
            rwa [h.place settings' u job hs' hjob] at hmade
          · exact h.truthful settings' hs' u t ht
        · exact h.truthful settings' hs' u t ht
      · rename_i hphase
        cases hstep
        exact h.cleanup hjob (by simp [hphase])
      · cases hstep
        exact h

theorem Kept.podRuns (h : Kept w) {p : Sending} {job : Job (Repo × ℤ)}
    (hjob : w.jobs v = some job) (hrun : job.phase = .running) (hsent : Sent w.repos v job p) :
    Kept { w with pods := update w.pods v (some p) } := by
  refine { h with pods := fun u q hq => ?_ }
  rcases update_some hq with ⟨rfl, rfl⟩ | ⟨_, hq⟩
  · exact ⟨job, hjob, hrun, hsent⟩
  · exact h.pods u q hq

/-- The exports of one repository change, and those that are needed stay. -/
theorem Kept.exports (h : Kept w) (r : Repo) (exports : List Export)
    (hstay : ∀ x ∈ w.repos r, Needed w x → x ∈ exports) :
    Kept { w with repos := update w.repos r exports } := by
  have hholds {r' : Repo} {v : Name} {t : ℤ} (hh : Holds (w.repos r') v t)
      (hneeded : ∀ x, x.volume = v → x.content = some t → Needed w x) :
      Holds (update w.repos r exports r') v t := by
    obtain ⟨x, hx, hxv, hxt⟩ := hh
    refine ⟨x, ?_, hxv, hxt⟩
    by_cases hr : r' = r
    · subst hr
      rw [update_self]
      exact hstay x hx (hneeded x hxv hxt)
    · rwa [update_of_ne hr]
  refine ⟨fun settings hs v t ht => hholds (h.truthful settings hs v t ht) ?_, h.place, h.running,
    fun v p hp => ?_, fun v job hj hp => hholds (h.made v job hj hp) ?_⟩
  · rintro x rfl hx
    exact .inl ⟨t, ht, hx⟩
  · obtain ⟨job, hj, hrun, hsent⟩ := h.pods v p hp
    refine ⟨job, hj, hrun, ?_⟩
    cases p with
    | backup began content => exact hsent
    | moments =>
      refine hholds hsent ?_
      rintro x rfl hx
      exact .inr ⟨job, hj, hx, .inr hp⟩
  · rintro x rfl hx
    exact .inr ⟨job, hj, hx, .inl hp⟩

/-- A running Job ends; it succeeds only with its export in the repository. -/
theorem Kept.endJob (h : Kept w) {ok : Bool} {job : Job (Repo × ℤ)} (hjob : w.jobs v = some job)
    (hok : ok = true → Holds (w.repos job.madeFor.work.1) v job.madeFor.work.2) :
    Kept { w with
      jobs := update w.jobs v (some (job.ends ok))
      pods := update w.pods v none } := by
  refine ⟨h.truthful, fun settings u job' hs hj => ?_, fun u job' hj hp => ?_, fun u p hp => ?_,
    fun u job' hj hp => ?_⟩
  · rcases update_some hj with ⟨_, rfl⟩ | ⟨_, hj⟩
    · exact h.place settings v job hs hjob
    · exact h.place settings u job' hs hj
  · rcases update_some hj with ⟨_, rfl⟩ | ⟨_, hj⟩
    · cases ok <;> cases hp
    · exact h.running u job' hj hp
  · obtain ⟨hu, hp⟩ := update_none_some hp
    obtain ⟨job', hj, hrun, hsent⟩ := h.pods u p hp
    exact ⟨job', (update_of_ne hu ..).trans hj, hrun, hsent⟩
  · rcases update_some hj with ⟨rfl, rfl⟩ | ⟨_, hj⟩
    · cases ok with
      | false => cases hp
      | true => exact hok rfl
    · exact h.made u job' hj hp

theorem runExport_kept (h : Kept w) (hstep : runExport v w = some w') : Kept w' := by
  obtain ⟨job, hjob, hstep⟩ := bind_eq_some_iff.mp hstep
  obtain ⟨content, hcontent, hstep⟩ := bind_eq_some_iff.mp hstep
  obtain ⟨hphase, hstep⟩ := ite_none_left_eq_some.mp hstep
  have hrun : job.phase = .running := not_not.mp hphase
  -- the folder has the copy of the Job's moment as long as the Job runs
  obtain rfl : content = job.madeFor.work.2 :=
    Option.some.inj (hcontent.symm.trans (h.running v job hjob hrun))
  split at hstep
  · cases hstep
    exact h.podRuns hjob hrun rfl
  · rename_i began first hpod
    cases hstep
    obtain ⟨job', hj', -, hfirst⟩ := h.pods v _ hpod
    cases hjob.symm.trans hj'
    obtain rfl : first = job.madeFor.work.2 := hfirst
    refine (h.exports job.madeFor.work.1 _ fun _ hx _ => List.mem_cons_of_mem _ hx).podRuns hjob
      hrun ⟨⟨v, some job.madeFor.work.2, began⟩, ?_, rfl, rfl⟩
    dsimp only
    rw [update_self, if_pos rfl]
    exact List.mem_cons_self
  · rename_i hpod
    cases hstep
    obtain ⟨job', hj', -, hsent⟩ := h.pods v _ hpod
    cases hjob.symm.trans hj'
    exact h.endJob hjob fun _ => hsent

theorem Kept.dropPod (h : Kept w) : Kept { w with pods := update w.pods v none } :=
  { h with pods := fun u p hp => h.pods u p (update_none_some hp).2 }

theorem failExport_kept (h : Kept w) {again : Bool} (hstep : failExport again v w = some w') :
    Kept w' := by
  obtain ⟨job, hjob, hstep⟩ := bind_eq_some_iff.mp hstep
  obtain ⟨-, heq⟩ := ite_none_left_eq_some.mp hstep
  cases again with
  | true =>
    cases heq
    exact h.dropPod
  | false =>
    cases heq
    exact h.endJob hjob nofun

theorem runMaintenance_kept (h : Kept w) (hfit : Fitting w .runMaintenance)
    (hstep : runMaintenance w = some w') : Kept w' := by
  obtain ⟨m, hm, rfl⟩ := map_eq_some_iff.mp hstep
  have hkept := h.exports m.repo ((w.repos m.repo).filter (fun x => !(x.started < m.cutoff)))
    fun x hx hneeded =>
      List.mem_filter.mpr ⟨hx, by simpa using fun hold => hfit m hm x hx hold hneeded⟩
  exact ⟨hkept.truthful, h.place, h.running, hkept.pods, hkept.made⟩

theorem setExport_kept (h : Kept w) {settings : Option Settings}
    (hfit : Fitting w (.setExport settings)) : Kept { w with settings := settings } := by
  refine ⟨fun s hs v t ht => ?_, fun s v job hs hj => ?_, h.running, h.pods, h.made⟩
  · obtain rfl : settings = some s := hs
    rcases hfit with ⟨old, hold, hrepo⟩ | hnone
    · exact hrepo ▸ h.truthful old hold v t ht
    · exact absent (hnone v).1 ht
  · obtain rfl : settings = some s := hs
    rcases hfit with ⟨old, hold, hrepo⟩ | hnone
    · exact (h.place old v job hold hj).trans hrepo
    · exact absent (hnone v).2 hj

theorem step_kept {e : Event} (hfit : Fitting w e) (h : Kept w)
    (hstep : step w e = some w') : Kept w' := by
  cases e with
  | tick d | report v moment =>
    cases hstep
    exact ⟨h.truthful, h.place, h.running, h.pods, h.made⟩
  | setExport settings =>
    cases hstep
    exact setExport_kept h hfit
  | copy v moment =>
    cases hstep
    refine ⟨h.truthful, h.place, fun u job hj hp => ?_, h.pods, h.made⟩
    by_cases hu : u = v
    · subst hu
      exact absurd hp (hfit job hj)
    · exact (update_of_ne hu ..).trans (h.running u job hj hp)
  | forget v =>
    cases hstep
    exact ⟨fun settings hs u t ht => h.truthful settings hs u t (update_none_some ht).2, h.place,
      h.running, h.pods, h.made⟩
  | send v calls saved => exact exportVolume_kept h hfit hstep
  | maintain =>
    obtain ⟨_, _, rfl⟩ := map_eq_some_iff.mp hstep
    exact ⟨h.truthful, h.place, h.running, h.pods, h.made⟩
  | clear =>
    obtain ⟨_, rfl⟩ := when_some hstep
    exact ⟨nofun, h.place, h.running, h.pods, h.made⟩
  | runExport v => exact runExport_kept h hstep
  | failExport v again => exact failExport_kept h hstep
  | stopExport v =>
    cases hstep
    exact h.dropJob fun _ _ hp => (update_none_some hp).symm
  | runMaintenance => exact runMaintenance_kept h hfit hstep

/-- Nothing has been exported and no export Job exists. -/
def Unexported (w : World) : Prop := ∀ v, w.exported v = none ∧ w.jobs v = none ∧ w.pods v = none

theorem Unexported.kept (h : Unexported w) : Kept w :=
  ⟨fun _ _ v _ ht => absent (h v).1 ht, fun _ v _ _ hj => absent (h v).2.1 hj,
    fun v _ hj => absent (h v).2.1 hj, fun v _ hp => absent (h v).2.2 hp,
    fun v _ hj => absent (h v).2.1 hj⟩

def bucket : Repo := ⟨['e'], ['b'], ['p']⟩

def emptyWorld : World where
  now := 0
  settings := none
  lastBackup _ := none
  exported _ := none
  folder _ := none
  jobs _ := none
  pods _ := none
  maintenance := none
  repos _ := []

/-- A pass over the volume in which every call succeeds. -/
def pass : Event := .send ['v'] allSucceed true

/-- A backup of the moment is copied and its export Job is started. -/
def begins (moment : ℤ) : List Event := [.copy ['v'] moment, .report ['v'] moment, pass]

def runs : Event := .runExport ['v']

instance (w : World) (x : Export) : Decidable (Needed w x) := inferInstanceAs (Decidable (_ ∨ _))

/-- The steps of a policy whose export block stays, checked. -/
def fits (w : World) : Event → Bool
  | .setExport _ => false
  | .copy v _ => decide (∀ job ∈ w.jobs v, job.phase ≠ .running)
  | .send v _ _ => decide (w.jobs v = none → w.folder v = w.lastBackup v)
  | .runMaintenance => decide (∀ m ∈ w.maintenance, ∀ x ∈ w.repos m.repo,
      x.started < m.cutoff → ¬Needed w x)
  | _ => true

theorem fitting_of_fits (w : World) (e : Event) (h : fits w e = true) : Fitting w e := by
  cases e with
  | setExport settings => cases h
  | copy v moment => simpa [fits, Fitting] using h
  | send v calls saved => simpa [fits, Fitting, imp_iff_not_or] using h
  | runMaintenance =>
    have hfit := of_decide_eq_true (show decide (∀ m ∈ w.maintenance, ∀ x ∈ w.repos m.repo,
      x.started < m.cutoff → ¬Needed w x) = true from h)
    exact hfit
  | _ => trivial

end FilePool.ExportRecords
