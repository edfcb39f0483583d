import FilePool.StepRuns
import FilePool.UndoNames

/-!
The golden images of the pools. A pass of the syncer makes, for each image and namespace, a
DataVolume with the golden claim, a DataSource in the namespace of the images and a Template,
and says in the pool's status how far that is. The names of DataSource and Template come from the
image's name without its endings, and objects that have these names are taken as they are.
-/
namespace FilePool.GoldenImages

open UndoNames StepRuns Function

inductive ImportPhase
  | succeeded
  | failed
  | other
  deriving DecidableEq, Repr

/-- What the syncer looks at in a DataVolume. -/
structure DataVolume where
  golden : Bool
  pool : Name
  url : Name
  storageClass : Name
  phase : ImportPhase
  deriving DecidableEq, Repr

/-- A claim by its namespace and name. -/
structure ClaimRef where
  namespc : Name
  name : Name
  deriving DecidableEq, Repr

inductive Phase
  | syncing
  | ready
  | failed
  deriving DecidableEq, Repr

/-- The status of an image in a namespace. -/
structure NamespaceStatus where
  image : Name
  namespc : Name
  phase : Phase
  pvcName : Name
  templateName : Name
  dataSourceName : Name
  deriving DecidableEq, Repr

/-- How requests for a kind of object are answered: they work, the kind is not installed, or the
Get or the Create fails. -/
inductive Api
  | works
  | noMatch
  | getFails
  | createFails
  deriving DecidableEq, Repr

/-- The objects, the statuses that the pass has made so far and those that the pools hold. -/
structure State where
  dataVolumes : ClaimRef → Option DataVolume
  dataSources : Name → Option ClaimRef
  templates : ClaimRef → Option ClaimRef
  made : List NamespaceStatus
  stored : Name → List NamespaceStatus

def trimSuffix (s suffix : Name) : Name := (s.dropSuffix? suffix).getD s

def cleanImageName (image : Name) : Name :=
  trimSuffix (trimSuffix image "-image-cron".toList) "-cron".toList

def pvcName (image : Name) : Name := "golden-".toList ++ image

def templateName (image : Name) : Name := cleanImageName image ++ "-nfs-pool".toList

def dataSourceName (image ns : Name) : Name :=
  cleanImageName image ++ '-' :: ns ++ "-nfs-pool".toList

def goldenClaim (image ns : Name) : ClaimRef := ⟨ns, pvcName image⟩

/-- An object that is there is kept, whatever it refers to; the result tells of no error. -/
def ensure (api : Api) (old : Option ClaimRef) (own : ClaimRef) : Option ClaimRef × Bool :=
  match api, old with
  | .getFails, _ => (old, false)
  | .noMatch, _ => (old, true)
  | _, some _ => (old, true)
  | .works, none => (some own, true)
  | .createFails, none => (none, false)

/-- Only a DataVolume that the pool would make for the image is published. -/
def madeByPool (pool url : Name) (dv : DataVolume) : Bool :=
  dv.golden && dv.pool = pool && dv.url = url && dv.storageClass = pool

def report (st : NamespaceStatus) (s : State) : State := { s with made := s.made ++ [st] }

/-- The storage class has the name of the pool. A failure with the DataSource does not count. -/
def syncImageInNamespace (pool ns image url : Name) (dvWorks : Bool) (ds tmpl : Api) (s : State) :
    State :=
  let own := goldenClaim image ns
  let status (phase : Phase) (dsName : Name) : NamespaceStatus :=
    ⟨image, ns, phase, pvcName image, templateName image, dsName⟩
  if !dvWorks then report (status .failed []) s
  else match s.dataVolumes own with
    | none => report (status .syncing [])
        { s with dataVolumes := update s.dataVolumes own (some ⟨true, pool, url, pool, .other⟩) }
    | some dv =>
      if !madeByPool pool url dv then report (status .failed []) s
      else match dv.phase with
        | .failed => report (status .failed []) s
        | .other => report (status .syncing []) s
        | .succeeded =>
          let source := ensure ds (s.dataSources (dataSourceName image ns)) own
          let template := ensure tmpl (s.templates ⟨ns, templateName image⟩) own
          report (status (if template.2 then .ready else .failed) (dataSourceName image ns))
            { s with
              dataSources := update s.dataSources (dataSourceName image ns) source.1
              templates := update s.templates ⟨ns, templateName image⟩ template.1 }

/-- The steps of a pass, and what others do. -/
inductive Event
  | sync (pool ns image url : Name) (dvWorks : Bool) (ds tmpl : Api)
  | save (pool : Name) (saved : Bool)
  | setDataVolume (c : ClaimRef) (dv : Option DataVolume)
  | setDataSource (name : Name) (ref : Option ClaimRef)
  | setTemplate (t : ClaimRef) (ref : Option ClaimRef)

def step (s : State) : Event → Option State
  | .sync pool ns image url dvWorks ds tmpl =>
    some (syncImageInNamespace pool ns image url dvWorks ds tmpl s)
  | .save pool saved => some { s with
      made := [], stored := if saved then update s.stored pool s.made else s.stored }
  | .setDataVolume c dv => some { s with dataVolumes := update s.dataVolumes c dv }
  | .setDataSource name ref => some { s with dataSources := update s.dataSources name ref }
  | .setTemplate t ref => some { s with templates := update s.templates t ref }

/-- A status that the pass has made or a pool holds. -/
def Told (s : State) (st : NamespaceStatus) : Prop := st ∈ s.made ∨ ∃ pool, st ∈ s.stored pool

/-- What the status names refers to the image's own claim. -/
structure RefersOwn (s : State) (st : NamespaceStatus) : Prop where
  source : s.dataSources st.dataSourceName = some (goldenClaim st.image st.namespc)
  template : s.templates ⟨st.namespc, st.templateName⟩ = some (goldenClaim st.image st.namespc)

/-- The part of a DataSource's name that comes from image and namespace. -/
def joinedName (image ns : Name) : Name := cleanImageName image ++ '-' :: ns

/-- The names of no two of the pairs of image and namespace are joined to the same one. -/
def NamesApart (pairs : Name → Name → Prop) : Prop :=
  ∀ image ns image' ns', pairs image ns → pairs image' ns' →
    joinedName image ns = joinedName image' ns' → image = image' ∧ ns = ns'

section Names

variable {pairs : Name → Name → Prop} {image image' ns ns' : Name}

theorem dataSourceName_eq (image ns : Name) :
    dataSourceName image ns = joinedName image ns ++ "-nfs-pool".toList := by
  simp [dataSourceName, joinedName]

theorem NamesApart.dataSource (h : NamesApart pairs) (hp : pairs image ns) (hp' : pairs image' ns')
    (heq : dataSourceName image ns = dataSourceName image' ns') : image = image' ∧ ns = ns' := by
  rw [dataSourceName_eq, dataSourceName_eq] at heq
  exact h _ _ _ _ hp hp' (List.append_cancel_right heq)

theorem NamesApart.template (h : NamesApart pairs) (hp : pairs image ns) (hp' : pairs image' ns')
    (heq : (⟨ns, templateName image⟩ : ClaimRef) = ⟨ns', templateName image'⟩) :
    image = image' ∧ ns = ns' := by
  injection heq with hns hname
  refine h _ _ _ _ hp hp' ?_
  rw [joinedName, joinedName, hns, List.append_cancel_right hname]

/-- Namespaces without a dash: then it is enough that the images' names without their endings
are not the same. -/
theorem namesApart_of_no_dash (hns : ∀ image ns, pairs image ns → '-' ∉ ns)
    (himage : ∀ image ns image' ns', pairs image ns → pairs image' ns' →
      cleanImageName image = cleanImageName image' → image = image') : NamesApart pairs := by
  intro image ns image' ns' hp hp' heq
  have hrev : ns.reverse ++ '-' :: (cleanImageName image).reverse =
      ns'.reverse ++ '-' :: (cleanImageName image').reverse := by
    simpa [joinedName] using congrArg List.reverse heq
  -- the last dash ends the image's name
  have htake {xs rest : Name} (h : '-' ∉ xs) :
      (xs.reverse ++ '-' :: rest).takeWhile (· ≠ '-') = xs.reverse := by
    rw [List.takeWhile_append_of_pos, List.takeWhile_cons_of_neg (by simp), List.append_nil]
    intro c hc
    have hne : c ≠ '-' := by
      rintro rfl
      exact h (List.mem_reverse.mp hc)
    simpa using hne
  have hnamespc : ns = ns' := by
    refine List.reverse_injective ?_
    rw [← htake (hns _ _ hp), hrev, htake (hns _ _ hp')]
  subst hnamespc
  exact ⟨himage _ _ _ _ hp hp' (List.append_cancel_right heq), rfl⟩

end Names

/-- An object of a pair's name is not there or refers to the pair's own claim. -/
def OwnOrNone (pairs : Name → Name → Prop) (s : State) : Prop :=
  ∀ image ns, pairs image ns → (s.dataSources (dataSourceName image ns)).all
      (fun c => c = goldenClaim image ns) = true ∧
    (s.templates ⟨ns, templateName image⟩).all (fun c => c = goldenClaim image ns) = true

/-- The images and namespaces that are synced are of the pairs; when the import has succeeded,
what is not there can be made, or a failure with the Template is told. Others put under a
pair's name only what refers to the pair's own claim, and remove only what no status says is
ready. -/
def Fitting (pairs : Name → Name → Prop) (s : State) : Event → Prop
  | .sync _ ns image _ _ ds tmpl => pairs image ns ∧
    (s.dataSources (dataSourceName image ns) = none → ds = .works) ∧
    (s.templates ⟨ns, templateName image⟩ = none → tmpl ≠ .noMatch)
  | .setDataSource name ref =>
    (∀ image ns, pairs image ns → name = dataSourceName image ns →
      ref.all (fun c => c = goldenClaim image ns) = true) ∧
    (ref = none → ∀ st, Told s st → st.phase = .ready → st.dataSourceName ≠ name)
  | .setTemplate t ref =>
    (∀ image ns, pairs image ns → t = ⟨ns, templateName image⟩ →
      ref.all (fun c => c = goldenClaim image ns) = true) ∧
    (ref = none → ∀ st, Told s st → st.phase = .ready → ⟨st.namespc, st.templateName⟩ ≠ t)
  | _ => True

/-- What is known of the status of a pair that is ready. -/
structure Named (pairs : Name → Name → Prop) (s : State) (st : NamespaceStatus) : Prop where
  pair : pairs st.image st.namespc
  source : st.dataSourceName = dataSourceName st.image st.namespc
  template : st.templateName = templateName st.image
  refers : RefersOwn s st

structure Kept (pairs : Name → Name → Prop) (s : State) : Prop where
  objects : OwnOrNone pairs s
  ready : ∀ st, Told s st → st.phase = .ready → Named pairs s st

variable {pairs : Name → Name → Prop} {s s' : State} {st : NamespaceStatus} {ns image : Name}
  {old : Option ClaimRef} {own : ClaimRef} {api : Api}

/-- An object that is there is kept. -/
theorem ensure_some (h : old = some own) : (ensure api old own).1 = some own := by
  subst h
  cases api <;> rfl

theorem ensure_all (h : old.all (fun c => c = own) = true) :
    (ensure api old own).1.all (fun c => c = own) = true := by
  cases old with
  | some c => cases api <;> exact h
  | none => cases api <;> simp [ensure]

theorem eq_of_all {o : Option ClaimRef} (h : o.all (fun c => c = own) = true) (hsome : o ≠ none) :
    o = some own := by
  cases o with
  | none => exact absurd rfl hsome
  | some c => exact congrArg some (of_decide_eq_true h)

theorem all_update {K : Type} [DecidableEq K] {f : K → Option ClaimRef} {k k' : K}
    {o : Option ClaimRef} (hnew : k' = k → o.all (fun c => c = own) = true)
    (h : (f k').all (fun c => c = own) = true) :
    (update f k o k').all (fun c => c = own) = true := by
  by_cases heq : k' = k
  · rw [heq, update_self]
    exact hnew heq
  · rwa [update_of_ne heq]

/-- An entry stays if what is written over it is the same. -/
theorem update_own {K : Type} [DecidableEq K] {f : K → Option ClaimRef} {k k' : K}
    {o : Option ClaimRef} (h : f k' = some own)
    (hnew : k' = k → o.all (fun c => c = own) = true ∧ o ≠ none) : update f k o k' = some own := by
  by_cases heq : k' = k
  · rw [heq, update_self]
    exact eq_of_all (hnew heq).1 (hnew heq).2
  · rwa [update_of_ne heq]

theorem told_report {x : NamespaceStatus} (h : Told (report x s) st) : st = x ∨ Told s st := by
  obtain hmade | hstored := h
  · obtain hmade | hnew := List.mem_append.mp hmade
    · exact .inr (.inl hmade)
    · exact .inl (List.mem_singleton.mp hnew)
  · exact .inr (.inr hstored)

theorem Named.mono (h : Named pairs s st) (hs : s'.dataSources = s.dataSources)
    (ht : s'.templates = s.templates) : Named pairs s' st :=
  { h with refers := ⟨hs ▸ h.refers.source, ht ▸ h.refers.template⟩ }

/-- A status that is not ready says nothing of the objects. -/
theorem Kept.told {x : NamespaceStatus} (h : Kept pairs s) (hx : x.phase ≠ .ready) :
    Kept pairs (report x s) := by
  refine ⟨h.objects, fun st ht hready => ?_⟩
  obtain rfl | ht := told_report ht
  · exact absurd hready hx
  · exact (h.ready st ht hready).mono rfl rfl

/-- The image is published: its objects are its own, and those of other pairs are others. -/
theorem Kept.publish (h : Kept pairs s) (hapart : NamesApart pairs) (hp : pairs image ns)
    {source template : Option ClaimRef}
    (hsource : source.all (fun c => c = goldenClaim image ns) = true)
    (htemplate : template.all (fun c => c = goldenClaim image ns) = true)
    (hold : s.dataSources (dataSourceName image ns) ≠ none → source ≠ none)
    (hold' : s.templates ⟨ns, templateName image⟩ ≠ none → template ≠ none) {phase : Phase}
    (hready : phase = .ready → source ≠ none ∧ template ≠ none) :
    Kept pairs (report
      ⟨image, ns, phase, pvcName image, templateName image, dataSourceName image ns⟩
      { s with
        dataSources := update s.dataSources (dataSourceName image ns) source
        templates := update s.templates ⟨ns, templateName image⟩ template }) := by
  refine ⟨fun image' ns' hp' => ⟨?_, ?_⟩, fun st ht hst => ?_⟩
  · refine all_update (fun heq => ?_) (h.objects image' ns' hp').1
    obtain ⟨rfl, rfl⟩ := hapart.dataSource hp' hp heq
    exact hsource
  · refine all_update (fun heq => ?_) (h.objects image' ns' hp').2
    obtain ⟨rfl, rfl⟩ := hapart.template hp' hp heq
    exact htemplate
  · obtain rfl | ht := told_report ht
    · obtain ⟨hs, ht⟩ := hready hst
      exact ⟨hp, rfl, rfl, (update_self ..).trans (eq_of_all hsource hs),
        (update_self ..).trans (eq_of_all htemplate ht)⟩
    · have hnamed := h.ready st ht hst
      obtain ⟨hown, hown'⟩ := hnamed.refers
      refine { hnamed with
        refers := ⟨update_own hown fun heq => ?_, update_own hown' fun heq => ?_⟩ }
      · obtain ⟨hi, hn⟩ := hapart.dataSource hnamed.pair hp (hnamed.source.symm.trans heq)
        rw [hi, hn]
        exact ⟨hsource, hold (by simp [← heq, hown])⟩
      · obtain ⟨hi, hn⟩ := hapart.template hnamed.pair hp (hnamed.template ▸ heq)
        rw [hi, hn]
        exact ⟨htemplate, hold' (by simp [← heq, hown'])⟩

theorem Kept.sync (h : Kept pairs s) (hapart : NamesApart pairs) {pool url : Name} {dvWorks : Bool}
    {ds tmpl : Api} (hfit : Fitting pairs s (.sync pool ns image url dvWorks ds tmpl)) :
    Kept pairs (syncImageInNamespace pool ns image url dvWorks ds tmpl s) := by
  obtain ⟨hp, hds, htmpl⟩ := hfit
  unfold syncImageInNamespace
  dsimp only
  split
  · exact h.told nofun
  split
  · refine Kept.told ⟨h.objects, fun st ht hr => (h.ready st ht hr).mono rfl rfl⟩ nofun
  split
  · exact h.told nofun
  split
  · exact h.told nofun
  · exact h.told nofun
  · obtain ⟨hs, ht⟩ := h.objects image ns hp
    refine h.publish hapart hp (ensure_all hs) (ensure_all ht) (fun hne => ?_) (fun hne => ?_)
      (fun hready => ⟨?_, ?_⟩)
    · simp [ensure_some (eq_of_all hs hne)]
    · simp [ensure_some (eq_of_all ht hne)]
    · by_cases hne : s.dataSources (dataSourceName image ns) = none
      · simp [ensure, hds hne, hne]
      · simp [ensure_some (eq_of_all hs hne)]
    · by_cases hne : s.templates ⟨ns, templateName image⟩ = none
      · rw [hne] at hready ⊢
        cases tmpl with
        | works => simp [ensure]
        | noMatch => exact absurd rfl (htmpl hne)
        | getFails => simp [ensure] at hready
        | createFails => simp [ensure] at hready
      · simp [ensure_some (eq_of_all ht hne)]

theorem step_kept (hapart : NamesApart pairs) (s : State) (e : Event) (s' : State)
    (hfit : Fitting pairs s e) (h : Kept pairs s) (hstep : step s e = some s') :
    Kept pairs s' := by
  cases e with
  | sync pool ns image url dvWorks ds tmpl =>
    cases hstep
    exact h.sync hapart hfit
  | save pool saved =>
    cases hstep
    refine ⟨h.objects, fun st ht hready => (h.ready st ?_ hready).mono rfl rfl⟩
    obtain hmade | ⟨pool', hst⟩ := ht
    · cases hmade
    dsimp only at hst
    split at hst
    · obtain ⟨_, hst⟩ | ⟨_, hst⟩ := of_update (P := fun l => st ∈ l) hst
      · exact .inl hst
      · exact .inr ⟨pool', hst⟩
    · exact .inr ⟨pool', hst⟩
  | setDataVolume c dv =>
    cases hstep
    exact ⟨h.objects, fun st ht hready => (h.ready st ht hready).mono rfl rfl⟩
  | setDataSource name ref =>
    cases hstep
    obtain ⟨hown, hkeep⟩ := hfit
    refine ⟨fun image ns hp => ⟨?_, (h.objects image ns hp).2⟩, fun st ht hready => ?_⟩
    · exact all_update (fun heq => hown image ns hp heq.symm) (h.objects image ns hp).1
    · have hnamed := h.ready st ht hready
      refine { hnamed with
        refers := ⟨update_own hnamed.refers.source fun heq => ?_, hnamed.refers.template⟩ }
      exact ⟨hown _ _ hnamed.pair (heq.symm.trans hnamed.source),
        fun hnone => hkeep hnone st ht hready heq⟩
  | setTemplate t ref =>
    cases hstep
    obtain ⟨hown, hkeep⟩ := hfit
    refine ⟨fun image ns hp => ⟨(h.objects image ns hp).1, ?_⟩, fun st ht hready => ?_⟩
    · exact all_update (fun heq => hown image ns hp heq.symm) (h.objects image ns hp).2
    · have hnamed := h.ready st ht hready
      refine { hnamed with
        refers := ⟨hnamed.refers.source, update_own hnamed.refers.template fun heq => ?_⟩ }
      exact ⟨hown _ _ hnamed.pair (heq.symm.trans (by rw [hnamed.template])),
        fun hnone => hkeep hnone st ht hready heq⟩

/-- In every run whose steps fit, with names that are apart and no other objects of these names,
an image that is ready has its own DataSource and Template, and images or namespaces that
differ share none. -/
theorem ready_images_apart (pairs : Name → Name → Prop) (hapart : NamesApart pairs)
    (s₀ s : State) (h₀ : ∀ st, ¬ Told s₀ st) (hobjects : OwnOrNone pairs s₀)
    (hrun : Run step (Fitting pairs) s₀ s) :
    (∀ st, Told s st → st.phase = .ready → RefersOwn s st) ∧
    ∀ st st', Told s st → Told s st' → st.phase = .ready → st'.phase = .ready →
      (st.image, st.namespc) ≠ (st'.image, st'.namespc) → st.dataSourceName ≠ st'.dataSourceName ∧
        (⟨st.namespc, st.templateName⟩ : ClaimRef) ≠ ⟨st'.namespc, st'.templateName⟩ := by
  have h : Kept pairs s := hrun.keeps (step_kept hapart)
    ⟨hobjects, fun st ht => absurd ht (h₀ st)⟩
  refine ⟨fun st ht hr => (h.ready st ht hr).refers, fun st st' ht ht' hr hr' hne => ?_⟩
  have hst := h.ready st ht hr
  have hst' := h.ready st' ht' hr'
  rw [hst.source, hst'.source, hst.template, hst'.template]
  exact ⟨fun heq => hne (Prod.ext_iff.mpr (hapart.dataSource hst.pair hst'.pair heq)),
    fun heq => hne (Prod.ext_iff.mpr (hapart.template hst.pair hst'.pair heq))⟩

/-- No statuses, and the golden claims of two images or namespaces imported. -/
def imported (a b : ClaimRef) (old : Option ClaimRef) : State :=
  ⟨fun c => if c = a ∨ c = b then some ⟨true, ['p'], ['u'], ['p'], .succeeded⟩ else none,
    fun _ => old, fun _ => old, [], fun _ => []⟩

def sync (ns image : Name) : Event := .sync ['p'] ns image ['u'] true .works .works

/-- Two images whose names differ in the ending share a Template, names that are joined with a dash
share a DataSource, and an object that others made is taken. -/
theorem ready_images_share :
    (∃ s, Run step (fun _ _ => True)
      (imported (goldenClaim "x-cron".toList ['n']) (goldenClaim ['x'] ['n']) none) s ∧
      ∃ st ∈ s.stored ['p'], st.phase = .ready ∧ s.templates ⟨st.namespc, st.templateName⟩ ≠
        some (goldenClaim st.image st.namespc)) ∧
    (∃ s, Run step (fun _ _ => True)
      (imported (goldenClaim ['x'] "a-b".toList) (goldenClaim "x-a".toList ['b']) none) s ∧
      ∃ st ∈ s.stored ['p'], st.phase = .ready ∧ s.dataSources st.dataSourceName ≠
        some (goldenClaim st.image st.namespc)) ∧
    ∃ s, Run step (fun _ _ => True)
      (imported (goldenClaim ['x'] ['n']) (goldenClaim ['x'] ['n']) (some ⟨['m'], ['d']⟩)) s ∧
      ∃ st ∈ s.stored ['p'], st.phase = .ready ∧ s.dataSources st.dataSourceName =
        some ⟨['m'], ['d']⟩ := by
  refine ⟨free_run [sync ['n'] "x-cron".toList, sync ['n'] ['x'], .save ['p'] true] _ ?_,
    free_run [sync "a-b".toList ['x'], sync ['b'] "x-a".toList, .save ['p'] true] _ ?_,
    free_run [sync ['n'] ['x'], .save ['p'] true] _ ?_⟩
  · decide +kernel
  · decide +kernel
  · decide +kernel

/-- Images whose names end in -cron or do not, in two namespaces. -/
def twoPairs (image ns : Name) : Prop :=
  (image = "x-cron".toList ∧ ns = ['n']) ∨ (image = ['y'] ∧ ns = ['m'])

/-- Both pairs are published. -/
theorem ready_images_apart_two : ∃ s st st', Told s st ∧ Told s st' ∧ st.phase = .ready ∧
    st'.phase = .ready ∧ RefersOwn s st ∧ RefersOwn s st' ∧
    st.dataSourceName ≠ st'.dataSourceName := by
  have hnames : NamesApart twoPairs := by
    refine namesApart_of_no_dash ?_ ?_
    · rintro image ns (⟨-, rfl⟩ | ⟨-, rfl⟩) <;> decide
    · rintro image ns image' ns' (⟨rfl, -⟩ | ⟨rfl, -⟩) (⟨rfl, -⟩ | ⟨rfl, -⟩) <;> decide +kernel
  obtain ⟨s, x, y, hrun, hmade, hready, hready', hne⟩ : ∃ s x y, Run step (Fitting twoPairs)
      (imported (goldenClaim "x-cron".toList ['n']) (goldenClaim ['y'] ['m']) none) s ∧
      s.made = [x, y] ∧ x.phase = .ready ∧ y.phase = .ready ∧
      (x.image, x.namespc) ≠ (y.image, y.namespc) :=
    ⟨_, _, _, .next (sync ['m'] ['y']) (.next (sync ['n'] "x-cron".toList) .start
      ⟨.inl ⟨rfl, rfl⟩, fun _ => rfl, fun _ => nofun⟩ rfl)
      ⟨.inr ⟨rfl, rfl⟩, fun _ => rfl, fun _ => nofun⟩ rfl, rfl, rfl, rfl, by decide +kernel⟩
  obtain ⟨hown, hapart⟩ := ready_images_apart twoPairs hnames _ s
    (fun st h => by obtain h | ⟨_, h⟩ := h <;> cases h) (fun _ _ _ => ⟨rfl, rfl⟩) hrun
  have hx : Told s x := .inl (hmade ▸ List.mem_cons_self)
  have hy : Told s y := .inl (hmade ▸ List.mem_cons_of_mem _ List.mem_cons_self)
  exact ⟨s, x, y, hx, hy, hready, hready', hown x hx hready, hown y hy hready',
    (hapart x y hx hy hready hready' hne).1⟩

end FilePool.GoldenImages
