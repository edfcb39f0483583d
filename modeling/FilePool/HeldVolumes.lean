import FilePool.CycleRuns
import FilePool.StepRuns

/-!
Which volumes a pass holds back. Nothing fails and nothing happens while the pass looks:
the result is then a function of the volumes, the pods, the statuses and the Jobs.
-/
namespace FilePool.HeldVolumes

open UndoNames DurableSteps ReplicationNames ReplicationStatus ReplicationWorld List Option
  ReplicationCalls VMCopyPass PolicyPass Prog StepRuns

variable {α β : Type} {w : World}

/-- The program gives a value and leaves the world as it is. -/
def Gives (w : World) (p : WorldProg α) (a : α) : Prop := p.result w = .ok a ∧ p.exec w = w

theorem gives_bind {p : WorldProg α} {f : α → WorldProg β} {a : α} {b : β} (hp : Gives w p a)
    (hf : Gives w (f a) b) : Gives w (p >>= f) b := by
  constructor
  · rw [result_bind_ok p f w hp.1, hp.2]
    exact hf.1
  · rw [exec_bind_ok p f w hp.1, hp.2]
    exact hf.2

theorem gives_pure (a : α) : Gives w (pure a) a := ⟨rfl, rfl⟩

theorem gives_query (h : w.script = []) {f : World → Except CallErr α} :
    Gives w (query f).attempt (f w) := by
  have hadv : world.apply .next w = w := by
    change World.advance w = w
    rw [World.advance, h]
  have hask : Gives w ask () := by
    refine gives_bind (a := Answer.plain) (gives_bind ⟨?_, rfl⟩
      (gives_bind ⟨rfl, hadv⟩ (gives_pure _))) (gives_pure _)
    rw [result_inspect, h]
    rfl
  constructor
  · rw [result_attempt, query, result_bind_ok _ _ _ hask.1, hask.2]
    rfl
  · rw [exec_attempt, query, exec_bind_ok _ _ _ hask.1, hask.2]
    rfl

theorem gives_foldEach {f : β → α → WorldProg β} {g : β → α → β}
    (h : ∀ b x, Gives w (f b x) (g b x)) : ∀ (b : β) (l : List α),
    Gives w (foldEach f b l) (l.foldl g b)
  | b, [] => gives_pure b
  | b, x :: xs => gives_bind (h b x) (gives_foldEach h (g b x) xs)

/-- What a pass looks at. -/
structure Look where
  policy : Policy
  copier : Bool
  prev : List SubVolumeStatus
  w : World
  quiet : w.script = []

namespace Look

variable (k : Look)

def copying (v : Volume) : Bool := PolicyPass.copying k.prev v.name

def busy (v : Volume) : Bool := (k.w.jobs (replJobName k.policy.name v.name)).isSome

def podOf (v : Volume) : Option Pod := (findVMPodForClaim k.w.pods v.name).map Prod.fst

/-- The hold that the volume itself has, if it is not copied. -/
def own (v : Volume) : Option Hold := if k.copying v || k.busy v then none else v.hold

def ownHeld (l : List Volume) : List Held := l.filterMap (fun v => (k.own v).map (v, ·))

def ownFree (l : List Volume) : List Volume := l.filter (fun v => (k.own v).isNone)

/-- Why a volume is held back because of the others of its pod. -/
def others (l : List Volume) (v : Volume) : Option Hold :=
  if !k.copier || k.copying v then none
  else (k.podOf v).bind (fun q => (l.reverse.find? (fun u => (k.own u).isSome &&
    (k.podOf u).any (fun p => p.uid = q.uid))).bind k.own)

section Beside

/-- The two volumes are disks of pods that agree. -/
def Shares (f : Pod → Name) (u v : Volume) : Prop :=
  ∃ p q, k.podOf u = some p ∧ k.podOf v = some q ∧ f p = f q

/-- A volume with a hold of its own is in the pod of the other one. -/
def Beside (l : List Volume) (u v : Volume) : Prop :=
  k.copier = true ∧ u ∈ l ∧ k.own u ≠ none ∧ k.Shares Pod.uid u v

/-- A volume has a hold of its own, or is not copied and is beside one that has. -/
def HeldBack (l : List Volume) (v : Volume) : Prop :=
  k.own v ≠ none ∨ (k.copying v = false ∧ ∃ u, k.Beside l u v)

variable {k} {l : List Volume} {v : Volume}

theorem others_some {r : Hold} (h : k.others l v = some r) :
    k.copying v = false ∧ ∃ u, k.Beside l u v ∧ k.own u = some r := by
  obtain ⟨hno, h⟩ := ite_none_left_eq_some.mp h
  rw [Bool.or_eq_true, not_or, Bool.not_eq_true', Bool.not_eq_false, Bool.not_eq_true] at hno
  obtain ⟨q, hq, h⟩ := bind_eq_some_iff.mp h
  obtain ⟨u, hu, h⟩ := bind_eq_some_iff.mp h
  have hfound := find?_some hu
  rw [Bool.and_eq_true, Option.any_eq_true] at hfound
  obtain ⟨-, p, hp, hpq⟩ := hfound
  refine ⟨hno.2, u, ⟨hno.1, mem_reverse.mp (mem_of_find?_eq_some hu), by rw [h]; nofun,
    p, q, hp, hq, of_decide_eq_true hpq⟩, h⟩

end Beside

/-- Put a volume in one of the two lists. -/
def put (f : Volume → Option Hold) (s : Split) (v : Volume) : Split :=
  match f v with
  | some r => { s with held := s.held ++ [(v, r)] }
  | none => { s with free := s.free ++ [v] }

theorem foldl_put (f : Volume → Option Hold) (l : List Volume) (s : Split) :
    l.foldl (put f) s = ⟨s.free ++ l.filter (fun v => (f v).isNone),
      s.held ++ l.filterMap (fun v => (f v).map (v, ·))⟩ := by
  induction l generalizing s with
  | nil => simp
  | cons v l ih =>
    rw [foldl_cons, ih]
    cases hv : f v with
    | none => simp [put, hv]
    | some r => simp [put, hv]

theorem splitOne_gives (s : Split) (v : Volume) :
    Gives k.w (splitOne k.policy k.prev s v) (put k.own s v) := by
  have hbusy : Gives k.w (copyJobExists k.policy v.name) (k.busy v) := by
    refine gives_bind (gives_query k.quiet) ?_
    unfold busy
    cases k.w.jobs (replJobName k.policy.name v.name) with
    | none => exact gives_pure _
    | some job => exact gives_pure _
  have hheld : Gives k.w (isHeld k.policy k.prev v)
      (v.hold.isSome && !(k.copying v || k.busy v)) := by
    unfold isHeld copying
    cases v.hold with
    | none => exact gives_pure _
    | some r =>
      cases PolicyPass.copying k.prev v.name with
      | true => exact gives_pure _
      | false => exact gives_bind hbusy (gives_pure _)
  refine gives_bind hheld ?_
  unfold put own
  generalize (k.copying v || k.busy v) = c
  cases v.hold <;> cases c <;> exact gives_pure _

/-- What the holds of the volumes themselves reach. -/
def reaches (l : List Volume) : List (Reach × Hold) :=
  (k.ownHeld l).flatMap (fun x => (k.podOf x.1).toList.map (fun p => (.pod p.uid, x.2)))

theorem heldReach_gives (holds : List (Reach × Hold)) (x : Held) : Gives k.w (heldReach holds x)
    (holds ++ (k.podOf x.1).toList.map (fun p => (.pod p.uid, x.2))) := by
  refine gives_bind (gives_query k.quiet) ?_
  unfold podOf
  cases findVMPodForClaim k.w.pods x.1.name with
  | none =>
    have hp : Gives k.w (pure holds) holds := gives_pure _
    simpa using hp
  | some p => exact gives_pure _

theorem reasonOf_namespace (l : List Volume) (n : Name) :
    reasonOf (k.reaches l) (.namespace_ n) = none := by
  rw [reasonOf, map_eq_none_iff, find?_eq_none]
  intro x hx hn
  obtain ⟨y, -, hy⟩ := mem_flatMap.mp (mem_reverse.mp hx)
  obtain ⟨p, -, rfl⟩ := mem_map.mp hy
  cases of_decide_eq_true hn

/-- The last hold on a disk of the pod counts. -/
theorem reasonOf_pod (l : List Volume) (key : Name) :
    reasonOf (k.reaches l) (.pod key) = (l.reverse.find? (fun u => (k.own u).isSome &&
      (k.podOf u).any (fun p => p.uid = key))).bind k.own := by
  unfold reaches ownHeld
  induction l using reverseRecOn with
  | nil => rfl
  | append_singleton l v ih =>
    cases hv : k.own v with
    | none => simpa [hv] using ih
    | some r =>
      cases hp : k.podOf v with
      | none => simpa [hv, hp] using ih
      | some p =>
        by_cases hk : p.uid = key
        · simp [reasonOf, hv, hp, hk]
        · simpa [reasonOf, hv, hp, hk] using ih

theorem holdWithVM_gives (hon : k.copier = true) (l : List Volume) (s : Split) (v : Volume) :
    Gives k.w (holdWithVM k.prev (k.reaches l) s v) (put (k.others l) s v) := by
  refine gives_bind (gives_query k.quiet) ?_
  have hothers : k.others l v = if k.copying v then none
      else (findVMPodForClaim k.w.pods v.name).bind
        (fun x => reasonOf (k.reaches l) (.pod x.1.uid)) := by
    simp only [others, hon, podOf, reasonOf_pod, bind_map]
    rfl
  unfold put
  rw [hothers]
  unfold copying
  simp only [reasonOf_namespace]
  cases PolicyPass.copying k.prev v.name with
  | true => exact gives_pure _
  | false =>
    generalize hr : (findVMPodForClaim k.w.pods v.name).bind _ = r
    cases r <;> exact gives_pure _

/-- The pass holds back a volume for its own hold, or else for the last hold on its pod. -/
theorem splitHeld_gives (l : List Volume) :
    (splitHeld k.policy k.copier k.prev l).result k.w = .ok
      ⟨(k.ownFree l).filter (fun v => (k.others l v).isNone),
        k.ownHeld l ++ (k.ownFree l).filterMap (fun v => (k.others l v).map (v, ·))⟩ := by
  have hfirst := gives_foldEach k.splitOne_gives ⟨[], []⟩ l
  rw [foldl_put] at hfirst
  unfold splitHeld
  rw [result_bind_ok _ _ _ hfirst.1, hfirst.2]
  by_cases hout : k.ownHeld l = [] ∨ k.ownFree l = [] ∨ k.copier = false
  · have hnone : ∀ v ∈ k.ownFree l, k.others l v = none := by
      intro v hv
      rcases hout with hout | hout | hout
      · have hno : ∀ u ∈ l, k.own u = none := by simpa [ownHeld] using hout
        by_contra hsome
        obtain ⟨r, hr⟩ := ne_none_iff_exists'.mp hsome
        obtain ⟨-, u, ⟨-, hu, hown, -⟩, -⟩ := others_some hr
        exact hown (hno u hu)
      · rw [hout] at hv
        nomatch hv
      · simp [others, hout]
    refine (congrArg (Prog.result · k.w) (if_pos hout)).trans (congrArg Except.ok ?_)
    have hfree : (k.ownFree l).filter (fun v => (k.others l v).isNone) = k.ownFree l :=
      filter_eq_self.mpr (fun v hv => by rw [hnone v hv]; rfl)
    have hrest : (k.ownFree l).filterMap (fun v => (k.others l v).map (v, ·)) = [] :=
      filterMap_eq_nil_iff.mpr (fun v hv => by rw [hnone v hv]; rfl)
    rw [hfree, hrest, append_nil]
    rfl
  · have hholds := gives_foldEach k.heldReach_gives [] (k.ownHeld l)
    rw [← flatMap_eq_foldl] at hholds
    have hon : k.copier = true := by simpa using fun hc => hout (.inr (.inr hc))
    refine (congrArg (Prog.result · k.w) (if_neg hout)).trans ?_
    refine (result_bind_ok _ _ _ hholds.1).trans ?_
    rw [hholds.2]
    refine (gives_foldEach (k.holdWithVM_gives hon l) ⟨[], _⟩ _).1.trans (congrArg Except.ok ?_)
    exact foldl_put (k.others l) (k.ownFree l) ⟨[], k.ownHeld l⟩

section Claim

/-- No volume that is copied is held back, and every other one of a VM with a held volume
is, whatever the order of the volumes. -/
def Right (l : List Volume) : Prop :=
  ∃ s, (splitHeld k.policy k.copier k.prev l).result k.w = .ok s ∧
    (∀ x ∈ s.held, k.copying x.1 = false ∧ k.busy x.1 = false) ∧
    (∀ x ∈ s.held, ∀ v ∈ l, k.Shares Pod.vmi x.1 v →
      k.copying v ∨ k.busy v ∨ ∃ r, (v, r) ∈ s.held) ∧
    ∀ l', l'.Perm l → ∃ s', (splitHeld k.policy k.copier k.prev l').result k.w = .ok s' ∧
      s'.free.Perm s.free ∧ s'.held.Perm s.held

/-- No volume with a Job is beside a held one, the disks of a VM with a held one are all
beside held ones, and those are held for one reason. -/
structure Fits (l : List Volume) : Prop where
  jobs : ∀ v ∈ l, k.copying v = false → k.busy v → ∀ u, ¬ k.Beside l u v
  pods : ∀ v ∈ l, k.copying v = false → k.busy v = false → ∀ u ∈ l, k.HeldBack l u →
    k.Shares Pod.vmi u v → k.HeldBack l v
  reasons : ∀ v ∈ l, k.copying v = false → k.own v = none →
    ∀ u t, k.Beside l u v → k.Beside l t v → k.own u = k.own t

variable {k} {l : List Volume} {v : Volume}

theorem mem_held {r : Hold} : (v, r) ∈ k.ownHeld l ++ (k.ownFree l).filterMap
    (fun v => (k.others l v).map (v, ·)) ↔ v ∈ l ∧ (k.own v).or (k.others l v) = some r := by
  cases ho : k.own v <;> simp [ownHeld, ownFree, ho]

theorem others_of_beside {u : Volume} (hc : k.copying v = false) (h : k.Beside l u v) :
    ∃ r, k.others l v = some r := by
  obtain ⟨hon, hl, hown, p, q, hp, hq, hpq⟩ := h
  have hfound : (l.reverse.find? (fun u => (k.own u).isSome &&
      (k.podOf u).any (fun p => p.uid = q.uid))).isSome :=
    find?_isSome.mpr ⟨u, mem_reverse.mpr hl, by
      simp [isSome_iff_ne_none.mpr hown, hp, hpq]⟩
  obtain ⟨t, ht⟩ := isSome_iff_exists.mp hfound
  obtain ⟨r, hr⟩ := isSome_iff_exists.mp (Bool.and_eq_true _ _ ▸ find?_some ht).1
  exact ⟨r, by simp only [others, hon, hc, hq, bind_some, ht, hr]; rfl⟩

theorem heldBack_iff : k.HeldBack l v ↔ ∃ r, (k.own v).or (k.others l v) = some r := by
  constructor
  · rintro (hown | ⟨hc, u, hu⟩)
    · obtain ⟨r, hr⟩ := ne_none_iff_exists'.mp hown
      exact ⟨r, by rw [hr]; rfl⟩
    · obtain ⟨r, hr⟩ := others_of_beside hc hu
      cases ho : k.own v with
      | none => exact ⟨r, hr⟩
      | some r => exact ⟨r, rfl⟩
  · rintro ⟨r, hr⟩
    rcases or_eq_some_iff.mp hr with ho | ⟨-, ho⟩
    · exact .inl (by rw [ho]; nofun)
    · obtain ⟨hc, u, hu, -⟩ := others_some ho
      exact .inr ⟨hc, u, hu⟩

/-- A hold on the last volume counts. -/
theorem others_last {u : Volume} (hc : k.copying v = false) (h : k.Beside l u v) :
    k.others (l.erase u ++ [u]) v = k.own u := by
  obtain ⟨hon, hl, hown, p, q, hp, hq, hpq⟩ := h
  simp [others, hon, hc, hq, hp, hpq, isSome_iff_ne_none.mpr hown]

theorem Fits.others_of_perm (h : k.Fits l) (hv : v ∈ l) {l' : List Volume} (hl : l'.Perm l)
    (hown : k.own v = none) : k.others l' v = k.others l v := by
  have hbeside : ∀ u, k.Beside l' u v ↔ k.Beside l u v := by
    intro u
    unfold Beside
    rw [hl.mem_iff]
  cases ho : k.others l v with
  | none =>
    rw [eq_none_iff_forall_ne_some]
    intro r hr
    obtain ⟨hc, u, hu, -⟩ := others_some hr
    obtain ⟨r', hr'⟩ := others_of_beside hc ((hbeside u).mp hu)
    exact absent ho hr'
  | some r =>
    obtain ⟨hc, u, hu, hur⟩ := others_some ho
    obtain ⟨r', hr'⟩ := others_of_beside hc ((hbeside u).mpr hu)
    obtain ⟨-, t, ht, htr⟩ := others_some hr'
    rw [hr', ← htr, ← hur, h.reasons v hv hc hown u t hu ((hbeside t).mp ht)]

/-- The split is right if and only if the volumes fit. -/
theorem splitHeld_right_iff (k : Look) (l : List Volume) : k.Right l ↔ k.Fits l := by
  constructor
  · rintro ⟨s, hs, hfree, hall, horder⟩
    cases (k.splitHeld_gives l).symm.trans hs
    refine ⟨?_, ?_, ?_⟩
    · intro v hv hc hb u hu
      obtain ⟨r, hr⟩ := others_of_beside hc hu
      have hown : k.own v = none := by simp [own, hb]
      exact opposed hb (hfree (v, r) (mem_held.mpr ⟨hv, by rw [hown, hr]; rfl⟩)).2
    · intro v hv hc hb u hu hheld hshares
      obtain ⟨r, hr⟩ := heldBack_iff.mp hheld
      rcases hall (u, r) (mem_held.mpr ⟨hu, hr⟩) v hv hshares with h | h | ⟨r', h⟩
      · exact opposed h hc
      · exact opposed h hb
      · exact heldBack_iff.mpr ⟨r', (mem_held.mp h).2⟩
    · intro v hv hc hown u t hu ht
      have hlast : ∀ u, k.Beside l u v → k.others l v = k.own u := by
        intro u hu
        have hmove : (l.erase u ++ [u]).Perm l :=
          (perm_append_singleton u _).trans (perm_cons_erase hu.2.1).symm
        obtain ⟨s', hs', -, hp⟩ := horder _ hmove
        cases (k.splitHeld_gives _).symm.trans hs'
        obtain ⟨r, hr⟩ := ne_none_iff_exists'.mp hu.2.2.1
        have hin := mem_held.mp (hp.mem_iff.mp (mem_held.mpr
          ⟨hmove.mem_iff.mpr hv, by rw [hown, others_last hc hu, hr]; rfl⟩))
        rw [hr, ← hin.2, hown]
        rfl
      rw [← hlast u hu, hlast t ht]
  · intro h
    refine ⟨_, k.splitHeld_gives l, ?_, ?_, ?_⟩
    · rintro ⟨v, r⟩ hx
      obtain ⟨hv, hr⟩ := mem_held.mp hx
      rcases or_eq_some_iff.mp hr with ho | ⟨-, ho⟩
      · simpa using (ite_none_left_eq_some.mp ho).1
      · obtain ⟨hc, u, hu, -⟩ := others_some ho
        exact ⟨hc, Bool.eq_false_iff.mpr (fun hb => h.jobs v hv hc hb u hu)⟩
    · rintro ⟨u, r⟩ hx v hv hshares
      obtain ⟨hu, hr⟩ := mem_held.mp hx
      cases hc : k.copying v with
      | true => exact .inl rfl
      | false =>
        cases hb : k.busy v with
        | true => exact .inr (.inl rfl)
        | false =>
          have hback := h.pods v hv hc hb u hu (heldBack_iff.mpr ⟨r, hr⟩) hshares
          exact .inr (.inr ((heldBack_iff.mp hback).imp (fun r hr => mem_held.mpr ⟨hv, hr⟩)))
    · intro l' hl
      have hfree : (k.ownFree l').Perm (k.ownFree l) := hl.filter _
      have hothers : ∀ v ∈ k.ownFree l', k.others l' v = k.others l v := fun v hv =>
        h.others_of_perm (hl.mem_iff.mp (mem_filter.mp hv).1) hl
          (isNone_iff_eq_none.mp (mem_filter.mp hv).2)
      refine ⟨_, k.splitHeld_gives l', ?_, (hl.filterMap _).append ?_⟩
      · rw [filter_congr (fun v hv => congrArg Option.isNone (hothers v hv))]
        exact hfree.filter _
      · rw [filterMap_congr (fun v hv => congrArg (Option.map (v, ·)) (hothers v hv))]
        exact hfree.filterMap _

/-- An export reads one disk of a VM, and the copy Job of the other disk exists. -/
def jobBeside : Look where
  policy := CycleRuns.nightly
  copier := true
  prev := []
  w := { ControllerRuns.initial with
    pods := [⟨['p'], ['u'], ['i'], true, false, [⟨['a'], ['a'], []⟩, ⟨['b'], ['b'], []⟩], []⟩]
    jobs := fun n => if n = replJobName CycleRuns.nightly.name ['b'] then
      some ⟨n, CycleRuns.nightly.name, ['b'], ['b'], .file, .running⟩ else none }
  quiet := rfl

theorem job_beside_held : ∃ s,
    (splitHeld jobBeside.policy true [] [⟨['a'], [], false, some .cosExport⟩,
      ⟨['b'], [], false, none⟩]).result jobBeside.w = .ok s ∧
    ((⟨['b'], [], false, none⟩, .cosExport) : Held) ∈ s.held ∧
    jobBeside.busy ⟨['b'], [], false, none⟩ = true := by
  refine ⟨_, jobBeside.splitHeld_gives _, ?_, ?_⟩ <;> decide

end Claim

end Look

end FilePool.HeldVolumes
