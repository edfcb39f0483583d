import FilePool.StepRuns
import FilePool.UndoNames

/-!
The shares that hold the backups of volumes. A policy's pass gives each of its volumes a share
of the snapshot pool: the one of the volume's status entry, or a ready share with room that
holds few volumes. The share is written to the volume's label first, then a replication policy
is made for it, and the status with the entry comes last.
-/
namespace FilePool.BackupShares

open UndoNames StepRuns List

/-- A share of the snapshot pool; every share has an ID. -/
structure Share where
  id : Name
  ready : Bool
  id_ne : id ≠ []

/-- A status entry. An empty share is that of an entry which waits for room, or of one that
was made before entries had shares. -/
structure Entry where
  volume : Name
  share : Name
  noRoom : Bool
  lastBackup : Option ℤ
  retained : Bool
  deriving DecidableEq, Repr

/-- An old entry stands for the first share of the pool. -/
def shareOfEntry (e : Entry) (shares : List Share) : Option Name :=
  if e.share ≠ [] then some e.share
  else if e.noRoom then none
  else shares.head?.map Share.id

/-- The last entry of the volume. -/
def oldEntry (old : List Entry) (v : Name) : Option Entry :=
  old.reverse.find? (fun e => e.volume = v)

def keptShare (old : List Entry) (shares : List Share) (v : Name) : Option Name :=
  (oldEntry old v).bind (fun e => shareOfEntry e shares)

/-- A ready share with room takes the place of one that holds more volumes. -/
def betterShare (full : Name → Bool) (load : Name → ℕ) (best : Option Name) (sh : Share) :
    Option Name :=
  if !sh.ready || full sh.id then best
  else match best with
    | none => some sh.id
    | some b => if load sh.id < load b then some sh.id else some b

def bestShare (shares : List Share) (full : Name → Bool) (load : Name → ℕ) : Option Name :=
  shares.foldl (betterShare full load) none

/-- The volumes in order, each with its share; one without waits for room. -/
def placeVolumes (old : List Entry) (shares : List Share) (full : Name → Bool) :
    List Name → (Name → ℕ) → List (Name × Option Name)
  | [], _ => []
  | v :: vs, load =>
    match keptShare old shares v with
    | some id => (v, some id) :: placeVolumes old shares full vs load
    | none =>
      match bestShare shares full load with
      | none => (v, none) :: placeVolumes old shares full vs load
      | some id =>
        (v, some id) :: placeVolumes old shares full vs
          (Function.update load id (load id + 1))

structure Target where
  volume : Name
  pool : Name
  deriving DecidableEq, Repr

/-- A replication policy copies the volumes of a pool that have its share in their label. -/
structure Replication where
  pool : Name
  share : Name
  deriving DecidableEq, Repr

/-- The stored state of a policy. The home of a volume is the first share that was written
for it, in a label or in the status. -/
structure State where
  entries : List Entry
  labels : Name → Option Name
  replications : Name → Option Replication
  home : Name → Option Name

/-- What a pass meets: the pool's shares, those that are full, the volumes on each share over
all policies, the volumes of the policy in the order of their names, the names of the
replication policies, which labels and replication policies are written and which of the
latter are deleted, whether the pass gets to the status, the reports of the copies, the time
and the keep time, and whether the status is saved. -/
structure Input where
  shares : List Share
  full : Name → Bool
  load : Name → ℕ
  targets : List Target
  replicationName : Name → Name → Name
  labelled : Name → Bool
  ensured : Name → Bool
  removed : Name → Bool
  through : Bool
  report : Name → Option (Option ℤ)
  now : ℤ
  keep : ℤ
  saved : Bool

variable (i : Input)

def Input.volumes : List Name := i.targets.map Target.volume

def Input.stored : Bool := i.through && i.saved

/-- The share of a volume of the policy in this pass. -/
def placement (old : List Entry) (v : Name) : Option Name :=
  ((placeVolumes old i.shares i.full i.volumes i.load).find? (fun p => p.1 = v)).bind Prod.snd

def setLabels (old : List Entry) (labels : Name → Option Name) (v : Name) : Option Name :=
  if !i.labelled v then labels v
  else if v ∈ i.volumes then placement i old v
  else none

/-- One replication policy for each source pool and share; those that are not wanted go. -/
def setReplications (old : List Entry) (replications : Name → Option Replication) (n : Name) :
    Option Replication :=
  let wanted := i.targets.filterMap (fun t => (placement i old t.volume).bind (fun id =>
    if i.replicationName t.pool id = n && i.shares.any (fun sh => sh.id = id && sh.ready) then
      some (⟨t.pool, id⟩ : Replication)
    else none))
  match wanted.getLast? with
  | some r => if i.ensured n then some r else replications n
  | none => if i.through && i.removed n then none else replications n

/-- The entry of a volume of the policy. What no copy reports is kept from the last entry. -/
def newEntry (old : List Entry) (v : Name) : Entry :=
  match placement i old v with
  | none => ⟨v, [], true, none, false⟩
  | some id =>
    match i.report v with
    | some lastBackup => ⟨v, id, false, lastBackup, false⟩
    | none =>
      match old.reverse.find? (fun e => e.volume = v && !e.retained) with
      | some e => ⟨v, id, e.noRoom, e.lastBackup, false⟩
      | none => ⟨v, id, false, none, false⟩

/-- A volume that is not backed up any more keeps its entry for the keep time. -/
def keepsEntry (e : Entry) : Bool := e.lastBackup.any (fun t => i.now - t ≤ i.keep)

def retainedVolumes (old : List Entry) : List Entry :=
  (old.filter (fun e => e.volume ∉ i.volumes && keepsEntry i e)).map
    (fun e => { e with retained := true })

def buildStatus (old : List Entry) : List Entry :=
  i.volumes.map (newEntry i old) ++ retainedVolumes i old

/-- The share that this pass writes for a volume, if it writes one. -/
def writes (old : List Entry) (v : Name) : Option Name :=
  if v ∈ i.volumes && (i.labelled v || i.stored) then placement i old v else none

def pass (s : State) : State where
  entries := if i.stored then buildStatus i s.entries else s.entries
  labels := setLabels i s.entries s.labels
  replications := setReplications i s.entries s.replications
  home := fun v => (s.home v).or (writes i s.entries v)

def step (s : State) (i : Input) : Option State := some (pass i s)

/-- What holds between passes: every entry has a share or waits for room; a volume has a home
exactly when it has an entry with a share, which then is its home, in all its entries; and a
label names the home. -/
structure Settled (s : State) : Prop where
  waits : ∀ e ∈ s.entries, e.share ≠ [] ∨ e.noRoom = true
  entryHome : ∀ e ∈ s.entries, e.share ≠ [] → s.home e.volume = some e.share
  homeEntry : ∀ v id, s.home v = some id → id ≠ [] ∧ ∃ e ∈ s.entries, e.volume = v
  homeShare : ∀ e ∈ s.entries, ∀ id, s.home e.volume = some id → e.share = id
  label : ∀ v id, s.labels v = some id → s.home v = some id

/-- What a pass needs: if it labels a volume with a new share, it gets to the status and the
status is saved; and it leaves no volume with a share out, unless the entry is retained. -/
structure Fitting (s : State) (i : Input) : Prop where
  saves : ∀ v ∈ i.volumes, i.labelled v = true → keptShare s.entries i.shares v = none →
    placement i s.entries v ≠ none → i.stored = true
  keeps : i.stored = true → ∀ e ∈ s.entries, e.share ≠ [] → e.volume ∉ i.volumes →
    keepsEntry i e = true

variable {v id : Name} {shares : List Share} {full : Name → Bool} {old : List Entry} {i : Input}
  {e : Entry} {s : State} {load : Name → ℕ}

theorem oldEntry_some (h : oldEntry old v = some e) :
    e ∈ old ∧ e.volume = v :=
  ⟨mem_reverse.mp (mem_of_find?_eq_some h), by simpa using find?_some h⟩

theorem oldEntry_none (h : oldEntry old v = none) :
    ∀ e ∈ old, e.volume ≠ v := fun e he hv =>
  (find?_eq_none.mp h e (mem_reverse.mpr he)) (decide_eq_true hv)

/-- Between passes, the share that a pass keeps for a volume is its home. -/
theorem keptShare_eq_home (h : Settled s) :
    keptShare s.entries shares v = s.home v := by
  unfold keptShare
  cases hold : oldEntry s.entries v with
  | none =>
    cases hhome : s.home v with
    | none => rfl
    | some id =>
      obtain ⟨_, e, he, hv⟩ := h.homeEntry v id hhome
      exact absurd hv (oldEntry_none hold e he)
  | some e =>
    obtain ⟨he, rfl⟩ := oldEntry_some hold
    show shareOfEntry e shares = s.home e.volume
    unfold shareOfEntry
    split
    · rename_i hne
      exact (h.entryHome e he hne).symm
    · rename_i hempty
      have hwaits := (h.waits e he).resolve_left hempty
      rw [if_pos hwaits]
      cases hhome : s.home e.volume with
      | none => rfl
      | some id =>
        have hshare := h.homeShare e he id hhome
        exact absurd (hshare ▸ (h.homeEntry _ id hhome).1) hempty

theorem betterShare_ne {best : Option Name} {sh : Share}
    (hbest : ∀ b, best = some b → b ≠ [])
    (h : betterShare full load best sh = some id) : id ≠ [] := by
  unfold betterShare at h
  split at h
  · exact hbest id h
  · split at h
    · cases h
      exact sh.id_ne
    · split at h
      · cases h
        exact sh.id_ne
      · exact hbest id h

theorem bestShare_ne
    (h : bestShare shares full load = some id) : id ≠ [] := by
  have hfold (best : Option Name) (hbest : ∀ b, best = some b → b ≠ [])
      (hid : shares.foldl (betterShare full load) best = some id) : id ≠ [] := by
    clear h
    induction shares generalizing best with
    | nil => exact hbest id hid
    | cons sh shares ih => exact ih _ (fun b hb => betterShare_ne hbest hb) hid
  exact hfold none nofun h

/-- A volume that has a share keeps it; a new one gets a share with an ID, or none. -/
theorem mem_placeVolumes
    {placed : Option Name} (vs : List Name) (load : Name → ℕ)
    (h : (v, placed) ∈ placeVolumes old shares full vs load) :
    (∀ id, keptShare old shares v = some id → placed = some id) ∧
      (keptShare old shares v = none → ∀ id, placed = some id → id ≠ []) := by
  induction vs generalizing load with
  | nil => cases h
  | cons u vs ih =>
    unfold placeVolumes at h
    split at h
    · rename_i id hkept
      rcases mem_cons.mp h with heq | h
      · cases heq
        exact ⟨fun id' h' => hkept.symm.trans h', fun hnone => absent hnone hkept⟩
      · exact ih load h
    · rename_i hkept
      split at h
      · rcases mem_cons.mp h with heq | h
        · cases heq
          exact ⟨fun id' h' => absent hkept h', nofun⟩
        · exact ih load h
      · rename_i id hbest
        rcases mem_cons.mp h with heq | h
        · cases heq
          refine ⟨fun id' h' => absent hkept h', fun _ id' h' => ?_⟩
          cases h'
          exact bestShare_ne hbest
        · exact ih _ h

theorem placeVolumes_volumes (vs : List Name) (load : Name → ℕ) :
    (placeVolumes old shares full vs load).map Prod.fst = vs := by
  induction vs generalizing load with
  | nil => rfl
  | cons u vs ih =>
    unfold placeVolumes
    split
    · simp [ih]
    · split <;> simp [ih]

theorem mem_placement (hv : v ∈ i.volumes) :
    (v, placement i old v) ∈ placeVolumes old i.shares i.full i.volumes i.load := by
  unfold placement
  cases hfind : (placeVolumes old i.shares i.full i.volumes i.load).find? (fun p => p.1 = v) with
  | none =>
    have hmem : v ∈ (placeVolumes old i.shares i.full i.volumes i.load).map Prod.fst := by
      rwa [placeVolumes_volumes]
    obtain ⟨p, hp, hpv⟩ := mem_map.mp hmem
    exact absurd (decide_eq_true hpv) (find?_eq_none.mp hfind p hp)
  | some p =>
    have hpv : p.1 = v := by simpa using find?_some hfind
    have hp := mem_of_find?_eq_some hfind
    rw [← hpv]
    exact hp

theorem placement_home (h : Settled s)
    (hv : v ∈ i.volumes) (hhome : s.home v = some id) : placement i s.entries v = some id :=
  (mem_placeVolumes _ _ (mem_placement hv)).1 id ((keptShare_eq_home h).trans hhome)

theorem placement_ne (h : Settled s)
    (hv : v ∈ i.volumes) (hplaced : placement i s.entries v = some id) : id ≠ [] := by
  cases hhome : s.home v with
  | some id' =>
    have heq := (placement_home h hv hhome).symm.trans hplaced
    cases heq
    exact (h.homeEntry v id hhome).1
  | none =>
    exact (mem_placeVolumes _ _ (mem_placement hv)).2 ((keptShare_eq_home h).trans hhome) id hplaced

theorem newEntry_volume :
    (newEntry i old v).volume = v := by
  unfold newEntry
  split
  · rfl
  · split
    · rfl
    · split <;> rfl

theorem newEntry_share (i : Input) (old : List Entry) (v : Name) :
    (newEntry i old v).share = (placement i old v).getD [] := by
  unfold newEntry
  split
  · rename_i h
    rw [h]
    rfl
  · rename_i id h
    rw [h]
    split
    · rfl
    · split <;> rfl

/-- An entry of the new status is that of a volume of the pass, or it is kept. -/
theorem mem_buildStatus (h : e ∈ buildStatus i old) :
    (e.volume ∈ i.volumes ∧ e = newEntry i old e.volume) ∨
      (e.volume ∉ i.volumes ∧
        ∃ e₀ ∈ old, e₀.volume = e.volume ∧ e₀.share = e.share ∧ e₀.noRoom = e.noRoom) := by
  rcases mem_append.mp h with h | h
  · obtain ⟨v, hv, rfl⟩ := mem_map.mp h
    rw [newEntry_volume]
    exact .inl ⟨hv, rfl⟩
  · obtain ⟨e₀, he₀, rfl⟩ := mem_map.mp h
    obtain ⟨hold, hkeep⟩ := mem_filter.mp he₀
    exact .inr ⟨of_decide_eq_true (Bool.and_eq_true_iff.mp hkeep).1, e₀, hold, rfl, rfl, rfl⟩

theorem home_of_known (hhome : s.home v = some id) :
    (pass i s).home v = some id := by
  show (s.home v).or _ = _
  rw [hhome]
  rfl

theorem home_of_stored (h : Settled s)
    (hv : v ∈ i.volumes) (hstored : i.stored = true) :
    (pass i s).home v = placement i s.entries v := by
  show (s.home v).or (writes i s.entries v) = _
  cases hhome : s.home v with
  | some id => exact (placement_home h hv hhome).symm
  | none => simp [writes, hv, hstored]

theorem home_of_other (hv : v ∉ i.volumes) :
    (pass i s).home v = s.home v := by
  show (s.home v).or (writes i s.entries v) = _
  simp [writes, hv]

/-- In a pass that is not stored, only homes are written. -/
theorem home_of_unstored (h : Settled s) (hfit : Fitting s i)
    (hstored : i.stored = false) (v : Name) : (pass i s).home v = s.home v := by
  show (s.home v).or (writes i s.entries v) = _
  cases hhome : s.home v with
  | some id => rfl
  | none =>
    unfold writes
    split
    · rename_i hw
      rw [hstored, Bool.or_false, Bool.and_eq_true_iff] at hw
      by_contra hplaced
      exact absurd (hfit.saves v (of_decide_eq_true hw.1) hw.2
        ((keptShare_eq_home h).trans hhome) hplaced) (by rw [hstored]; exact nofun)
    · rfl

theorem stored_settled (h : Settled s) (hfit : Fitting s i)
    (hstored : i.stored = true) : Settled (pass i s) := by
  have hentries : (pass i s).entries = buildStatus i s.entries := if_pos hstored
  have hshare {e : Entry} (hv : e.volume ∈ i.volumes) (heq : e = newEntry i s.entries e.volume) :
      e.share = ((pass i s).home e.volume).getD [] := by
    rw [home_of_stored h hv hstored, ← newEntry_share, ← heq]
  refine ⟨fun e he => ?_, fun e he hne => ?_, fun v id hhome => ?_, fun e he id hhome => ?_,
    fun v id hlabel => ?_⟩
  · rw [hentries] at he
    rcases mem_buildStatus he with ⟨hv, heq⟩ | ⟨_, e₀, he₀, _, hshare₀, hroom⟩
    · rw [heq, newEntry_share]
      cases hplaced : placement i s.entries e.volume with
      | none => exact .inr (by rw [newEntry, hplaced])
      | some id => exact .inl (placement_ne h hv hplaced)
    · rw [← hshare₀, ← hroom]
      exact h.waits e₀ he₀
  · rw [hentries] at he
    rcases mem_buildStatus he with ⟨hv, heq⟩ | ⟨hv, e₀, he₀, hvol, hshare₀, _⟩
    · have hs := hshare hv heq
      cases hhome : (pass i s).home e.volume with
      | none =>
        rw [hhome] at hs
        exact absurd hs hne
      | some id =>
        rw [hs, hhome]
        rfl
    · rw [home_of_other hv, ← hvol, ← hshare₀]
      exact h.entryHome e₀ he₀ (hshare₀ ▸ hne)
  · rw [hentries]
    by_cases hv : v ∈ i.volumes
    · rw [home_of_stored h hv hstored] at hhome
      refine ⟨placement_ne h hv hhome, newEntry i s.entries v, ?_, newEntry_volume⟩
      exact mem_append_left _ (mem_map_of_mem hv)
    · -- the entry of a volume that is left out is retained
      rw [home_of_other hv] at hhome
      obtain ⟨hne, e, he, rfl⟩ := h.homeEntry v id hhome
      have hkeeps := hfit.keeps hstored e he (h.homeShare e he id hhome ▸ hne) hv
      refine ⟨hne, { e with retained := true }, mem_append_right _ ?_, rfl⟩
      refine mem_map_of_mem (mem_filter.mpr ⟨he, ?_⟩)
      rw [hkeeps, Bool.and_true]
      exact decide_eq_true hv
  · rw [hentries] at he
    rcases mem_buildStatus he with ⟨hv, heq⟩ | ⟨hv, e₀, he₀, hvol, hshare₀, _⟩
    · rw [hshare hv heq, hhome]
      rfl
    · rw [home_of_other hv, ← hvol] at hhome
      rw [← hshare₀]
      exact h.homeShare e₀ he₀ id hhome
  · have hlabel : setLabels i s.entries s.labels v = some id := hlabel
    unfold setLabels at hlabel
    split at hlabel
    · exact home_of_known (h.label v id hlabel)
    · split at hlabel
      · rename_i hv
        rw [home_of_stored h hv hstored]
        exact hlabel
      · cases hlabel

theorem unstored_settled (h : Settled s) (hfit : Fitting s i)
    (hstored : i.stored = false) : Settled (pass i s) := by
  have hentries : (pass i s).entries = s.entries := if_neg (by rw [hstored]; exact nofun)
  have hhome := home_of_unstored h hfit hstored
  refine ⟨?_, ?_, ?_, ?_, fun v id hlabel => ?_⟩
  · rw [hentries]
    exact h.waits
  · intro e he
    rw [hhome]
    exact h.entryHome e (hentries ▸ he)
  · intro v id
    rw [hhome, hentries]
    exact h.homeEntry v id
  · intro e he id
    rw [hhome]
    exact h.homeShare e (hentries ▸ he) id
  · have hlabel : setLabels i s.entries s.labels v = some id := hlabel
    unfold setLabels at hlabel
    rw [hhome]
    split at hlabel
    · exact h.label v id hlabel
    · rename_i hlabelled
      split at hlabel
      · rename_i hv
        -- the share was not new, or the pass would have been stored
        cases hhome' : s.home v with
        | some id' => exact (placement_home h hv hhome').symm.trans hlabel
        | none =>
          have hsaves := hfit.saves v hv (by simpa using hlabelled)
            ((keptShare_eq_home h).trans hhome') (by rw [hlabel]; exact nofun)
          exact opposed hsaves hstored
      · cases hlabel

theorem step_settled {s' : State} (hfit : Fitting s i) (h : Settled s)
    (hstep : step s i = some s') : Settled s' := by
  cases hstep
  cases hstored : i.stored with
  | true => exact stored_settled h hfit hstored
  | false => exact unstored_settled h hfit hstored

/-- A replication policy copies a volume when the volume's label has its share. -/
def Covers (s : State) (r : Replication) (v : Name) : Prop :=
  s.labels v = some r.share ∧ ∃ n, s.replications n = some r

/-- Everything that names a share for the volume names this one. -/
structure OnlyShare (s : State) (v id : Name) : Prop where
  entries : ∀ e ∈ s.entries, e.volume = v → e.share = id
  restore : ∀ e ∈ s.entries, e.volume = v → ∀ shares, shareOfEntry e shares = some id
  label : ∀ id', s.labels v = some id' → id' = id
  replication : ∀ r, Covers s r v → r.share = id

theorem Settled.onlyShare (h : Settled s)
    (hhome : s.home v = some id) : OnlyShare s v id := by
  have hentry (e : Entry) (he : e ∈ s.entries) (hv : e.volume = v) : e.share = id :=
    h.homeShare e he id (hv ▸ hhome)
  have hlabel (id' : Name) (hl : s.labels v = some id') : id' = id :=
    Option.some.inj ((h.label v id' hl).symm.trans hhome)
  refine ⟨hentry, fun e he hv shares => ?_, hlabel, fun r hr => hlabel r.share hr.1⟩
  unfold shareOfEntry
  rw [if_pos (hentry e he hv ▸ (h.homeEntry v id hhome).1), hentry e he hv]

/-- In every run of passes that fit, a volume keeps the share that was first written for it,
and its entries, its label, its replication policies and its restores name that share. -/
theorem volume_keeps_share (s s' : State) (hs : Settled s) (hrun : Run step Fitting s s') :
    (∀ v id, s.home v = some id → s'.home v = some id) ∧
      ∀ v id, s'.home v = some id → OnlyShare s' v id := by
  have hkept : Settled s' ∧ ∀ v id, s.home v = some id → s'.home v = some id := by
    refine hrun.keeps (I := fun t => Settled t ∧ ∀ v id, s.home v = some id → t.home v = some id)
      (fun t i t' hfit ht hstep => ?_) ⟨hs, fun _ _ h => h⟩
    refine ⟨step_settled hfit ht.1 hstep, fun v id hhome => ?_⟩
    cases hstep
    exact home_of_known (ht.2 v id hhome)
  exact ⟨hkept.2, fun v id hhome => hkept.1.onlyShare hhome⟩

/-- No volume is backed up yet. -/
def emptyState : State := ⟨[], fun _ => none, fun _ => none, fun _ => none⟩

theorem settled_emptyState : Settled emptyState := ⟨nofun, nofun, nofun, nofun, nofun⟩

def shareX : Share := ⟨['x'], true, cons_ne_nil _ _⟩

def shareY : Share := ⟨['y'], true, cons_ne_nil _ _⟩

/-- A pass for one volume in which everything is written but, maybe, the status. -/
def onePass (full : Name → Bool) (saved : Bool) : Input where
  shares := [shareX, shareY]
  full := full
  load := fun _ => 0
  targets := [⟨['v'], ['p']⟩]
  replicationName := fun pool id => pool ++ id
  labelled := fun _ => true
  ensured := fun _ => true
  removed := fun _ => true
  through := true
  report := fun _ => none
  now := 0
  keep := 0
  saved := saved

/-- The status of the first pass is not saved, and then its share is full: the label and the
replication policy move to another share. -/
theorem volume_changes_share : ∃ s, Run step (fun _ _ => True) emptyState s ∧
    s.home ['v'] = some ['x'] ∧ s.labels ['v'] = some ['y'] ∧
      Covers s ⟨['p'], ['y']⟩ ['v'] ∧ ∃ e ∈ s.entries, e.volume = ['v'] ∧ e.share = ['y'] := by
  refine ⟨_, .next (onePass (fun id => id = ['x']) true)
    (.next (onePass (fun _ => false) false) .start trivial rfl) trivial rfl, ?_, ?_,
    ⟨?_, ['p', 'y'], ?_⟩, ⟨['v'], ['y'], false, none, false⟩, ?_, rfl, rfl⟩ <;> decide

/-- The first pass is saved; the volume keeps its share when the share is full. -/
theorem volume_keeps_share_full : ∃ s, s.home ['v'] = some ['x'] ∧ s.entries ≠ [] ∧
    OnlyShare s ['v'] ['x'] := by
  have hfirst : Fitting emptyState (onePass (fun _ => false) true) :=
    ⟨fun _ _ _ _ _ => rfl, nofun⟩
  have hsecond : Fitting (pass (onePass (fun _ => false) true) emptyState)
      (onePass (fun id => id = ['x']) true) := ⟨fun _ _ _ _ _ => rfl, fun _ e he _ hv => ?_⟩
  · have hrun : Run step Fitting emptyState _ :=
      .next (onePass (fun id => id = ['x']) true) (.next (onePass (fun _ => false) true) .start
        hfirst rfl) hsecond rfl
    exact ⟨_, by decide, by decide,
      (volume_keeps_share emptyState _ settled_emptyState hrun).2 _ _ (by decide)⟩
  · rw [mem_singleton.mp he] at hv
    exact absurd (mem_singleton_self _) hv

end FilePool.BackupShares
