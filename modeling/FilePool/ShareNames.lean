import FilePool.PoolOrigins

/-!
Whose share it is. An ID of the VPC is used once, and it stays with the name the share was
made under. A pool makes and takes over only shares of its own names, so every share that
a pool records, every share a call has in hand, and every share that a volume or a snapshot
is on was made under a name of that pool. Two pools can have a share name in common only if
the name of one of them, with a dash, begins the name of the other.
-/
namespace FilePool.ShareNames

open UndoNames RewoundFolders PoolRecords VersionedStore PoolWorld PoolAnswers PoolMachine
  PoolProtocol PoolSteps PoolOrder PoolOrigins ThreadRuns List

/-- The share was made under this name, and it is a name of the pool. -/
def Owned (issued : List (Name × Name)) (pool id name : Name) : Prop :=
  (id, name) ∈ issued ∧ ∃ tier k, name = shareNameOf pool tier k

/-- Neither name, with a dash, begins the other. -/
def Apart (p q : Name) : Prop := ¬(p ++ ['-']) <+: q ∧ ¬(q ++ ['-']) <+: p

instance (p q : Name) : Decidable (Apart p q) :=
  inferInstanceAs (Decidable (¬(p ++ ['-']) <+: q ∧ ¬(q ++ ['-']) <+: p))

theorem dash_isPrefix_shareNameOf (pool tier : Name) (k : ℕ) :
    (pool ++ ['-']) <+: shareNameOf pool tier k := by
  unfold shareNameOf
  split
  · exact ⟨['s', 'h', 'a', 'r', 'e', '-'] ++ digitsOf k, by simp [shareWord]⟩
  · exact ⟨tier ++ shareWord ++ digitsOf k, by simp⟩

/-- Pools that are apart have no share name in common. -/
theorem pool_eq_of_shareNameOf {p q t u : Name} {k m : ℕ} (hapart : p ≠ q → Apart p q)
    (h : shareNameOf p t k = shareNameOf q u m) : p = q := by
  by_contra hne
  obtain ⟨hpq, hqp⟩ := hapart hne
  have hp := dash_isPrefix_shareNameOf p t k
  have hq := dash_isPrefix_shareNameOf q u m
  rw [← h] at hq
  have hp' : p <+: shareNameOf p t k := (prefix_append p ['-']).trans hp
  have hq' : q <+: shareNameOf p t k := (prefix_append q ['-']).trans hq
  rcases lt_trichotomy p.length q.length with hlt | heq | hlt
  · exact hpq (prefix_of_prefix_length_le hp hq' (by simp; omega))
  · exact hne (IsPrefix.eq_of_length (prefix_of_prefix_length_le hp' hq' heq.le) heq)
  · exact hqp (prefix_of_prefix_length_le hq hp' (by simp; omega))

variable {issued : List (Name × Name)} {m id n : Name}

theorem name_eq (hnodup : (issued.map Prod.fst).Nodup) (hm : (id, m) ∈ issued)
    (hn : (id, n) ∈ issued) : m = n := by
  have := inj_on_of_nodup_map hnodup hm hn rfl
  cases this
  rfl

theorem Owned.pool_eq (hnodup : (issued.map Prod.fst).Nodup) {p q : Name}
    (hapart : p ≠ q → Apart p q) (h : Owned issued p id m) (h' : Owned issued q id n) : p = q := by
  obtain ⟨hid, t, k, rfl⟩ := h
  obtain ⟨hid', u, j, rfl⟩ := h'
  exact pool_eq_of_shareNameOf hapart (name_eq hnodup hid hid')

/-- What a call has in hand. -/
structure NamedWork (issued : List (Name × Name)) (l : Local) : Prop where
  base : ∀ p₀, l.base = some p₀ → ∀ s ∈ p₀.status.shares,
    Owned issued p₀.name s.shareID s.shareName
  made : ∀ p₀, l.base = some p₀ → ∀ m ∈ l.made, m.info.name = m.input.name ∧
    Owned issued p₀.name m.info.id m.info.name
  asked : ∀ p₀ input tier, l.base = some p₀ → l.asked = some (input, tier) →
    ∃ t k, input.name = shareNameOf p₀.name t k
  creating : ∀ id input tier, l.creating = some id → l.asked = some (input, tier) →
    (id, input.name) ∈ issued
  offered : ∀ c ∈ l.offered, ∀ input tier, l.asked = some (input, tier) →
    (c.id, input.name) ∈ issued
  switches : ∀ x ∈ l.switches, (x.2.id, x.2.name) ∈ issued

structure NamedWorld (w : World) : Prop where
  once : (w.issued.map Prod.fst).Nodup
  shares : ∀ s ∈ w.shares, (s.id, s.name) ∈ w.issued
  pools : ∀ p ∈ w.pools, ∀ s ∈ p.status.shares, Owned w.issued p.name s.shareID s.shareName
  volumes : ∀ v ∈ w.subVolumes, ∃ n, Owned w.issued v.poolName v.shareID n
  snapshots : ∀ s ∈ w.snapshots, ∃ n, Owned w.issued s.poolName s.shareID n

def Named (w : World) (ls : ℕ → Option Local) : Prop :=
  NamedWorld w ∧ ∀ i l, ls i = some l → NamedWork w.issued l

variable {issued issued' : List (Name × Name)} {l l' : Local}

theorem Owned.mono {pool name : Name} (h : Owned issued pool id name)
    (hsub : issued ⊆ issued') : Owned issued' pool id name := ⟨hsub h.1, h.2⟩

theorem NamedWork.mono (h : NamedWork issued l) (hsub : issued ⊆ issued') :
    NamedWork issued' l :=
  ⟨fun p hp s hs => (h.base p hp s hs).mono hsub,
    fun p hp m hm => ⟨(h.made p hp m hm).1, (h.made p hp m hm).2.mono hsub⟩, h.asked,
    fun id input tier hid hasked => hsub (h.creating id input tier hid hasked),
    fun c hc input tier hasked => hsub (h.offered c hc input tier hasked),
    fun x hx => hsub (h.switches x hx)⟩

theorem NamedWork.same (h : NamedWork issued l)
    (hs : SameShares l l' := by exact ⟨rfl, rfl, rfl, rfl, rfl, rfl, rfl, rfl, rfl, rfl⟩) :
    NamedWork issued l' := by
  refine ⟨?_, ?_, ?_, ?_, ?_, ?_⟩
  · rw [hs.base]
    exact h.base
  · rw [hs.base, hs.made]
    exact h.made
  · rw [hs.base, hs.asked]
    exact h.asked
  · rw [hs.creating, hs.asked]
    exact h.creating
  · rw [hs.offered, hs.asked]
    exact h.offered
  · rw [hs.switches]
    exact h.switches

theorem NamedWork.noBase (h : NamedWork issued l) (hd : Dropped l l') : NamedWork issued l' := by
  have hnone := hd.not_base
  refine ⟨fun p hp => absurd hp (hnone p), fun p hp => absurd hp (hnone p),
    fun p _ _ hp => absurd hp (hnone p), ?_, ?_, ?_⟩
  · rw [hd.creating, hd.asked]
    exact h.creating
  · rw [hd.offered, hd.asked]
    exact h.offered
  · rw [hd.switches]
    exact h.switches

theorem namedWork_start {c : Call} : NamedWork issued (start c) :=
  ⟨fun _ h => (nomatch h), fun _ h => (nomatch h), fun _ _ _ h => (nomatch h),
    nofun, nofun, nofun⟩

variable {w w' : World} {i : ℕ} {ch : Choice}

theorem namedWork_poolRead {a : Except ApiErr Pool} (hw : NamedWorld w)
    (h : NamedWork w.issued l) (ha : ∀ p, a = .ok p → find poolKind w.pools n = some p)
    (hstep : poolRead l n a l') : NamedWork w.issued l' := by
  cases a with
  | ok p =>
    have hp : p ∈ w.pools := find_mem (ha p rfl)
    rcases hstep with rfl | ⟨-, rfl⟩ | ⟨p₀, m, hbase, hname, -, -, rfl⟩
    · exact h
    · refine ⟨fun q hq => ?_, fun _ _ m hm => (nomatch hm), fun _ _ _ _ h => (nomatch h),
        nofun, nofun, nofun⟩
      cases hq
      exact hw.pools p hp
    · refine ⟨fun q hq s hs => ?_, fun q hq m hm => ?_, fun q input tier hq hasked => ?_,
        h.creating, h.offered, h.switches⟩
      · cases hq
        have := h.base p₀ hbase s hs
        rw [hname] at this
        exact this
      · cases hq
        have := h.made p₀ hbase m hm
        rw [hname] at this
        exact this
      · cases hq
        have := h.asked p₀ input tier hbase hasked
        rw [hname] at this
        exact this
  | error e =>
    rcases hstep with rfl | ⟨-, rfl⟩
    · exact h
    · exact h.same

theorem namedWork_createShare {input : CreateShareInput} {a : Except VpcErr Name}
    (h : NamedWork w.issued l) (ha : answer i (.createShare input) ch w = some (a, w'))
    (hstep : shareCreated l input a l') : NamedWork w'.issued l' := by
  obtain ⟨p₀, tier, k, hbase, -, hname, -, -, hstep⟩ := hstep
  have h' := h.mono (answer_issues ha).subset
  have hasked : ∀ q input' tier', l.base = some q → some (input, tier) = some (input', tier') →
      ∃ t k, input'.name = shareNameOf q.name t k := by
    intro q input' tier' hq hin
    cases hin
    cases hbase.symm.trans hq
    exact ⟨tier, k, hname⟩
  match a with
  | .ok id =>
    cases hstep
    refine ⟨h'.base, h'.made, hasked, fun x input' tier' hx hin => ?_, nofun,
      h'.switches⟩
    cases hx
    cases hin
    rcases answer_createShare ha with ⟨-, e, he⟩ | ⟨id', ts, -, rfl, ⟨ha', -⟩ | ha'⟩
    · cases he
    · cases ha'
      exact mem_cons_self
    · cases ha'
  | .error .alreadyExists =>
    cases hstep
    exact ⟨h'.base, h'.made, hasked, nofun, nofun, h'.switches⟩
  | .error .notFound | .error .other =>
    cases hstep
    exact h'

theorem namedWork_sharesByName {a : Except VpcErr (List ShareInfo)}
    (hw : NamedWorld w) (h : NamedWork w.issued l)
    (ha : ∀ cs, a = .ok cs → cs = w.shares.filter (fun s => s.name = n))
    (hstep : sharesFound l n a l') : NamedWork w.issued l' := by
  cases a with
  | ok cs =>
    have hcs : ∀ c ∈ cs, (c.id, c.name) ∈ w.issued ∧ c.name = n := by
      intro c hc
      rw [ha cs rfl] at hc
      obtain ⟨hmem, hname⟩ := mem_filter.mp hc
      exact ⟨hw.shares c hmem, by simpa using hname⟩
    rcases hstep with ⟨input, tier, hasked, rfl, rfl⟩ | ⟨p₀, info, s, -, -, -, -, -, -, -, -, rfl⟩
    · refine { h with offered := fun c hc input' tier' hin => ?_ }
      have hin' : l.asked = some (input', tier') := hin
      cases hasked.symm.trans hin'
      obtain ⟨hissued, hname⟩ := hcs c hc
      rw [hname] at hissued
      exact hissued
    · refine { h with switches := fun x hx => ?_ }
      rcases mem_append.mp hx with hx | hx
      · exact h.switches x hx
      · obtain ⟨c, hc, rfl⟩ := mem_map.mp hx
        exact (hcs c (mem_filter.mp hc).1).1
  | error e =>
    cases hstep
    exact h

theorem namedWork_awaitShare {a : Except VpcErr ShareInfo} (hw : NamedWorld w)
    (h : NamedWork w.issued l) (ha : ∀ info, a = .ok info → findInfo w id = some info)
    (hstep : shareAwaited l id a l') : NamedWork w.issued l' := by
  obtain ⟨input, tier, hasked, -, hid, hstep⟩ := hstep
  cases a with
  | ok info =>
    cases hstep
    obtain ⟨hmem, hinfo⟩ := findInfo_some (ha info rfl)
    have hname : (id, input.name) ∈ w.issued := by
      rcases hid with hcreating | ⟨c, hc, hcid, -⟩
      · exact h.creating id input tier hcreating hasked
      · exact hcid ▸ h.offered c hc input tier hasked
    have heq : info.name = input.name := by
      refine name_eq hw.once (hw.shares info hmem) ?_
      rw [hinfo]
      exact hname
    refine ⟨h.base, fun p₀ hp₀ m hm => ?_, fun _ _ _ _ h => (nomatch h), nofun,
      nofun, h.switches⟩
    rcases mem_append.mp hm with hm | hm
    · exact h.made p₀ hp₀ m hm
    · cases mem_singleton.mp hm
      obtain ⟨t, k, hk⟩ := h.asked p₀ input tier hp₀ hasked
      exact ⟨heq, hw.shares info hmem, t, k, heq.trans hk⟩
  | error e =>
    cases hstep
    exact h

/-- The step lemma for the thread that asks. -/
theorem answer_namedWork {q : Query} {a : Answer q} (hw : NamedWorld w) (h : NamedWork w.issued l)
    (ha : answer i q ch w = some (a, w')) (hstep : protocol.step l q a l') :
    NamedWork w'.issued l' := by
  have hissued : part q ≠ .shares → w'.issued = w.issued := fun hq =>
    ((answer_sameBut ha).shares hq).2
  cases q with
  | unlock _ | updatePoolStatus _ | updatePool _ =>
    rw [hissued nofun]
    rcases answer_closes ha hstep trivial with ⟨-, hs⟩ | hd
    · exact h.same hs
    · exact h.noBase hd
  | getPool n =>
    obtain ⟨rfl, hp⟩ := reads_found ha
    exact namedWork_poolRead hw h hp hstep
  | listPools =>
    rw [hissued nofun]
    cases a with
    | ok _ | error _ =>
      cases hstep
      exact { h with }
  | createShare input => exact namedWork_createShare h ha hstep
  | sharesByName n =>
    obtain ⟨rfl, hcs⟩ := answer_sharesByName ha
    exact namedWork_sharesByName hw h hcs hstep
  | awaitShare id =>
    obtain ⟨rfl, hinfo⟩ := awaitShare_some ha
    exact namedWork_awaitShare hw h (fun info hi => (hinfo info hi).1) hstep
  | getShare id =>
    rw [hissued nofun]
    rcases hstep with rfl | ⟨info, -, rfl⟩
    all_goals exact { h with }
  | deleteShare id =>
    obtain ⟨rfl, -⟩ := hstep
    cases ch <;> cases ha <;> exact h
  | createMountTarget id =>
    cases hstep
    cases ch <;> cases ha <;> exact h
  | _ =>
    rw [hissued nofun]
    exact h.same ((step_framed hstep).shares id)

variable {p₀ : Pool} {s : PoolShareStatus}

theorem mem_changeShare {f : PoolShareStatus → PoolShareStatus}
    {shares : List PoolShareStatus} (h : s ∈ changeShare id f shares) :
    ∃ t ∈ shares, s = t ∨ s = f t := by
  induction shares with
  | nil => cases h
  | cons x rest ih =>
    unfold changeShare at h
    split at h
    · rcases mem_cons.mp h with rfl | h
      · exact ⟨x, mem_cons_self, .inr rfl⟩
      · exact ⟨s, mem_cons_of_mem x h, .inl rfl⟩
    · rcases mem_cons.mp h with rfl | h
      · exact ⟨s, mem_cons_self, .inl rfl⟩
      · obtain ⟨t, ht, heq⟩ := ih h
        exact ⟨t, mem_cons_of_mem x ht, heq⟩

theorem shareID_status {m : Made} : m.status.shareID = m.info.id :=
  (ShareCreation.newPoolShareStatus_same m.info m.tier).1

theorem shareName_status (m : Made) : m.status.shareName = m.info.name :=
  (ShareCreation.newPoolShareStatus_same m.info m.tier).2.1

theorem mem_forall₂_right {α β : Type} {R : α → β → Prop} {as : List α} {bs : List β}
    (h : List.Forall₂ R as bs) {b : β} (hb : b ∈ bs) : ∃ a ∈ as, R a b := by
  induction h with
  | nil => cases hb
  | cons hab _ ih =>
    rcases mem_cons.mp hb with rfl | hb
    · exact ⟨_, mem_cons_self, hab⟩
    · obtain ⟨a, ha, hR⟩ := ih hb
      exact ⟨a, mem_cons_of_mem _ ha, hR⟩

theorem NamedWork.grown (h : NamedWork w.issued l) (hbase : l.base = some p₀)
    (hs : s ∈ l.made.map Made.status) :
    Owned w.issued p₀.name s.shareID s.shareName := by
  obtain ⟨m, hm, rfl⟩ := mem_map.mp hs
  rw [shareID_status, shareName_status]
  exact (h.made p₀ hbase m hm).2

theorem owned_wrote {x : Pool} (h : NamedWork w.issued l) (hbase : l.base = some p₀)
    (hwrote : Wrote l p₀ x) :
    ∀ s ∈ x.status.shares, Owned w.issued p₀.name s.shareID s.shareName := by
  intro s hs
  rcases hwrote with ⟨share, gb, pvcs, d, c, hbooked, -⟩ | ⟨hrefreshed, -⟩
  · rw [hbooked.shares] at hs
    obtain ⟨t, ht, heq⟩ := mem_changeShare hs
    have hown : Owned w.issued p₀.name t.shareID t.shareName := by
      rcases mem_append.mp ht with ht | ht
      · exact h.base p₀ hbase t ht
      · exact h.grown hbase ht
    rcases heq with rfl | rfl
    · exact hown
    · exact hown
  · obtain ⟨sub, kept, hsub, hall, hshares⟩ := hrefreshed.shares
    rw [hshares] at hs
    rcases mem_append.mp hs with hs | hs
    · obtain ⟨t, ht, hc⟩ := mem_forall₂_right hall hs
      have hown := h.base p₀ hbase t (hsub.subset ht)
      rw [hc.name]
      rcases hc.id with hid | ⟨x, hx, hxname, hid⟩
      · rw [hid]
        exact hown
      · rw [hid, ← hxname]
        exact ⟨h.switches _ hx, hxname ▸ hown.2⟩
    · exact h.grown hbase hs

theorem owned_fits {v : SubVolume} (h : NamedWork w.issued l) (hbase : l.base = some p₀)
    (hfits : Fits l p₀ v) : ∃ n, Owned w.issued p₀.name v.shareID n := by
  obtain ⟨s, hs, -, hfit⟩ := hfits
  rw [← hs]
  rcases hfit with ⟨hmem, -⟩ | ⟨m, hm, rfl, -⟩
  · exact ⟨_, h.base p₀ hbase s hmem⟩
  · exact ⟨_, h.grown hbase (mem_map_of_mem hm)⟩

theorem NamedWorld.later (hw : NamedWorld w) (hissues : Issues w w')
    (hshares : ∀ s ∈ w'.shares, ShareFrom w w' s)
    (hpools : ∀ p ∈ w'.pools, ∀ s ∈ p.status.shares, Owned w.issued p.name s.shareID s.shareName)
    (hvolumes : ∀ v ∈ w'.subVolumes, ∃ n, Owned w.issued v.poolName v.shareID n)
    (hsnaps : ∀ s ∈ w'.snapshots, ∃ n, Owned w.issued s.poolName s.shareID n) : NamedWorld w' := by
  have hsub := hissues.subset
  refine ⟨hissues.nodup hw.once, fun s hs => ?_, fun p hp s hs => (hpools p hp s hs).mono hsub,
    fun v hv => (hvolumes v hv).imp (fun _ h => h.mono hsub),
    fun s hs => (hsnaps s hs).imp (fun _ h => h.mono hsub)⟩
  rcases hshares s hs with ⟨u, hu, hid, hname⟩ | ⟨-, hmem⟩
  · rw [← hid, ← hname]
    exact hsub (hw.shares u hu)
  · exact hmem

theorem NamedWorld.descends (hw : NamedWorld w) {p u : Pool} (hu : Descends w p u)
    (hstatus : p.status = u.status) :
    ∀ s ∈ p.status.shares, Owned w.issued p.name s.shareID s.shareName := by
  have hname : u.name = p.name := find_name hu.found
  rw [hstatus, ← hname]
  exact hw.pools u (find_mem hu.found)

/-- The step lemma for the world. -/
theorem answer_namedWorld {q : Query} {a : Answer q} (hstore : StoreOrder w) (hl : InOrder w i l)
    (hw : NamedWorld w) (h : NamedWork w.issued l) (ha : answer i q ch w = some (a, w'))
    (hstep : protocol.step l q a l') : NamedWorld w' := by
  refine hw.later (answer_issues ha) (fun s => answer_share_origin ha) (fun p hp => ?_)
    (fun v hv => ?_) (fun s hs => ?_)
  · obtain ⟨u, hu, -, hstatus | ⟨p₀, x, hbase, -, hname, -, hstatus, hwrote⟩⟩ :=
      answer_pool_origin hstore ha hstep hp
    · exact hw.descends hu hstatus
    · rw [hname, hstatus]
      exact owned_wrote h hbase hwrote
  · rcases answer_volume_origin ha hstep hv with ⟨u, hu, -, hshare, hpool⟩ |
      ⟨p₀, x, hbase, -, hpool, -, hshare, hfits⟩
    · rw [← hshare, ← hpool]
      exact hw.volumes u hu
    · rw [hpool, hshare]
      exact owned_fits h hbase hfits
  · rcases answer_snapshot_origin hl ha hstep hs with ⟨u, hu, hshare, hpool⟩ |
      ⟨v, hv, hshare, hpool⟩
    · rw [← hshare, ← hpool]
      exact hw.snapshots u hu
    · rw [← hshare, ← hpool]
      exact hw.volumes v hv

theorem event_namedWorld {e : Event} (hstore : StoreOrder w) (hw : NamedWorld w)
    (he : happens e w = some w') : NamedWorld w' := by
  refine hw.later (event_issues he) (fun s => event_share_origin he) (fun p hp => ?_) ?_
    (fun s hs => ?_)
  · rcases event_pool_origin hstore he hp with ⟨u, hu, hstatus⟩ | ⟨-, -, hstatus⟩
    · exact hw.descends hu hstatus
    · rw [hstatus]
      exact nofun
  · rw [event_volumes he]
    exact hw.volumes
  · obtain ⟨u, hu, hshare, hpool⟩ := event_snapshot_origin he hs
    rw [← hshare, ← hpool]
    exact hw.snapshots u hu

/-- Shares stay with the pools of their names, whatever happens. -/
theorem keeps_named {cfg : ShareCreation.Config} :
    (machine cfg).Keeps (fun _ _ => True) protocol start Final Orderly Named where
  begins := by
    intro s ls i c w _ _ h _ hw _
    obtain ⟨-, ⟨f, rfl⟩, -, -⟩ := enter_same hw
    exact ⟨{ h.1 with },
      Machine.each_update namedWork_start (fun j l _ hl => h.2 j l hl)⟩
  acts := by
    intro s ls i ch q k a w l l' _ hord h hl _ ha hstep _
    exact ⟨answer_namedWorld hord.store (hord.threads i l hl) h.1 (h.2 i l hl) ha hstep,
      Machine.each_update (answer_namedWork h.1 (h.2 i l hl) ha hstep)
        (fun j m _ hm => (h.2 j m hm).mono (answer_issues ha).subset)⟩
  ends := by
    intro s ls i l _ _ h _ _ _
    exact ⟨{ h.1 with },
      Machine.each_drop (fun j m _ hm => h.2 j m hm)⟩
  event := by
    intro s ls e w _ hord h he _
    exact ⟨event_namedWorld hord.store h.1 he,
      fun j l hl => (h.2 j l hl).mono (event_issues he).subset⟩
  halts := by
    intro s ls _ _ h _
    exact ⟨{ h.1 with },
      fun i l hl => (nomatch hl)⟩

/-- What holds in every run: order, and shares with their pools. -/
def Kept (w : World) (ls : ℕ → Option Local) : Prop := Orderly w ls ∧ Named w ls

theorem upholds_kept (cfg : ShareCreation.Config) :
    (machine cfg).Upholds (fun _ _ => True) protocol start Final Kept :=
  upholds_orderly.add keeps_named (fun _ _ h => h)

end FilePool.ShareNames
