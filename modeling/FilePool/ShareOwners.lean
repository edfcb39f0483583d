import FilePool.ShareNames

/-!
No share is recorded twice. A call that makes a share has read beforehand which shares are
recorded; what it adds to a pool is a share that was just made, or one that was not on that
list. This is enough as long as the names of the pools are apart, no two shares of the VPC
have one name, and nobody else deletes a share that a pool records: then the health check
never takes another share for one of the pool.
-/
namespace FilePool.ShareOwners

open UndoNames PoolRecords VersionedStore PoolWorld PoolAnswers PoolMachine PoolProtocol
  PoolSteps PoolOrder PoolOrigins ShareNames ThreadRuns List

def shareIDs (p : Pool) : List Name := p.status.shares.map PoolShareStatus.shareID

/-- The copy still decides what is stored: the stored pool has its version, or the call is
a pass that writes over whatever others have stored. -/
def Live (w : World) (l : Local) (p₀ : Pool) : Prop :=
  (∃ u, find poolKind w.pools p₀.name = some u ∧ u.version = p₀.version) ∨
    (Pass l ∧ l.finalized = some p₀.name)

/-- What a call knows about the shares it has in hand. -/
structure OnceWork (w : World) (l : Local) : Prop where
  base : ∀ p₀, l.base = some p₀ → (shareIDs p₀).Nodup
  names : (l.made.map (fun m => m.input.name)).Nodup
  asked : ∀ input tier, l.asked = some (input, tier) → ∀ m ∈ l.made, m.input.name ≠ input.name
  forced : ∀ p₀, l.base = some p₀ → l.forced = true → l.finalized = some p₀.name
  recorded : ∀ p₀ u, Pass l → l.base = some p₀ → l.finalized = some p₀.name →
    find poolKind w.pools p₀.name = some u → shareIDs p₀ ⊆ shareIDs u
  claimed : ∀ p₀ ids, l.base = some p₀ → Live w l p₀ → l.claimed = some ids →
    shareIDs p₀ ⊆ ids
  asking : ∀ p₀ input tier, l.base = some p₀ → Live w l p₀ → l.asked = some (input, tier) →
    shareIDs p₀ ⊆ input.claimedShareIDs
  creating : ∀ p₀ id, l.base = some p₀ → l.creating = some id → id ∉ shareIDs p₀
  made : ∀ p₀, l.base = some p₀ → Live w l p₀ → ∀ m ∈ l.made, m.info.id ∉ shareIDs p₀
  looked : ∀ p₀ info, Pass l → l.counted = none → l.base = some p₀ →
    l.finalized = some p₀.name → l.looked = some info → info.id ∈ shareIDs p₀ →
    ∃ s ∈ w.shares, s.id = info.id
  switches : l.switches = []

def Once (w : World) (ls : ℕ → Option Local) : Prop :=
  (∀ p ∈ w.pools, (shareIDs p).Nodup) ∧ ∀ i l, ls i = some l → OnceWork w l

/-- A change of the world as far as it touches the work of other threads. -/
structure Gently (w w' : World) (j : ℕ) : Prop where
  moved : Moved poolKind w.rev w.pools w'.pools
  grows : w.locks .worker = some j → ∀ n u u', find poolKind w.pools n = some u →
    find poolKind w'.pools n = some u' → shareIDs u ⊆ shareIDs u'
  alive : w.locks .worker = some j → ∀ p ∈ w.pools, ∀ id ∈ shareIDs p,
    (∃ s ∈ w.shares, s.id = id) → ∃ s ∈ w'.shares, s.id = id

variable {w w' : World} {i j : ℕ} {l l' : Local}

theorem Live.before {p₀ : Pool} (hstore : StoreOrder w) (hver : p₀.version ≤ w.rev)
    (hm : Moved poolKind w.rev w.pools w'.pools) (h : Live w' l p₀) : Live w l p₀ := by
  rcases h with ⟨u, hu, huver⟩ | h
  · rcases hm u (find_mem hu) with hmem | hnew
    · have hname : u.name = p₀.name := find_name hu
      have hfind : find poolKind w.pools u.name = some u := find_of_mem hstore.pools hmem
      rw [hname] at hfind
      exact .inl ⟨u, hfind, huver⟩
    · have hnew' : w.rev < u.version := hnew
      omega
  · exact .inr h

theorem OnceWork.later (hstore : StoreOrder w) (hord : InOrder w j l) (h : OnceWork w l)
    (hg : Gently w w' j) : OnceWork w' l := by
  have hlive : ∀ p₀, l.base = some p₀ → Live w' l p₀ → Live w l p₀ := fun p₀ hp₀ hl =>
    hl.before hstore (hord.base p₀ hp₀) hg.moved
  refine ⟨h.base, h.names, h.asked, h.forced, fun p₀ u' hpass hp₀ hfin hu' => ?_,
    fun p₀ ids hp₀ hl => h.claimed p₀ ids hp₀ (hlive p₀ hp₀ hl),
    fun p₀ input tier hp₀ hl => h.asking p₀ input tier hp₀ (hlive p₀ hp₀ hl), h.creating,
    fun p₀ hp₀ hl => h.made p₀ hp₀ (hlive p₀ hp₀ hl),
    fun p₀ info hpass hc hp₀ hfin hlooked hmem => ?_, h.switches⟩
  · obtain ⟨u, hu, -⟩ := hord.finalized _ hfin hpass
    exact Subset.trans (h.recorded p₀ u hpass hp₀ hfin hu)
      (hg.grows (hord.worker hpass).1 _ u u' hu hu')
  · obtain ⟨u, hu, -⟩ := hord.finalized _ hfin hpass
    exact hg.alive (hord.worker hpass).1 u (find_mem hu) _
      (h.recorded p₀ u hpass hp₀ hfin hu hmem)
      (h.looked p₀ info hpass hc hp₀ hfin hlooked hmem)

theorem OnceWork.same (h : OnceWork w l) (hc : l'.counted = none → l.counted = none)
    (hcall : l'.call = l.call := by rfl)
    (hs : SameShares l l' := by exact ⟨rfl, rfl, rfl, rfl, rfl, rfl, rfl, rfl, rfl, rfl⟩) :
    OnceWork w l' := by
  have hpass : Pass l' → Pass l := fun ⟨n, hn⟩ => ⟨n, hcall.symm.trans hn⟩
  have hlive : ∀ p₀, Live w l' p₀ → Live w l p₀ := by
    intro p₀ hl
    refine hl.imp_right ?_
    rintro ⟨hp, hfin⟩
    exact ⟨hpass hp, hs.finalized ▸ hfin⟩
  refine ⟨?_, ?_, ?_, ?_, ?_, ?_, ?_, ?_, ?_, ?_, ?_⟩
  · rw [hs.base]
    exact h.base
  · rw [hs.made]
    exact h.names
  · rw [hs.asked, hs.made]
    exact h.asked
  · rw [hs.base, hs.forced, hs.finalized]
    exact h.forced
  · rw [hs.base, hs.finalized]
    exact fun p₀ u hp => h.recorded p₀ u (hpass hp)
  · rw [hs.base, hs.claimed]
    exact fun p₀ ids hp₀ hl => h.claimed p₀ ids hp₀ (hlive p₀ hl)
  · rw [hs.base, hs.asked]
    exact fun p₀ input tier hp₀ hl => h.asking p₀ input tier hp₀ (hlive p₀ hl)
  · rw [hs.base, hs.creating]
    exact h.creating
  · rw [hs.base, hs.made]
    exact fun p₀ hp₀ hl => h.made p₀ hp₀ (hlive p₀ hl)
  · rw [hs.base, hs.finalized, hs.looked]
    exact fun p₀ info hp hcounted => h.looked p₀ info (hpass hp) (hc hcounted)
  · rw [hs.switches]
    exact h.switches

theorem OnceWork.noBase (h : OnceWork w l) (hd : Dropped l l') : OnceWork w' l' := by
  have hnone := hd.not_base
  refine ⟨fun p hp => absurd hp (hnone p), by rw [hd.made]; exact nodup_nil,
    by rw [hd.made]; exact nofun, fun p hp => absurd hp (hnone p),
    fun p _ _ hp => absurd hp (hnone p), fun p _ hp => absurd hp (hnone p),
    fun p _ _ hp => absurd hp (hnone p), fun p _ hp => absurd hp (hnone p),
    fun p hp => absurd hp (hnone p), fun p _ _ _ hp => absurd hp (hnone p),
    hd.switches.trans h.switches⟩

theorem onceWork_start {w : World} {c : Call} : OnceWork w (start c) :=
  ⟨fun _ h => (nomatch h), nodup_nil, nofun, fun _ h => (nomatch h),
    fun _ _ _ h => (nomatch h), fun _ _ h => (nomatch h), fun _ _ _ h => (nomatch h),
    fun _ _ h => (nomatch h), fun _ h => (nomatch h), fun _ _ _ _ h => (nomatch h), rfl⟩

variable {ch : Choice}

/-- No two shares of the VPC have one name. -/
def NamesOnce (w : World) : Prop := (w.shares.map ShareInfo.name).Nodup

theorem onceWork_poolRead {n : Name} {a : Except ApiErr Pool}
    (hpools : ∀ p ∈ w.pools, (shareIDs p).Nodup) (h : OnceWork w l)
    (ha : ∀ p, a = .ok p → find poolKind w.pools n = some p) (hstep : poolRead l n a l') :
    OnceWork w l' := by
  cases a with
  | ok p =>
    have hp := ha p rfl
    have hname : p.name = n := find_name hp
    rcases hstep with rfl | ⟨-, rfl⟩ | ⟨p₀, m, hbase, hpname, hcall, hfin, rfl⟩
    · exact h
    · refine ⟨fun q hq => ?_, nodup_nil, nofun, fun _ _ h => (nomatch h),
        fun q u _ hq _ hu => ?_, fun _ _ _ _ h => (nomatch h), fun _ _ _ _ _ h => (nomatch h),
        fun _ _ _ h => (nomatch h), fun _ _ _ m hm => (nomatch hm),
        fun _ _ _ _ _ _ h => (nomatch h), rfl⟩
      · cases hq
        exact hpools p (find_mem hp)
      · cases hq
        rw [hname, hp] at hu
        cases hu
        exact List.Subset.refl _
    · have hfin₀ : l.finalized = some p₀.name := by rw [hfin, hpname]
      have hlive : Live w l p₀ := .inr ⟨⟨m, hcall⟩, hfin₀⟩
      refine ⟨fun q hq => ?_, h.names, h.asked, fun q hq _ => ?_, fun q u hpass hq _ hu => ?_,
        fun q ids hq _ hc => ?_, fun q input tier hq _ hasked => ?_, fun q id hq hc => ?_,
        fun q hq _ => ?_, fun _ _ _ _ _ _ hlooked => (nomatch hlooked), h.switches⟩
      · cases hq
        exact h.base p₀ hbase
      · cases hq
        exact hfin
      · cases hq
        exact h.recorded p₀ u hpass hbase hfin₀ (hpname ▸ hu)
      · cases hq
        exact h.claimed p₀ ids hbase hlive hc
      · cases hq
        exact h.asking p₀ input tier hbase hlive hasked
      · cases hq
        exact h.creating p₀ id hbase hc
      · cases hq
        exact h.made p₀ hbase hlive
  | error e =>
    rcases hstep with rfl | ⟨-, rfl⟩
    all_goals exact { h with }

/-- The list of recorded shares has those of a copy that still decides. -/
theorem subset_of_live {p₀ : Pool} (hord : InOrder w i l) (h : OnceWork w l)
    (hbase : l.base = some p₀) (hlive : Live w l p₀) :
    shareIDs p₀ ⊆ w.pools.flatMap shareIDs := by
  have hsub : ∃ u ∈ w.pools, shareIDs p₀ ⊆ shareIDs u := by
    have hpassing : Pass l → l.finalized = some p₀.name → ∃ u ∈ w.pools,
        shareIDs p₀ ⊆ shareIDs u := by
      intro hpass hfin
      obtain ⟨u, hu, -⟩ := hord.finalized _ hfin hpass
      exact ⟨u, find_mem hu, h.recorded p₀ u hpass hbase hfin hu⟩
    rcases hlive with ⟨u, hu, hver⟩ | ⟨hpass, hfin⟩
    · by_cases hforced : l.forced = true
      · exact hpassing (hord.forced hforced) (h.forced p₀ hbase hforced)
      · have heq := hord.copied p₀ hbase (by simpa using hforced) u (find_mem hu)
          (find_name hu) hver
        exact ⟨u, find_mem hu, by rw [heq]; exact List.Subset.refl _⟩
    · exact hpassing hpass hfin
  obtain ⟨u, hu, hsub⟩ := hsub
  exact fun x hx => mem_flatMap.mpr ⟨u, hu, hsub hx⟩

theorem onceWork_createShare {input : CreateShareInput} {a : Except VpcErr Name}
    (hnamed : NamedWork w.issued l) (ha : answer i (.createShare input) ch w = some (a, w'))
    (hstep : shareCreated l input a l') (hkeep : OnceWork w' l) : OnceWork w' l' := by
  obtain ⟨p₀, tier, k, hbase, -, -, hnew, hclaimed, hstep⟩ := hstep
  have hasked : ∀ input' tier', some (input, tier) = some (input', tier') → ∀ m ∈ l.made,
      m.input.name ≠ input'.name := by
    intro input' tier' hin
    cases hin
    exact hnew
  have hasking : ∀ q input' tier', l.base = some q → Live w' l q →
      some (input, tier) = some (input', tier') → shareIDs q ⊆ input'.claimedShareIDs := by
    intro q input' tier' hq hlive hin
    cases hin
    exact hkeep.claimed q _ hq hlive hclaimed
  match a with
  | .ok id =>
    cases hstep
    refine { hkeep with asked := hasked, asking := hasking, creating := fun q x hq hx hmem => ?_ }
    cases hx
    obtain ⟨s, hs, hsid⟩ := mem_map.mp hmem
    have hissued := (hnamed.base q hq s hs).1
    rcases answer_createShare ha with ⟨-, e, he⟩ | ⟨id', ts, hfresh, -, ⟨ha', -⟩ | ha'⟩
    · cases he
    · cases ha'
      exact hfresh (hsid ▸ mem_map_of_mem (f := Prod.fst) hissued)
    · cases ha'
  | .error .alreadyExists =>
    cases hstep
    exact { hkeep with
      asked := hasked, asking := hasking, creating := fun q x _ hx => (nomatch hx) }
  | .error .notFound | .error .other =>
    cases hstep
    exact hkeep

theorem onceWork_sharesByName {n : Name} {a : Except VpcErr (List ShareInfo)}
    (hw : NamedWorld w) (hnames : NamesOnce w) (hnamed : NamedWork w.issued l) (h : OnceWork w l)
    (ha : ∀ cs, a = .ok cs → cs = w.shares.filter (fun s => s.name = n))
    (hstep : sharesFound l n a l') : OnceWork w l' := by
  cases a with
  | ok cs =>
    rcases hstep with ⟨input, tier, hasked, rfl, rfl⟩ |
      ⟨p₀, info, s, hbase, hlooked, hs, hsid, hsname, hcounted, hfin, hpass, rfl⟩
    · exact { h with }
    · have hmem : info.id ∈ shareIDs p₀ := hsid ▸ mem_map_of_mem hs
      obtain ⟨x, hx, hxid⟩ := h.looked p₀ info hpass hcounted hbase hfin hlooked hmem
      have hxname : x.name = n := by
        refine name_eq hw.once (hw.shares x hx) ?_
        rw [hxid, ← hsid, ← hsname]
        exact (hnamed.base p₀ hbase s hs).1
      have hnil : cs.filter (fun c => c.id ≠ info.id) = [] := by
        rw [ha cs rfl, filter_eq_nil_iff]
        intro c hc
        obtain ⟨hcmem, hcname⟩ := mem_filter.mp hc
        have heq : c = x := inj_on_of_nodup_map hnames hcmem hx (by
          rw [hxname]
          simpa using hcname)
        simp [heq, hxid]
      refine { h with switches := ?_ }
      show l.switches ++ (cs.filter (fun c => c.id ≠ info.id)).map (fun c => (info.id, c)) = []
      rw [hnil, h.switches]
      rfl
  | error e =>
    cases hstep
    exact h

theorem onceWork_awaitShare {id : Name} {a : Except VpcErr ShareInfo} (h : OnceWork w l)
    (ha : ∀ info, a = .ok info → info.id = id) (hstep : shareAwaited l id a l') :
    OnceWork w l' := by
  obtain ⟨input, tier, hasked, -, hid, hstep⟩ := hstep
  cases a with
  | ok info =>
    cases hstep
    have hinfo := ha info rfl
    refine { h with
      names := ?_, asked := fun _ _ h => (nomatch h), asking := fun _ _ _ _ _ h => (nomatch h),
      creating := fun _ _ _ h => (nomatch h), made := fun p₀ hp₀ hlive m hm => ?_ }
    · show ((l.made ++ [(⟨info, tier, input⟩ : Made)]).map (fun m : Made => m.input.name)).Nodup
      rw [map_append]
      refine List.Nodup.append h.names (by simp) (fun x hx hx' => ?_)
      obtain ⟨m, hm, rfl⟩ := mem_map.mp hx
      exact h.asked input tier hasked m hm (by simpa using hx')
    · rcases mem_append.mp hm with hm | hm
      · exact h.made p₀ hp₀ hlive m hm
      · cases mem_singleton.mp hm
        show info.id ∉ shareIDs p₀
        rw [hinfo]
        rcases hid with hcreating | ⟨c, -, hcid, hnot⟩
        · exact h.creating p₀ id hp₀ hcreating
        · exact fun hmem => hnot (h.asking p₀ input tier hp₀ hlive hasked hmem)
  | error e =>
    cases hstep
    exact h

theorem gently_shares (hpools : w'.pools = w.pools)
    (hshares : ∀ s ∈ w.shares, ∃ s' ∈ w'.shares, s'.id = s.id) : Gently w w' j := by
  refine ⟨by rw [hpools]; exact moved_self, fun _ n u u' hu hu' => ?_, fun _ p _ id _ h => ?_⟩
  · rw [hpools, hu] at hu'
    cases hu'
    exact List.Subset.refl _
  · obtain ⟨s, hs, rfl⟩ := h
    exact hshares s hs

theorem gently_of_same (hpools : w'.pools = w.pools) (hshares : w'.shares = w.shares) :
    Gently w w' j := by
  refine gently_shares hpools (fun s hs => ⟨s, by rw [hshares]; exact hs, rfl⟩)

theorem shareIDs_changeShare (id : Name) {f : PoolShareStatus → PoolShareStatus}
    (hf : ∀ s, (f s).shareID = s.shareID) (shares : List PoolShareStatus) :
    (changeShare id f shares).map PoolShareStatus.shareID =
      shares.map PoolShareStatus.shareID := by
  induction shares with
  | nil => rfl
  | cons s rest ih =>
    unfold changeShare
    split
    · simp [hf]
    · simp [ih]

theorem shareIDs_grown {l : Local} {p₀ : Pool} :
    (l.grown p₀).map PoolShareStatus.shareID = shareIDs p₀ ++ l.made.map (fun m => m.info.id) := by
  simp [Local.grown, shareIDs, Function.comp_def, shareID_status]

theorem shareIDs_booked {p p₀ : Pool} {share : Name} {gb pvcs : ℤ}
    (h : Booked l p₀ p share gb pvcs) :
    shareIDs p = shareIDs p₀ ++ l.made.map (fun m => m.info.id) := by
  have hids := shareIDs_changeShare share (f := fun s =>
    { s with allocatedGB := s.allocatedGB + gb, pvcCount := s.pvcCount + pvcs })
    (fun _ => rfl) (l.grown p₀)
  rw [← shareIDs_grown, ← hids, ← h.shares]
  rfl

/-- A status write of one thread keeps the shares that a pass of another has read. -/
theorem grows_wrote {p₀ x u : Pool} (hord : InOrder w i l) (hbase : l.base = some p₀)
    (hwrote : Wrote l p₀ x) (hpass : ¬Pass l) (hu : find poolKind w.pools p₀.name = some u)
    (hver : u.version = p₀.version) : shareIDs u ⊆ shareIDs x := by
  have hforced : l.forced = false := by
    by_contra hf
    exact hpass (hord.forced (by simpa using hf))
  have heq := hord.copied p₀ hbase hforced u (find_mem hu) (find_name hu) hver
  rcases hwrote with ⟨share, gb, pvcs, d, c, hbooked, -⟩ | ⟨hrefreshed, -⟩
  · rw [shareIDs_booked hbooked, heq]
    exact subset_append_left _ _
  · exact absurd hrefreshed.pass hpass

theorem shareIDs_descends {p u v : Pool} {n : Name} (hp : find poolKind w'.pools n = some p)
    (hu : find poolKind w.pools n = some u) (hv : Descends w p v) (hstatus : p.status = v.status) :
    shareIDs u ⊆ shareIDs p := by
  have hname : p.name = n := find_name hp
  have hfound := hv.found
  rw [hname, hu] at hfound
  cases hfound
  unfold shareIDs
  rw [hstatus]
  exact List.Subset.refl _

theorem gently_answer {q : Query} {a : Answer q} (hstore : StoreOrder w) (hord : InOrder w i l)
    (h : OnceWork w l) (ha : answer i q ch w = some (a, w')) (hstep : protocol.step l q a l')
    (hj : j ≠ i) : Gently w w' j := by
  have hworker : w.locks .worker = some j → ¬Pass l := by
    intro hlock hpass
    cases ((hord.worker hpass).1).symm.trans hlock
    exact hj rfl
  refine ⟨answer_moved ha, fun hlock n u p hu hp => ?_, fun hlock p _ id _ hs => ?_⟩
  · obtain ⟨v, hv, -, hstatus | ⟨p₀, x, hbase, -, hname, hver, hstatus, hwrote⟩⟩ :=
      answer_pool_origin hstore ha hstep (find_mem hp)
    · exact shareIDs_descends hp hu hv hstatus
    · have hfound := hv.found
      have hpname : p.name = n := find_name hp
      rw [hpname, hu] at hfound
      cases hfound
      rw [← hpname, hname] at hu
      unfold shareIDs
      rw [hstatus]
      exact grows_wrote hord hbase hwrote (hworker hlock) hu hver
  · obtain ⟨s, hs, rfl⟩ := hs
    refine answer_share_stays ha (fun x hx => ?_) hs
    subst hx
    obtain ⟨-, ⟨⟨c, hc⟩, -⟩ | ⟨p₀, n, -, -, hcall, -⟩⟩ := hstep
    · rw [h.switches] at hc
      cases hc
    · exact hworker hlock ⟨n, hcall⟩

/-- The step lemma for the thread that asks. -/
theorem answer_onceWork {q : Query} {a : Answer q} (hstore : StoreOrder w) (hord : InOrder w i l)
    (hw : NamedWorld w) (hnames : NamesOnce w) (hnamed : NamedWork w.issued l)
    (hpools : ∀ p ∈ w.pools, (shareIDs p).Nodup) (h : OnceWork w l)
    (ha : answer i q ch w = some (a, w')) (hstep : protocol.step l q a l') : OnceWork w' l' := by
  have hsame := answer_sameBut ha
  have hframe := step_framed hstep
  have hkeep : part q ≠ .pools → (∀ id, q ≠ .deleteShare id) → OnceWork w' l := fun hp hd =>
    h.later hstore hord (gently_shares (hsame.pools hp) (fun _ => answer_share_stays ha hd))
  cases q with
  | unlock _ | updatePoolStatus _ | updatePool _ =>
    rcases answer_closes ha hstep trivial with ⟨hpools, hs⟩ | hd
    · have h' := h.later hstore hord
        (gently_shares hpools (fun _ => answer_share_stays ha (fun _ => nofun)))
      exact h'.same (fun hc => (hframe.counts id).counted ▸ hc) hframe.call hs
    · exact h.noBase hd
  | getPool n =>
    obtain ⟨rfl, hp⟩ := reads_found ha
    exact onceWork_poolRead hpools h hp hstep
  | listPools =>
    obtain ⟨rfl, hps⟩ := answer_listPools ha
    cases a with
    | ok ps =>
      cases hstep
      refine { h with claimed := fun p₀ ids hp₀ hlive hids => ?_ }
      cases hids
      rw [hps ps rfl]
      exact subset_of_live hord h hp₀ hlive
    | error e =>
      cases hstep
      exact h
  | createShare input =>
    exact onceWork_createShare hnamed ha hstep (hkeep nofun (fun _ => nofun))
  | sharesByName n =>
    obtain ⟨rfl, hcs⟩ := answer_sharesByName ha
    exact onceWork_sharesByName hw hnames hnamed h hcs hstep
  | awaitShare id =>
    obtain ⟨rfl, hinfo⟩ := awaitShare_some ha
    exact onceWork_awaitShare h (fun info hi => (findInfo_some (hinfo info hi).1).2) hstep
  | getShare id =>
    obtain ⟨rfl, hinfo, -⟩ := getShare_some ha
    rcases hstep with rfl | ⟨info, ha', rfl⟩
    · exact h
    · refine { h with looked := fun p₀ x _ _ _ _ hx _ => ?_ }
      cases hx
      obtain ⟨hmem, -⟩ := findInfo_some (hinfo info ha')
      exact ⟨info, hmem, rfl⟩
  | deleteShare id =>
    obtain ⟨rfl, ⟨⟨c, hc⟩, -⟩ | ⟨p₀, n, -, -, -, hcounted, -⟩⟩ := hstep
    · rw [h.switches] at hc
      cases hc
    · have hp := hsame.pools nofun
      have hlive : ∀ q, Live w' l' q → Live w l' q := fun q hl => by
        unfold Live at hl ⊢
        rw [← hp]
        exact hl
      exact ⟨h.base, h.names, h.asked, h.forced, by rw [hp]; exact h.recorded,
        fun q ids hq hl => h.claimed q ids hq (hlive q hl),
        fun q input tier hq hl => h.asking q input tier hq (hlive q hl), h.creating,
        fun q hq hl => h.made q hq (hlive q hl),
        fun _ _ _ hc => absurd hc (by rw [hcounted]; exact nofun), h.switches⟩
  | createMountTarget id =>
    cases hstep
    exact hkeep nofun (fun _ => nofun)
  | listSnapshots n =>
    have h' := hkeep nofun (fun _ => nofun)
    rcases hstep with rfl | ⟨p₀, vs, ss, -, -, -, -, -, rfl⟩
    · exact h'
    · exact h'.same (fun hc => (nomatch hc))
  | listSubVolumes n =>
    have h' := hkeep nofun (fun _ => nofun)
    rcases hstep with rfl | ⟨p₀, vs, -, -, -, -, rfl⟩
    all_goals exact { h' with }
  | listSubVolumesByShare x =>
    have h' := hkeep nofun (fun _ => nofun)
    rcases hstep with rfl | ⟨vs, -, -, rfl⟩
    all_goals exact { h' with }
  | listSnapshotsByShare x =>
    have h' := hkeep nofun (fun _ => nofun)
    rcases hstep with rfl | ⟨p₀, vs, ss, -, -, -, -, -, rfl⟩
    all_goals exact { h' with }
  | _ =>
    exact (hkeep nofun (fun _ => nofun)).same
      (fun hc => (hframe.counts id).counted ▸ hc) hframe.call (hframe.shares id)

theorem nodup_made {p₀ : Pool} (hw : NamedWorld w) (hnamed : NamedWork w.issued l)
    (h : OnceWork w l) (hbase : l.base = some p₀) : (l.made.map (fun m => m.info.id)).Nodup := by
  have hnames : l.made.Pairwise (fun m m' => m.input.name ≠ m'.input.name) :=
    pairwise_map.mp h.names
  refine pairwise_map.mpr (hnames.imp_of_mem (fun {m m'} hm hm' hne heq => hne ?_))
  obtain ⟨hname, hown⟩ := hnamed.made p₀ hbase m hm
  obtain ⟨hname', hown'⟩ := hnamed.made p₀ hbase m' hm'
  rw [← hname, ← hname']
  exact name_eq hw.once hown.1 (heq ▸ hown'.1)

theorem nodup_wrote {p₀ p : Pool} (hw : NamedWorld w) (hnamed : NamedWork w.issued l)
    (h : OnceWork w l) (hbase : l.base = some p₀) (hwrote : Wrote l p₀ p) (hlive : Live w l p₀) :
    (shareIDs p).Nodup := by
  have hmade := nodup_made hw hnamed h hbase
  have hdisjoint : ∀ ids : List Name, ids ⊆ shareIDs p₀ →
      List.Disjoint ids (l.made.map (fun m => m.info.id)) := by
    intro ids hids x hx hx'
    obtain ⟨m, hm, rfl⟩ := mem_map.mp hx'
    exact h.made p₀ hbase hlive m hm (hids hx)
  rcases hwrote with ⟨share, gb, pvcs, d, c, hbooked, -⟩ | ⟨hrefreshed, -⟩
  · rw [shareIDs_booked hbooked]
    exact List.Nodup.append (h.base p₀ hbase) hmade (hdisjoint _ (List.Subset.refl _))
  · obtain ⟨sub, kept, hsub, hall, hshares⟩ := hrefreshed.shares
    have hkept : kept.map PoolShareStatus.shareID = sub.map PoolShareStatus.shareID := by
      clear hshares hsub
      induction hall with
      | nil => rfl
      | cons hc _ ih =>
        rw [map_cons, map_cons, ih]
        rcases hc.id with hid | ⟨x, hx, -⟩
        · rw [hid]
        · rw [h.switches] at hx
          cases hx
    have hids : shareIDs p = sub.map PoolShareStatus.shareID ++
      l.made.map (fun m => m.info.id) := by
      simp [shareIDs, hshares, hkept, Function.comp_def, shareID_status]
    rw [hids]
    have hsub' := hsub.map PoolShareStatus.shareID
    exact List.Nodup.append ((h.base p₀ hbase).sublist hsub') hmade
      (hdisjoint _ hsub'.subset)

theorem answer_oncePools {q : Query} {a : Answer q} (hstore : StoreOrder w) (hw : NamedWorld w)
    (hnamed : NamedWork w.issued l) (hpools : ∀ p ∈ w.pools, (shareIDs p).Nodup)
    (h : OnceWork w l) (ha : answer i q ch w = some (a, w')) (hstep : protocol.step l q a l') :
    ∀ p ∈ w'.pools, (shareIDs p).Nodup := by
  intro p hp
  obtain ⟨u, hu, -, hstatus | ⟨p₀, x, hbase, -, hname, hver, hstatus, hwrote⟩⟩ :=
    answer_pool_origin hstore ha hstep hp
  · unfold shareIDs
    rw [hstatus]
    exact hpools u (find_mem hu.found)
  · unfold shareIDs
    rw [hstatus]
    exact nodup_wrote hw hnamed h hbase hwrote (.inl ⟨u, hname ▸ hu.found, hver⟩)

def goneShare : Event → Option Name
  | .shareGone id => some id
  | _ => none

/-- A share that a pool records is not deleted from outside. -/
def LeavesRecorded (w : World) (e : Event) : Prop :=
  ∀ id ∈ goneShare e, ∀ p ∈ w.pools, id ∉ shareIDs p

instance (w : World) (e : Event) : Decidable (LeavesRecorded w e) :=
  inferInstanceAs (Decidable (∀ id ∈ goneShare e, ∀ p ∈ w.pools, id ∉ shareIDs p))

theorem gently_event {e : Event} (hstore : StoreOrder w) (hleaves : LeavesRecorded w e)
    (he : happens e w = some w') : Gently w w' j := by
  refine ⟨(event_spares he (j := j)).pools, fun _ n u p hu hp => ?_, fun _ p hp x hx => ?_⟩
  · rcases event_pool_origin hstore he (find_mem hp) with ⟨v, hv, hstatus⟩ | ⟨hnone, -, -⟩
    · exact shareIDs_descends hp hu hv hstatus
    · have hname : p.name = n := find_name hp
      rw [hname, hu] at hnone
      cases hnone
  · rintro ⟨s, hs, rfl⟩
    cases e with
    | shareMade y =>
      obtain ⟨-, rfl⟩ := StepRuns.unless_some he
      exact ⟨s, mem_append_left _ hs, rfl⟩
    | shareChanges id state targets =>
      cases he
      exact ⟨_, mem_map_of_mem hs, by split <;> rfl⟩
    | shareGone id =>
      cases he
      have hne : s.id ≠ id := fun heq => hleaves id rfl p hp (heq ▸ hx)
      exact ⟨s, mem_filter.mpr ⟨hs, by simpa using hne⟩, rfl⟩
    | _ => exact ⟨s, by rw [((happens_sameBut he).shares nofun).1]; exact hs, rfl⟩

theorem event_oncePools {e : Event} (hstore : StoreOrder w)
    (h : ∀ p ∈ w.pools, (shareIDs p).Nodup) (he : happens e w = some w') :
    ∀ p ∈ w'.pools, (shareIDs p).Nodup := by
  intro p hp
  unfold shareIDs
  rcases event_pool_origin hstore he hp with ⟨u, hu, hstatus⟩ | ⟨-, -, hstatus⟩
  · rw [hstatus]
    exact h u (find_mem hu.found)
  · rw [hstatus]
    exact nodup_nil

/-- No two shares have one name when a move is made, and no recorded share is deleted from
outside. -/
def Undisturbed (s : State World Query Answer) (m : Move Call Choice Event) : Prop :=
  NamesOnce s.world ∧ ∀ e ∈ m.outside, LeavesRecorded s.world e

instance (s : State World Query Answer) (m : Move Call Choice Event) :
    Decidable (Undisturbed s m) :=
  inferInstanceAs (Decidable ((s.world.shares.map ShareInfo.name).Nodup ∧
    ∀ e ∈ m.outside, LeavesRecorded s.world e))

theorem keeps_once (cfg : ShareCreation.Config) :
    (machine cfg).Keeps Undisturbed protocol start Final Kept Once where
  begins := by
    intro s ls i c w _ hk h _ hw _
    obtain ⟨-, ⟨f, rfl⟩, -, -⟩ := enter_same hw
    refine ⟨h.1, Machine.each_update onceWork_start (fun j l _ hl => ?_)⟩
    exact (h.2 j l hl).later hk.1.store (hk.1.threads j l hl) (gently_of_same rfl rfl)
  acts := by
    intro s ls i ch q k a w l l' hm hk h hl _ ha hstep _
    have hord := hk.1.threads i l hl
    refine ⟨answer_oncePools hk.1.store hk.2.1 (hk.2.2 i l hl) h.1 (h.2 i l hl) ha hstep,
      Machine.each_update (answer_onceWork hk.1.store hord hk.2.1 hm.1 (hk.2.2 i l hl) h.1
        (h.2 i l hl) ha hstep) (fun j m hj hmj => ?_)⟩
    exact (h.2 j m hmj).later hk.1.store (hk.1.threads j m hmj)
      (gently_answer hk.1.store hord (h.2 i l hl) ha hstep hj)
  ends := by
    intro s ls i l _ hk h _ _ _
    refine ⟨h.1, Machine.each_drop (fun j m _ hm => ?_)⟩
    exact (h.2 j m hm).later hk.1.store (hk.1.threads j m hm) (gently_of_same rfl rfl)
  event := by
    intro s ls e w hm hk h he _
    refine ⟨event_oncePools hk.1.store h.1 he, fun j l hl => ?_⟩
    exact (h.2 j l hl).later hk.1.store (hk.1.threads j l hl)
      (gently_event hk.1.store (hm.2 e rfl) he)
  halts := by
    intro s ls _ _ h _
    exact ⟨h.1, fun i l hl => (nomatch hl)⟩

/-- A world in which no call is under way. -/
structure Quiet (w : World) : Prop where
  store : StoreOrder w
  named : NamedWorld w
  idle : ∀ i, w.calls i = none

theorem Quiet.kept {w : World} (h : Quiet w) : Kept w (fun _ => none) :=
  ⟨⟨h.store, fun _ _ hl => (nomatch hl), fun i _ => h.idle i⟩, h.named,
    fun _ _ hl => (nomatch hl)⟩

theorem quiet_pools {rev : ℕ} {pools : List Pool} {shares : List ShareInfo}
    {issued : List (Name × Name)} (hpools : PoolsOrder rev pools)
    (honce : (issued.map Prod.fst).Nodup) (hshares : ∀ s ∈ shares, (s.id, s.name) ∈ issued)
    (howned : ∀ p ∈ pools, ∀ s ∈ p.status.shares, Owned issued p.name s.shareID s.shareName) :
    Quiet { emptyWorld with rev := rev, pools := pools, shares := shares, issued := issued } :=
  ⟨⟨hpools.distinct, nodup_nil, nodup_nil, hpools.versions, hpools.finalizers⟩,
    ⟨honce, hshares, howned, fun _ hv => (nomatch hv), fun _ hs => (nomatch hs)⟩, fun _ => rfl⟩

/-- No name of a stored pool, followed by a dash, begins the name of another. -/
def PoolsApart (w : World) : Prop :=
  ∀ p ∈ w.pools, ∀ q ∈ w.pools, p.name ≠ q.name → Apart p.name q.name

instance (w : World) : Decidable (PoolsApart w) :=
  inferInstanceAs (Decidable (∀ p ∈ w.pools, ∀ q ∈ w.pools, p.name ≠ q.name →
    Apart p.name q.name))

/-- No share is recorded in two pools, or twice in one. -/
def RecordedOnce (w : World) : Prop := (w.pools.flatMap shareIDs).Nodup

instance (w : World) : Decidable (RecordedOnce w) :=
  inferInstanceAs (Decidable (w.pools.flatMap shareIDs).Nodup)

/-- Pools that are apart have different shares. -/
theorem recordedOnce_of_apart {w : World} (hd : Distinct poolKind w.pools) (hw : NamedWorld w)
    (hpools : ∀ p ∈ w.pools, (shareIDs p).Nodup) (hapart : PoolsApart w) : RecordedOnce w := by
  refine nodup_flatMap.mpr ⟨hpools, ?_⟩
  have hnames : w.pools.Pairwise (fun p q => p.name ≠ q.name) := pairwise_map.mp hd
  refine hnames.imp_of_mem (fun {p q} hp hq hne x hx hx' => hne ?_)
  obtain ⟨s, hs, rfl⟩ := mem_map.mp hx
  obtain ⟨t, ht, heq⟩ := mem_map.mp hx'
  have hown := hw.pools q hq t ht
  rw [heq] at hown
  exact (hw.pools p hp s hs).pool_eq hw.once (hapart p hp q hq) hown

/-- In every run in which no two shares have one name and no recorded share is deleted from
outside, no share is recorded twice whenever the names of the pools are apart. -/
theorem share_recorded_once (cfg : ShareCreation.Config) {w : World} (hquiet : Quiet w)
    (honce : RecordedOnce w) {s : State World Query Answer}
    (hrun : (machine cfg).Run Undisturbed ⟨w, fun _ => none⟩ s) (hapart : PoolsApart s.world) :
    RecordedOnce s.world := by
  have hstart : Once w (fun _ => none) := ⟨(nodup_flatMap.mp honce).1, fun i l hl => (nomatch hl)⟩
  have hup := (upholds_kept cfg).add (keeps_once cfg) (fun _ _ _ => trivial)
  obtain ⟨ls, ⟨hk, h⟩, -⟩ := hup.run (Machine.held_still w ⟨hquiet.kept, hstart⟩) hrun
  exact recordedOnce_of_apart hk.1.store.pools hk.2.1 h.1 hapart

/-- A driver without NFS operations of its own. -/
def plainConfig : ShareCreation.Config := ⟨false, true, true, true, true, [], id, 0⟩

/-- A pool of one tier without a limit that matters here. -/
def plainSpec (initialShares : ℤ) (tiers : List ShareTier) : PoolSpec where
  zone := ['z']
  accessorZones := []
  shareSizeGB := 10
  maxShares := 9
  initialShares := initialShares
  autoExpand := true
  expandThresholdPercent := 80
  allocationStrategy := .spread
  defaultPermissions := []
  defaultUID := none
  defaultGID := none
  resourceGroup := []
  tags := []
  tiers := tiers
  drainShares := []

def plainRequest (volume pool tier : Name) (gb : ℕ) : AllocationRequest :=
  ⟨volume, [], [], pool, gb, [], tier, none, none, [], false⟩

/-- Pool a with a tier b, and a pool that is called a-b. -/
def dashedPools : World :=
  { emptyWorld with
    rev := 2
    pools := [⟨['a'], 1, false, true, plainSpec 0 [⟨['b'], 10, 9, 0⟩],
      ⟨.ready, [], 0, 0, 0, 0, []⟩⟩,
      ⟨['a', '-', 'b'], 2, false, true, plainSpec 1 [], emptyStatus⟩] }

/-- The pass of a-b makes its first share. Before it stores it, a volume of pool a needs a
new share of tier b: that has the same name and no pool records it, so it is taken over. -/
def dashedMoves : List (Move Call Choice Event) :=
  [.begins 0 (.reconcile ['a', '-', 'b']), .acts 0 .ok, .acts 0 .ok, .acts 0 .ok,
    .acts 0 (.made ['x']), .event (.shareChanges ['x'] .stable [⟨['t'], [], ['1'], []⟩]),
    .acts 0 .ok, .begins 1 (.allocate (plainRequest ['v'] ['a'] ['b'] 1)),
    .acts 1 .ok, .acts 1 .ok, .acts 1 .ok, .acts 1 .ok, .acts 1 .ok, .acts 1 .ok, .acts 1 .ok,
    .acts 1 .ok, .acts 1 .ok, .acts 1 .ok, .acts 1 .ok, .acts 0 .ok]

/-- A share is recorded by two pools after a run in which no two shares ever have one name
and nothing is deleted. -/
theorem share_recorded_by_dashed_pools : Quiet dashedPools ∧ RecordedOnce dashedPools ∧
    ∃ s, (machine plainConfig).Run Undisturbed ⟨dashedPools, fun _ => none⟩ s ∧
      ¬RecordedOnce s.world := by
  refine ⟨quiet_pools ⟨by decide, by decide, by decide⟩ nodup_nil nofun (by simp [emptyStatus]),
    by decide +kernel, ?_⟩
  have h : ((machine plainConfig).movesWhen (fun s m => decide (Undisturbed s m)) dashedMoves
      ⟨dashedPools, fun _ => none⟩).any (fun s => decide (¬RecordedOnce s.world)) = true := by
    decide +kernel
  obtain ⟨s, hs, hnot⟩ := Option.any_eq_true _ _ |>.mp h
  exact ⟨s, (machine plainConfig).run_movesWhen (fun _ _ => of_decide_eq_true) _ _ _ hs,
    of_decide_eq_true hnot⟩

/-- Pool a with a tier b, and a pool that is called c. -/
def apartPools : World :=
  { emptyWorld with
    rev := 2
    pools := [⟨['a'], 1, false, true, plainSpec 0 [⟨['b'], 10, 9, 0⟩],
      ⟨.ready, [], 0, 0, 0, 0, []⟩⟩,
      ⟨['c'], 2, false, true, plainSpec 1 [], emptyStatus⟩] }

def apartMoves : List (Move Call Choice Event) :=
  [.begins 0 (.reconcile ['c']), .acts 0 .ok, .acts 0 .ok, .acts 0 .ok,
    .acts 0 (.made ['x']), .event (.shareChanges ['x'] .stable [⟨['t'], [], ['1'], []⟩]),
    .acts 0 .ok, .begins 1 (.allocate (plainRequest ['v'] ['a'] ['b'] 1)),
    .acts 1 .ok, .acts 1 .ok, .acts 1 .ok, .acts 1 .ok, .acts 1 .ok, .acts 1 (.made ['y']),
    .event (.shareChanges ['y'] .stable [⟨['t'], [], ['2'], []⟩]), .acts 1 .ok,
    .acts 1 .ok, .acts 1 .ok, .acts 1 .ok, .acts 0 .ok]

/-- Two pools that are apart make a share each. -/
theorem share_recorded_by_apart_pools : ∃ s,
    (machine plainConfig).Run Undisturbed ⟨apartPools, fun _ => none⟩ s ∧
      s.world.pools.map shareIDs = [[['y']], [['x']]] ∧ RecordedOnce s.world := by
  have h : ((machine plainConfig).movesWhen (fun s m => decide (Undisturbed s m)) apartMoves
      ⟨apartPools, fun _ => none⟩).any (fun s => decide (PoolsApart s.world ∧
        s.world.pools.map shareIDs = [[['y']], [['x']]])) = true := by
    decide +kernel
  obtain ⟨s, hs, hend⟩ := Option.any_eq_true _ _ |>.mp h
  obtain ⟨hapart, hids⟩ := of_decide_eq_true hend
  have hrun := (machine plainConfig).run_movesWhen (fun _ _ => of_decide_eq_true) _ _ _ hs
  have hquiet : Quiet apartPools :=
    quiet_pools ⟨by decide, by decide, by decide⟩ nodup_nil nofun (by simp [emptyStatus])
  exact ⟨s, hrun, hids, share_recorded_once plainConfig hquiet (by decide +kernel) hrun hapart⟩

end FilePool.ShareOwners
