import FilePool.CallsFollow

/-!
The calls that take, delete and restore snapshots follow the protocol. The charge of a
snapshot and its record are written one after the other, so between them the call has a
debt.
-/
namespace FilePool.SnapshotsFollow

open UndoNames PoolRecords PoolWorld ShareCreation InstantSnapshots SnapshotCalls PoolProtocol
  CallsFollow Threads Proc List

variable (cfg : Config) {l : Local} {pool share : Name} {gb : ℕ} {s : Snapshot} {v : SubVolume}
  {ok : Bool} {name : Name}

/-- The charge of a snapshot is a debt of the records until the record is made. -/
theorem meets_bookShare (hdebt : l.debt = none) :
    Meets protocol (bookShare pool share gb)
      (fun _ l' => l'.call = l.call ∧ l'.held = l.held ∧ l'.source = l.source ∧
        l'.sources = l.sources ∧ l'.debt = some ⟨pool, share, -gb, 0⟩ ∧ l'.charged = true)
      (Tidy l.call l.held) l := by
  refine meets_locked ?_
  have hmu : .mu ∈ .mu :: l.held := mem_cons_self
  have htidy : Tidy l.call (.mu :: l.held) { l with held := .mu :: l.held } :=
    ⟨rfl, rfl, excused_of_none hdebt⟩
  refine meets_startFrom (.inl hmu) htidy.release (fun p hp => ?_)
  have htidy' : Tidy l.call (.mu :: l.held)
      (Local.startFrom { l with held := .mu :: l.held } p) := ⟨rfl, rfl, excused_of_none hdebt⟩
  refine meets_bind (meets_orFail _ _ (fun _ hroom => ?_) (fun _ _ => htidy'.release))
  obtain ⟨s, hs, hfree⟩ := checkShareRoom_ok hroom
  refine meets_call rfl (fun _ _ => ⟨_, ⟨p, rfl, .inl hmu, rfl, rfl, rfl⟩, ?_⟩)
    (fun q _ => ⟨_, ⟨p, rfl, .inl hmu, rfl, rfl, .inl ⟨share, gb, 0, _, _,
      (grownTo_self rfl).booked share gb 0,
      .charge gb hmu hdebt rfl (by omega) s hs hfree, rfl⟩⟩, ?_⟩)
  · exact Tidy.release ⟨rfl, rfl, excused_of_none hdebt⟩
  · exact meets_pure _ ⟨hmu, rfl, by simp [Local.release, Local.startFrom], rfl, rfl,
      by rw [← hp]; rfl, rfl⟩

/-- The debt of a snapshot whose record is gone is paid, or excused. -/
theorem meets_unbookShare
    (hdebt : l.debt = some ⟨pool, share, -gb, 0⟩) :
    StaysTidy (unbookShare pool share gb) l := by
  refine meets_lockedTidy ?_
  have hmu : .mu ∈ .mu :: l.held := mem_cons_self
  refine meets_ask (fun r hr => ?_)
  cases r with
  | error e =>
    refine ⟨_, .inr ⟨.inl (by simp [hdebt]), rfl⟩, meets_pure _ ⟨rfl, rfl, fun d hd => ?_⟩⟩
    have hd' : l.debt = some d := hd
    rw [hdebt, Option.some.injEq] at hd'
    subst hd'
    exact .inr ⟨by simp, rfl, rfl⟩
  | ok p =>
    have hp : p.name = pool := hr p rfl
    subst hp
    refine ⟨_, .inr (.inl ⟨.inl hmu, rfl⟩), ?_⟩
    exact meets_bookDebt rfl hmu (grownTo_self rfl) hdebt

/-- The copy of the record that the call keeps is one of this snapshot. -/
structure Copies (l : Local) (s : Snapshot) : Prop where
  guarded : Guarded l s.name
  copy : ∃ s₀, l.snapshot = some s₀ ∧ s₀.name = s.name ∧ s₀.poolName = s.poolName ∧
    s₀.shareID = s.shareID ∧ snapshotChargeGB s₀ = snapshotChargeGB s ∧
    (s₀.method = .instant ↔ s.method = .instant)

theorem meets_switchToVMPath (hc : Copies l s) (hm : s.method ≠ .instant) :
    Meets protocol (switchToVMPath cfg s) (fun _ l' => l' = l) (fun l' => l' = l) l := by
  unfold switchToVMPath
  split
  · exact meets_pure _ rfl
  · refine meets_lookFor trivial (fun v _ _ => ?_) rfl
    refine meets_lookFor trivial (fun pod _ _ => ?_) rfl
    split
    · exact meets_pure _ rfl
    · refine meets_lookFor trivial (fun stopped _ _ => ?_) rfl
      split
      · exact meets_pure _ rfl
      · obtain ⟨s₀, hs₀, hname, -, -, -, hmethod⟩ := hc.copy
        refine meets_ask (fun r _ => ⟨l, ⟨rfl, hc.guarded, s₀, .inl hs₀, hname.symm, ?_⟩, ?_⟩)
        · exact ⟨fun h => (by cases h), fun h => absurd (hmethod.mp h) hm⟩
        · refine meets_bind (meets_orFail _ r (fun s' _ => ?_) (fun _ _ => rfl))
          refine meets_bind (meets_look trivial (fun r _ => ?_))
          exact meets_bind (meets_orFail _ r (fun s'' _ => meets_pure _ rfl) (fun _ _ => rfl))

theorem meets_dropSnapshot {α : Type} {f : Driver α} {e : ApiErr → Err}
    (hc : Copies l s) (hdebt : l.debt = none)
    (hf : ∀ l' : Local, l'.call = l.call → l'.held = l.held →
      l'.debt = some ⟨s.poolName, s.shareID, -(snapshotChargeGB s), 0⟩ →
      Meets protocol f (fun _ => Tidy l'.call l'.held) (Tidy l'.call l'.held) l') :
    StaysTidy (do
        let r ← ask (.deleteSnapshot s.name)
        orFail e (r : Except ApiErr Unit)
        f) l := by
  obtain ⟨s₀, hs₀, hname, hp₀, hshare, hcharge, -⟩ := hc.copy
  refine meets_ask (fun r _ => ?_)
  cases r with
  | error d =>
    exact ⟨l, ⟨s₀, hs₀, hname, hc.guarded, hdebt, rfl⟩, meets_bind
      (meets_fail _ ⟨rfl, rfl, excused_of_none hdebt⟩)⟩
  | ok u =>
    refine ⟨_, ⟨s₀, hs₀, hname, hc.guarded, hdebt, rfl⟩, meets_bind (meets_pure u ?_)⟩
    exact hf { l with
      debt := some ⟨s₀.poolName, s₀.shareID, -(snapshotChargeGB s₀), 0⟩, snapshot := none
      fresh := none } rfl rfl (by rw [hp₀, hshare, hcharge])

theorem meets_copySnapshotData {pool : Pool} (hc : Copies l s)
    (hm : s.method ≠ .instant) (hpool : pool.name = s.poolName) (hdebt : l.debt = none) :
    StaysTidy (copySnapshotData cfg s pool) l := by
  have htidy := tidy_self hdebt
  refine meets_unless htidy (fun _ => ?_)
  refine meets_bind (meets_mono (meets_switchToVMPath cfg hc hm) (fun handled l' hl' => ?_)
    (fun l' hl' => hl' ▸ htidy))
  subst hl'
  match handled with
  | some s' => exact meets_pure _ htidy
  | none =>
    refine meets_bind (meets_orFail _ _ (fun share _ => ?_) (fun _ _ => htidy))
    refine meets_bind (meets_look trivial (fun done _ => ?_))
    match done with
    | .error .api => exact meets_fail _ htidy
    | .error .failed =>
      refine meets_dropSnapshot hc hdebt (fun l' _ _ hd => ?_)
      exact meets_then (meets_unbookShare (by rw [hd, hpool])) (fun _ _ h => meets_fail _ h)
    | .ok false => exact meets_pure _ htidy
    | .ok true =>
      refine meets_bind (meets_mono (meets_switchToVMPath cfg hc hm) (fun handled l' hl' => ?_)
        (fun l' hl' => hl' ▸ htidy))
      subst hl'
      match handled with
      | some s' => exact meets_pure _ htidy
      | none =>
        refine meets_bind (meets_look trivial (fun r _ => ?_))
        exact meets_orFail _ r (fun _ _ => htidy) (fun _ _ => htidy)

theorem copies_read (hg : Guarded l s.name) :
    Copies { l with snapshot := some s } s :=
  ⟨hg, s, rfl, rfl, rfl, rfl, rfl, Iff.rfl⟩

theorem meets_continueSnapshot (hc : Copies l s) (hdebt : l.debt = none) :
    StaysTidy (continueSnapshot cfg s) l := by
  have htidy := tidy_self hdebt
  refine meets_unless htidy (fun _ => ?_)
  split
  · exact meets_pure _ htidy
  · split
    · refine meets_lookFor trivial (fun v _ _ => ?_) htidy
      exact meets_chain (asks_takeInstant cfg) (fun _ => htidy) htidy
    · exact meets_pure _ htidy
    · rename_i hm
      refine meets_lookFor trivial (fun p hr hp => ?_) htidy
      exact meets_copySnapshotData cfg hc (by rw [hm]; simp) (hr p hp) hdebt

theorem asks_chooseMethod : (chooseMethod cfg v).Asks Quiet := by
  have hplan : (if cfg.instantSnapshots then planInstant v else
      (return none : Driver (Option (Option PodKind)))).Asks Quiet := by
    split
    · exact asks_mono asks_planInstant quiet_of_chain
    · exact asks_pure
  refine asks_bind hplan (fun plan => ?_)
  refine asks_ite asks_pure ?_
  refine asks_ite asks_fail ?_
  refine asks_ite asks_pure ?_
  refine asks_call trivial (fun pod => ?_)
  match pod with
  | none => exact asks_pure
  | some .hotplugDisk => exact asks_fail
  | some (.launcher _) => exact asks_pure

theorem meets_createRecord
    (hcall : l.call = .createSnapshot s.name (some v.name) ok) (hsource : l.source = some v)
    (hlock : Lock.volume v.name ∈ l.held) (hsources : (s.name, v.name) ∈ l.sources)
    (hvol : s.sourceSubVolume = v.name) (hpool : s.poolName = v.poolName)
    (hshare : s.shareID = v.shareID)
    (hdebt : l.debt = some ⟨v.poolName, v.shareID, -(snapshotChargeGB s), 0⟩)
    (hcharged : l.charged = true) :
    Meets protocol (createRecord s)
      (fun s' l' => Copies l' s' ∧ s'.method = s.method ∧ s'.poolName = s.poolName ∧
        l'.debt = none ∧ l'.call = l.call ∧ l'.held = l.held) (Tidy l.call l.held) l := by
  refine meets_ask (fun r hr => ?_)
  cases r with
  | error d =>
    refine ⟨l, ⟨v, ok, hcall, hsource, hlock, hsources, hvol, hpool, hshare, hdebt, hcharged,
      rfl⟩, ?_⟩
    exact meets_then (meets_unbookShare (by rw [hdebt, hpool, hshare]))
      (fun _ l' h => meets_fail _ h)
  | ok made =>
    have hmade : made = { noSnapshotStatus s with version := made.version } := hr made rfl
    refine ⟨_, ⟨v, ok, hcall, hsource, hlock, hsources, hvol, hpool, hshare, hdebt, hcharged,
      rfl⟩, ?_⟩
    have hcopies : ∀ n, Copies { l with
        debt := none, charged := false, snapshot := some made } { s with version := n } := by
      intro n
      refine ⟨⟨v.name, hsources, hlock⟩, made, rfl, ?_⟩
      rw [hmade]
      exact ⟨rfl, rfl, rfl, rfl, Iff.rfl⟩
    refine meets_bind (meets_look trivial (fun stored _ => ?_))
    cases stored with
    | ok _ | error _ => exact meets_pure _ ⟨hcopies _, rfl, rfl, rfl, rfl, rfl⟩

theorem meets_createSnapshotBody {source : Name}
    (hcall : l.call = .createSnapshot name (some source) ok)
    (hlock : Lock.volume source ∈ l.held) (hsources : (name, source) ∈ l.sources)
    (hdebt : l.debt = none) :
    StaysTidy (createSnapshotBody cfg name source ok) l := by
  refine meets_ask (fun existing he => ?_)
  have htidy := tidy_self hdebt
  match existing with
  | .ok s =>
    have hs : s.name = name := he s rfl
    have hg : Guarded l s.name := ⟨source, hs ▸ hsources, hlock⟩
    exact ⟨_, .inr (.inr ⟨hs ▸ hg, .inl rfl⟩), meets_continueSnapshot cfg (copies_read hg) hdebt⟩
  | .error _ =>
    refine ⟨l, rfl, ?_⟩
    refine meets_unless htidy (fun _ => ?_)
    refine meets_call rfl (fun _ _ => ⟨l, rfl, htidy⟩) (fun v hr => ?_)
    have hv : v.name = source := hr v rfl
    subst hv
    refine ⟨_, .inr (.inr ⟨hlock, rfl⟩), ?_⟩
    have htidy' : Tidy l.call l.held { l with source := some v } :=
      ⟨rfl, rfl, excused_of_none hdebt⟩
    refine meets_lookFor trivial (fun p hr hp => ?_) htidy'
    have hpool : p.name = v.poolName := hr p hp
    refine meets_bind (meets_quiet (asks_chooseMethod cfg) (fun method => ?_) htidy')
    refine meets_unless htidy' (fun _ => ?_)
    refine meets_then (meets_bookShare hdebt) (fun _ l' h => ?_)
    obtain ⟨hcall', hheld', hsource', hsources', hdebt', hcharged⟩ := h
    refine meets_bind (meets_mono (meets_createRecord
      (hcall'.trans hcall) hsource' (hheld' ▸ hlock) (hsources' ▸ hsources) rfl rfl rfl
      hdebt' hcharged) (fun s' l'' h => ?_) (fun _ h => ⟨h.call.trans hcall', h.held.trans hheld',
        h.debt⟩))
    obtain ⟨hc, hmethod, hpool', hdebt'', hcall'', hheld''⟩ := h
    have htidy'' : Tidy l.call l.held l'' :=
      ⟨hcall''.trans hcall', hheld''.trans hheld', excused_of_none hdebt''⟩
    cases method with
    | instant => exact meets_chain (asks_takeInstant cfg) (fun _ => htidy'') htidy''
    | vm => exact meets_pure _ htidy''
    | file =>
      refine meets_mono (meets_copySnapshotData cfg hc (by rw [hmethod]; simp [newSnapshot])
        (by rw [hpool', hpool]; rfl) hdebt'') (fun _ _ h => ?_) (fun _ h => ?_)
      · exact ⟨h.call.trans (hcall''.trans hcall'), h.held.trans (hheld''.trans hheld'), h.debt⟩
      · exact ⟨h.call.trans (hcall''.trans hcall'), h.held.trans (hheld''.trans hheld'), h.debt⟩

theorem meets_createSnapshot {source : Option Name} :
    Meets protocol (createSnapshot cfg name source ok)
      (fun _ => Tidy (.createSnapshot name source ok) [])
      (Tidy (.createSnapshot name source ok) []) (start (.createSnapshot name source ok)) := by
  cases source with
  | none => exact meets_fail _ ⟨rfl, rfl, excused_of_none rfl⟩
  | some src =>
    refine meets_lockedTidy ?_
    exact meets_createSnapshotBody cfg
      (l := { start (.createSnapshot name (some src) ok) with held := [.volume src] }) rfl
      mem_cons_self mem_cons_self rfl

theorem meets_cancelVMSnapshotForDelete (hc : Copies l s) :
    Meets protocol (cancelVMSnapshotForDelete cfg s)
      (fun _ l' => l' = { l with fresh := l'.fresh }) (fun l' => l' = { l with fresh := l'.fresh })
      l := by
  unfold cancelVMSnapshotForDelete
  split
  · exact meets_pure _ rfl
  · refine meets_call rfl (fun _ _ => ⟨l, rfl, rfl⟩)
      (fun f hr => ⟨_, .inr (.inr ⟨hc.guarded, .inr rfl⟩), ?_⟩)
    have hf : f.name = s.name := hr f rfl
    split
    · exact meets_pure _ rfl
    · refine meets_ask (fun r _ => ⟨_, ⟨rfl, ?_, f, .inr rfl, rfl, Iff.rfl⟩, ?_⟩)
      · exact hf ▸ hc.guarded
      · exact meets_bind (meets_orFail _ r (fun _ _ => meets_pure _ rfl) (fun _ _ => rfl))

theorem meets_deleteCopied (hc : Copies l s) (hdebt : l.debt = none) :
    StaysTidy (deleteCopied cfg s) l := by
  have htidy : ∀ l' : Local, l' = { l with fresh := l'.fresh } → Tidy l.call l.held l' := by
    intro l' h
    rw [h]
    exact ⟨rfl, rfl, excused_of_none hdebt⟩
  refine meets_bind (meets_mono (meets_cancelVMSnapshotForDelete cfg hc) (fun _ l' hl' => ?_)
    htidy)
  have htidy' := htidy l' hl'
  have hc' : Copies l' s := by
    rw [hl']
    exact ⟨hc.guarded, hc.copy⟩
  refine meets_unless htidy' (fun _ => ?_)
  refine meets_lookFor trivial (fun p _ _ => ?_) htidy'
  refine meets_bind (meets_orFail _ _ (fun share _ => ?_) (fun _ _ => htidy'))
  refine meets_bind (meets_quiet (asks_stopCopies fun _ => trivial) (fun _ => ?_) htidy')
  refine meets_lookFor trivial (fun done _ _ => ?_) htidy'
  refine meets_unless htidy' (fun _ => ?_)
  have hdebt' : l'.debt = none := by
    rw [hl']
    exact hdebt
  rw [← htidy'.call, ← htidy'.held]
  exact meets_dropSnapshot hc' hdebt' (fun l'' _ _ hd => meets_unbookShare hd)

theorem meets_deleteInstantSnapshot (hc : Copies l s) (hdebt : l.debt = none) :
    StaysTidy (deleteInstantSnapshot cfg s) l := by
  have htidy := tidy_self hdebt
  refine meets_unless htidy (fun _ => ?_)
  refine meets_unless htidy (fun _ => ?_)
  refine meets_lookFor trivial (fun p hr hp => ?_) htidy
  refine meets_bind (meets_chain (asks_deleteInstant cfg) (fun _ => ?_) htidy)
  have hpool : p.name = s.poolName := hr p hp
  exact meets_dropSnapshot hc hdebt (fun l' _ _ hd => meets_unbookShare (by rw [hd, hpool]))

theorem meets_deleteSnapshotBody (hg : Guarded l name) (hdebt : l.debt = none) :
    StaysTidy (deleteSnapshotBody cfg name) l := by
  refine meets_call rfl (fun _ _ => ⟨l, rfl, tidy_self hdebt⟩) (fun s hr => ?_)
  have hs : s.name = name := hr s rfl
  subst hs
  refine ⟨_, .inr (.inr ⟨hg, .inl rfl⟩), ?_⟩
  refine meets_ask (fun pool _ => ?_)
  rcases pool with ⟨_ | _ | _ | _⟩ | p
  case error.notFound =>
    refine ⟨_, .inr ⟨.inr rfl, rfl⟩, meets_ask (fun r _ => ?_)⟩
    cases r with
    | error d =>
      exact ⟨_, ⟨s, rfl, rfl, hg, hdebt, rfl⟩,
        meets_fail _ ⟨rfl, rfl, excused_of_none hdebt⟩⟩
    | ok u =>
      refine ⟨_, ⟨s, rfl, rfl, hg, hdebt, rfl⟩, meets_pure _ ⟨rfl, rfl, fun d hd => ?_⟩⟩
      cases hd
      exact .inr ⟨by simp, rfl, rfl⟩
  all_goals
    refine ⟨_, .inl rfl, ?_⟩
    dsimp only
    split
    · exact meets_deleteInstantSnapshot cfg (copies_read hg) hdebt
    · exact meets_deleteCopied cfg (copies_read hg) hdebt

theorem meets_deleteSnapshot :
    Meets protocol (deleteSnapshot cfg name) (fun _ => Tidy (.deleteSnapshot name) [])
      (Tidy (.deleteSnapshot name) []) (start (.deleteSnapshot name)) := by
  refine meets_call rfl (fun _ _ => ⟨_, rfl, rfl, rfl, excused_of_none rfl⟩)
    (fun s _ => ⟨_, .inr (.inl rfl), meets_lockedTidy ?_⟩)
  refine meets_deleteSnapshotBody cfg (l := { start (.deleteSnapshot name) with
    held := [.volume s.sourceSubVolume], sources := [(name, s.sourceSubVolume)] }) ?_ rfl
  exact ⟨s.sourceSubVolume, mem_cons_self, mem_cons_self⟩

theorem asks_copyRestoreData (v : SubVolume) (s : Snapshot) :
    (copyRestoreData cfg v s).Asks Quiet := by
  refine asks_ite asks_fail ?_
  refine asks_call trivial (fun pool => ?_)
  refine asks_bind asks_orFail (fun src => ?_)
  refine asks_bind ?_ (fun done => ?_)
  · split
    · exact asks_mono (asks_restoreInstant cfg) quiet_of_chain
    · exact asks_ask trivial (fun r => asks_orFail)
  · refine asks_ite asks_fail ?_
    exact asks_ask trivial (fun r => asks_orFail)

theorem meets_copyRestoreLocked {c : Call} {h : List Lock}
    (ht : Tidy c h l) :
    Meets protocol (copyRestoreLocked cfg v s) (fun _ => Tidy c h) (Tidy c h) l := by
  have ht' : Tidy c (.volume s.sourceSubVolume :: h)
      { l with held := .volume s.sourceSubVolume :: l.held } :=
    ⟨ht.call, by rw [ht.held], ht.debt⟩
  exact meets_lockedTidy (meets_quiet (asks_copyRestoreData cfg v s) (fun _ => ht') ht')

theorem meets_restoreBody {snapshot : Name} {req : AllocationRequest}
    (hvol : volumePool l.call = some req.poolName) (hdebt : l.debt = none) :
    StaysTidy (restoreBody cfg snapshot req) l := by
  have htidy := tidy_self hdebt
  refine meets_bind (meets_look trivial (fun existing _ => ?_))
  match existing with
  | .ok v =>
    dsimp only
    split
    · exact meets_pure _ htidy
    · refine meets_lookFor trivial (fun s _ _ => ?_) htidy
      exact meets_then (meets_copyRestoreLocked cfg htidy) (fun _ _ h => meets_pure _ h)
  | .error _ =>
    refine meets_lookFor trivial (fun s _ _ => ?_) htidy
    refine meets_unless htidy (fun _ => ?_)
    refine meets_unless htidy (fun _ => ?_)
    refine meets_bind (meets_mono (meets_lockedTidy (meets_reserveRestoreBody cfg
      hvol mem_cons_self hdebt))
      (fun v l' h => ?_) (fun _ h => h))
    exact meets_then (meets_copyRestoreLocked cfg h) (fun _ _ h => meets_pure _ h)

theorem meets_restoreSnapshot (snapshot : Name) (req : AllocationRequest) :
    Meets protocol (restoreSnapshot cfg snapshot req)
      (fun _ => Tidy (.restoreSnapshot snapshot req) [])
      (Tidy (.restoreSnapshot snapshot req) []) (start (.restoreSnapshot snapshot req)) := by
  refine meets_lockedTidy ?_
  exact meets_restoreBody cfg
    (l := { start (.restoreSnapshot snapshot req) with held := [.volume req.pvName] }) rfl rfl

end FilePool.SnapshotsFollow
