import FilePool.PassFollows
import FilePool.StepRuns

/-!
What one step of the driver can change. A question changes one part of the world and one
side of the local state of the call that asks it; the rest is as it was. For each question
that matters to the proofs there is one lemma with all that its answer tells.
-/
namespace FilePool.PoolSteps

open UndoNames PoolRecords VersionedStore PoolWorld PoolAnswers PoolMachine PoolProtocol List
open StepRuns (unless_some when_some)

inductive Part
  | pools
  | volumes
  | snapshots
  | shares
  | locks
  | other
  deriving DecidableEq

/-- The part of the world that a question can change. -/
def part : Query → Part
  | .lock _ | .unlock _ => .locks
  | .updatePoolStatus _ | .updatePool _ => .pools
  | .createSubVolume _ | .updateSubVolume _ | .updateSubVolumeStatus _ | .deleteSubVolume _
  | .patchRestorePending _ _ => .volumes
  | .createSnapshot _ | .updateSnapshot _ | .updateSnapshotStatus _ | .deleteSnapshot _ =>
    .snapshots
  | .createShare _ | .deleteShare _ | .createMountTarget _ => .shares
  | _ => .other

def eventPart : Event → Part
  | .newPool _ _ | .editSpec _ _ | .deletePool _ => .pools
  | .shareMade _ | .shareChanges _ _ _ | .shareGone _ => .shares
  | .vmLoop _ _ _ _ => .snapshots
  | _ => .other

/-- Outside of one part the world is the same. -/
structure SameBut (p : Part) (w w' : World) : Prop where
  pools : p ≠ .pools → w'.pools = w.pools
  volumes : p ≠ .volumes → w'.subVolumes = w.subVolumes
  snapshots : p ≠ .snapshots → w'.snapshots = w.snapshots
  shares : p ≠ .shares → w'.shares = w.shares ∧ w'.issued = w.issued
  locks : p ≠ .locks → w'.locks = w.locks
  calls : w'.calls = w.calls
  rev : w.rev ≤ w'.rev

variable {w w' : World} {p : Part}

theorem sameBut_other (hrev : w.rev ≤ w'.rev := by exact le_rfl)
    (hpools : w'.pools = w.pools := by rfl) (hvolumes : w'.subVolumes = w.subVolumes := by rfl)
    (hsnaps : w'.snapshots = w.snapshots := by rfl) (hshares : w'.shares = w.shares := by rfl)
    (hissued : w'.issued = w.issued := by rfl) (hlocks : w'.locks = w.locks := by rfl)
    (hcalls : w'.calls = w.calls := by rfl) : SameBut p w w' :=
  ⟨fun _ => hpools, fun _ => hvolumes, fun _ => hsnaps, fun _ => ⟨hshares, hissued⟩,
    fun _ => hlocks, hcalls, hrev⟩

theorem sameBut_self : SameBut p w w := sameBut_other

variable {α V : Type} {ch : Choice} {a : Except ApiErr V}

theorem reads_some {r a : Except ApiErr α} (h : reads w r ch = some (a, w')) :
    w' = w ∧ ∀ x, a = .ok x → r = .ok x := by
  cases ch with
  | ok =>
    cases h
    exact ⟨rfl, fun _ hx => hx⟩
  | refused =>
    cases h
    exact ⟨rfl, nofun⟩
  | _ => cases h

variable {put : List V → World} {w₁ : World}

theorem writes_some {r : Except Refusal (V × List V)}
    (h : writes w put r ch = some (a, w')) :
    (w' = w ∧ (∃ e, a = .error e) ∧ (ch = .refused ∨ ∃ e, r = .error e)) ∨
      ∃ v l, r = .ok (v, l) ∧ a = .ok v ∧ w' = { put l with rev := w.rev + 1 } := by
  cases ch with
  | ok =>
    cases r with
    | ok x =>
      cases h
      exact .inr ⟨x.1, x.2, rfl, rfl, rfl⟩
    | error e =>
      cases h
      exact .inl ⟨rfl, ⟨_, rfl⟩, .inr ⟨e, rfl⟩⟩
  | refused =>
    cases h
    exact .inl ⟨rfl, ⟨_, rfl⟩, .inl rfl⟩
  | _ => cases h

theorem deletes_some {there : Bool} {a : Except ApiErr Unit}
    (h : deletes w there w₁ ch = some (a, w')) :
    (w' = w ∧ ∃ e, a = .error e) ∨ (there = true ∧ w' = w₁ ∧ a = .ok ()) := by
  cases ch with
  | ok =>
    cases there with
    | true =>
      cases h
      exact .inr ⟨rfl, rfl, rfl⟩
    | false =>
      cases h
      exact .inl ⟨rfl, _, rfl⟩
  | refused =>
    cases h
    exact .inl ⟨rfl, _, rfl⟩
  | _ => cases h

variable {T : Kind V Name} {l : List V}

variable {v : V} {n : Name}

theorem writes_update {merge : V → V → V} {rev : ℕ}
    (h : writes w put (update T merge rev l v) ch = some (a, w')) :
    (w' = w ∧ ∃ e, a = .error e) ∨ ∃ u q, find T l (T.name v) = some u ∧
      T.version u = T.version v ∧ a = .ok q ∧
      w' = { put (replace T l (T.stamp (merge u v) rev)) with rev := w.rev + 1 } := by
  rcases writes_some h with ⟨rfl, he, -⟩ | ⟨x, l', hr, ha, rfl⟩
  · exact .inl ⟨rfl, he⟩
  · obtain ⟨u, hu, hver, heq⟩ := update_ok hr
    cases heq
    exact .inr ⟨u, _, hu, hver, ha, rfl⟩

theorem writes_create {rev : ℕ}
    (h : writes w put (create T rev l v) ch = some (a, w')) :
    (w' = w ∧ ∃ e, a = .error e) ∨ (find T l (T.name v) = none ∧ a = .ok (T.stamp v rev) ∧
      w' = { put (l ++ [T.stamp v rev]) with rev := w.rev + 1 }) := by
  rcases writes_some h with ⟨rfl, he, -⟩ | ⟨x, l', hr, ha, rfl⟩
  · exact .inl ⟨rfl, he⟩
  · obtain ⟨hn, heq⟩ := create_ok hr
    cases heq
    exact .inr ⟨hn, ha, rfl⟩

theorem deletes_find {a : Except ApiErr Unit}
    (h : deletes w (find T l n).isSome w₁ ch = some (a, w')) :
    (w' = w ∧ ∃ e, a = .error e) ∨ ∃ u, find T l n = some u ∧ a = .ok () ∧ w' = w₁ := by
  rcases deletes_some h with ⟨rfl, he⟩ | ⟨hthere, rfl, ha⟩
  · exact .inl ⟨rfl, he⟩
  · obtain ⟨u, hu⟩ := Option.isSome_iff_exists.mp hthere
    exact .inr ⟨u, hu, ha, rfl⟩

theorem found_ok {o : Option α} {x : α} (h : found o = .ok x) : o = some x := by
  cases o with
  | none => cases h
  | some y =>
    cases h
    rfl

theorem reads_found (h : reads w (found (find T l n)) ch = some (a, w')) :
    w' = w ∧ ∀ x, a = .ok x → find T l n = some x := by
  obtain ⟨hw, ha⟩ := reads_some h
  exact ⟨hw, fun x hx => found_ok (ha x hx)⟩

section Frames

variable {V : Type} {w w' : World} {ch : Choice} {p : Part} {a : Except VpcErr ShareInfo} {rev : ℕ}
  {key id : Name}

theorem sameBut_of_writes {put : List V → World} {r : Except Refusal (V × List V)}
    {a : Except ApiErr V} (h : writes w put r ch = some (a, w'))
    (hput : ∀ l, SameBut p w { put l with rev := w.rev + 1 }) : SameBut p w w' := by
  rcases writes_some h with ⟨rfl, -, -⟩ | ⟨v, l, -, -, rfl⟩
  · exact sameBut_self
  · exact hput l

theorem sameBut_of_deletes {there : Bool} {w₁ : World} {a : Except ApiErr Unit}
    (h : deletes w there w₁ ch = some (a, w')) (hdel : SameBut p w w₁) : SameBut p w w' := by
  rcases deletes_some h with ⟨rfl, -⟩ | ⟨-, rfl, -⟩
  · exact sameBut_self
  · exact hdel

theorem sameBut_pools {l : List Pool} (h : w.rev ≤ rev) :
    SameBut .pools w { w with pools := l, rev := rev } :=
  ⟨fun h => absurd rfl h, fun _ => rfl, fun _ => rfl, fun _ => ⟨rfl, rfl⟩, fun _ => rfl, rfl, h⟩

theorem sameBut_volumes {l : List SubVolume} (h : w.rev ≤ rev) :
    SameBut .volumes w { w with subVolumes := l, rev := rev } :=
  ⟨fun _ => rfl, fun h => absurd rfl h, fun _ => rfl, fun _ => ⟨rfl, rfl⟩, fun _ => rfl, rfl, h⟩

theorem sameBut_snapshots {l : List Snapshot} (h : w.rev ≤ rev) :
    SameBut .snapshots w { w with snapshots := l, rev := rev } :=
  ⟨fun _ => rfl, fun _ => rfl, fun h => absurd rfl h, fun _ => ⟨rfl, rfl⟩, fun _ => rfl, rfl, h⟩

theorem sameBut_shares {l : List ShareInfo} {issued : List (Name × Name)} :
    SameBut .shares w { w with shares := l, issued := issued } :=
  ⟨fun _ => rfl, fun _ => rfl, fun _ => rfl, fun h => absurd rfl h, fun _ => rfl, rfl, le_rfl⟩

theorem sameBut_locks {f : Lock → Option ℕ} : SameBut .locks w { w with locks := f } :=
  ⟨fun _ => rfl, fun _ => rfl, fun _ => rfl, fun _ => ⟨rfl, rfl⟩, fun h => absurd rfl h, rfl,
    le_rfl⟩

/-- A new share has an ID that was never used. It can be there although the call fails. -/
theorem answer_createShare {i : ℕ} {input : CreateShareInput} {a : Except VpcErr Name}
    (h : answer i (.createShare input) ch w = some (a, w')) :
    (w' = w ∧ ∃ e, a = .error e) ∨
    ∃ id targets, id ∉ w.issued.map Prod.fst ∧
      w' = { w with
        shares := w.shares ++ [newShareInfo input id targets]
        issued := (id, input.name) :: w.issued } ∧
      ((a = .ok id ∧ ∀ s ∈ w.shares, s.name ≠ input.name) ∨ a = .error .other) := by
  have h' : createShare w input ch = some (a, w') := h
  unfold createShare at h'
  split at h'
  · split at h'
    · cases h'
      exact .inl ⟨rfl, _, rfl⟩
    · cases h'
  · rename_i id
    split at h'
    · cases h'
    · rename_i hfree
      cases h'
      simp only [Bool.or_eq_true, decide_eq_true_eq, not_or] at hfree
      refine .inr ⟨id, _, hfree.2, rfl, .inl ⟨rfl, fun s hs hname => hfree.1 ?_⟩⟩
      exact any_eq_true.mpr ⟨s, hs, by simpa using hname⟩
  · rename_i id
    split at h'
    · cases h'
    · rename_i hfree
      cases h'
      exact .inr ⟨id, [], hfree, rfl, .inr rfl⟩
  · cases h'
    exact .inl ⟨rfl, _, rfl⟩
  · cases h'

theorem sameBut_job {work : Work} {a : Except JobErr Bool}
    (h : job w key work ch = some (a, w')) : SameBut p w w' := by
  have hset : ∀ j, SameBut p w (setJob w key j) := fun _ => sameBut_other
  unfold job at h
  split at h
  · split at h
    · cases h
      exact hset _
    · split at h
      · cases h
        exact hset _
      · cases h
        exact hset _
      · cases h
        exact sameBut_self
  · split at h
    · cases h
    · split at h
      · cases h
        exact sameBut_self
      · cases h
        exact sameBut_self
      · cases h
  · cases h
    exact sameBut_self
  · cases h

theorem awaitShare_some (h : awaitShare w id ch = some (a, w')) :
    w' = w ∧ ∀ info, a = .ok info → findInfo w id = some info ∧ info.lifecycleState = .stable := by
  unfold awaitShare at h
  split at h
  · split at h
    · cases h
      exact ⟨rfl, nofun⟩
    · rename_i s hs
      split at h
      · rename_i hst
        cases h
        refine ⟨rfl, fun info hx => ?_⟩
        cases hx
        exact ⟨hs, hst⟩
      · cases h
        exact ⟨rfl, nofun⟩
      · cases h
  · cases h
    exact ⟨rfl, nofun⟩
  · cases h

theorem getShare_some (h : getShare w id ch = some (a, w')) :
    w' = w ∧ (∀ info, a = .ok info → findInfo w id = some info) ∧
      (a = .error .notFound → findInfo w id = none) := by
  unfold getShare at h
  split at h
  · split at h
    · rename_i hs
      cases h
      exact ⟨rfl, nofun, fun _ => hs⟩
    · rename_i s hs
      cases h
      refine ⟨rfl, fun info hx => ?_, nofun⟩
      cases hx
      exact hs
  · cases h
    exact ⟨rfl, nofun, nofun⟩
  · cases h

theorem sameBut_stopJob {a : Except ApiErr Bool}
    (h : stopJob w key ch = some (a, w')) : SameBut p w w' := by
  unfold stopJob at h
  split at h
  · split at h
    · cases h
      exact sameBut_self
    · cases h
      exact sameBut_other
  · cases h
    exact sameBut_self
  · cases h

theorem sameBut_createClaim {c : Claim} {r : Name} {a : Except ApiErr Unit}
    (h : createClaim w c r ch = some (a, w')) : SameBut p w w' := by
  unfold createClaim at h
  split at h
  · split at h
    · cases h
      exact sameBut_self
    · cases h
      exact sameBut_other
  · cases h
    exact sameBut_self
  · cases h

/-- A question changes only its part of the world. -/
theorem answer_sameBut {i : ℕ} {q : Query} {a : Answer q}
    (h : answer i q ch w = some (a, w')) : SameBut (part q) w w' := by
  cases q with
  | lock l =>
    simp only [answer] at h
    split at h
    · cases h
      exact sameBut_locks
    · cases h
  | unlock l =>
    cases h
    exact sameBut_locks
  | getPool _ | listPools | getSubVolume _ | listSubVolumes _ | listSubVolumesByShare _
  | listRestorePending | getSnapshot _ | listSnapshots _ | listSnapshotsByShare _
  | listSnapshotsBySource _ | getRestore _ | getClaim _ | createDirectory _ | hasOpenRestore _
  | vmPod _ | vmInstance _ | vmForClaim _ | vmMoving _ | sidecarGate | ensureHook =>
    obtain ⟨rfl, -⟩ := reads_some h
    exact sameBut_self
  | updatePoolStatus _ | updatePool _ =>
    exact sameBut_of_writes h (fun l => sameBut_pools (Nat.le_succ _))
  | createSubVolume _ | updateSubVolume _ | updateSubVolumeStatus _ =>
    exact sameBut_of_writes h (fun l => sameBut_volumes (Nat.le_succ _))
  | deleteSubVolume _ => exact sameBut_of_deletes h (sameBut_volumes le_rfl)
  | patchRestorePending _ _ => exact sameBut_of_deletes h (sameBut_volumes (Nat.le_succ _))
  | createSnapshot _ | updateSnapshot _ | updateSnapshotStatus _ =>
    exact sameBut_of_writes h (fun l => sameBut_snapshots (Nat.le_succ _))
  | deleteSnapshot _ => exact sameBut_of_deletes h (sameBut_snapshots le_rfl)
  | updateRestoreStatus _ =>
    exact sameBut_of_writes h (fun l => sameBut_other (Nat.le_succ _))
  | createClaim _ _ => exact sameBut_createClaim h
  | createShare _ =>
    rcases answer_createShare h with ⟨rfl, -⟩ | ⟨id, targets, -, rfl, -⟩
    · exact sameBut_self
    · exact sameBut_shares
  | awaitShare _ =>
    obtain ⟨rfl, -⟩ := awaitShare_some h
    exact sameBut_self
  | getShare _ =>
    obtain ⟨rfl, -⟩ := getShare_some h
    exact sameBut_self
  | job _ _ => exact sameBut_job h
  | stopJob _ => exact sameBut_stopJob h
  | setDiskTop _ _ =>
    cases h
    exact sameBut_self
  | deleteShare _ | createMountTarget _ =>
    cases ch <;> cases h <;> first | exact sameBut_self | exact sameBut_shares
  | takeInVM _ _ | mergeInVM _ _ _ =>
    cases ch <;> cases h <;> first | exact sameBut_self | exact sameBut_other
  | backupSource _ | network _ | sharesByName _ | mount _ =>
    cases ch <;> cases h <;>
      exact sameBut_other

end Frames

section Questions

variable {w w' : World} {ch : Choice} {i : ℕ} {a : Except ApiErr SubVolume} {v : SubVolume}
  {s : Snapshot} {q : Query}

theorem answer_listPools {a : Except ApiErr (List Pool)}
    (h : answer i .listPools ch w = some (a, w')) :
    w' = w ∧ ∀ ps, a = .ok ps → ps = w.pools := by
  obtain ⟨hw, ha⟩ := reads_some h
  refine ⟨hw, fun ps hps => ?_⟩
  cases ha ps hps
  rfl

/-- A status write is carried out on the version it was made from, or nothing happens. -/
theorem answer_updatePoolStatus {p : Pool} {a : Except ApiErr Pool}
    (h : answer i (.updatePoolStatus p) ch w = some (a, w')) :
    (w' = w ∧ (∃ e, a = .error e) ∧ (ch = .refused ∨
      ∀ u, find poolKind w.pools p.name = some u → u.version ≠ p.version)) ∨
    ∃ u q, find poolKind w.pools p.name = some u ∧ u.version = p.version ∧ a = .ok q ∧
      w' = { w with
        rev := w.rev + 1
        pools := replace poolKind w.pools
          { u with status := p.status, version := w.rev + 1 } } := by
  rcases writes_some h with ⟨rfl, he, hwhy⟩ | ⟨v, l, hr, ha, rfl⟩
  · refine .inl ⟨rfl, he, hwhy.imp_right ?_⟩
    rintro ⟨e, he⟩ u hu hver
    have hu' : find poolKind w'.pools (poolKind.name p) = some u := hu
    have hver' : poolKind.version u = poolKind.version p := hver
    simp [update, hu', hver'] at he
  · obtain ⟨u, hu, hver, heq⟩ := update_ok hr
    cases heq
    exact .inr ⟨u, _, hu, hver, ha, rfl⟩

theorem answer_createSubVolume
    (h : answer i (.createSubVolume v) ch w = some (a, w')) :
    (w' = w ∧ ∃ e, a = .error e) ∨
    ∃ q, find subVolumeKind w.subVolumes v.name = none ∧ a = .ok q ∧
      w' = { w with
        rev := w.rev + 1
        subVolumes := w.subVolumes ++ [{ noVolumeStatus v with version := w.rev + 1 }] } := by
  exact (writes_create h).imp_right (fun ⟨hn, ha, hw⟩ => ⟨_, hn, ha, hw⟩)

theorem answer_createSnapshot {a : Except ApiErr Snapshot}
    (h : answer i (.createSnapshot s) ch w = some (a, w')) :
    (w' = w ∧ ∃ e, a = .error e) ∨
    (find snapshotKind w.snapshots s.name = none ∧
      a = .ok { noSnapshotStatus s with version := w.rev + 1 } ∧
      w' = { w with
        rev := w.rev + 1
        snapshots := w.snapshots ++ [{ noSnapshotStatus s with version := w.rev + 1 }] }) :=
  writes_create h

theorem answer_sharesByName {n : Name} {a : Except VpcErr (List ShareInfo)}
    (h : answer i (.sharesByName n) ch w = some (a, w')) :
    w' = w ∧ ∀ cs, a = .ok cs → cs = w.shares.filter (fun s => s.name = n) := by
  cases ch with
  | ok =>
    cases h
    refine ⟨rfl, fun cs hcs => ?_⟩
    cases hcs
    rfl
  | refused =>
    cases h
    exact ⟨rfl, nofun⟩
  | _ => cases h

theorem findInfo_some {id : Name} {info : ShareInfo} (h : findInfo w id = some info) :
    info ∈ w.shares ∧ info.id = id :=
  ⟨mem_of_find?_eq_some h, by simpa using find?_some h⟩

/-- A volume was there before, on its share, unless it is being made. -/
theorem volume_origin {a : Answer q} (h : answer i q ch w = some (a, w'))
    (hq : ∀ v, q ≠ .createSubVolume v) (hv : v ∈ w'.subVolumes) :
    ∃ u ∈ w.subVolumes, u.name = v.name ∧ u.shareID = v.shareID ∧ u.poolName = v.poolName := by
  have hself : v ∈ w.subVolumes → ∃ u ∈ w.subVolumes, u.name = v.name ∧
      u.shareID = v.shareID ∧ u.poolName = v.poolName := fun hv => ⟨v, hv, rfl, rfl, rfl⟩
  cases q with
  | createSubVolume v => exact absurd rfl (hq v)
  | updateSubVolume x | updateSubVolumeStatus x =>
    rcases writes_update h with ⟨rfl, -⟩ | ⟨u, _, hu, -, -, rfl⟩
    · exact hself hv
    · rcases mem_replace hv with rfl | ⟨hv, -⟩
      · exact ⟨u, find_mem hu, rfl, rfl, rfl⟩
      · exact hself hv
  | deleteSubVolume n =>
    rcases deletes_find h with ⟨rfl, -⟩ | ⟨u, -, -, rfl⟩
    · exact hself hv
    · exact hself (mem_filter.mp hv).1
  | patchRestorePending n b =>
    rcases deletes_some h with ⟨rfl, -⟩ | ⟨-, rfl, -⟩
    · exact hself hv
    · obtain ⟨u, hu, rfl⟩ := mem_map.mp hv
      by_cases hn : u.name = n
      · exact ⟨u, hu, by simp [hn], by simp [hn], by simp [hn]⟩
      · exact ⟨u, hu, by simp [hn], by simp [hn], by simp [hn]⟩
  | _ =>
    rw [(answer_sameBut h).volumes nofun] at hv
    exact hself hv

/-- A snapshot was there before, of its volume and on its share, unless it is being made. -/
theorem snapshot_origin {a : Answer q} (h : answer i q ch w = some (a, w'))
    (hq : ∀ s, q ≠ .createSnapshot s) (hs : s ∈ w'.snapshots) :
    ∃ u ∈ w.snapshots, u.name = s.name ∧ u.sourceSubVolume = s.sourceSubVolume ∧
      u.shareID = s.shareID ∧ u.poolName = s.poolName ∧ u.sizeGB = s.sizeGB := by
  have hself : s ∈ w.snapshots → ∃ u ∈ w.snapshots, u.name = s.name ∧
      u.sourceSubVolume = s.sourceSubVolume ∧ u.shareID = s.shareID ∧
      u.poolName = s.poolName ∧ u.sizeGB = s.sizeGB := fun hs => ⟨s, hs, rfl, rfl, rfl, rfl, rfl⟩
  cases q with
  | createSnapshot s => exact absurd rfl (hq s)
  | updateSnapshot x | updateSnapshotStatus x =>
    rcases writes_update h with ⟨rfl, -⟩ | ⟨u, _, hu, -, -, rfl⟩
    · exact hself hs
    · rcases mem_replace hs with rfl | ⟨hs, -⟩
      · exact ⟨u, find_mem hu, rfl, rfl, rfl, rfl, rfl⟩
      · exact hself hs
  | deleteSnapshot n =>
    rcases deletes_find h with ⟨rfl, -⟩ | ⟨u, -, -, rfl⟩
    · exact hself hs
    · exact hself (mem_filter.mp hs).1
  | _ =>
    rw [(answer_sameBut h).snapshots nofun] at hs
    exact hself hs

/-- The answers of the world are those that the protocol expects. -/
theorem answers_of_answer {a : Answer q} (h : answer i q ch w = some (a, w')) :
    protocol.answers q a := by
  cases q with
  | getPool n => exact fun p hp => find_name ((reads_found h).2 p hp)
  | getSubVolume n => exact fun v hv => find_name ((reads_found h).2 v hv)
  | getSnapshot n => exact fun s hs => find_name ((reads_found h).2 s hs)
  | createSnapshot s =>
    intro s' hs'
    rcases answer_createSnapshot h with ⟨-, e, he⟩ | ⟨-, ha, -⟩
    · cases he.symm.trans hs'
    · rw [ha] at hs'
      cases hs'
      rfl
  | sharesByName n =>
    intro cs hcs c hc
    rw [(answer_sharesByName h).2 cs hcs] at hc
    simpa using (mem_filter.mp hc).2
  | awaitShare id =>
    exact fun info hinfo => (findInfo_some ((awaitShare_some h).2 info hinfo).1).2
  | getShare id => exact fun info hinfo => (findInfo_some ((getShare_some h).2.1 info hinfo)).2
  | _ => trivial

end Questions

section Sides

/-- The sides of the local state: the work on a pool and its shares, -/
structure SameShares (l l' : Local) : Prop where
  base : l'.base = l.base
  forced : l'.forced = l.forced
  made : l'.made = l.made
  claimed : l'.claimed = l.claimed
  finalized : l'.finalized = l.finalized
  asked : l'.asked = l.asked
  offered : l'.offered = l.offered
  creating : l'.creating = l.creating
  looked : l'.looked = l.looked
  switches : l'.switches = l.switches

/-- what was counted, -/
structure SameCounts (l l' : Local) : Prop where
  volumes : l'.volumes = l.volumes
  counted : l'.counted = l.counted
  onShare : l'.onShare = l.onShare
  drains : l'.drains = l.drains

/-- and the records that were read under a lock. -/
structure SameRecords (l l' : Local) : Prop where
  volume : l'.volume = l.volume
  source : l'.source = l.source
  snapshot : l'.snapshot = l.snapshot
  fresh : l'.fresh = l.fresh
  sources : l'.sources = l.sources

def ShareStep : Query → Prop
  | .unlock _ | .getPool _ | .listPools | .updatePoolStatus _ | .updatePool _ | .createShare _
  | .sharesByName _ | .awaitShare _ | .getShare _ => True
  | _ => False

def CountStep : Query → Prop
  | .getPool _ | .listSubVolumes _ | .listSnapshots _ | .listSubVolumesByShare _
  | .listSnapshotsByShare _ => True
  | _ => False

def RecordStep : Query → Prop
  | .unlock _ | .getSubVolume _ | .deleteSubVolume _ | .getSnapshot _ | .createSnapshot _
  | .deleteSnapshot _ => True
  | _ => False

def LockStep : Query → Prop
  | .lock _ | .unlock _ => True
  | _ => False

/-- The questions with which the copy of a pool can change. -/
def BaseStep : Query → Prop
  | .unlock _ | .getPool _ | .updatePoolStatus _ | .updatePool _ => True
  | _ => False

def SameBase (l l' : Local) : Prop :=
  l'.base = l.base ∧ l'.forced = l.forced ∧ l'.finalized = l.finalized

/-- What a step can change of the local state. -/
structure Framed (q : Query) (l l' : Local) : Prop where
  call : l'.call = l.call
  held : ¬LockStep q → l'.held = l.held
  base : ¬BaseStep q → SameBase l l'
  shares : ¬ShareStep q → SameShares l l'
  counts : ¬CountStep q → SameCounts l l'
  records : ¬RecordStep q → SameRecords l l'

variable {l l' : Local} {q : Query} {n : Name} {v : SubVolume}

theorem sameShares_self : SameShares l l :=
  ⟨rfl, rfl, rfl, rfl, rfl, rfl, rfl, rfl, rfl, rfl⟩

theorem SameShares.toBase (h : SameShares l l') : SameBase l l' := ⟨h.base, h.forced, h.finalized⟩

theorem framed_self : Framed q l l :=
  ⟨rfl, fun _ => rfl, fun _ => ⟨rfl, rfl, rfl⟩, fun _ => sameShares_self,
    fun _ => ⟨rfl, rfl, rfl, rfl⟩,
    fun _ => ⟨rfl, rfl, rfl, rfl, rfl⟩⟩

theorem framed_shares (hq : ShareStep q) (hcall : l'.call = l.call := by rfl)
    (hheld : l'.held = l.held := by rfl)
    (hbase : BaseStep q ∨ SameBase l l' := by
      first | exact .inl trivial | exact .inr ⟨rfl, rfl, rfl⟩)
    (hcounts : SameCounts l l' := by exact ⟨rfl, rfl, rfl, rfl⟩)
    (hrecords : SameRecords l l' := by exact ⟨rfl, rfl, rfl, rfl, rfl⟩) : Framed q l l' :=
  ⟨hcall, fun _ => hheld, hbase.resolve_left, fun h => absurd hq h, fun _ => hcounts,
    fun _ => hrecords⟩

theorem framed_counts (hq : CountStep q) (hcall : l'.call = l.call := by rfl)
    (hheld : l'.held = l.held := by rfl)
    (hshares : SameShares l l' := by exact ⟨rfl, rfl, rfl, rfl, rfl, rfl, rfl, rfl, rfl, rfl⟩)
    (hrecords : SameRecords l l' := by exact ⟨rfl, rfl, rfl, rfl, rfl⟩) : Framed q l l' :=
  ⟨hcall, fun _ => hheld, fun _ => hshares.toBase, fun _ => hshares, fun h => absurd hq h,
    fun _ => hrecords⟩

theorem framed_records (hq : RecordStep q) (hcall : l'.call = l.call := by rfl)
    (hheld : l'.held = l.held := by rfl)
    (hshares : SameShares l l' := by exact ⟨rfl, rfl, rfl, rfl, rfl, rfl, rfl, rfl, rfl, rfl⟩)
    (hcounts : SameCounts l l' := by exact ⟨rfl, rfl, rfl, rfl⟩) : Framed q l l' :=
  ⟨hcall, fun _ => hheld, fun _ => hshares.toBase, fun _ => hshares, fun _ => hcounts,
    fun h => absurd hq h⟩

theorem framed_release {x : Lock} : Framed (.unlock x) l (l.release x) := by
  cases x <;> exact ⟨rfl, absurd trivial, absurd trivial, absurd trivial,
    fun _ => ⟨rfl, rfl, rfl, rfl⟩, absurd trivial⟩

theorem framed_poolRead {a : Except ApiErr Pool} (h : poolRead l n a l') :
    Framed (.getPool n) l l' := by
  have hof : l'.call = l.call → l'.held = l.held → SameRecords l l' → Framed (.getPool n) l l' :=
    fun hc hh hr => ⟨hc, fun _ => hh, absurd trivial, absurd trivial, absurd trivial, fun _ => hr⟩
  cases a with
  | ok p =>
    rcases h with rfl | ⟨-, rfl⟩ | ⟨p₀, m, -, -, -, -, rfl⟩
    · exact framed_self
    · exact hof rfl rfl ⟨rfl, rfl, rfl, rfl, rfl⟩
    · exact hof rfl rfl ⟨rfl, rfl, rfl, rfl, rfl⟩
  | error e =>
    rcases h with rfl | ⟨-, rfl⟩
    · exact framed_self
    · exact hof rfl rfl ⟨rfl, rfl, rfl, rfl, rfl⟩

theorem framed_statusWritten {p : Pool} {a : Except ApiErr Pool} (h : statusWritten l p a l') :
    Framed (.updatePoolStatus p) l l' := by
  obtain ⟨p₀, -, -, -, -, h⟩ := h
  cases a with
  | ok q =>
    rcases h with ⟨share, gb, pvcs, d, c, -, -, rfl⟩ | ⟨-, -, rfl⟩
    all_goals exact framed_shares trivial
  | error e =>
    subst h
    exact framed_shares trivial

/-- A clause that leaves the local state alone or sets a debt. -/
theorem framed_debt {d : Option Debt} : Framed q l { l with debt := d } :=
  ⟨rfl, fun _ => rfl, fun _ => ⟨rfl, rfl, rfl⟩,
    fun _ => ⟨rfl, rfl, rfl, rfl, rfl, rfl, rfl, rfl, rfl, rfl⟩,
    fun _ => ⟨rfl, rfl, rfl, rfl⟩, fun _ => ⟨rfl, rfl, rfl, rfl, rfl⟩⟩

theorem framed_volumeMade {a : Except ApiErr SubVolume}
    (h : volumeMade l v a l') : Framed (.createSubVolume v) l l' := by
  obtain ⟨p₀, -, -, -, -, -, -, -, h⟩ := h
  cases a with
  | ok q =>
    subst h
    exact framed_debt
  | error e =>
    subst h
    exact framed_self

theorem framed_volumeGrown {a : Except ApiErr SubVolume}
    (h : volumeGrown l v a l') : Framed (.updateSubVolume v) l l' := by
  obtain ⟨p₀, v₀, s, -, -, -, -, -, -, -, -, -, -, -, h⟩ := h
  cases a with
  | ok q =>
    subst h
    exact framed_debt
  | error e =>
    subst h
    exact framed_self

theorem framed_volumeGone {a : Except ApiErr Unit} (h : volumeGone l n a l') :
    Framed (.deleteSubVolume n) l l' := by
  obtain ⟨p₀, v₀, -, -, -, -, -, -, -, -, -, h⟩ := h
  cases a with
  | ok q =>
    subst h
    exact framed_records trivial
  | error e =>
    subst h
    exact framed_self

/-- A question changes only its sides of the local state. -/
theorem step_framed {a : Answer q} (h : protocol.step l q a l') : Framed q l l' := by
  cases q with
  | lock x =>
    cases h
    exact ⟨rfl, absurd trivial, fun _ => ⟨rfl, rfl, rfl⟩,
      fun _ => ⟨rfl, rfl, rfl, rfl, rfl, rfl, rfl, rfl, rfl, rfl⟩,
      fun _ => ⟨rfl, rfl, rfl, rfl⟩, fun _ => ⟨rfl, rfl, rfl, rfl, rfl⟩⟩
  | unlock x =>
    obtain ⟨-, rfl⟩ := h
    exact framed_release
  | getPool n => exact framed_poolRead h
  | listPools =>
    cases a with
    | ok _ | error _ =>
      cases h
      exact framed_shares trivial
  | updatePoolStatus p => exact framed_statusWritten h
  | updatePool p =>
    obtain ⟨p₀, n, -, -, -, -, -, h⟩ := h
    cases a with
    | ok _ | error _ =>
      cases h
      exact framed_shares trivial
  | getSubVolume n =>
    cases a with
    | ok v =>
      rcases h with rfl | ⟨-, rfl⟩ | ⟨-, rfl⟩
      all_goals exact framed_records trivial
    | error e =>
      cases h
      exact framed_self
  | listSubVolumes n =>
    rcases h with rfl | ⟨p₀, vs, -, -, -, -, rfl⟩
    all_goals exact framed_counts trivial
  | listSnapshots n =>
    rcases h with rfl | ⟨p₀, vs, ss, -, -, -, -, -, rfl⟩
    all_goals exact framed_counts trivial
  | listSubVolumesByShare s =>
    rcases h with rfl | ⟨vs, -, -, rfl⟩
    all_goals exact framed_counts trivial
  | listSnapshotsByShare s =>
    rcases h with rfl | ⟨p₀, vs, ss, -, -, -, -, -, rfl⟩
    all_goals exact framed_counts trivial
  | createSubVolume v => exact framed_volumeMade h
  | updateSubVolume v => exact framed_volumeGrown h
  | deleteSubVolume n => exact framed_volumeGone h
  | getSnapshot n =>
    cases a with
    | ok s =>
      rcases h with rfl | rfl | ⟨-, rfl | rfl⟩
      all_goals exact framed_records trivial
    | error e =>
      cases h
      exact framed_self
  | createSnapshot s =>
    obtain ⟨v, ok, -, -, -, -, -, -, -, -, -, h⟩ := h
    cases a with
    | ok _ | error _ =>
      cases h
      exact framed_records trivial
  | updateSnapshot s =>
    obtain ⟨rfl, -⟩ := h
    exact framed_self
  | deleteSnapshot n =>
    obtain ⟨s, -, -, -, -, h⟩ := h
    cases a with
    | ok _ | error _ =>
      cases h
      exact framed_records trivial
  | createShare input =>
    obtain ⟨p₀, tier, k, -, -, -, -, -, h⟩ := h
    match a with
    | .ok id | .error .alreadyExists | .error .notFound | .error .other =>
      cases h
      exact framed_shares trivial
  | sharesByName n =>
    cases a with
    | ok cs =>
      rcases h with ⟨input, tier, -, -, rfl⟩ | ⟨p₀, info, s, -, -, -, -, -, -, -, -, rfl⟩
      all_goals exact framed_shares trivial
    | error e =>
      cases h
      exact framed_self
  | awaitShare id =>
    obtain ⟨input, tier, -, -, -, h⟩ := h
    cases a with
    | ok _ | error _ =>
      cases h
      exact framed_shares trivial
  | getShare id =>
    rcases h with rfl | ⟨info, -, rfl⟩
    all_goals exact framed_shares trivial
  | deleteShare id =>
    obtain ⟨rfl, -⟩ := h
    exact framed_self
  | _ =>
    cases h
    exact framed_self

/-- The work on the copy of a pool has ended. -/
structure Dropped (l l' : Local) : Prop where
  base : l'.base = none
  made : l'.made = []
  asked : l'.asked = l.asked
  offered : l'.offered = l.offered
  creating : l'.creating = l.creating
  switches : l'.switches = l.switches

theorem Dropped.not_base (h : Dropped l l') (p : Pool) : l'.base ≠ some p := by
  rw [h.base]
  exact nofun

def ClosingStep : Query → Prop
  | .unlock _ | .updatePoolStatus _ | .updatePool _ => True
  | _ => False

/-- Such a step ends the work on the copy, or leaves it and the pools as they are. -/
theorem answer_closes {a : Answer q} (ha : answer i q ch w = some (a, w'))
    (hstep : protocol.step l q a l') (hq : ClosingStep q) :
    (w'.pools = w.pools ∧ SameShares l l') ∨ Dropped l l' := by
  cases q with
  | unlock x =>
    obtain ⟨-, rfl⟩ := hstep
    cases ha
    cases x with
    | mu => exact .inr ⟨rfl, rfl, rfl, rfl, rfl, rfl⟩
    | volume _ | worker | cloning _ | backup => exact .inl ⟨rfl, { sameShares_self with }⟩
  | updatePoolStatus p =>
    obtain ⟨p₀, -, -, -, -, hstep⟩ := hstep
    rcases answer_updatePoolStatus ha with ⟨rfl, ⟨e, rfl⟩, -⟩ | ⟨u, q, -, -, rfl, -⟩
    · cases hstep
      exact .inl ⟨rfl, { sameShares_self with }⟩
    · rcases hstep with ⟨share, gb, pvcs, d, c, -, -, rfl⟩ | ⟨-, -, rfl⟩
      all_goals exact .inr ⟨rfl, rfl, rfl, rfl, rfl, rfl⟩
  | updatePool p =>
    obtain ⟨p₀, n, -, -, -, -, -, hstep⟩ := hstep
    rcases writes_update ha with ⟨rfl, e, rfl⟩ | ⟨u, q, -, -, rfl, -⟩
    · cases hstep
      exact .inl ⟨rfl, sameShares_self⟩
    · cases hstep
      exact .inr ⟨rfl, rfl, rfl, rfl, rfl, rfl⟩
  | _ => exact hq.elim

end Sides

theorem changePool_some {f : Pool → Pool} (h : changePool w n f = some w') :
    ∃ u, find poolKind w.pools n = some u ∧ w' = { w with
      rev := w.rev + 1
      pools := settlePools (replace poolKind w.pools
        { f u with name := u.name, version := w.rev + 1 }) } := by
  obtain ⟨u, hu, rfl⟩ := Option.map_eq_some_iff.mp h
  exact ⟨u, hu, rfl⟩

/-- An event changes only its part of the world. -/
theorem happens_sameBut {e : Event} (h : happens e w = some w') : SameBut (eventPart e) w w' := by
  cases e with
  | newPool n spec =>
    obtain ⟨-, rfl⟩ := unless_some h
    exact sameBut_pools (Nat.le_succ _)
  | editSpec n spec | deletePool n =>
    obtain ⟨u, -, rfl⟩ := changePool_some h
    exact sameBut_pools (Nat.le_succ _)
  | shareMade s =>
    obtain ⟨-, rfl⟩ := unless_some h
    exact sameBut_shares
  | shareChanges id state targets | shareGone id =>
    cases h
    exact sameBut_shares
  | vmLoop name method phase ready =>
    simp only [happens, vmLoop] at h
    split at h
    · obtain ⟨-, rfl⟩ := when_some h
      exact sameBut_snapshots (Nat.le_succ _)
    · cases h
  | jobCopies key n =>
    simp only [happens, jobCopies] at h
    split at h
    · split at h
      · obtain ⟨j', -, rfl⟩ := Option.map_eq_some_iff.mp h
        exact sameBut_other
      · cases h
    · cases h
  | jobRemoves key n =>
    simp only [happens, jobRemoves] at h
    split at h
    · split at h
      · obtain ⟨-, rfl⟩ := when_some h
        exact sameBut_other
      · cases h
    · cases h
  | jobEnds key content =>
    simp only [happens, jobEnds] at h
    split at h
    · obtain ⟨-, rfl⟩ := when_some h
      unfold finishWork
      split <;> exact sameBut_other
    · cases h
  | jobFails key =>
    simp only [happens, jobFails] at h
    split at h
    · obtain ⟨-, rfl⟩ := when_some h
      unfold leavePart
      split <;> exact sameBut_other
    · cases h
  | jobGone key =>
    simp only [happens, jobGone] at h
    split at h
    · split at h
      · cases h
        unfold leavePart
        split <;> exact sameBut_other
      · obtain ⟨-, rfl⟩ := unless_some h
        exact sameBut_other
    · cases h
  | guestWrites volume n x =>
    simp only [happens, guestWrites] at h
    split at h
    · obtain ⟨-, rfl⟩ := when_some h
      exact sameBut_other
    · cases h
  | claimMade b =>
    obtain ⟨-, rfl⟩ := unless_some h
    exact sameBut_other
  | restoreAsked n c =>
    obtain ⟨-, rfl⟩ := unless_some h
    exact sameBut_other (Nat.le_succ _)
  | podStarts _ _ | podStops _ | instanceChanges _ _ | machineChanges _ _ | moves _ _
  | gateChanges _ | claimBound _ _ | claimGone _ =>
    cases h
    exact sameBut_other

end FilePool.PoolSteps
