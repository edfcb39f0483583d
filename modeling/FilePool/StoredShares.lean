import FilePool.ShareOwners

/-!
The shares that calls make, and whether they are stored. Three calls make a share when the
pool is full: a new volume, a restored one and a clone. The share exists from then on, and the
call may still end in several ways. What a call has seen is noted with each answer until the
share is stored.
-/
namespace FilePool.StoredShares

open UndoNames PoolRecords PoolWorld ShareCreation VolumeCalls SnapshotCalls CallsFollow
  SnapshotsFollow Threads Proc
open ShareOwners (shareIDs shareIDs_changeShare)

/-- The shares of the pools that were read, the share that was made, whether it was ready when
its wait ended, whether the volume's folder or record was refused, and whether a pool with the
share was written. -/
structure Seen where
  known : List Name
  made : Option Name
  ready : Option Bool
  refused : Bool
  stored : Bool
  deriving DecidableEq, Repr

def nothingSeen : Seen := ⟨[], none, none, false, false⟩

variable (l : Seen)

def notePool : Except ApiErr Pool → Seen
  | .ok p => { l with known := shareIDs p ++ l.known }
  | .error _ => l

/-- A share is a new one if no pool that was read has it. -/
def noteMade : Except VpcErr Name → Seen
  | .ok id => if id ∈ l.known then l else { l with made := some id }
  | .error _ => l

def noteReady : Except VpcErr ShareInfo → Seen
  | .ok info => { l with ready := some (shareReady (newPoolShareStatus info [])) }
  | .error _ => l

def noteRefused {α : Type} : Except ApiErr α → Seen
  | .ok _ => l
  | .error _ => { l with refused := true }

def noteStored (p : Pool) : Seen := { l with stored := l.made.any (fun id => id ∈ shareIDs p) }

/-- What an answer adds. -/
def answered : (q : Query) → Answer q → Seen
  | .getPool _, a => notePool l a
  | .createShare _, a => noteMade l a
  | .awaitShare _, a => noteReady l a
  | .createDirectory _, a => noteRefused l a
  | .createSubVolume _, a => noteRefused l a
  | .updatePoolStatus p, _ => noteStored l p
  | _, _ => l

/-- Nothing more is noted once the share is stored. -/
def note (q : Query) (a : Answer q) : Seen := if l.stored then l else answered l q a

/-- Every answer is noted. The wait for a share answers with that share. -/
def noting : Protocol Seen Query Answer :=
  ⟨PoolProtocol.answers, fun l q a l' => l' = note l q a⟩

/-- The calls that may make a share. -/
inductive Maker
  | allocate (req : AllocationRequest)
  | restoreSnapshot (snapshot : Name) (req : AllocationRequest)
  | cloneVolume (source : Option Name) (req : AllocationRequest)

def Maker.call (cfg : Config) : Maker → Driver AllocationResult
  | .allocate req => VolumeCalls.allocate cfg req
  | .restoreSnapshot snapshot req => SnapshotCalls.restoreSnapshot cfg snapshot req
  | .cloneVolume source req => VolumeCalls.cloneVolume cfg source req

/-- The share was ready and the volume's folder and record were made. -/
def Placed (l : Seen) : Prop := l.ready = some true ∧ l.refused = false

/-- When the new share is stored: a new volume's call also stores one that is not ready. -/
def Maker.Stores (cfg : Config) : Maker → Seen → Prop
  | .allocate _, l => l.ready = some false ∨ Placed l
  | .restoreSnapshot _ _, l => cfg.shareData = true ∧ Placed l
  | .cloneVolume _ _, l => Placed l

/-- If a share was made, it was stored just in the given case. -/
def Right (stores : Seen → Prop) (l : Seen) : Prop :=
  l.made ≠ none → (l.stored = true ↔ stores l)

variable {α : Type} {l : Seen} {post : α → Seen → Prop} {err : Seen → Prop} {q : Query}

theorem note_of_stored (h : l.stored = true) (q : Query) (a : Answer q) : note l q a = l :=
  if_pos h

theorem note_of_unstored (h : l.stored = false) (q : Query) (a : Answer q) :
    note l q a = answered l q a := by
  simp [note, h]

/-- After the share is stored every program leaves the notes as they are. -/
theorem meets_of_stored {p : Driver α} (h : l.stored = true) (hpost : ∀ a, post a l)
    (herr : err l) : Meets noting p post err l := by
  have hkeep : Follows noting p (fun _ l' => l' = l) l := by
    induction p with
    | done r => exact rfl
    | ask q k ih => exact fun a _ => ⟨l, (note_of_stored h q a).symm, ih a⟩
  refine follows_mono p hkeep (fun r l' hr => ?_)
  subst hr
  cases r with
  | ok a => exact hpost a
  | error e => exact herr

/-- The questions that make no share. -/
def Calm : Query → Prop
  | .createShare _ => False
  | _ => True

theorem note_made (q : Query) (hq : Calm q) (a : Answer q) : (note l q a).made = l.made := by
  have hpool (r : Except ApiErr Pool) : (notePool l r).made = l.made := by cases r <;> rfl
  have hready (r : Except VpcErr ShareInfo) : (noteReady l r).made = l.made := by cases r <;> rfl
  have hrefused {β : Type} (r : Except ApiErr β) : (noteRefused l r).made = l.made := by
    cases r <;> rfl
  cases hstored : l.stored with
  | true => rw [note_of_stored hstored]
  | false =>
    rw [note_of_unstored hstored]
    cases q with
    | createShare input => exact hq.elim
    | getPool n => exact hpool a
    | awaitShare id => exact hready a
    | createDirectory path => exact hrefused a
    | createSubVolume v => exact hrefused a
    | _ => rfl

/-- A program that makes no share ends without one. -/
theorem meets_calm {p : Driver α} (hp : p.Asks Calm) (h : l.made = none) :
    Meets noting p (fun _ l' => l'.made = none) (fun l' => l'.made = none) l := by
  have hkeep : Follows noting p (fun _ l' => l'.made = none) l := by
    induction p generalizing l with
    | done r => exact h
    | ask q k ih => exact fun a _ => ⟨_, rfl, ih a (hp.2 a) ((note_made q hp.1 a).trans h)⟩
  refine follows_mono p hkeep (fun r l' hr => ?_)
  cases r with
  | ok a => exact hr
  | error e => exact hr

theorem right_of_unmade {stores : Seen → Prop} (h : l.made = none) : Right stores l :=
  fun hmade => absurd h hmade

/-- The next question, with what is noted of its answer. -/
theorem meets_ask {post : Answer q → Seen → Prop}
    (h : ∀ a, PoolProtocol.answers q a → post a (note l q a)) :
    Meets noting (ask q) post err l :=
  meets_query q (fun a ha => ⟨_, rfl, h a ha⟩)

theorem note_same {a : Answer q} (h : answered l q a = l) : note l q a = l := by
  simp [note, h]

theorem meets_pass {post : Answer q → Seen → Prop} (hq : ∀ a, answered l q a = l)
    (h : ∀ a, PoolProtocol.answers q a → post a l) : Meets noting (ask q) post err l :=
  meets_ask (fun a ha => (note_same (hq a)).symm ▸ h a ha)

theorem meets_passFor {δ : Type} {e : δ → Err} {r : Answer q → Except δ β}
    {f : β → Driver α} (hq : ∀ a, answered l q a = l)
    (h : ∀ {a : Answer q} (b : β), PoolProtocol.answers q a → r a = .ok b →
      Meets noting (f b) post err l)
    (herr : err l) : Meets noting (ask q >>= fun a => Proc.orFail e (r a) >>= f) post err l :=
  meets_bind (meets_pass hq (fun a ha => meets_bind (meets_orFail e (r a)
    (fun b hb => h b ha hb) (fun _ _ => herr))))

theorem meets_locked {x : Lock} {body : Driver α} (h : Meets noting body post err l) :
    Meets noting (locked x body) post err l := by
  refine meets_bind (meets_pass (fun _ => rfl) (fun _ _ => ?_))
  refine meets_bind (meets_attempt (meets_mono h (fun a l' ha => ?_) (fun l' hl' e => ?_)))
  · exact meets_bind (meets_pass (fun _ => rfl) (fun _ _ => meets_pure a ha))
  · exact meets_bind (meets_pass (fun _ => rfl) (fun _ _ => meets_fail e hl'))

variable (cfg : Config) {p : Pool}

/-- The pool was read and no share was made yet. -/
structure Before (p : Pool) (l : Seen) : Prop where
  known : shareIDs p ⊆ l.known
  made : l.made = none
  ready : l.ready = none
  refused : l.refused = false
  stored : l.stored = false

theorem shareReady_tier (info : ShareInfo) (tier : Name) :
    shareReady (newPoolShareStatus info tier) = shareReady (newPoolShareStatus info []) := by
  unfold newPoolShareStatus
  cases info.mountTargets with
  | nil => rfl
  | cons mt _ => dsimp only; split <;> rfl

/-- The request ended without a new share, or its wait ended. -/
def Waited (l : Seen) (info : ShareInfo) (l' : Seen) : Prop :=
  l'.made = none ∨ l' = { l with
    made := some info.id, ready := some (shareReady (newPoolShareStatus info [])) }

/-- The request failed without a new share, or the wait for it failed. -/
def Missed (l : Seen) (l' : Seen) : Prop :=
  l'.made = none ∨ ∃ id, id ∉ l.known ∧ l' = { l with made := some id }

theorem asks_getShareByName {input : CreateShareInput} : (getShareByName input).Asks Calm := by
  refine asks_call trivial (fun named => ?_)
  refine asks_ite asks_fail ?_
  split
  · exact asks_fail
  · exact asks_ask trivial (fun r => asks_orFail)

theorem meets_createFileShare (h : Before p l) (input : CreateShareInput) :
    Meets noting (createFileShare input) (Waited l) (Missed l) l := by
  refine meets_bind (meets_ask (fun r _ => ?_))
  rw [note_of_unstored h.stored]
  match r with
  | .error .alreadyExists =>
    exact meets_mono (meets_calm asks_getShareByName h.made) (fun _ _ => .inl) (fun _ => .inl)
  | .error .notFound | .error .other => exact meets_fail _ (.inl h.made)
  | .ok id =>
    by_cases hid : id ∈ l.known
    · have hl : answered l (.createShare input) (.ok id) = l := if_pos hid
      rw [hl]
      exact meets_mono (meets_calm (asks_ask trivial (fun r => asks_orFail))
        h.made) (fun _ _ => .inl) (fun _ => .inl)
    · have hl : answered l (.createShare input) (.ok id) = { l with made := some id } :=
        if_neg hid
      rw [hl]
      refine meets_bind (meets_ask (fun a ha => ?_))
      rw [note_of_unstored (l := { l with made := some id }) h.stored]
      match a with
      | .error _ => exact .inr ⟨id, hid, rfl⟩
      | .ok info =>
        have hinfo : info.id = id := ha info rfl
        exact .inr (by rw [hinfo]; rfl)

theorem meets_requestShare (h : Before p l) (tier : Name) :
    Meets noting (requestShare cfg p tier) (Waited l) (Missed l) l := by
  have herr : Missed l l := .inl h.made
  refine meets_bind ?_
  refine meets_bind (meets_orFail _ _ (fun t _ => ?_) (fun _ _ => herr))
  refine meets_unless herr (fun _ => ?_)
  refine meets_passFor (fun _ => rfl) (fun _ _ _ => ?_) herr
  refine meets_pure _ (meets_bind ?_)
  refine meets_passFor (fun _ => rfl) (fun _ _ _ => ?_) herr
  exact meets_pure _ (meets_createFileShare h _)

theorem meets_expandPool (h : Before p l) (gb : ℤ) (tier : Name) :
    Meets noting (expandPool cfg p gb tier) (Waited l) (Missed l) l := by
  have herr : Missed l l := .inl h.made
  refine meets_unless herr (fun _ => ?_)
  refine meets_bind (meets_orFail _ _ (fun t _ => ?_) (fun _ _ => herr))
  refine meets_unless herr (fun _ => ?_)
  refine meets_unless herr (fun _ => ?_)
  refine meets_unless herr (fun _ => ?_)
  refine meets_unless herr (fun _ => ?_)
  exact meets_requestShare cfg h tier

/-- How the expansion of a pool ends: without a new share, with one whose wait failed and that
the pool does not have, or with one that the pool has. -/
inductive Grown (l : Seen) (x : Pool × Except Err PoolShareStatus) (l' : Seen) : Prop
  | unmade (h : l'.made = none)
  | lost (id : Name) (e : Err) (hid : id ∉ shareIDs x.1) (hx : x.2 = .error e)
      (hl : l' = { l with made := some id })
  | unready (id : Name) (e : Err) (hid : id ∈ shareIDs x.1) (hx : x.2 = .error e)
      (hl : l' = { l with made := some id, ready := some false })
  | ready (id : Name) (share : PoolShareStatus) (hid : id ∈ shareIDs x.1) (hx : x.2 = .ok share)
      (hl : l' = { l with made := some id, ready := some true })

theorem mem_shareIDs_addShare (info : ShareInfo) (tier : Name) (gb : ℤ) :
    info.id ∈ shareIDs (addShare p (newPoolShareStatus info tier) gb) := by
  simp [shareIDs, addShare, (newPoolShareStatus_same info tier).1]

theorem meets_tryAutoExpand (h : Before p l) (gb : ℤ) (tier : Name) :
    Meets noting (tryAutoExpand cfg p gb tier) (Grown l) err l := by
  refine meets_bind (meets_attempt (meets_mono (meets_expandPool cfg h gb tier)
    (fun info l' hl' => ?_) (fun l' hl' e => ?_)))
  · obtain hnone | hl' := hl'
    · exact .unmade hnone
    have hmem := mem_shareIDs_addShare (p := p) info tier info.sizeGB
    cases hready : shareReady (newPoolShareStatus info []) with
    | false =>
      refine .unready info.id .poolExpanding hmem ?_ (hready ▸ hl')
      simp [shareReady_tier, hready]
    | true =>
      refine .ready info.id (newPoolShareStatus info tier) hmem ?_ (hready ▸ hl')
      simp [shareReady_tier, hready]
  · obtain hnone | ⟨id, hid, hl'⟩ := hl'
    · exact .unmade hnone
    · exact .lost id e (fun hmem => hid (h.known hmem)) rfl hl'

variable {stores : Seen → Prop} {req : AllocationRequest} {x : Pool × PoolShareStatus} {l' : Seen}

/-- A share was picked: no share was made, or the new one is in the pool and ready. -/
def Picked (l : Seen) (x : Pool × PoolShareStatus) (l' : Seen) : Prop :=
  l'.made = none ∨
    ∃ id ∈ shareIDs x.1, l' = { l with made := some id, ready := some true }

theorem right_of_unstored (h : l.stored = false) (hnot : ¬ stores l) : Right stores l :=
  fun _ => by simp [h, hnot]

theorem meets_shareForAllocate (h : Before p l) (req : AllocationRequest) :
    Meets noting (shareForAllocate cfg req p) (Picked l)
      (Right ((Maker.allocate req).Stores cfg)) l := by
  unfold shareForAllocate
  split
  · exact meets_pure _ (.inl h.made)
  · refine meets_then (meets_tryAutoExpand cfg h _ _) (fun x l' hx => ?_)
    cases hx with
    | unmade hnone =>
      split
      · exact meets_pure _ (.inl hnone)
      · exact meets_mono (meets_calm (asks_ask trivial (fun _ => asks_fail)) hnone)
          (fun _ _ => .inl) (fun _ => right_of_unmade)
    | lost id e hid hx hl =>
      rw [hx]
      refine meets_bind (meets_ask (fun _ _ => meets_fail e ?_))
      subst hl
      rw [note_of_unstored (l := { l with made := some id }) h.stored]
      refine right_of_unstored (by simpa [answered, noteStored] using hid) ?_
      simp [Maker.Stores, Placed, answered, noteStored, h.ready]
    | unready id e hid hx hl =>
      rw [hx]
      refine meets_bind (meets_ask (fun _ _ => meets_fail e (fun _ => ?_)))
      subst hl
      rw [note_of_unstored (l := { l with made := some id, ready := some false }) h.stored]
      simp [Maker.Stores, answered, noteStored, hid]
    | ready id share hid hx hl =>
      rw [hx]
      exact meets_pure _ (.inr ⟨id, hid, hl⟩)
  · exact meets_fail _ (right_of_unmade h.made)

/-- A restored or cloned volume's share: one that is not ready is not stored. -/
theorem meets_shareForCopy (h : Before p l) (req : AllocationRequest)
    (selected : Except Err PoolShareStatus) (hstores : ∀ l, stores l → Placed l) :
    Meets noting (shareForCopy cfg req p selected) (Picked l) (Right stores) l := by
  unfold shareForCopy
  split
  · exact meets_pure _ (.inl h.made)
  · refine meets_then (meets_tryAutoExpand cfg h _ _) (fun x l' hx => ?_)
    cases hx with
    | unmade hnone =>
      split
      · exact meets_pure _ (.inl hnone)
      · exact meets_fail _ (right_of_unmade hnone)
    | lost id e hid hx hl =>
      rw [hx]
      subst hl
      refine meets_fail e (right_of_unstored h.stored (fun hs => ?_))
      simpa [h.ready] using (hstores _ hs).1
    | unready id e hid hx hl =>
      rw [hx]
      subst hl
      refine meets_fail e (right_of_unstored h.stored (fun hs => ?_))
      simpa using (hstores _ hs).1
    | ready id share hid hx hl =>
      rw [hx]
      exact meets_pure _ (.inr ⟨id, hid, hl⟩)
  · exact meets_fail _ (right_of_unmade h.made)

theorem shareIDs_updateShareAllocation (id : Name) (gb : ℤ) :
    shareIDs (updateShareAllocation p id gb) = shareIDs p := by
  refine shareIDs_changeShare id ?_ p.status.shares
  exact fun _ => rfl

/-- No share was made, or it is stored in a case where it should be. -/
def Done (stores : Seen → Prop) (l : Seen) : Prop :=
  l.made = none ∨ (l.stored = true ∧ stores l)

theorem Done.right (h : Done stores l) : Right stores l := by
  obtain hnone | ⟨hstored, hs⟩ := h
  · exact right_of_unmade hnone
  · exact fun _ => by simp [hstored, hs]

/-- What the end of a call comes to: a refusal leaves the share unstored. -/
structure Placing (stores : Seen → Prop) : Prop where
  yes : ∀ l, Placed l → stores l
  no : ∀ l, l.ready = some true → l.refused = true → ¬ stores l

theorem asks_storeVolume {v : SubVolume} : (storeVolume v).Asks Calm := by
  refine asks_call trivial (fun made => ?_)
  refine asks_ask trivial (fun r => ?_)
  cases r with
  | ok v' => exact asks_pure
  | error e => exact asks_pure

/-- The record is made and the books are written, with the pool that has the share. -/
theorem meets_placed (hplace : Placing stores)
    (h : Before p l) (hl' : Picked l x l') (v : SubVolume) (f : SubVolume → α) :
    Meets noting (do
        let v' ← storeVolume v
        recordVolume x.1 v
        return f v') (fun _ => Done stores) (Right stores) l' := by
  obtain hnone | ⟨id, hid, rfl⟩ := hl'
  · refine meets_mono (meets_calm (asks_bind asks_storeVolume (fun _ => ?_)) hnone)
      (fun _ _ => .inl) (fun _ => right_of_unmade)
    exact asks_bind (asks_ask trivial (fun _ => asks_pure)) (fun _ => asks_pure)
  have hun : ({ l with made := some id, ready := some true } : Seen).stored = false := h.stored
  refine meets_bind (meets_bind (meets_ask (fun r _ => ?_)))
  rw [note_of_unstored hun]
  match r with
  | .error _ =>
    exact meets_fail _ (right_of_unstored h.stored (hplace.no _ rfl rfl))
  | .ok made =>
    refine meets_bind (meets_pure made ?_)
    refine meets_bind (meets_pass (fun _ => rfl) (fun r _ => ?_))
    have hrecord (v' : SubVolume) : Meets noting (do
        recordVolume x.1 v
        return f v') (fun _ => Done stores) (Right stores)
        { l with made := some id, ready := some true } := by
      refine meets_bind (meets_bind (meets_ask (fun _ _ => meets_pure _ (meets_pure _ ?_))))
      rw [note_of_unstored hun]
      refine .inr ⟨?_, hplace.yes _ ⟨rfl, h.refused⟩⟩
      simpa [answered, noteStored, shareIDs_updateShareAllocation] using hid
    match r with
    | .ok v' => exact meets_pure _ (hrecord v')
    | .error _ => exact meets_pure _ (hrecord _)

/-- The volume's folder is refused after the share was picked. -/
theorem right_of_refused (hplace : Placing stores)
    (h : Before p l) (hl' : Picked l x l') {path : Name} {e : ApiErr} :
    Right stores (note l' (.createDirectory path) (.error e)) := by
  obtain hnone | ⟨id, -, rfl⟩ := hl'
  · have hmade : (note l' (.createDirectory path) (.error e)).made = l'.made :=
      note_made (.createDirectory path) trivial (.error e)
    exact right_of_unmade (hmade.trans hnone)
  · have hun : ({ l with made := some id, ready := some true } : Seen).stored = false := h.stored
    have hnote := note_of_unstored hun (.createDirectory path) (.error e)
    have hright : Right stores { l with made := some id, ready := some true, refused := true } :=
      right_of_unstored h.stored (hplace.no _ rfl rfl)
    exact hnote ▸ hright

theorem before_of_read (n : Name) : Before p (note nothingSeen (.getPool n) (.ok p)) :=
  ⟨fun _ h => List.mem_append_left _ h, rfl, rfl, rfl, rfl⟩

/-- A call reads its pool before it makes a share. -/
theorem meets_readPool {f : Pool → Driver α} {e : ApiErr → Err} {n : Name}
    (h : ∀ p l, Before p l → Meets noting (f p) post (Right stores) l) :
    Meets noting (do
        let r ← ask (.getPool n)
        let p ← Proc.orFail e (r : Except ApiErr Pool)
        f p) post (Right stores) nothingSeen :=
  meets_call rfl (fun _ _ => ⟨_, rfl, right_of_unmade rfl⟩)
    (fun p _ => ⟨_, rfl, h p _ (before_of_read n)⟩)

theorem placing_allocate (req : AllocationRequest) :
    Placing ((Maker.allocate req).Stores cfg) where
  yes _ h := .inr h
  no l hready hrefused := by simp [Maker.Stores, Placed, hready, hrefused]

theorem meets_allocate (req : AllocationRequest) :
    Meets noting (allocate cfg req) (fun _ => Right ((Maker.allocate req).Stores cfg))
      (Right ((Maker.allocate req).Stores cfg)) nothingSeen := by
  refine meets_locked (meets_readPool (fun p l h => ?_))
  split
  · exact meets_fail _ (right_of_unmade h.made)
  refine meets_bind (meets_pass (fun _ => rfl) (fun existing _ => ?_))
  match existing with
  | .ok v => exact meets_pure _ (right_of_unmade h.made)
  | .error _ =>
    dsimp only
    split
    · exact meets_fail _ (right_of_unmade h.made)
    refine meets_then (meets_shareForAllocate cfg h req) (fun x l' hx => ?_)
    have hplaced := meets_mono (meets_placed (placing_allocate cfg req) h hx
      { newSubVolume req x.1 x.2 with restorePending := req.restorePending }
      (allocationResult x.1 x.2)) (fun _ _ => Done.right) (fun _ h => h)
    split
    · refine meets_bind (meets_ask (fun r _ => ?_))
      match r with
      | .ok u =>
        have hsame (path : Name) : note l' (.createDirectory path) (.ok u) = l' := note_same rfl
        rw [hsame]
        exact meets_bind (meets_pure _ hplaced)
      | .error _ =>
        exact meets_bind (meets_fail _ (right_of_refused (placing_allocate cfg req) h hx))
    · exact hplaced

theorem meets_cloneBody (source : Option Name) (req : AllocationRequest) :
    Meets noting (cloneBody cfg source req)
      (fun _ => Right ((Maker.cloneVolume source req).Stores cfg))
      (Right ((Maker.cloneVolume source req).Stores cfg)) nothingSeen := by
  have hstart : Right ((Maker.cloneVolume source req).Stores cfg) nothingSeen :=
    right_of_unmade rfl
  refine meets_bind (meets_pass (fun _ => rfl) (fun existing _ => ?_))
  match existing with
  | .ok v =>
    refine meets_unless hstart (fun _ => ?_)
    exact meets_pure _ hstart
  | .error _ =>
    match source with
    | none => exact meets_fail _ hstart
    | some src =>
      refine meets_passFor (fun _ => rfl) (fun sv _ _ => ?_) hstart
      split
      · exact meets_fail _ hstart
      split
      · exact meets_fail _ hstart
      refine meets_readPool (fun p l h => ?_)
      refine meets_then (meets_shareForCopy cfg h req _ (fun _ hs => hs)) (fun x l' hx => ?_)
      exact meets_mono (meets_placed ⟨fun _ h => h, fun l _ hr => by simp [Placed, hr]⟩ h hx
        (newClone req x.1 x.2 sv) (fun v' => { allocationResult x.1 x.2 v' with
          mountTargets := [], accessibleZones := [] })) (fun _ _ => Done.right) (fun _ h => h)

theorem meets_cloneVolume (source : Option Name) (req : AllocationRequest) :
    Meets noting (cloneVolume cfg source req)
      (fun _ => Right ((Maker.cloneVolume source req).Stores cfg))
      (Right ((Maker.cloneVolume source req).Stores cfg)) nothingSeen := by
  cases source with
  | none => exact meets_locked (meets_cloneBody cfg none req)
  | some src => exact meets_locked (meets_locked (meets_cloneBody cfg (some src) req))

theorem meets_reserveRestore {snapshot : Name} :
    Meets noting (reserveRestore cfg snapshot req)
      (fun _ => Done ((Maker.restoreSnapshot snapshot req).Stores cfg))
      (Right ((Maker.restoreSnapshot snapshot req).Stores cfg)) nothingSeen := by
  refine meets_locked (meets_readPool (fun p l h => ?_))
  refine meets_then (meets_shareForCopy cfg h req _ (fun _ hs => hs.2)) (fun x l' hx => ?_)
  cases hdata : cfg.shareData with
  | false =>
    obtain hnone | ⟨id, -, rfl⟩ := hx
    · exact right_of_unmade hnone
    · exact right_of_unstored h.stored (by simp [Maker.Stores, hdata])
  | true =>
    exact meets_placed ⟨fun _ h => ⟨hdata, h⟩,
      fun l _ hr => by simp [Maker.Stores, Placed, hr]⟩ h hx
      { newSubVolume req x.1 x.2 with restoreSnapshot := snapshot, phase := .creating } id

theorem calm_of_quiet (q : Query) (h : Quiet q) : Calm q := by
  cases q <;> trivial

/-- The copy into the volume makes no share, and stores none. -/
theorem meets_copyRestoreLocked (hl : Done stores l) (v : SubVolume) (s : Snapshot) :
    Meets noting (copyRestoreLocked cfg v s) (fun _ => Right stores) (Right stores) l := by
  obtain hnone | hstored := id hl
  · have hcalm := asks_mono (asks_copyRestoreData cfg v s) calm_of_quiet
    exact meets_locked (meets_mono (meets_calm hcalm hnone) (fun _ _ => right_of_unmade)
      (fun _ => right_of_unmade))
  · exact meets_of_stored hstored.1 (fun _ => hl.right) hl.right

theorem meets_restoreSnapshot (snapshot : Name) (req : AllocationRequest) :
    Meets noting (restoreSnapshot cfg snapshot req)
      (fun _ => Right ((Maker.restoreSnapshot snapshot req).Stores cfg))
      (Right ((Maker.restoreSnapshot snapshot req).Stores cfg)) nothingSeen := by
  have hstart : Right ((Maker.restoreSnapshot snapshot req).Stores cfg) nothingSeen :=
    right_of_unmade rfl
  refine meets_locked (meets_bind (meets_pass (fun _ => rfl) (fun existing _ => ?_)))
  match existing with
  | .ok v =>
    dsimp only
    split
    · exact meets_pure _ hstart
    refine meets_passFor (fun _ => rfl) (fun s _ _ => ?_) hstart
    exact meets_then (meets_copyRestoreLocked cfg (.inl rfl) v s) (fun _ _ h => meets_pure _ h)
  | .error _ =>
    refine meets_passFor (fun _ => rfl) (fun s _ _ => ?_) hstart
    split
    · exact meets_fail _ hstart
    split
    · exact meets_fail _ hstart
    refine meets_then (meets_reserveRestore cfg) (fun v l' hl' => ?_)
    exact meets_then (meets_copyRestoreLocked cfg hl' v s) (fun _ _ h => meets_pure _ h)

theorem meets_maker {c : Maker} :
    Meets noting (c.call cfg) (fun _ => Right (c.Stores cfg)) (Right (c.Stores cfg))
      nothingSeen := by
  cases c with
  | allocate req => exact meets_allocate cfg req
  | restoreSnapshot snapshot req => exact meets_restoreSnapshot cfg snapshot req
  | cloneVolume source req => exact meets_cloneVolume cfg source req

/-- On every path of a call that made a share, a pool with that share is written just when the
wait for the share ended well and, by call, the rest was not refused. -/
theorem new_share_stored_iff (c : Maker) :
    Follows noting (c.call cfg)
      (fun _ l => l.made ≠ none → (l.stored = true ↔ c.Stores cfg l)) nothingSeen := by
  refine follows_mono (c.call cfg) (meets_maker cfg) (fun r l h => ?_)
  cases r with
  | ok a => exact h
  | error e => exact h

section Samples

open ShareOwners (plainConfig plainSpec plainRequest)

/-- The notes of the path on which every question gets its given answer. -/
def notesOf {α : Type} (given : (q : Query) → Answer q) : Tree Query Answer α → Seen → Seen
  | .done _, l => l
  | .ask q k, l => notesOf given (k (given q)) (note l q (given q))

theorem follows_notesOf {given : (q : Query) → Answer q}
    (hgiven : ∀ q, PoolProtocol.answers q (given q)) {post : Seen → Prop}
    {p : Tree Query Answer α} (h : Follows noting p (fun _ => post) l) :
    post (notesOf given p l) := by
  induction p generalizing l with
  | done a => exact h
  | ask q k ih =>
    obtain ⟨l', hl', hk⟩ := h (given q) (hgiven q)
    cases hl'
    exact ih (given q) hk

/-- A pool with room for more shares and none yet. -/
def emptyPool (name : Name) : Pool :=
  ⟨name, 1, false, true, plainSpec 0 [], ⟨.ready, [], 0, 0, 0, 0, []⟩⟩

def newShare (id : Name) (ready : Bool) : ShareInfo :=
  ⟨id, [], ['z'], [], [], 10, .stable, if ready then [⟨['t'], [], ['1'], []⟩] else []⟩

def existingVolume : SubVolume :=
  newSubVolume (plainRequest ['v'] ['p'] [] 1) (emptyPool ['p'])
    (newPoolShareStatus (newShare ['y'] true) [])

def volumeNamed (n : Name) : Except ApiErr SubVolume :=
  if n = ['v'] then .ok { existingVolume with name := n } else .error .notFound

theorem name_of_volumeNamed {n : Name} {v : SubVolume} (h : volumeNamed n = .ok v) :
    v.name = n := by
  unfold volumeNamed at h
  split at h
  · cases h
    rfl
  · cases h

/-- The volume v exists; a share is made and is ready or not; a new record is refused. -/
def answersWith (ready : Bool) : (q : Query) → Answer q
  | .lock _ | .unlock _ | .setDiskTop _ _ => ()
  | .getPool n => .ok (emptyPool n)
  | .listPools => .ok []
  | .getSubVolume n => volumeNamed n
  | .network _ => .ok ()
  | .createShare _ => .ok ['x']
  | .awaitShare id => .ok (newShare id ready)
  | .updatePoolStatus p => .ok p
  | .updatePool _ | .listSubVolumes _ | .listSubVolumesByShare _ | .listRestorePending
  | .createSubVolume _ | .updateSubVolume _ | .updateSubVolumeStatus _ | .deleteSubVolume _
  | .patchRestorePending _ _ | .deleteSnapshot _ | .getSnapshot _ | .listSnapshots _
  | .listSnapshotsByShare _ | .listSnapshotsBySource _ | .createSnapshot _ | .updateSnapshot _
  | .updateSnapshotStatus _ | .getRestore _ | .updateRestoreStatus _ | .getClaim _
  | .createDirectory _ | .ensureHook | .createClaim _ _ | .backupSource _ | .stopJob _ | .vmPod _
  | .vmInstance _ | .vmForClaim _ | .vmMoving _ | .sidecarGate | .hasOpenRestore _
  | .mount _ => .error .notFound
  | .sharesByName _ | .getShare _ | .deleteShare _ | .createMountTarget _ => .error .notFound
  | .job _ _ => .error .api
  | .takeInVM _ _ => .error .other
  | .mergeInVM _ _ _ => .error .other

theorem answers_answersWith {ready : Bool} (q : Query) :
    PoolProtocol.answers q (answersWith ready q) := by
  cases q with
  | getPool n =>
    intro p hp
    cases hp
    rfl
  | getSubVolume n => exact fun v hv => name_of_volumeNamed hv
  | awaitShare id =>
    intro info hinfo
    cases hinfo
    rfl
  | getSnapshot n | createSnapshot s | sharesByName n | getShare id =>
    intro x hx
    cases hx
  | _ => trivial

/-- The notes tell of a share that was made and that no written pool has. -/
def leftOut (l : Seen) : Bool := l.made.isSome && !l.stored

/-- A share that is not ready is not stored by a clone, and a ready one is not stored by a new
volume whose record is refused. -/
theorem new_share_left_out :
    ¬ Follows noting ((Maker.cloneVolume (some ['v']) (plainRequest ['w'] ['p'] [] 1)).call
        plainConfig) (fun _ l => l.made ≠ none → l.stored = true) nothingSeen ∧
      ¬ Follows noting ((Maker.allocate (plainRequest ['w'] ['p'] [] 1)).call plainConfig)
        (fun _ l => l.made ≠ none → l.stored = true) nothingSeen := by
  have hclone : leftOut (notesOf (answersWith false) ((Maker.cloneVolume (some ['v'])
      (plainRequest ['w'] ['p'] [] 1)).call plainConfig) nothingSeen) = true := by
    decide +kernel
  have hallocate : leftOut (notesOf (answersWith true) ((Maker.allocate
      (plainRequest ['w'] ['p'] [] 1)).call plainConfig) nothingSeen) = true := by
    decide +kernel
  have hnot {l : Seen} (h : leftOut l = true) : ¬ (l.made ≠ none → l.stored = true) := by
    obtain ⟨hmade, hstored⟩ : l.made.isSome = true ∧ l.stored = false := by
      simpa [leftOut] using h
    intro himp
    have hne : l.made ≠ none := Option.isSome_iff_ne_none.mp hmade
    simp [himp hne] at hstored
  exact ⟨fun h => hnot hclone (follows_notesOf answers_answersWith h),
    fun h => hnot hallocate (follows_notesOf answers_answersWith h)⟩

end Samples

end FilePool.StoredShares
