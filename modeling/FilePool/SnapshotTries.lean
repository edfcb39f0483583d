import FilePool.VMSnapshots

/-!
The runs of the VM snapshot loop. The Job and the image of a snapshot are found by the name of
the snapshot, not by the copy. So as long as a try begins without a Job and an image of an
earlier one, both are of the copy that the status names, and a ready snapshot shows its own
disk in that copy. Which staging files are released, and which status writes fail, does not
matter for it.
-/
namespace FilePool.VMSnapshots

open UndoNames StepRuns Function Option

variable {s s' : State} {n : Name} {o p : Snapshot} {c id : Name} {f g : Name → Option Copy}
  {st : VMCopyState} {j : ApplyJob} {k : Calls} {disks : List Name} {moment : ℤ}
  {saved removed : Bool}

/-- What is known of a copy stays known. -/
def Grows (f g : Name → Option Copy) : Prop :=
  ∀ c x, f c = some x → ∃ y, g c = some y ∧ y.moment = x.moment ∧ y.disks = x.disks ∧
    (x.finished = true → y.finished = true)

/-- A snapshot tells the truth about the copies that it names. -/
structure Traced (copies : Name → Option Copy) (o : Snapshot) : Prop where
  copy : ∀ st, o.copy = some st → o.copyID = some st.id ∧ ∃ x, copies st.id = some x ∧
    x.moment = st.moment ∧ o.source ∈ x.disks ∧ (st.sending = true → x.finished = true)
  set : ∀ t, o.set = some t → ∃ x, copies t.id = some x ∧ x.moment = t.moment ∧
    x.disks = t.disks
  ready : o.ready = true → ∃ c x, o.copyID = some c ∧ copies c = some x ∧
    o.restorePoint = some x.moment ∧ o.source ∈ x.disks ∧ x.finished = true

/-- The Job and the image of a snapshot are of its try, and the Job was started when the copy
had ended. A ready snapshot has the image, and no Job changes it. -/
structure Mine (copies : Name → Option Copy) (own : Option ApplyJob) (disk : Option Image)
    (o : Snapshot) : Prop where
  job : ∀ st j, o.copy = some st → own = some j → j.copy = st.id ∧ j.disk = o.source ∧
    (∃ x, copies st.id = some x ∧ x.finished = true) ∧ (j.phase = .succeeded → disk ≠ none)
  image : ∀ st i, o.copy = some st → disk = some i → i = ⟨st.id, o.source, true⟩
  ready : o.ready = true → o.copy = none ∧ ∃ c, o.copyID = some c ∧
    disk = some ⟨c, o.source, true⟩ ∧ ∀ j, own = some j → j.phase ≠ .running

structure Kept (s : State) : Prop where
  seen : ∀ n o, s.seen n = some o → Traced s.copies o
  traced : ∀ n o, s.snaps n = some o → Traced s.copies o
  done : ∀ c x, s.copies c = some x → x.qemu = some .done → x.finished = true
  mine : ∀ n o, s.snaps n = some o → o.deleting = false →
    Mine s.copies (s.jobs n) (s.folder n) o

/-- A try begins only when no apply Job and no disk image of an earlier try of the snapshot is
left, and a copy has a new id. -/
def Fitting (s : State) : Event → Prop
  | .start n _ _ id _ _ _ _ => s.jobs n = none ∧ s.folder n = none ∧ s.copies id = none
  | .join n _ _ _ => s.jobs n = none ∧ s.folder n = none
  | _ => True

instance (s : State) (e : Event) : Decidable (Fitting s e) := by
  cases e
  all_goals
    unfold Fitting
    infer_instance

theorem Traced.grow (h : Traced f o) (hgrow : Grows f g) : Traced g o := by
  refine ⟨fun st hst => ?_, fun t ht => ?_, fun hr => ?_⟩
  · obtain ⟨hid, x, hx, hm, hd, hf⟩ := h.copy st hst
    obtain ⟨y, hy, hym, hyd, hyf⟩ := hgrow _ x hx
    exact ⟨hid, y, hy, hym.trans hm, hyd ▸ hd, fun hs => hyf (hf hs)⟩
  · obtain ⟨x, hx, hm, hd⟩ := h.set t ht
    obtain ⟨y, hy, hym, hyd, _⟩ := hgrow _ x hx
    exact ⟨y, hy, hym.trans hm, hyd.trans hd⟩
  · obtain ⟨c, x, hid, hx, hm, hd, hf⟩ := h.ready hr
    obtain ⟨y, hy, hym, hyd, hyf⟩ := hgrow _ x hx
    exact ⟨c, y, hid, hy, hym ▸ hm, hyd ▸ hd, hyf hf⟩

theorem Kept.grow (h : Kept s) (hgrow : Grows s.copies g)
    (hdone : ∀ c x, g c = some x → x.qemu = some .done → x.finished = true) :
    Kept { s with copies := g } := by
  refine ⟨fun m p hp => (h.seen m p hp).grow hgrow, fun m p hp => (h.traced m p hp).grow hgrow,
    hdone, fun m p hp hdel => ?_⟩
  obtain ⟨hjob, himage, hready⟩ := h.mine m p hp hdel
  refine ⟨fun st j hst hj => ?_, himage, hready⟩
  obtain ⟨hc, hd, ⟨x, hx, hfin⟩, hsucc⟩ := hjob st j hst hj
  obtain ⟨y, hy, _, _, hkeep⟩ := hgrow _ x hx
  exact ⟨hc, hd, ⟨y, hy, hkeep hfin⟩, hsucc⟩

/-- The staging files do not matter. -/
theorem Kept.cleared (h : Kept s) {gone : Name → Name → Bool} : Kept (clear gone s) := { h with }

/-- The status of a snapshot is written, or only remembered. -/
theorem Kept.stored (h : Kept s) (htraced : Traced s.copies o)
    (hmine : saved = true → o.deleting = false → Mine s.copies (s.jobs n) (s.folder n) o) :
    Kept (store n o saved s) := by
  have hseen (m : Name) (p : Snapshot) (hp : update s.seen n (some o) m = some p) :
      Traced s.copies p := by
    rcases update_some hp with ⟨rfl, rfl⟩ | ⟨_, hold⟩
    · exact htraced
    · exact h.seen m p hold
  cases saved with
  | false => exact { h with seen := hseen }
  | true =>
    refine ⟨hseen, fun m p hp => ?_, h.done, fun m p hp hdel => ?_⟩
    · rcases update_some hp with ⟨rfl, rfl⟩ | ⟨_, hold⟩
      · exact htraced
      · exact h.traced m p hold
    · rcases update_some hp with ⟨rfl, rfl⟩ | ⟨_, hold⟩
      · exact hmine rfl hdel
      · exact h.mine m p hold hdel

/-- A copy is started, or more is known of it. -/
theorem Kept.setCopy (h : Kept s) {y : Copy}
    (hsame : ∀ x, s.copies c = some x → y.moment = x.moment ∧ y.disks = x.disks ∧
      (x.finished = true → y.finished = true))
    (hdone : y.qemu = some .done → y.finished = true) :
    Kept { s with copies := update s.copies c (some y) } := by
  refine h.grow (fun c' x hx => ?_) (fun c' x hx => ?_)
  · by_cases hc : c' = c
    · subst hc
      exact ⟨y, update_self _ _ _, hsame x hx⟩
    · exact ⟨x, by rwa [update_of_ne hc], rfl, rfl, fun hfin => hfin⟩
  · rcases update_some hx with ⟨_, rfl⟩ | ⟨_, hold⟩
    · exact hdone
    · exact h.done c' x hold

theorem Kept.forgotten (h : Kept s) (id : Name) : Kept (forget id s) := by
  unfold forget
  cases hid : s.copies id with
  | none =>
    rw [Option.map_none, ← hid, update_eq_self]
    exact h
  | some x =>
    refine h.setCopy (fun y hy => ?_) nofun
    cases hid.symm.trans hy
    exact ⟨rfl, rfl, fun hfin => hfin⟩

theorem Kept.cancelled (h : Kept s) : Kept (cancelCopy st s) := h.cleared.forgotten st.id

theorem Kept.setJob (h : Kept s) {job : Option ApplyJob}
    (hmine : ∀ p, s.snaps n = some p → p.deleting = false → Mine s.copies job (s.folder n) p) :
    Kept { s with jobs := update s.jobs n job } := by
  refine { h with mine := fun m p hp hdel => ?_ }
  by_cases hmn : m = n
  · subst hmn
    simpa only [update_self] using hmine p hp hdel
  · simpa only [update_of_ne hmn] using h.mine m p hp hdel

theorem Kept.setImage (h : Kept s) {image : Option Image}
    (hmine : ∀ p, s.snaps n = some p → p.deleting = false → Mine s.copies (s.jobs n) image p) :
    Kept { s with folder := update s.folder n image } := by
  refine { h with mine := fun m p hp hdel => ?_ }
  by_cases hmn : m = n
  · subst hmn
    simpa only [update_self] using hmine p hp hdel
  · simpa only [update_of_ne hmn] using h.mine m p hp hdel

theorem Kept.cleanedUp (h : Kept s) (cleaned : Bool) : Kept (cleanup n cleaned s) := by
  cases cleaned with
  | false => exact h
  | true =>
    refine h.setJob (fun p hp hdel => ⟨fun _ _ _ => nofun, (h.mine n p hp hdel).image,
      fun hready => ?_⟩)
    obtain ⟨hcopy, c, hid, hfolder, _⟩ := (h.mine n p hp hdel).ready hready
    exact ⟨hcopy, c, hid, hfolder, nofun⟩

theorem Kept.released (h : Kept s) {source : Name} {released : Bool} :
    Kept (releaseVMSnapshotCopy st source released s) := by
  unfold releaseVMSnapshotCopy
  split
  · exact h.cleared
  · exact h

theorem release_same {source : Name} {released : Bool} :
    (releaseVMSnapshotCopy st source released s).copies = s.copies ∧
      (releaseVMSnapshotCopy st source released s).jobs = s.jobs ∧
      (releaseVMSnapshotCopy st source released s).folder = s.folder := by
  unfold releaseVMSnapshotCopy
  split
  · exact ⟨rfl, rfl, rfl⟩
  · exact ⟨rfl, rfl, rfl⟩

/-- A try is over: the snapshot names no copy, so its Job and image may be of any kind. -/
theorem Kept.storeFailed (h : Kept s) (hset : ∀ t, p.set = some t → ∃ x, s.copies t.id = some x ∧
      x.moment = t.moment ∧ x.disks = t.disks)
    (hready : p.ready = false) (hcopy : p.copy = none) : Kept (store n p saved s) := by
  refine h.stored ⟨fun _ hst => absent hcopy hst, hset, fun hr => opposed hr hready⟩
    (fun _ _ => ⟨fun _ _ hst => ?_, fun _ _ hst => ?_, fun hr => ?_⟩)
  · exact absent hcopy hst
  · exact absent hcopy hst
  · exact opposed hr hready

/-- The status that a step acts on: the saved one, or the one that it could not save, which
differs in the phase. -/
structure Acts (s : State) (n : Name) (st : VMCopyState) (o : Snapshot) : Prop where
  saved : ∃ p st', s.snaps n = some p ∧ p.deleting = false ∧ p.ready = false ∧
    p.copy = some st' ∧ st'.id = st.id ∧ p.source = o.source
  traced : Traced s.copies o
  copy : o.copy = some st
  sending : st.sending = true
  ready : o.ready = false

theorem Kept.startJob (h : Kept s) (hacts : Acts s n st o) :
    Kept { s with jobs := update s.jobs n (some ⟨st.id, o.source, .running⟩) } := by
  obtain ⟨p, st', hp, hdel, hready, hst', hid, hsource⟩ := hacts.saved
  obtain ⟨_, x, hx, _, _, hfin⟩ := hacts.traced.copy st hacts.copy
  refine h.setJob (fun q hq _ => ?_)
  cases hp.symm.trans hq
  refine ⟨fun st₁ j hst₁ hj => ?_, (h.mine n p hp hdel).image, fun hr => opposed hr hready⟩
  cases hst'.symm.trans hst₁
  cases hj
  exact ⟨hid.symm, hsource.symm, ⟨x, hid ▸ hx, hfin hacts.sending⟩, nofun⟩

/-- The Job has ended well: the image shows the copy of the try. -/
theorem Kept.job_done (h : Kept s) (hacts : Acts s n st o)
    (hj : s.jobs n = some j) (hphase : j.phase = .succeeded) :
    s.folder n = some ⟨st.id, o.source, true⟩ := by
  obtain ⟨p, st', hp, hdel, _, hst', hid, hsource⟩ := hacts.saved
  have hmine := h.mine n p hp hdel
  obtain ⟨i, hi⟩ := ne_none_iff_exists'.mp ((hmine.job st' j hst' hj).2.2.2 hphase)
  rw [hi, hmine.image st' i hst' hi, hid, hsource]

theorem Traced.madeReady (h : Traced f o) (hcopy : o.copy = some st)
    (hsending : st.sending = true) : Traced f (markReady st o) := by
  obtain ⟨hid, x, hx, hm, hd, hfin⟩ := h.copy st hcopy
  exact ⟨nofun, h.set, fun _ => ⟨st.id, x, hid, hx, congrArg some hm.symm, hd, hfin hsending⟩⟩

theorem Kept.apply (h : Kept s) (hacts : Acts s n st o) :
    Kept (watchVMSnapshotApply n st k o s) := by
  unfold watchVMSnapshotApply
  split
  · exact h
  split
  · split
    · exact h.startJob hacts
    · exact h
  · rename_i j hj
    have hleft : Kept (releaseVMSnapshotCopy st o.source k.released (cleanup n k.cleaned s)) :=
      (h.cleanedUp k.cleaned).released
    obtain ⟨hcopies, hjobs, hfolders⟩ := @release_same
      (cleanup n k.cleaned s) st o.source k.released
    have hsame : (cleanup n k.cleaned s).copies = s.copies ∧
        (cleanup n k.cleaned s).folder = s.folder := by
      cases k.cleaned <;> exact ⟨rfl, rfl⟩
    rw [hsame.1] at hcopies
    rw [hsame.2] at hfolders
    split
    · exact h
    · exact hleft.storeFailed (hcopies ▸ hacts.traced.set) hacts.ready rfl
    · rename_i hphase
      have hoid := (hacts.traced.copy st hacts.copy).1
      have hdisk := h.job_done hacts hj hphase
      refine hleft.stored (hcopies ▸ hacts.traced.madeReady hacts.copy hacts.sending)
        (fun _ _ => ⟨nofun, nofun, fun _ => ⟨rfl, st.id, hoid, ?_, fun j' hj' => ?_⟩⟩)
      · rw [hfolders]
        exact hdisk
      · rw [hjobs] at hj'
        have hold : s.jobs n = some j' := by
          cases hc : k.cleaned with
          | false => simpa [cleanup, hc] using hj'
          | true => simp [cleanup, hc] at hj'
        cases hj.symm.trans hold
        rw [hphase]
        exact nofun

theorem Kept.sent (h : Kept s) {sent : Bool} (hn : s.snaps n = some o)
    (hdel : o.deleting = false) (hready : o.ready = false) (hcopy : o.copy = some st)
    (hfin : ∃ x, s.copies st.id = some x ∧ x.finished = true) :
    Kept (send n st sent k o s) := by
  have htraced := h.traced n o hn
  obtain ⟨hid, x, hx, hm, hd, _⟩ := htraced.copy st hcopy
  obtain ⟨y, hy, hyfin⟩ := hfin
  cases hx.symm.trans hy
  have hmine := h.mine n o hn hdel
  have htraced' : Traced s.copies { o with copy := some { st with sending := true } } := by
    refine ⟨fun st' hst' => ?_, htraced.set, fun hr => opposed hr hready⟩
    cases hst'
    exact ⟨hid, x, hx, hm, hd, fun _ => hyfin⟩
  refine Kept.apply (h.stored htraced' (fun _ _ => ?_)) ⟨?_, htraced', rfl, rfl, hready⟩
  · refine ⟨fun st' j hst' hj => ?_, fun st' i hst' hi => ?_, fun hr => opposed hr hready⟩
    · cases hst'
      exact hmine.job st j hcopy hj
    · cases hst'
      exact hmine.image st i hcopy hi
  · cases sent with
    | true =>
      exact ⟨{ o with copy := some { st with sending := true } }, { st with sending := true },
        by simp only [store, if_true, update_self], hdel, hready, rfl, rfl, rfl⟩
    | false => exact ⟨o, st, hn, hdel, hready, hcopy, rfl, rfl⟩

theorem needsVMStep_iff : needsVMStep o = true ↔
    o.deleting = false ∧ o.ready = false ∧ o.failed = false := by
  simp [needsVMStep, and_assoc]

/-- A snapshot enters a copy, its own or that of another one, with nothing left of a try. -/
theorem Kept.entered (h : Kept s) (htraced : Traced s.copies o) (hready : o.ready = false)
    (hjob : s.jobs n = none) (hfolder : s.folder n = none) : Kept (store n o saved s) :=
  h.stored htraced (fun _ _ => ⟨fun _ _ _ hj => absent hjob hj, fun _ _ _ hi => absent hfolder hi,
    fun hr => opposed hr hready⟩)

theorem Kept.copyStarted (h : Kept s) {pod : Name} (hfresh : s.copies id = none) :
    Kept (startCopy pod disks id moment s) := by
  have hgrown : Kept { s with copies := (startCopy pod disks id moment s).copies } :=
    h.setCopy (fun x hx => absent hfresh hx) nofun
  exact { hgrown with }

theorem started_traced {vm pod : Name} (hready : o.ready = false) (hsource : o.source ∈ disks) :
    Traced (startCopy pod disks id moment s).copies
      (started vm pod disks id moment s.now o) := by
  have hx : (startCopy pod disks id moment s).copies id =
      some ⟨pod, moment, disks, some .running, false⟩ := by
    simp only [startCopy, update_self]
  refine ⟨fun st hst => ?_, fun t ht => ?_, fun hr => opposed hr hready⟩
  · cases hst
    exact ⟨rfl, _, hx, rfl, hsource, nofun⟩
  · obtain ⟨-, rfl⟩ := when_some ht
    exact ⟨_, hx, rfl, rfl⟩

theorem Kept.start (h : Kept s) {vm : Name} {made cancelled : Bool} (hjob : s.jobs n = none)
    (hfolder : s.folder n = none) (hfresh : s.copies id = none)
    (hstep : startVMSnapshotCopy n vm disks id moment made saved cancelled s = some s') :
    Kept s' := by
  obtain ⟨o, ho, hstep⟩ := bind_eq_some_iff.mp hstep
  obtain ⟨pod, hpod, hstep⟩ := bind_eq_some_iff.mp hstep
  obtain ⟨hcond, hstep⟩ := ite_none_left_eq_some.mp hstep
  simp only [Bool.or_eq_true, Bool.not_eq_true', not_or, Bool.not_eq_false] at hcond
  obtain ⟨⟨⟨hneeds, _⟩, _⟩, hsource⟩ := hcond
  obtain ⟨_, hready, _⟩ := needsVMStep_iff.mp hneeds
  have hclean : Kept (clear (fun _ d => disks.contains d) s) := h.cleared
  have hentered : Kept (store n (started vm pod disks id moment s.now o) saved
      (startCopy pod disks id moment (clear (fun _ d => disks.contains d) s))) :=
    (hclean.copyStarted hfresh).entered (started_traced hready (by simpa using hsource)) hready
      hjob hfolder
  split at hstep
  · cases hstep
    exact hclean.storeFailed (h.traced n o ho).set hready rfl
  split at hstep
  · cases hstep
    exact hentered
  · cases hstep
    exact hentered.cleared.forgotten id

/-- The owner of a copy sends its own disk or is ready, so QEMU has ended the copy. -/
theorem Traced.leader_done {l : Snapshot} (h : Traced f l)
    (hof : (l.copy.any (fun st => st.id = c) || (l.copy.isNone && l.ready && l.copyID = some c)) =
      true) (hsends : ∀ st, l.copy = some st → st.id = c → st.sending = true) :
    ∃ x, f c = some x ∧ x.finished = true := by
  cases hlc : l.copy with
  | some st =>
    have hid : st.id = c := by simpa [hlc] using hof
    obtain ⟨_, x, hx, _, _, hfin⟩ := h.copy st hlc
    exact ⟨x, hid ▸ hx, hfin (hsends st hlc hid)⟩
  | none =>
    obtain ⟨hr, hid⟩ : l.ready = true ∧ l.copyID = some c := by simpa [hlc] using hof
    obtain ⟨c', x, hc, hx, _, _, hfin⟩ := h.ready hr
    cases hc.symm.trans hid
    exact ⟨x, hx, hfin⟩

theorem joined_traced {leader : Name} {l : Snapshot} {t : VMCopySet} (h : Traced f o)
    (hl : Traced f l) (hset : l.set = some t) (hready : o.ready = false)
    (hsource : o.source ∈ t.disks) (hjoin : joinable l t = true) :
    Traced f (joined leader l t o) := by
  obtain ⟨x, hx, hm, hd⟩ := hl.set t hset
  refine ⟨fun st hst => ?_, h.set, fun hr => opposed hr hready⟩
  cases hst
  refine ⟨rfl, x, hx, hm, hd ▸ hsource, fun hsend => ?_⟩
  obtain ⟨y, hy, hfin⟩ := hl.leader_done hjoin (fun st hst _ => by simpa [hst] using hsend)
  cases hx.symm.trans hy
  exact hfin

theorem Kept.join (h : Kept s) {leader : Name} {claimed : Bool}
    (hjob : s.jobs n = none) (hfolder : s.folder n = none)
    (hstep : joinVMCopySet n leader claimed saved s = some s') : Kept s' := by
  obtain ⟨o, ho, hstep⟩ := bind_eq_some_iff.mp hstep
  obtain ⟨l, hl, hstep⟩ := bind_eq_some_iff.mp hstep
  obtain ⟨t, ht, hstep⟩ := bind_eq_some_iff.mp hstep
  obtain ⟨hcond, rfl⟩ := unless_some hstep
  simp only [Bool.or_eq_true, Bool.not_eq_true', not_or, Bool.not_eq_false] at hcond
  obtain ⟨⟨⟨⟨⟨⟨⟨⟨hneeds, _⟩, _⟩, _⟩, _⟩, _⟩, _⟩, hsource⟩, hjoin⟩ := hcond
  obtain ⟨_, hready, _⟩ := needsVMStep_iff.mp hneeds
  exact h.entered
    (joined_traced (h.traced n o ho) (h.seen leader l hl) ht hready (by simpa using hsource) hjoin)
    hready hjob hfolder

theorem Kept.watch (h : Kept s) {cancel sent : Bool}
    (hstep : watchVMSnapshotCopy n cancel removed sent saved k s = some s') : Kept s' := by
  obtain ⟨o, ho, hstep⟩ := bind_eq_some_iff.mp hstep
  obtain ⟨st, hst, hstep⟩ := bind_eq_some_iff.mp hstep
  obtain ⟨hcond, hstep⟩ := ite_none_left_eq_some.mp hstep
  simp only [Bool.or_eq_true, Bool.not_eq_true', not_or, Bool.not_eq_false] at hcond
  obtain ⟨hdel, hready, _⟩ := needsVMStep_iff.mp hcond.1.1
  have hended {x : State} (hx : Kept x) : Kept (store n { tryFailed o with set := none } saved x) :=
    hx.storeFailed nofun hready rfl
  split at hstep
  · cases hstep
    exact hended h
  split at hstep
  · obtain ⟨-, rfl⟩ := when_some hstep
    exact hended h.cancelled
  split at hstep
  · cases hstep
  · rename_i hdone
    obtain ⟨-, rfl⟩ := when_some hstep
    obtain ⟨x, hx, hqemu⟩ := bind_eq_some_iff.mp hdone
    refine (h.forgotten st.id).sent ho hdel hready hst ⟨{ x with qemu := none }, ?_,
      h.done st.id x hx hqemu⟩
    simp [forget, hx]
  · cases hstep
    split
    · exact hended h.cancelled
    · exact hended h

theorem Kept.follow (h : Kept s) {sent : Bool}
    (hstep : watchJoinedVMSnapshot n sent saved k s = some s') : Kept s' := by
  obtain ⟨o, ho, hstep⟩ := bind_eq_some_iff.mp hstep
  obtain ⟨st, hst, hstep⟩ := bind_eq_some_iff.mp hstep
  obtain ⟨leader, _, hstep⟩ := bind_eq_some_iff.mp hstep
  obtain ⟨hcond, hstep⟩ := ite_none_left_eq_some.mp hstep
  simp only [Bool.or_eq_true, Bool.not_eq_true', not_or, Bool.not_eq_false] at hcond
  obtain ⟨hdel, hready, _⟩ := needsVMStep_iff.mp hcond.1
  have hover : Kept (store n (tryFailed o) saved s) :=
    h.storeFailed (h.traced n o ho).set hready rfl
  split at hstep
  · cases hstep
    exact hover
  · rename_i l hl
    split at hstep
    · cases hstep
    split at hstep
    · rename_i hnot hdone
      cases hstep
      refine h.sent ho hdel hready hst
        ((h.traced leader l hl).leader_done hdone (fun lc hlc hid => ?_))
      simpa [hlc, hid] using hnot
    · cases hstep
      exact hover

theorem Kept.applyStep (h : Kept s) (hstep : watchSent n k s = some s') : Kept s' := by
  obtain ⟨o, ho, hstep⟩ := bind_eq_some_iff.mp hstep
  obtain ⟨st, hst, hstep⟩ := bind_eq_some_iff.mp hstep
  obtain ⟨hcond, rfl⟩ := unless_some hstep
  simp only [Bool.or_eq_true, Bool.not_eq_true', not_or, Bool.not_eq_false] at hcond
  obtain ⟨hdel, hready, _⟩ := needsVMStep_iff.mp hcond.1
  exact h.apply ⟨⟨o, st, ho, hdel, hready, hst, rfl, rfl⟩, h.traced n o ho, hst, hcond.2, hready⟩

theorem Kept.unclaimed (h : Kept s) {t : VMCopySet} {other : Option Name} :
    Kept (releaseUnclaimedDisks t other removed s) := by
  unfold releaseUnclaimedDisks
  split
  · exact h.cleared
  · exact h

theorem releaseUnclaimedDisks_same {t : VMCopySet} {other : Option Name} :
    (releaseUnclaimedDisks t other removed s).copies = s.copies ∧
      (releaseUnclaimedDisks t other removed s).jobs = s.jobs ∧
      (releaseUnclaimedDisks t other removed s).folder = s.folder := by
  unfold releaseUnclaimedDisks
  split
  · exact ⟨rfl, rfl, rfl⟩
  · exact ⟨rfl, rfl, rfl⟩

theorem Kept.releaseSet (h : Kept s)
    (hstep : releaseExpiredCopySet n removed saved s = some s') : Kept s' := by
  obtain ⟨o, ho, hstep⟩ := bind_eq_some_iff.mp hstep
  obtain ⟨t, _, hstep⟩ := bind_eq_some_iff.mp hstep
  obtain ⟨_, rfl⟩ := unless_some hstep
  obtain ⟨hcopies, hjobs, hfolders⟩ := @releaseUnclaimedDisks_same s removed t none
  refine h.unclaimed.stored ?_ (fun _ hdel => ?_)
  · rw [hcopies]
    exact { h.traced n o ho with set := nofun }
  · rw [hcopies, hjobs, hfolders]
    exact { h.mine n o ho hdel with }

theorem Kept.leftCopy (h : Kept s) : Kept (leaveCopy o s) := by
  unfold leaveCopy
  split
  · exact h
  split
  · exact h
  split
  · exact h.cleared
  split
  · exact h
  · exact h.cancelled

theorem Kept.leftSet (h : Kept s) : Kept (leaveSet n o s) := by
  unfold leaveSet
  split
  · exact h
  split
  · exact h
  · exact h.unclaimed

theorem leave_snaps : (leaveSet n o (leaveCopy o s)).snaps = s.snaps := by
  have hcopy : (leaveCopy o s).snaps = s.snaps := by
    unfold leaveCopy
    repeat' split
    all_goals rfl
  unfold leaveSet releaseUnclaimedDisks
  repeat' split
  all_goals exact hcopy

theorem Kept.delete (h : Kept s) {cancelled : Bool}
    (hstep : cancelVMSnapshotForDelete n cancelled saved s = some s') : Kept s' := by
  obtain ⟨o, ho, rfl⟩ := map_eq_some_iff.mp hstep
  have hmarked : Kept (store n { o with deleting := true } true s) :=
    h.stored { h.traced n o ho with } (fun _ => nofun)
  split
  · exact hmarked
  · have hleft : Kept (leaveSet n o (leaveCopy o (store n { o with deleting := true } true s))) :=
      hmarked.leftCopy.leftSet
    have hn : (leaveSet n o (leaveCopy o (store n { o with deleting := true } true s))).snaps n =
        some { o with deleting := true } := by
      rw [leave_snaps]
      simp only [store, if_true, update_self]
    exact hleft.stored ⟨nofun, nofun, (hleft.traced n _ hn).ready⟩ (fun _ => nofun)

theorem runningJob_some (h : runningJob s n = some j) :
    s.jobs n = some j ∧ j.phase = .running := by
  obtain ⟨hj, hphase⟩ := filter_eq_some_iff.mp h
  exact ⟨hj, by simpa using hphase⟩

/-- A Job that runs is not that of a ready snapshot, and it may change the image. -/
theorem Kept.imageChanged (h : Kept s) (hj : runningJob s n = some j) {image : Option Image}
    (himage : ∀ p st i, s.snaps n = some p → p.deleting = false → p.copy = some st →
      image = some i → i = ⟨st.id, p.source, true⟩) :
    Kept { s with folder := update s.folder n image } := by
  obtain ⟨hown, hphase⟩ := runningJob_some hj
  refine h.setImage (fun p hp hdel => ?_)
  have hmine := h.mine n p hp hdel
  refine ⟨fun st j' hst hj' => ?_, fun st i => himage p st i hp hdel, fun hr => ?_⟩
  · obtain ⟨hc, hd, hfin, _⟩ := hmine.job st j' hst hj'
    cases hown.symm.trans hj'
    exact ⟨hc, hd, hfin, fun hsucc => absurd (hphase.symm.trans hsucc) nofun⟩
  · obtain ⟨_, _, _, _, hjobs⟩ := hmine.ready hr
    exact absurd hphase (hjobs j hown)

theorem Kept.applied (h : Kept s) (hj : runningJob s n = some j) : Kept (makeImage n j s) := by
  obtain ⟨hown, _⟩ := runningJob_some hj
  refine h.imageChanged hj (fun p st i hp hdel hst hi => ?_)
  -- the Job was started for a copy that had ended, so the image is whole
  obtain ⟨hc, hd, ⟨x, hx, hfin⟩, _⟩ := (h.mine n p hp hdel).job st j hst hown
  cases hi
  simp [hc, hd, hx, hfin]

theorem Kept.jobEnds (h : Kept s) {ok : Bool} (hj : runningJob s n = some j)
    (hok : ¬ (ok && (s.staging j.copy j.disk || (s.folder n).isNone)) = true) :
    Kept (endJob n j ok s) := by
  obtain ⟨hown, hphase⟩ := runningJob_some hj
  refine h.setJob (fun p hp hdel => ?_)
  have hmine := h.mine n p hp hdel
  refine ⟨fun st j' hst hj' => ?_, hmine.image, fun hr => ?_⟩
  · obtain ⟨hc, hd, hfin, _⟩ := hmine.job st j hst hown
    cases hj'
    refine ⟨hc, hd, hfin, fun hsucc => ?_⟩
    cases ok with
    | false => cases hsucc
    | true =>
      intro hnone
      simp [hnone] at hok
  · obtain ⟨_, _, _, _, hjobs⟩ := hmine.ready hr
    exact absurd hphase (hjobs j hown)

theorem Kept.qemuEnds (h : Kept s) {x : Copy} {ok : Bool} (hx : s.copies c = some x) :
    Kept (endCopy c x ok s) := by
  refine h.setCopy (fun y hy => ?_) (fun hdone => ?_)
  · cases hx.symm.trans hy
    exact ⟨rfl, rfl, fun hfin => by simp [hfin]⟩
  · cases ok
    · cases hdone
    · simp

theorem losePod_same {old : Option Name} {x : Copy} :
    (losePod old x).moment = x.moment ∧ (losePod old x).disks = x.disks ∧
      (losePod old x).finished = x.finished ∧
      ((losePod old x).qemu = some .done → x.qemu = some .done) := by
  unfold losePod
  split
  · exact ⟨rfl, rfl, rfl, nofun⟩
  · exact ⟨rfl, rfl, rfl, fun hdone => hdone⟩

theorem Kept.podReplaced (h : Kept s) (vm : Name) (pod : Option Name) :
    Kept { s with
      pods := update s.pods vm pod
      copies := fun c => (s.copies c).map (losePod (s.pods vm)) } := by
  have hgrown : Kept { s with copies := fun c => (s.copies c).map (losePod (s.pods vm)) } := by
    refine h.grow (fun c x hx => ?_) (fun c y hy hdone => ?_)
    · obtain ⟨hm, hd, hfin, _⟩ := losePod_same
      exact ⟨losePod (s.pods vm) x, by rw [hx]; rfl, hm, hd, fun hx' => hfin.trans hx'⟩
    · obtain ⟨x, hx, rfl⟩ := map_eq_some_iff.mp hy
      obtain ⟨_, _, hfin, hqemu⟩ := losePod_same
      exact hfin.trans (h.done c x hx (hqemu hdone))
  exact { hgrown with }

theorem Kept.created (h : Kept s) (source : Name) :
    Kept { s with
      snaps := update s.snaps n (some ⟨source, false, false, false, none, none, none, none, 0⟩)
      names := n :: s.names } := by
  have hstored := @Kept.storeFailed _ n ⟨source, false, false, false, none, none, none, none, 0⟩
    true h nofun rfl rfl
  exact { hstored with seen := h.seen }

/-- A snapshot that is marked for its delete may lose all that it has. -/
theorem marked_some (hmarked : marked s n = true) :
    ∀ p, s.snaps n = some p → p.deleting = false → False := by
  intro p hp hdel
  simp [marked, hp, hdel] at hmarked

theorem step_kept (s : State) (e : Event) (s' : State) (hfit : Fitting s e) (h : Kept s)
    (hstep : step s e = some s') : Kept s' := by
  cases e with
  | tick d =>
    cases hstep
    exact { h with }
  | create n source =>
    obtain ⟨_, rfl⟩ := unless_some hstep
    exact h.created source
  | beginPass =>
    cases hstep
    exact { h with seen := h.traced }
  | start n vm disks id moment made saved cancelled =>
    exact h.start hfit.1 hfit.2.1 hfit.2.2 hstep
  | join n leader claimed saved => exact h.join hfit.1 hfit.2 hstep
  | watch n cancel removed sent saved k => exact h.watch hstep
  | follow n sent saved k => exact h.follow hstep
  | apply n k => exact h.applyStep hstep
  | release n removed saved => exact h.releaseSet hstep
  | delete n cancelled saved => exact h.delete hstep
  | stopJob n =>
    obtain ⟨hmarked, rfl⟩ := when_some hstep
    exact h.setJob (fun p hp hdel => (marked_some hmarked p hp hdel).elim)
  | removeFolder n =>
    obtain ⟨hcond, rfl⟩ := when_some hstep
    simp only [Bool.and_eq_true] at hcond
    exact h.setImage (fun p hp hdel => (marked_some hcond.1 p hp hdel).elim)
  | removeRecord n =>
    obtain ⟨_, rfl⟩ := when_some hstep
    exact { h with
      traced := fun m p hp => h.traced m p (update_none_some hp).2
      mine := fun m p hp => h.mine m p (update_none_some hp).2 }
  | replacePod vm pod =>
    cases hstep
    exact h.podReplaced vm pod
  | qemuEnds c ok =>
    obtain ⟨x, hx, hstep⟩ := bind_eq_some_iff.mp hstep
    obtain ⟨_, rfl⟩ := unless_some hstep
    exact h.qemuEnds hx
  | jobClears n =>
    obtain ⟨j, hj, hstep⟩ := bind_eq_some_iff.mp hstep
    obtain ⟨_, rfl⟩ := when_some hstep
    exact h.imageChanged hj (fun _ _ _ _ _ _ => nofun)
  | jobApplies n removed =>
    obtain ⟨j, hj, hstep⟩ := bind_eq_some_iff.mp hstep
    obtain ⟨_, rfl⟩ := when_some hstep
    split
    · exact (h.applied hj).cleared
    · exact h.applied hj
  | jobEnds n ok =>
    obtain ⟨j, hj, hstep⟩ := bind_eq_some_iff.mp hstep
    obtain ⟨hok, rfl⟩ := unless_some hstep
    exact h.jobEnds hj hok

/-- There are no snapshots and no copies. -/
structure Empty (s : State) : Prop where
  snaps : ∀ n, s.snaps n = none
  seen : ∀ n, s.seen n = none
  copies : ∀ c, s.copies c = none

theorem Empty.kept (h : Empty s) : Kept s :=
  ⟨fun n _ hn => absent (h.seen n) hn, fun n _ hn => absent (h.snaps n) hn,
    fun c _ hc => absent (h.copies c) hc, fun n _ hn => absent (h.snaps n) hn⟩

/-- The image of the snapshot is the whole content of its own disk in the copy that it names,
which covers the disk, and the restore point is the moment of that copy. -/
def Shows (s : State) (n : Name) (o : Snapshot) (c : Name) : Prop :=
  o.copyID = some c ∧ s.folder n = some ⟨c, o.source, true⟩ ∧
    ∃ x, s.copies c = some x ∧ o.source ∈ x.disks ∧ x.finished = true ∧
      o.restorePoint = some x.moment

/-- In every run whose steps fit, a ready snapshot that is not being deleted shows its own disk
in the copy that it names, and all of one copy have one restore point. -/
theorem ready_shows_own_copy (s₀ s : State) (hs : Empty s₀) (hrun : Run step Fitting s₀ s) :
    (∀ n o, s.snaps n = some o → o.ready = true → o.deleting = false → ∃ c, Shows s n o c) ∧
    ∀ n m o p, s.snaps n = some o → s.snaps m = some p → o.ready = true → p.ready = true →
      o.copyID = p.copyID → o.restorePoint = p.restorePoint := by
  have h : Kept s := hrun.keeps step_kept hs.kept
  refine ⟨fun n o ho hready hdel => ?_, fun n m o p ho hp hready hready' hid => ?_⟩
  · obtain ⟨_, c, hid, hfolder, _⟩ := (h.mine n o ho hdel).ready hready
    obtain ⟨c', x, hid', hx, hpoint, hdisk, hfin⟩ := (h.traced n o ho).ready hready
    cases hid.symm.trans hid'
    exact ⟨c, hid, hfolder, x, hx, hdisk, hfin, hpoint⟩
  · obtain ⟨c, x, hc, hx, hpoint, _⟩ := (h.traced n o ho).ready hready
    obtain ⟨c', x', hc', hx', hpoint', _⟩ := (h.traced m p hp).ready hready'
    cases hc.symm.trans (hid.trans hc')
    cases hx.symm.trans hx'
    exact hpoint.trans hpoint'.symm

def empty : State :=
  ⟨0, fun _ => none, fun _ => none, [], fun _ => none, fun _ => none, [], fun _ _ => false,
    fun _ => none, fun _ => none⟩

def allCalls : Calls := ⟨true, true, true, true, true⟩

/-- The apply Job is started and the new phase is not saved, so the next look finds no copy in
QEMU and a new try begins; it finds the Job of the first one. -/
def adoptsJob : List Event :=
  [.replacePod ['m'] (some ['p']), .create ['s'] ['d'],
    .start ['s'] ['m'] [['d']] ['1'] 1 true true true, .qemuEnds ['1'] true,
    .watch ['s'] false true false true allCalls, .jobApplies ['s'] true,
    .jobEnds ['s'] true, .watch ['s'] false true true true allCalls,
    .start ['s'] ['m'] [['d']] ['2'] 2 true true true, .qemuEnds ['2'] true,
    .watch ['s'] false true true true allCalls]

theorem ready_shows_other_copy :
    ∃ s o, Run step (fun _ _ => True) empty s ∧ s.snaps ['s'] = some o ∧ o.ready = true ∧
      o.copyID = some ['2'] ∧ o.restorePoint = some 2 ∧
      s.folder ['s'] = some ⟨['1'], ['d'], true⟩ := by
  refine free_run_some adoptsJob empty ?_
  decide +kernel

/-- Snapshots of the two disks of a VM. The second one joins the copy of the first. The apply Job
of the first fails with the folder cleared, so that one begins again with a copy of its own,
while the second becomes ready with the first copy. -/
def joinsAndRetries : List Event :=
  [.replacePod ['m'] (some ['p']), .create ['s'] ['d'], .create ['t'] ['e'],
    .start ['s'] ['m'] [['d'], ['e']] ['1'] 1 true true true, .join ['t'] ['s'] false true,
    .qemuEnds ['1'] true, .watch ['s'] false true true true allCalls,
    .follow ['t'] true true allCalls, .jobClears ['s'], .jobEnds ['s'] false,
    .jobApplies ['t'] true, .jobEnds ['t'] true, .apply ['s'] allCalls, .apply ['t'] allCalls,
    .start ['s'] ['m'] [['d'], ['e']] ['2'] 5 true true true, .qemuEnds ['2'] true,
    .watch ['s'] false true true true allCalls, .jobApplies ['s'] true, .jobEnds ['s'] true,
    .apply ['s'] allCalls]

theorem ready_shows_own_copy_joined : ∃ s o p, (s.snaps ['s'] = some o ∧ o.copyID = some ['2']) ∧
    (s.snaps ['t'] = some p ∧ p.copyID = some ['1']) ∧
    (∃ c, Shows s ['s'] o c) ∧ ∃ c, Shows s ['t'] p c := by
  have hempty : Empty empty := ⟨fun _ => rfl, fun _ => rfl, fun _ => rfl⟩
  have hex : ∃ s o, Run step Fitting empty s ∧ s.snaps ['s'] = some o ∧
      (o.ready = true ∧ o.deleting = false ∧ o.copyID = some ['2']) ∧
      ∃ p ∈ s.snaps ['t'], p.ready = true ∧ p.deleting = false ∧ p.copyID = some ['1'] :=
    free_run_some joinsAndRetries empty (by decide +kernel)
  obtain ⟨s, o, hrun, ho, hs, p, hp, ht⟩ := hex
  have hshows := (ready_shows_own_copy empty s hempty hrun).1
  exact ⟨s, o, p, ⟨ho, hs.2.2⟩, ⟨hp, ht.2.2⟩, hshows _ o ho hs.1 hs.2.1, hshows _ p hp ht.1 ht.2.1⟩

end FilePool.VMSnapshots
