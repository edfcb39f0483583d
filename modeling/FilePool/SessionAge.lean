import FilePool.SessionRuns

/-!
How old a session is for the receiver. Every call first removes the upload
folders whose modification time is a day or more ago. The file system sets that
time when a file is made in the folder, and not when a record is appended to a
file that is there.
-/
namespace FilePool.SessionAge

open ByteFiles UndoNames VolumeSteps DurableSteps List DurableSteps.Prog ApplyCopy Pruning
  UploadSessions SessionLog SessionRuns

/-- One call: the old uploads are removed first. -/
def handleVMCopy {α : Type} (now : ℤ) (action : VolProg α) : VolProg α := do
  removeOldUploads incomingMaxAge now
  action

variable (id : Name) {name : Name} {f : Session → Session}

/-- The upload folders of this name; a file system has at most one. -/
def folders (v : Volume) : List (Name × Session) := v.incoming.filter (fun s => s.1 = id)

theorem findSession_eq (v : Volume) : findSession v id = (folders id v).head?.map Prod.snd := by
  unfold findSession folders
  rw [head?_filter]

theorem findSession_of_folders (v s : Volume) (h : folders id s = folders id v) :
    findSession s id = findSession v id := by
  rw [findSession_eq, findSession_eq, h]

theorem folders_removeOther {v : Volume} (h : name ≠ id) :
    folders id ((Step.removeSession name).apply v) = folders id v := by
  unfold folders
  simp only [Step.apply, filter_filter]
  apply filter_congr
  intro s _
  by_cases hs : s.1 = id
  · simp [hs, h.symm]
  · simp [hs]

theorem folders_onAny (v : Volume) (name : Name) (f : Session → Session) :
    folders id (v.onSession name f) =
      (folders id v).map (fun s => if s.1 = name then (s.1, f s.2) else s) := by
  unfold folders Volume.onSession
  rw [filter_map]
  have hpred : (fun s : Name × Session => decide (s.1 = id)) ∘
      (fun s : Name × Session => if s.1 = name then (s.1, f s.2) else s) =
        fun s => decide (s.1 = id) := by
    funext s
    by_cases hs : s.1 = name <;> simp [hs]
  rw [hpred]

theorem folders_onOther {v : Volume} (h : name ≠ id) :
    folders id (v.onSession name f) = folders id v := by
  rw [folders_onAny]
  refine (map_congr_left fun s hs => ?_).trans (map_id _)
  have hid : s.1 = id := by simpa using (mem_filter.mp hs).2
  exact if_neg (fun hname => h (hname.symm.trans hid))

theorem folders_onSession (v : Volume) (f : Session → Session) :
    folders id (v.onSession id f) = (folders id v).map (fun s => (s.1, f s.2)) := by
  rw [folders_onAny]
  exact map_congr_left fun s hs => if_pos (by simpa using (mem_filter.mp hs).2)

/-- The removal of another copy's folder. -/
def RemovesOther : Step → Prop
  | .removeSession name => name ≠ id
  | _ => False

theorem only_removeSessions (age now : ℤ) (ss : List (Name × Session))
    (h : ∀ s ∈ ss, s.1 = id → now - s.2.mtime < age) :
    Only (RemovesOther id) (removeSessions age now ss) := by
  induction ss with
  | nil => exact only_pure ()
  | cons s ss ih =>
    have hrest := ih (fun x hx => h x (mem_cons_of_mem s hx))
    unfold removeSessions
    split
    · exact hrest
    · next hold =>
      refine only_bind (only_perform _ ?_) (fun _ => hrest)
      exact fun hid => hold (h s (mem_cons_self ..) hid)

theorem folders_removeOldUploads (age now : ℤ) (v s : Volume)
    (h : ∀ x ∈ folders id v, now - x.2.mtime < age)
    (hs : (removeOldUploads age now).Stopped v s) : folders id s = folders id v := by
  have hlook : (inspect (fun v => .ok v.incoming) : VolProg (List (Name × Session))) v =
      ([], .ok v.incoming) := rfl
  have honly : Only (RemovesOther id) (removeSessions age now v.incoming) := by
    apply only_removeSessions
    intro x hx hid
    exact h x (mem_filter.mpr ⟨hx, by simpa using hid⟩)
  unfold removeOldUploads Prog.Stopped Prog.steps at hs
  refine stopped_of_only honly (fun x => folders id x = folders id v) ?_ ?_ v s rfl hs
  · intro t ht x hx
    cases t with
    | removeSession name => exact (folders_removeOther id ht).trans hx
    | _ => exact ht.elim
  · intro t ht x y hx hy
    cases t with
    | removeSession name =>
      obtain ⟨manifest, data, base, mtime, rfl⟩ := hy
      exact (folders_onOther id ht).trans hx
    | _ => exact ht.elim

variable {n : ℕ} {v : Volume} {made : ℤ}

/-- The folder itself and the files in it. -/
def fileCount (s : Session) : ℕ :=
  1 + s.manifest.isSome.toNat + s.data.isSome.toNat + s.base.isSome.toNat

def filesIn (v : Volume) : ℕ := ((folders id v).map (fun s => fileCount s.2)).sum

/-- There is at most one folder; it was last modified at this time and has this
number of files. -/
def Aged (made : ℤ) (n : ℕ) (v : Volume) : Prop :=
  (folders id v = [] ∧ n = 0) ∨
    ∃ s, folders id v = [(id, s)] ∧ s.mtime = made ∧ n = fileCount s

theorem filesIn_eq (h : Aged id made n v) : filesIn id v = n := by
  unfold filesIn
  rcases h with ⟨hnil, rfl⟩ | ⟨s, hs, -, rfl⟩
  · rw [hnil]
    rfl
  · rw [hs]
    simp

/-- A change of a session that sets its time exactly when it makes a file. -/
def Grows (now : ℤ) (f : Session → Session) : Prop :=
  ∀ s, ((f s).mtime = s.mtime ∧ fileCount (f s) = fileCount s) ∨
    ((f s).mtime = now ∧ fileCount s < fileCount (f s))

variable (now : ℤ) {s : Volume} {t : Step}

theorem grows_cut {size : ℕ} : Grows now (Session.cut size) := by
  intro s
  simp [Session.cut, fileCount]

theorem grows_append {data manifest : Bytes} : Grows now (Session.append data manifest) := by
  intro s
  simp [Session.append, fileCount]

theorem grows_createManifest : Grows now (Session.createManifest now) := by
  intro s
  cases hm : s.manifest with
  | some m => simp [Session.createManifest, hm]
  | none => simp [Session.createManifest, hm, fileCount]

theorem grows_createData : Grows now (Session.createData now) := by
  intro s
  cases hd : s.data with
  | some d => simp [Session.createData, hd]
  | none => simp [Session.createData, hd, fileCount]

theorem grows_writeBase {base : Option DiskMoment} : Grows now (Session.writeBase base now) := by
  intro s
  cases hb : s.base with
  | some _ | none => simp [Session.writeBase, hb, fileCount]

/-- What a step can do to the age: nothing, or make a file now. -/
def Ages (made : ℤ) (n : ℕ) (v : Volume) : Prop :=
  Aged id made n v ∨ ∃ m, n < m ∧ Aged id now m v

theorem ages_onSession
    (hf : Grows now f) (h : Aged id made n v) : Ages id now made n (v.onSession id f) := by
  unfold Ages Aged
  rw [folders_onSession]
  rcases h with ⟨hnil, rfl⟩ | ⟨s, hs, hmade, rfl⟩
  · rw [hnil]
    exact .inl (.inl ⟨rfl, rfl⟩)
  · rw [hs]
    rcases hf s with ⟨htime, hcount⟩ | ⟨htime, hcount⟩
    · exact .inl (.inr ⟨f s, rfl, htime.trans hmade, hcount.symm⟩)
    · exact .inr ⟨_, hcount, .inr ⟨f s, rfl, htime, rfl⟩⟩

theorem ages_makeSession (h : Aged id made n v) :
    Ages id now made n ((Step.makeSession id now).apply v) := by
  rcases h with ⟨hnil, rfl⟩ | ⟨s, hs, hmade, rfl⟩
  · have hany : v.incoming.any (fun s => decide (s.1 = id)) = false := by
      rw [any_eq_false]
      exact filter_eq_nil_iff.mp hnil
    right
    refine ⟨_, ?_, .inr ⟨⟨none, none, none, now⟩, ?_, rfl, rfl⟩⟩
    · simp [fileCount]
    · have happly : (Step.makeSession id now).apply v =
          { v with incoming := v.incoming ++ [(id, ⟨none, none, none, now⟩)] } := by
        exact if_neg (by rw [hany]; nofun)
      rw [happly]
      unfold folders at hnil ⊢
      simp only [filter_append, hnil]
      simp
  · have hany : v.incoming.any (fun s => decide (s.1 = id)) = true := by
      have hmem : (id, s) ∈ folders id v := by simp [hs]
      exact any_eq_true.mpr ⟨_, (mem_filter.mp hmem).1, by simp⟩
    have happly : (Step.makeSession id now).apply v = v := by
      exact if_pos hany
    rw [happly]
    exact .inl (.inr ⟨s, hs, hmade, rfl⟩)

/-- The steps of a call of the copy at this time. -/
def OfCall : Step → Prop
  | .makeSession i t | .createManifest i t | .createData i t | .writeBase i _ t =>
    i = id ∧ t = now
  | .cutManifest i _ | .store i _ _ => i = id
  | t => OnDisk t

theorem ofCall_of_onDisk (t : Step) (h : OnDisk t) : OfCall id now t := by
  cases t <;> first | exact h | exact h.elim

theorem aged_of_incoming (hs : s.incoming = v.incoming)
    (h : Aged id made n v) : Aged id made n s := by
  unfold Aged folders at h ⊢
  rw [hs]
  exact h

theorem ages_apply (ht : OfCall id now t)
    (h : Aged id made n v) : Ages id now made n (t.apply v) := by
  cases t with
  | makeSession i t =>
    obtain ⟨rfl, rfl⟩ := ht
    exact ages_makeSession _ _ h
  | createManifest i t =>
    obtain ⟨rfl, rfl⟩ := ht
    exact ages_onSession _ _ (grows_createManifest _) h
  | createData i t =>
    obtain ⟨rfl, rfl⟩ := ht
    exact ages_onSession _ _ (grows_createData _) h
  | writeBase i base t =>
    obtain ⟨rfl, rfl⟩ := ht
    exact ages_onSession _ _ (grows_writeBase _) h
  | cutManifest i size =>
    cases (show i = id from ht)
    exact ages_onSession _ _ (grows_cut now) h
  | store i records flushed =>
    cases (show i = id from ht)
    exact ages_onSession _ _ (grows_append now) h
  | _ => first | exact ht.elim | exact .inl (aged_of_incoming id rfl h)

theorem ages_torn (ht : OfCall id now t)
    (h : Aged id made n v) (hs : t.Torn v s) : Ages id now made n s := by
  cases t with
  | writeBase i base t =>
    obtain ⟨rfl, rfl⟩ := ht
    obtain rfl := hs
    exact ages_onSession _ _ (grows_writeBase _) h
  | store i records flushed =>
    cases (show i = id from ht)
    obtain ⟨j, k, m, rfl⟩ := hs
    exact ages_onSession _ _ (grows_append now) h
  | putUndo name content =>
    obtain ⟨k, rfl⟩ := hs
    exact .inl (aged_of_incoming id rfl h)
  | changeDisk cs mtime =>
    obtain ⟨ds, -, rfl⟩ := hs
    exact .inl (aged_of_incoming id rfl h)
  | writeNew content =>
    obtain ⟨content', rfl⟩ := hs
    exact .inl (aged_of_incoming id rfl h)
  | _ => first | exact hs.elim | exact ht.elim

/-- What one step can do to the age, the steps of a call can do. -/
theorem ages_of_only {α : Type} {p : VolProg α} (hp : Only (OfCall id now) p) (h : Aged id made n v)
    (hs : p.Stopped v s) : Ages id now made n s := by
  have hstep : ∀ x y, (∀ made' n', Aged id made' n' x → Ages id now made' n' y) →
      Ages id now made n x → Ages id now made n y := by
    rintro x y hxy (hx | ⟨m, hm, hx⟩)
    · exact hxy made n hx
    · rcases hxy now m hx with hy | ⟨k, hk, hy⟩
      · exact .inr ⟨m, hm, hy⟩
      · exact .inr ⟨k, hm.trans hk, hy⟩
  refine stopped_of_only hp (Ages id now made n) ?_ ?_ v s (.inl h) hs
  · intro t ht x hx
    exact hstep x _ (fun made' n' h' => ages_apply id now ht h') hx
  · intro t ht x y hx hy
    exact hstep x y (fun made' n' h' => ages_torn id now ht h' hy) hx

theorem only_loadSession : Only (fun t => ∃ n, t = .cutManifest id n) (loadSession id) := by
  refine only_bind (only_inspect _) ?_
  intro s
  cases s with
  | none => exact only_pure _
  | some s =>
    cases hm : s.manifest with
    | none =>
      simp only [hm]
      exact only_pure _
    | some manifest =>
      simp only [hm]
      split
      · exact only_map (only_perform _ ⟨_, rfl⟩)
      · exact only_pure _

theorem ofCall_cut (t : Step) (h : ∃ n, t = .cutManifest id n) : OfCall id now t := by
  obtain ⟨n, rfl⟩ := h
  rfl

theorem only_openSession : Only (OfCall id now) (openSession id now) := by
  refine only_bind (only_perform _ ⟨rfl, rfl⟩) (fun _ => only_bind
    (only_weaken (only_loadSession id) (ofCall_cut id now)) ?_)
  exact fun _ => only_bind (only_perform _ ⟨rfl, rfl⟩) (fun _ => only_perform _ ⟨rfl, rfl⟩)

theorem only_call {δ : Type} [DecidableEq δ] (hash : Bytes → δ) (limit : ℕ) (c : Call δ) :
    Only (OfCall id now) (c.prog hash limit id now) := by
  cases c with
  | status =>
    refine only_map (only_bind (only_weaken (only_loadSession id) (ofCall_cut id now)) ?_)
    exact fun _ => only_map (only_inspect _)
  | compare body stamp =>
    have hrecover := only_weaken (only_recover stamp) (ofCall_of_onDisk id now)
    refine only_map (only_bind hrecover (fun _ => only_bind (only_inspect _) (fun base =>
      only_bind (only_inspect _) (fun disk => only_bind (only_openSession id now) (fun _ =>
        only_bind (only_perform _ rfl) ?_)))))
    intro _
    cases compareRefusal hash limit disk body with
    | some e => exact only_fail e
    | none => exact only_map (only_perform _ ⟨rfl, rfl⟩)
  | upload body =>
    refine only_bind (only_openSession id now) (fun _ => only_bind (only_inspect _) (fun pos =>
      only_bind (only_perform _ rfl) ?_))
    intro _
    cases uploadRefusal limit body with
    | some e => exact only_fail e
    | none => exact only_pure _

section Runs

variable {δ : Type} [DecidableEq δ] (hash : Bytes → δ) (limit : ℕ) (id : Name)

/-- If the copy has a folder, then the last call that made a file in it was less
than a day ago. -/
def Young (made now : ℤ) (v : Volume) : Prop := folders id v ≠ [] → now - made < incomingMaxAge

/-- The time of the last call that made a file in the folder. -/
def lastMade (made now : ℤ) (v s : Volume) : ℤ := if filesIn id s = filesIn id v then made else now

/-- Runs of calls on the disk, for this copy and for others, that all come less
than a day after the last call that made a file in this copy's folder. The log
is the records that were answered for, and of a call that was stopped or failed
those whose entries are whole in the record file. -/
inductive ReceiverRun : ℤ → List Logged → Volume → Prop
  | start (made : ℤ) (v : Volume) (h : folders id v = []) : ReceiverRun made [] v
  | answered (made now : ℤ) (log : List Logged) (v : Volume) (c : Call δ)
      (h : ReceiverRun made log v) (hyoung : Young id made now v)
      (hok : (handleVMCopy now (c.prog hash limit id now)).result v = .ok ())
      (hsize : sessionSize id ((handleVMCopy now (c.prog hash limit id now)).exec v) < 2 ^ 63) :
      ReceiverRun (lastMade id made now v ((handleVMCopy now (c.prog hash limit id now)).exec v))
        (log ++ c.records hash limit id ((removeOldUploads incomingMaxAge now).exec v))
        ((handleVMCopy now (c.prog hash limit id now)).exec v)
  | stopped (made now : ℤ) (log : List Logged) (v s : Volume) (c : Call δ)
      (h : ReceiverRun made log v) (hyoung : Young id made now v)
      (hs : (handleVMCopy now (c.prog hash limit id now)).Stopped v s)
      (hsize : sessionSize id s < 2 ^ 63) :
      ReceiverRun (lastMade id made now v s)
        (log ++ (c.records hash limit id
          ((removeOldUploads incomingMaxAge now).exec v)).take (wholeEntries id s - log.length)) s
  | other (made now : ℤ) (log : List Logged) (v u s : Volume)
      (h : ReceiverRun made log v) (hyoung : Young id made now v)
      (hu : (removeOldUploads incomingMaxAge now).Stopped v u)
      (hs : folders id s = folders id u) : ReceiverRun made log s

/-- What a run keeps: the age that the folder has, and the records in it. -/
structure Kept (made : ℤ) (log : List Logged) (v : Volume) : Prop where
  aged : ∃ n, Aged id made n v
  holds : HoldsLog id log (sessionSize id v) v
  size : sessionSize id v < 2 ^ 63

theorem kept_of_folders (made : ℤ) (log : List Logged) (v s : Volume)
    (h : folders id s = folders id v) (hv : Kept id made log v) : Kept id made log s := by
  have hfind := findSession_of_folders id v s h
  have hsize : sessionSize id s = sessionSize id v := by
    unfold sessionSize
    rw [hfind]
  obtain ⟨⟨n, haged⟩, hholds, hlt⟩ := hv
  refine ⟨⟨n, ?_⟩, ?_, ?_⟩
  · unfold Aged at haged ⊢
    rw [h]
    exact haged
  · rw [hsize]
    exact holdsLog_congr id log _ v s hfind hholds
  · rw [hsize]
    exact hlt

theorem folders_young (made now : ℤ) (n : ℕ) (v s : Volume) (haged : Aged id made n v)
    (hyoung : Young id made now v) (hs : (removeOldUploads incomingMaxAge now).Stopped v s) :
    folders id s = folders id v := by
  refine folders_removeOldUploads id incomingMaxAge now v s ?_ hs
  intro x hx
  rcases haged with ⟨hnil, -⟩ | ⟨t, ht, hmade, -⟩
  · rw [hnil] at hx
    cases hx
  · have hlt := hyoung (by rw [ht]; nofun)
    rw [ht, mem_singleton] at hx
    rw [hx, hmade]
    exact hlt

theorem removeSessions_ok (age now : ℤ) (ss : List (Name × Session)) (v : Volume) :
    (removeSessions age now ss).result v = .ok () := by
  induction ss generalizing v with
  | nil => rfl
  | cons s ss ih =>
    unfold removeSessions
    split
    · exact ih v
    · exact ih _

theorem removeOldUploads_ok (age now : ℤ) (v : Volume) :
    (removeOldUploads age now).result v = .ok () :=
  removeSessions_ok age now v.incoming v

theorem lastMade_eq {made now : ℤ} {s : Volume} (haged : Aged id made n v)
    (hs : Ages id now made n s) : ∃ m, Aged id (lastMade id made now v s) m s := by
  unfold lastMade
  rw [filesIn_eq id haged]
  rcases hs with hs | ⟨m, hm, hs⟩
  · rw [if_pos (filesIn_eq id hs)]
    exact ⟨n, hs⟩
  · rw [if_neg (by rw [filesIn_eq id hs]; omega)]
    exact ⟨m, hs⟩

/-- One handled call of the copy: the records it has appended, and the age. -/
theorem kept_call (made now : ℤ) (log : List Logged) (v s : Volume) (c : Call δ)
    (hv : Kept id made log v) (hyoung : Young id made now v)
    (hs : (handleVMCopy now (c.prog hash limit id now)).Stopped v s) :
    (∃ m, Aged id (lastMade id made now v s) m s) ∧
      Grown id log (c.records hash limit id ((removeOldUploads incomingMaxAge now).exec v)) s := by
  obtain ⟨n, haged⟩ := hv.aged
  have hfirst : ∀ u, (removeOldUploads incomingMaxAge now).Stopped v u → Kept id made log u ∧
      Aged id made n u := by
    intro u hu
    have hsame := folders_young id made now n v u haged hyoung hu
    refine ⟨kept_of_folders id made log v u hsame hv, ?_⟩
    unfold Aged at haged ⊢
    rw [hsame]
    exact haged
  rcases (stopped_bind_ok _ _ v (removeOldUploads_ok incomingMaxAge now v) s).mp hs with h | h
  · obtain ⟨hkept, hsame⟩ := hfirst s h
    exact ⟨lastMade_eq id haged (.inl hsame), grown_of_holds id log _ _ s hkept.holds⟩
  · obtain ⟨hkept, hsame⟩ := hfirst _ (stopped_exec _ v)
    refine ⟨lastMade_eq id haged ?_, ?_⟩
    · exact ages_of_only id now (only_call id now hash limit c) hsame h
    · exact (safe_call hash limit id log c now _ hkept.holds hkept.size _ rfl).2 s h

theorem kept_run {made : ℤ} {log : List Logged}
    (h : ReceiverRun hash limit id made log v) : Kept id made log v := by
  induction h with
  | start made v hnil =>
    have hnone : findSession v id = none := by
      rw [findSession_eq, hnil]
      rfl
    have hsize : sessionSize id v = 0 := by
      unfold sessionSize
      rw [hnone]
      rfl
    exact ⟨⟨0, .inl ⟨hnil, rfl⟩⟩, .inl ⟨hnone, rfl, hsize⟩, by rw [hsize]; decide⟩
  | answered made now log v c _ hyoung hok hsize ih =>
    obtain ⟨haged, -⟩ := kept_call hash limit id made now log v _ c ih hyoung (stopped_exec _ v)
    obtain ⟨n, hn⟩ := ih.aged
    have hbefore := kept_of_folders id made log v _
      (folders_young id made now n v _ hn hyoung (stopped_exec _ v)) ih
    have hremove := removeOldUploads_ok incomingMaxAge now v
    unfold handleVMCopy at hok
    rw [result_bind_ok _ _ v hremove] at hok
    obtain ⟨size, hall⟩ :=
      (safe_call hash limit id log c now _ hbefore.holds hbefore.size _ rfl).1 () hok
    refine ⟨haged, ?_, hsize⟩
    have hexec : (handleVMCopy now (c.prog hash limit id now)).exec v =
        (c.prog hash limit id now).exec ((removeOldUploads incomingMaxAge now).exec v) :=
      exec_bind_ok _ _ v hremove
    rw [hexec, sessionSize_eq id _ size hall]
    exact hall
  | stopped made now log v s c _ hyoung hs hsize ih =>
    obtain ⟨haged, hgrown⟩ := kept_call hash limit id made now log v s c ih hyoung hs
    exact ⟨haged, holdsLog_of_grown id hgrown, hsize⟩
  | other made now log v u s _ hyoung hu hs ih =>
    obtain ⟨n, hn⟩ := ih.aged
    exact kept_of_folders id made log v s
      (hs.trans (folders_young id made now n v u hn hyoung hu)) ih

/-- While every call comes less than a day after the last one that made a file in
the copy's folder, no call removes the folder, and the load at the commit finds
every record that was answered for. -/
theorem young_session_is_kept (made now : ℤ) (log : List Logged) (v : Volume)
    (hrun : ReceiverRun hash limit id made log v) (hyoung : Young id made now v) :
    (∀ s, (removeOldUploads incomingMaxAge now).Stopped v s →
      findSession s id = findSession v id) ∧
    LoadsLast id log ((removeOldUploads incomingMaxAge now).exec v) := by
  have hkept := kept_run hash limit id hrun
  obtain ⟨n, hn⟩ := hkept.aged
  refine ⟨?_, ?_⟩
  · intro s hs
    exact findSession_of_folders id v s (folders_young id made now n v s hn hyoung hs)
  · have hbefore := kept_of_folders id made log v _
      (folders_young id made now n v _ hn hyoung (stopped_exec _ v)) hkept
    exact loadsLast_of_holdsLog id log _ hbefore.size hbefore.holds

end Runs

def hours (n : ℤ) : ℤ := n * 3600000000000

/-- The folder after an upload at hour 0. -/
def firstUpload : Volume :=
  (handleVMCopy 0 (upload 10 copyName twoSent 0)).exec Volume.empty

/-- The folder after one more upload at hour 20. -/
def secondUpload : Volume :=
  (handleVMCopy (hours 20) (upload 10 copyName twoSent (hours 20))).exec firstUpload

theorem young_session_is_kept_twoUploads :
    ∃ segs, (loadSession copyName).result
        ((removeOldUploads incomingMaxAge (hours 23)).exec secondUpload) = .ok segs ∧
      findSeg segs 0 = some ⟨.data, 0, 2, 2⟩ := by
  have hnone : ReceiverRun (fun b => b) 10 copyName 0 [] Volume.empty := .start 0 Volume.empty rfl
  have hone := ReceiverRun.answered 0 0 [] Volume.empty (.upload twoSent) hnone
    (absurd rfl) (by decide +kernel) (by decide +kernel)
  have htwo := ReceiverRun.answered _ (hours 20) _ _ (.upload twoSent) hone
    (fun _ => by decide +kernel) (by decide +kernel) (by decide +kernel)
  obtain ⟨-, segs, hsegs, hfind, -⟩ := young_session_is_kept (fun b => b) 10 copyName _
    (hours 23) _ _ htwo (fun _ => by decide +kernel)
  exact ⟨segs, hsegs, (hfind 0).trans (by decide +kernel)⟩

/-- Five hours after the second upload the folder is removed with all records:
it was made at the first one. -/
theorem session_removed_after_upload :
    (handleVMCopy 0 (upload 10 copyName twoSent 0)).result Volume.empty = .ok () ∧
      (handleVMCopy (hours 20) (upload 10 copyName twoSent (hours 20))).result firstUpload =
        .ok () ∧
      hours 20 - 0 < incomingMaxAge ∧ hours 25 - hours 20 < incomingMaxAge ∧
      findSession secondUpload copyName ≠ none ∧
      findSession ((removeOldUploads incomingMaxAge (hours 25)).exec secondUpload) copyName =
        none := by
  refine ⟨?_, ?_, ?_, ?_, ?_, ?_⟩ <;> decide +kernel

end FilePool.SessionAge
