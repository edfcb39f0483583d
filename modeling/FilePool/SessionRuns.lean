import FilePool.SessionLog

/-!
Runs of receiver calls on one upload session, each stopped anywhere. A call
appends records: first the data of a record, synced, then its entry. The run
carries the records whose entries are whole in the record file; a later load
gives the last of them for every offset, with the data that was sent for it.
-/
namespace FilePool.SessionRuns

open ByteFiles CopyChunks UndoNames VolumeSteps DurableSteps List DurableSteps.Prog ApplyCopy
  Pruning UploadSessions SessionLog

def findSeg (segs : List Seg) (off : ℕ) : Option Seg := segs.find? (fun s => s.off = off)

/-- The last record of the log for an offset. -/
def lastFor (log : List Logged) (off : ℕ) : Option Logged :=
  log.reverse.find? (fun x => x.1.off = off)

theorem findSeg_putSeg (segs : List Seg) (s : Seg) (off : ℕ) :
    findSeg (putSeg segs s) off = if s.off = off then some s else findSeg segs off := by
  unfold findSeg putSeg
  rw [find?_append]
  by_cases hs : s.off = off
  · have hnone : (segs.filter (fun x => x.off ≠ s.off)).find? (fun x => x.off = off) = none := by
      rw [find?_eq_none]
      intro x hx
      have hne : x.off ≠ s.off := by simpa using (mem_filter.mp hx).2
      simpa [← hs] using hne
    rw [hnone]
    simp [hs]
  · have hpred : (fun x : Seg => decide (decide (x.off ≠ s.off) = true ∧
        decide (x.off = off) = true)) = fun x => decide (x.off = off) := by
      funext x
      by_cases hx : x.off = off
      · have hne : off ≠ s.off := fun h => hs h.symm
        simp [hx, hne]
      · simp [hx]
    rw [find?_filter, hpred]
    simp [hs]

/-- The loaded records are the last ones of the log. -/
theorem findSeg_log {log : List Logged} (off : ℕ) :
    findSeg ((log.map Prod.fst).foldl putSeg []) off = (lastFor log off).map Prod.fst := by
  induction log using reverseRecOn with
  | nil => rfl
  | append_singleton log x ih =>
    rw [map_append, foldl_append, map_singleton, foldl_cons, foldl_nil, findSeg_putSeg, ih]
    unfold lastFor
    by_cases hx : x.1.off = off <;> simp [hx]

/-- However many of the records are appended to the data, each has its data at
its place. -/
def Fits (data : Bytes) (rs : List Logged) : Prop :=
  ∀ j tail, ∀ x ∈ rs.take j, Good (data ++ (rs.take j).flatMap Prod.snd ++ tail) x

theorem readAt_append_of_le (a b : Bytes) (off len : ℕ) (h : off + len ≤ a.length) :
    readAt (a ++ b) off len = readAt a off len := by
  unfold readAt
  rw [drop_append_of_le_length (by omega), take_append_of_le_length]
  rw [length_drop]
  omega

theorem good_append (data tail : Bytes) (x : Logged) (h : Good data x) :
    Good (data ++ tail) x := by
  refine ⟨h.off, ?_, h.nonempty, h.short, ?_, ?_⟩
  · have := h.pos
    rw [length_append]
    omega
  · intro hk
    have := h.inside hk
    rw [length_append]
    omega
  · intro hk
    rw [readAt_append_of_le _ _ _ _ (h.inside hk)]
    exact h.bytes hk

/-- A cut of the entries is the entries of the first records and a piece. -/
theorem take_entriesOf (rs : List Logged) (n : ℕ) :
    ∃ torn, (entriesOf rs).take n = entriesOf (rs.take (n / manifestEntrySize)) ++ torn ∧
      torn.length < manifestEntrySize := by
  have hsize : manifestEntrySize = 21 := rfl
  induction rs generalizing n with
  | nil => exact ⟨[], by simp, by decide⟩
  | cons x rs ih =>
    have hcons : ∀ l : List Logged, entriesOf (x :: l) = appendSeg x.1 ++ entriesOf l :=
      fun l => rfl
    rw [hcons]
    by_cases hn : n < manifestEntrySize
    · refine ⟨(appendSeg x.1).take n, ?_, ?_⟩
      · rw [Nat.div_eq_of_lt hn, take_append_of_le_length (by simp; omega)]
        rfl
      · rw [length_take]
        omega
    · obtain ⟨torn, htake, htorn⟩ := ih (n - manifestEntrySize)
      have hdiv : n / manifestEntrySize = (n - manifestEntrySize) / manifestEntrySize + 1 := by
        rw [hsize] at hn ⊢
        omega
      refine ⟨torn, ?_, htorn⟩
      rw [take_append, take_of_length_le (by simp; omega), length_appendSeg, htake,
        hdiv, take_succ_cons, hcons, append_assoc]

theorem stored_append (log rs : List Logged) (size : ℕ) (s : Session) (data : Bytes)
    (h : Opened log size s) (hd : s.data = some data) (hfits : Fits data rs) (j n : ℕ)
    (tail : Bytes) :
    Stored (log ++ rs.take (min (n / manifestEntrySize) j))
      (Session.append ((rs.take j).flatMap Prod.snd ++ tail)
        ((entriesOf (rs.take j)).take n) s) := by
  obtain ⟨torn, htake, htorn⟩ := take_entriesOf (rs.take j) n
  rw [take_take] at htake
  refine ⟨⟨torn, ?_, htorn⟩, ?_, ?_⟩
  · unfold Session.append
    rw [h.manifest, htake]
    simp [entriesOf]
  · unfold Session.append
    rw [h.manifest]
    simp
  · have hdata : (Session.append ((rs.take j).flatMap Prod.snd ++ tail)
        ((entriesOf (rs.take j)).take n) s).data.getD [] =
          data ++ (rs.take j).flatMap Prod.snd ++ tail := by
      unfold Session.append
      rw [hd]
      simp
    rw [hdata]
    intro x hx
    rcases mem_append.mp hx with hx | hx
    · have hgood := h.stored.good x hx
      rw [hd] at hgood
      rw [append_assoc]
      exact good_append _ _ x hgood
    · rw [← take_take] at hx
      exact hfits j tail x (mem_of_mem_take hx)

/-- The session holds the records of the log and the first of some new ones. -/
def Grown (id : Name) (log rs : List Logged) (v : Volume) : Prop :=
  ∃ m size, HoldsLog id (log ++ rs.take m) size v

theorem grown_of_holds (id : Name) (log rs : List Logged) (size : ℕ) (v : Volume)
    (h : HoldsLog id log size v) : Grown id log rs v :=
  ⟨0, size, by simpa using h⟩

/-- Every stop of the appending leaves the log and the first of the records, and
an appending that was not refused leaves all of them. -/
theorem safe_storeRecords (id : Name) (log rs : List Logged) (size : ℕ) (refused : Bool) :
    Safe (AtSession id (fun s => Opened log size s ∧ Fits (s.data.getD []) rs))
      (storeRecords id rs refused)
      (fun _ v => refused = false →
        AtSession id (fun s => Stored (log ++ rs) s ∧ s.manifest = some (entriesOf (log ++ rs))) v)
      (Grown id log rs) := by
  have hentries : ∀ l : List Logged,
      (l.map (fun x => (x.2, appendSeg x.1))).flatMap Prod.snd = entriesOf l := by
    intro l
    rw [flatMap_map]
    rfl
  have hdatas : ∀ l : List Logged,
      (l.map (fun x => (x.2, appendSeg x.1))).flatMap Prod.fst = l.flatMap Prod.snd := by
    intro l
    rw [flatMap_map]
  have hgrown : ∀ (v : Volume) (j n : ℕ) (tail : Bytes),
      AtSession id (fun s => Opened log size s ∧ Fits (s.data.getD []) rs) v →
        Grown id log rs (v.onSession id
          (Session.append ((rs.take j).flatMap Prod.snd ++ tail)
            ((entriesOf (rs.take j)).take n))) := by
    rintro v j n tail ⟨s, hs, hopen, hfits⟩
    obtain ⟨data, hd⟩ := hopen.data
    rw [hd] at hfits
    exact ⟨min (n / manifestEntrySize) j, _, .inr ⟨_, findSession_at v id s hs,
      stored_append log rs size s data hopen hd hfits j n tail, rfl⟩⟩
  refine safe_perform _ ?_ ?_ ?_
  · rintro v ⟨s, hs, hopen, -⟩
    exact grown_of_holds id log rs size v (.inr ⟨s, hs, hopen.stored, hopen.size⟩)
  · intro v hv
    have hstep : ∀ n, (Step.store id (rs.map (fun x => (x.2, appendSeg x.1))) n).apply v =
        v.onSession id (Session.append ((rs.take rs.length).flatMap Prod.snd ++ [])
          ((entriesOf (rs.take rs.length)).take n)) := by
      intro n
      simp only [Step.apply, hentries, hdatas, take_length, append_nil]
    change Grown id log rs (Step.apply _ v) ∧ _
    rw [hstep]
    refine ⟨hgrown v _ _ [] hv, ?_⟩
    intro hrefused
    change AtSession id _ (Step.apply _ v)
    rw [hstep, hrefused]
    obtain ⟨s, hs, hopen, hfits⟩ := hv
    obtain ⟨data, hd⟩ := hopen.data
    rw [hd] at hfits
    have hall := stored_append log rs size s data hopen hd hfits rs.length
      (rs.length * manifestEntrySize) []
    refine ⟨_, findSession_at v id s hs, ?_, ?_⟩
    · rw [Nat.mul_div_cancel _ (by decide)] at hall
      simpa using hall
    · unfold Session.append
      rw [hopen.manifest, take_of_length_le (by simp)]
      simp [entriesOf]
  · intro v v' hv htorn
    obtain ⟨j, k, n, rfl⟩ := htorn
    rw [← map_take, hentries, hdatas]
    exact hgrown v j n _ hv

theorem readable_iff (r : UploadRecord) (h : r.readable = true) :
    r.off ≤ 2 ^ 62 ∧ 0 < r.len ∧ r.len ≤ compareChunk ∧
      (r.zero = true ∨ r.data.length = r.len) := by
  unfold UploadRecord.readable at h
  simp only [Bool.and_eq_true, decide_eq_true_eq, Bool.or_eq_true] at h
  exact ⟨h.1.1, h.1.2.1, h.1.2.2, h.2⟩

theorem acceptRecords_readable {limit : ℕ} {rs : List UploadRecord} :
    ∀ r ∈ (acceptRecords limit rs).1, r.readable = true := by
  induction rs with
  | nil => simp [acceptRecords]
  | cons r rs ih =>
    unfold acceptRecords
    split
    · simp
    · next hread =>
      split
      · simp
      · intro r' hr'
        rcases mem_cons.mp hr' with rfl | hr'
        · simpa using hread
        · exact ih r' hr'

theorem fits_nil (data : Bytes) : Fits data [] := by
  intro j tail x hx
  simp at hx

theorem fits_cons (data : Bytes) (x : Logged) (rs : List Logged)
    (hx : ∀ tail, Good (data ++ x.2 ++ tail) x) (h : Fits (data ++ x.2) rs) :
    Fits data (x :: rs) := by
  intro j tail y hy
  cases j with
  | zero => simp at hy
  | succ j =>
    rw [take_succ_cons] at hy ⊢
    have hcat : data ++ (x :: rs.take j).flatMap Prod.snd ++ tail =
        data ++ x.2 ++ (rs.take j).flatMap Prod.snd ++ tail := by
      simp
    rw [hcat]
    rcases mem_cons.mp hy with rfl | hy
    · rw [append_assoc (data ++ y.2)]
      exact hx _
    · exact h j tail y hy

theorem fits_placeRecords (rs : List UploadRecord) (h : ∀ r ∈ rs, r.readable = true)
    (data : Bytes) : Fits data (placeRecords data.length rs) := by
  induction rs generalizing data with
  | nil => exact fits_nil data
  | cons r rs ih =>
    have hrest := ih (fun x hx => h x (mem_cons_of_mem r hx))
    obtain ⟨hoff, hpos, hshort, hlen⟩ := readable_iff r (h r (mem_cons_self ..))
    unfold placeRecords
    split
    · refine fits_cons data _ _ ?_ ?_
      · intro tail
        exact ⟨by simp only; omega, Nat.zero_le _, hpos, hshort, nofun, nofun⟩
      · rw [append_nil]
        exact hrest data
    · next hzero =>
      have hdata : r.data.length = r.len := hlen.resolve_left hzero
      refine fits_cons data _ _ ?_ ?_
      · intro tail
        refine ⟨by simp only; omega, by simp, hpos, hshort, fun _ => ?_, fun _ => ?_⟩
        · simp only [length_append]
          omega
        · rw [append_assoc]
          rw [readAt_append_right data data.length 0 r.len rfl]
          exact readAt_append_left _ _ _ hdata
      · have hnext := hrest (data ++ r.data)
        rw [length_append, hdata] at hnext
        exact hnext

theorem fits_noted {data : Bytes} {segs : List Seg}
    (h : ∀ s ∈ segs, s.off ≤ 2 ^ 62 ∧ 0 < s.length ∧ s.length ≤ compareChunk ∧ s.pos = 0 ∧
      s.kind ≠ .data) : Fits data (segs.map (fun s => (s, []))) := by
  induction segs with
  | nil => exact fits_nil data
  | cons s segs ih =>
    obtain ⟨hoff, hpos, hshort, hplace, hkind⟩ := h s (mem_cons_self ..)
    refine fits_cons data _ _ ?_ ?_
    · intro tail
      refine ⟨?_, ?_, hpos, hshort, fun hk => absurd hk hkind, fun hk => absurd hk hkind⟩
      · exact lt_of_le_of_lt hoff (by decide)
      · simp only [hplace]
        exact Nat.zero_le _
    · rw [append_nil]
      exact ih (fun x hx => h x (mem_cons_of_mem s hx))

variable {δ : Type} [DecidableEq δ] {hash : Bytes → δ} {disk : Option Bytes}

theorem compareKind_ne {e : CompareEntry δ} {k : SegKind}
    (h : compareKind hash disk e = some k) : k ≠ .data := by
  unfold compareKind at h
  split at h
  · cases h
    nofun
  · split at h
    · cases h
    · split at h
      · cases h
        nofun
      · cases h

theorem compareEntries_noted {limit : ℕ} {es : List (CompareEntry δ)} :
    ∀ s ∈ (compareEntries hash limit disk es).1, s.off ≤ 2 ^ 62 ∧ 0 < s.length ∧
      s.length ≤ compareChunk ∧ s.pos = 0 ∧ s.kind ≠ .data := by
  induction es with
  | nil => simp [compareEntries]
  | cons e es ih =>
    unfold compareEntries
    split
    · simp
    · split
      · simp
      · cases hk : compareKind hash disk e with
        | none => exact ih
        | some kind =>
          intro s hs
          rcases mem_cons.mp hs with rfl | hs
          · refine ⟨?_, ?_, ?_, rfl, compareKind_ne hk⟩
            · simp only
              omega
            · simp only
              omega
            · simp only
              omega
          · exact ih s hs

section Calls

variable {δ : Type} [DecidableEq δ] (hash : Bytes → δ) (limit : ℕ) (id : Name) {v : Volume}

/-- All the records are in the session. -/
def HoldsAll (log : List Logged) : Volume → Prop :=
  AtSession id (fun s => Stored log s ∧ s.manifest = some (entriesOf log))

/-- The records of an upload, placed after the data that is there. -/
def uploadRecords (body : UploadBody) (size : ℕ) : List Logged :=
  placeRecords size (acceptRecords limit body.records).1

/-- The records that a compare notes for the disk it finds. -/
def compareRecords (body : CompareBody δ) (disk : Option Bytes) : List Logged :=
  (compareEntries hash limit disk body.entries).1.map (fun s => (s, []))

variable (log : List Logged) (size : ℕ) {now stamp : ℤ} {s : Volume} {rs : List Logged}

theorem safe_upload (hsize : size < 2 ^ 63) {body : UploadBody} :
    Safe (HoldsLog id log size) (upload limit id body now)
      (fun _ => HoldsAll id (log ++ uploadRecords limit body size))
      (Grown id log (uploadRecords limit body size)) := by
  refine safe_bind (safe_stops
    (safe_openSession id log size now hsize) (grown_of_holds id log _ size)) ?_
  intro _
  refine safe_bind (Q := fun pos v => pos = size ∧ AtSession id (Opened log size) v)
    (safe_inspect _ ?_) ?_
  · rintro v ⟨hgrown, s, hs, hopen⟩
    refine ⟨hgrown, ?_⟩
    intro pos hpos
    cases hpos
    refine ⟨?_, s, hs, hopen⟩
    rw [hs]
    exact hopen.size
  intro pos
  by_cases hpos : pos = size
  · subst hpos
    refine safe_bind (safe_from (safe_storeRecords id log
      (uploadRecords limit body pos) pos (uploadRefusal limit body).isSome) ?_) ?_
    · rintro v ⟨-, -, s, hs, hopen⟩
      refine ⟨s, hs, hopen, ?_⟩
      rw [← hopen.size]
      exact fits_placeRecords _ acceptRecords_readable _
    · intro _
      cases uploadRefusal limit body with
      | some e => exact safe_fail (fun _ h => h.1)
      | none => exact safe_pure () (fun _ h => ⟨h.1, h.2 rfl⟩)
  · intro v hv
    exact absurd hv.2.1 hpos

theorem holdsLog_congr (v s : Volume)
    (h : findSession s id = findSession v id) (hv : HoldsLog id log size v) :
    HoldsLog id log size s := by
  unfold HoldsLog AtSession at hv ⊢
  rw [h]
  exact hv

theorem holdsLog_recover
    (hv : HoldsLog id log size v) (hs : (recover stamp).Stopped v s) : HoldsLog id log size s := by
  have hrest := sameRest_of_only (only_recover stamp) hs
  refine holdsLog_congr id log size v s ?_ hv
  unfold findSession
  rw [hrest.2.1]

theorem holdsAll_writeBase (base : Option DiskMoment) (now : ℤ) (v : Volume)
    (hv : HoldsAll id log v) : HoldsAll id log (v.onSession id (Session.writeBase base now)) := by
  refine atSession_onSession ?_ hv
  rintro s ⟨hstored, hm⟩
  have hsame : (Session.writeBase base now s).manifest = s.manifest ∧
      (Session.writeBase base now s).data = s.data := by
    unfold Session.writeBase
    cases s.base <;> exact ⟨rfl, rfl⟩
  exact ⟨stored_congr log hstored hsame.1 (by rw [hsame.2]), hsame.1.trans hm⟩

theorem grown_of_all {log : List Logged} (h : HoldsAll id (log ++ rs) v) :
    Grown id log rs v := by
  obtain ⟨s, hs, hstored, -⟩ := h
  refine ⟨rs.length, dataSize s, .inr ⟨s, hs, ?_, rfl⟩⟩
  rw [take_length]
  exact hstored

theorem safe_compare (hsize : size < 2 ^ 63)
    {body : CompareBody δ} (hv : HoldsLog id log size v) :
    Safe (fun x => x = v) (UploadSessions.compare hash limit id body now stamp)
      (fun _ => HoldsAll id (log ++
        compareRecords hash limit body (comparedDisk ((recover stamp).exec v))))
      (Grown id log
        (compareRecords hash limit body (comparedDisk ((recover stamp).exec v)))) := by
  refine safe_bind (Q := fun _ x => x = (recover stamp).exec v ∧ HoldsLog id log size x) ?_ ?_
  · rintro x rfl
    refine ⟨fun _ _ => ⟨rfl, ?_⟩, ?_⟩
    · exact holdsLog_recover id log size hv (stopped_exec _ _)
    · intro s hs
      exact grown_of_holds id log _ size s (holdsLog_recover id log size hv hs)
  intro _
  refine safe_bind (Q := fun _ x => x = (recover stamp).exec v ∧ HoldsLog id log size x)
    (safe_inspect _ (fun x hx => ⟨hx.1, fun _ _ => hx.2⟩)) ?_
  intro base
  refine safe_bind (Q := fun disk x => disk = comparedDisk ((recover stamp).exec v) ∧
    HoldsLog id log size x) (safe_inspect _ ?_) ?_
  · rintro x ⟨hgrown, rfl, hx⟩
    refine ⟨hgrown, ?_⟩
    intro disk hdisk
    cases hdisk
    exact ⟨rfl, hx⟩
  intro disk
  by_cases hdisk : disk = comparedDisk ((recover stamp).exec v)
  · rw [← hdisk]
    refine safe_bind (safe_weaken (safe_openSession id log size now hsize) (fun _ h => h.2.2)
      (fun _ _ h => h) (grown_of_holds id log _ size)) ?_
    intro _
    refine safe_bind (safe_from (safe_storeRecords id log
      (compareRecords hash limit body disk) size
        (compareRefusal hash limit disk body).isSome) ?_) ?_
    · rintro x ⟨-, s, hs, hopen⟩
      exact ⟨s, hs, hopen, fits_noted compareEntries_noted⟩
    intro _
    cases compareRefusal hash limit disk body with
    | some e => exact safe_fail (fun _ h => h.1)
    | none =>
      refine safe_bind (Q := fun _ => HoldsAll id (log ++ compareRecords hash limit body disk))
        (safe_perform _ (fun _ h => h.1) ?_ ?_) ?_
      · intro x hx
        have hall := holdsAll_writeBase id _ (some base) now x (hx.2 rfl)
        exact ⟨grown_of_all id hall, hall⟩
      · rintro x x' hx rfl
        exact grown_of_all id (holdsAll_writeBase id _ none now x (hx.2 rfl))
      · intro _
        exact safe_pure _ (fun _ h => h)
  · intro x hx
    exact absurd hx.2.1 hdisk

theorem loadSession_ok : ∃ segs, (loadSession id).result v = .ok segs := by
  have hlook : (inspect (fun v => .ok (findSession v id)) : VolProg (Option Session)) v =
      ([], .ok (findSession v id)) := rfl
  unfold loadSession Prog.result
  rw [bind_look _ _ v hlook]
  cases findSession v id with
  | none => exact ⟨_, rfl⟩
  | some s =>
    cases hm : s.manifest with
    | none => simp only [hm]; exact ⟨_, rfl⟩
    | some manifest =>
      simp only [hm]
      split <;> exact ⟨_, rfl⟩

/-- A load leaves the records of the log, and a record file of nothing else. -/
theorem safe_load (hsize : size < 2 ^ 63) :
    Safe (HoldsLog id log size) (loadSession id)
      (fun segs v => segs = (log.map Prod.fst).foldl putSeg [] ∧
        ∀ s, findSession v id = some s → WholeOrNone log size s)
      (HoldsLog id log size) := by
  rintro v (⟨hnone, rfl, rfl⟩ | hv)
  · have hlook : loadSession id v = ([], .ok []) := by
      have hfind : (inspect (fun v => .ok (findSession v id)) : VolProg (Option Session)) v =
          ([], .ok none) := congrArg (fun x => ([], Except.ok x)) hnone
      unfold loadSession
      rw [bind_look _ _ v hfind]
      rfl
    unfold Prog.exec Prog.Stopped Prog.result Prog.steps
    rw [hlook]
    refine ⟨?_, ?_⟩
    · intro segs hsegs
      cases hsegs
      refine ⟨rfl, ?_⟩
      intro s hs
      rw [Device.applyAll_nil, hnone] at hs
      cases hs
    · intro s hs
      exact (show s = v from hs) ▸ .inl ⟨hnone, rfl, rfl⟩
  · obtain ⟨hend, hstop⟩ := safe_loadSession id log size hsize v hv
    refine ⟨?_, fun s hs => .inr (hstop s hs)⟩
    intro segs hsegs
    obtain ⟨heq, s, hs, hwhole⟩ := hend segs hsegs
    refine ⟨heq, ?_⟩
    intro s' hs'
    rw [hs] at hs'
    cases hs'
    exact hwhole

/-- A load accepts the session. It gives for every offset the last record of the
log, and the data file has the data that was sent for it. -/
def LoadsLast (v : Volume) : Prop :=
  ∃ segs, (loadSession id).result v = .ok segs ∧
    (∀ off, findSeg segs off = (lastFor log off).map Prod.fst) ∧
    ∀ off x, lastFor log off = some x → x.1.kind = .data →
      ∃ s data, findSession v id = some s ∧ s.data = some data ∧
        readAt data x.1.pos x.1.length = x.2

theorem loadsLast_of_holdsLog (hsize : size < 2 ^ 63)
    (hv : HoldsLog id log size v) : LoadsLast id log v := by
  obtain ⟨segs, hsegs⟩ := loadSession_ok id
  obtain ⟨rfl, -⟩ := (safe_load id log size hsize v hv).1 segs hsegs
  refine ⟨_, hsegs, findSeg_log, ?_⟩
  intro off x hx hkind
  have hmem := mem_reverse.mp (mem_of_find?_eq_some hx)
  rcases hv with ⟨-, rfl, -⟩ | ⟨s, hs, hstored, -⟩
  · cases hmem
  · have hgood := hstored.good x hmem
    cases hd : s.data with
    | none =>
      have hin := hgood.inside hkind
      have hpos := hgood.nonempty
      rw [hd] at hin
      change _ ≤ 0 at hin
      omega
    | some data =>
      rw [hd] at hgood
      exact ⟨s, data, hs, hd, hgood.bytes hkind⟩

/-- A call on the session. -/
inductive Call (δ : Type)
  | status
  | compare (body : CompareBody δ) (stamp : ℤ)
  | upload (body : UploadBody)

def Call.prog (now : ℤ) : Call δ → VolProg Unit
  | .status => do
    let _ ← UploadSessions.status id
    return ()
  | .compare body stamp => do
    let _ ← UploadSessions.compare hash limit id body now stamp
    return ()
  | .upload body => UploadSessions.upload limit id body now

/-- The size of the data file. -/
def sessionSize (v : Volume) : ℕ := (findSession v id).elim 0 dataSize

/-- The records that a call appends, if it is not stopped. -/
def Call.records (v : Volume) : Call δ → List Logged
  | .status => []
  | .compare body stamp =>
    compareRecords hash limit body (comparedDisk ((recover stamp).exec v))
  | .upload body => uploadRecords limit body (sessionSize id v)

theorem sessionSize_eq (h : HoldsLog id log size v) : sessionSize id v = size := by
  unfold sessionSize
  rcases h with ⟨hnone, -, rfl⟩ | ⟨s, hs, -, hdata⟩
  · rw [hnone]
    rfl
  · rw [hs]
    exact hdata

/-- What one call does to the session: each stop leaves the first of its records
after the earlier ones, and a good answer comes after the last. -/
theorem safe_call (c : Call δ) (now : ℤ) (v : Volume)
    (hv : HoldsLog id log (sessionSize id v) v) (hsize : sessionSize id v < 2 ^ 63) :
    Safe (fun x => x = v) (c.prog hash limit id now)
      (fun _ x => ∃ size, HoldsLog id (log ++ c.records hash limit id v) size x)
      (Grown id log (c.records hash limit id v)) := by
  have hall : ∀ rs x, HoldsAll id (log ++ rs) x → ∃ size, HoldsLog id (log ++ rs) size x := by
    rintro rs x ⟨s, hs, hstored, -⟩
    exact ⟨dataSize s, .inr ⟨s, hs, hstored, rfl⟩⟩
  have hfrom : ∀ x, x = v → HoldsLog id log (sessionSize id v) x := by
    rintro x rfl
    exact hv
  cases c with
  | status =>
    have hstart : Safe (HoldsLog id log (sessionSize id v)) (status id)
        (fun _ => HoldsLog id log (sessionSize id v)) (HoldsLog id log (sessionSize id v)) := by
      refine safe_bind (safe_load id log _ hsize) (fun segs => safe_bind
        (Q := fun _ => HoldsLog id log (sessionSize id v)) (safe_inspect _ ?_) ?_)
      · exact fun x hx => ⟨hx.1, fun _ _ => hx.1⟩
      · exact fun _ => safe_pure _ (fun x hx => ⟨hx.1, hx.1⟩)
    refine safe_bind (safe_weaken hstart hfrom (fun _ _ h => h)
      (grown_of_holds id log _ _)) (fun _ => safe_pure () ?_)
    intro x hx
    refine ⟨hx.1, sessionSize id v, ?_⟩
    rw [show Call.records hash limit id v (.status : Call δ) = [] from rfl, append_nil]
    exact hx.2
  | compare body stamp =>
    refine safe_bind (safe_compare hash limit id log _ hsize hv) (fun _ => safe_pure () ?_)
    exact fun x hx => ⟨hx.1, hall _ x hx.2⟩
  | upload body =>
    exact safe_weaken (safe_upload limit id log _ hsize) hfrom
      (fun _ x hx => hall _ x hx) (fun _ h => h)

/-- The number of whole entries in the record file. -/
def wholeEntries (v : Volume) : ℕ :=
  (((findSession v id).bind Session.manifest).getD []).length / manifestEntrySize

theorem wholeEntries_eq
    (h : HoldsLog id log size v) : wholeEntries id v = log.length := by
  unfold wholeEntries
  rcases h with ⟨hnone, rfl, -⟩ | ⟨s, hs, hstored, -⟩
  · rw [hnone]
    rfl
  · obtain ⟨torn, hcat, htorn⟩ := hstored.manifest
    rw [hs]
    change (s.manifest.getD []).length / manifestEntrySize = _
    rw [hcat, length_append, length_entriesOf, Nat.add_comm,
      Nat.add_mul_div_right _ _ (by decide), Nat.div_eq_of_lt htorn, Nat.zero_add]

/-- The record file says how many of the new records the session holds. -/
theorem holdsLog_of_grown {log : List Logged} (h : Grown id log rs s) :
    HoldsLog id (log ++ rs.take (wholeEntries id s - log.length)) (sessionSize id s) s := by
  obtain ⟨m, size, hgrown⟩ := h
  have htake : rs.take (wholeEntries id s - log.length) = rs.take m := by
    rw [wholeEntries_eq id _ size hgrown, length_append, Nat.add_sub_cancel_left,
      length_take, ← take_take, take_length]
  rw [htake, sessionSize_eq id _ size hgrown]
  exact hgrown

end Calls

section Runs

variable {δ : Type} [DecidableEq δ] (hash : Bytes → δ) (limit : ℕ) (id : Name)

/-- Runs of calls on one session, each stopped anywhere or not at all. Between
calls, anything may happen to the folder that leaves the session as it is. The
log is the records whose entries are whole in the record file. The size of a
file is an int64. -/
inductive SessionRun : List Logged → Volume → Prop
  | start (v : Volume) (h : findSession v id = none) : SessionRun [] v
  | call (log : List Logged) (v s : Volume) (c : Call δ) (now : ℤ) (h : SessionRun log v)
      (hs : (c.prog hash limit id now).Stopped v s) (hsize : sessionSize id s < 2 ^ 63) :
      SessionRun (log ++ (c.records hash limit id v).take (wholeEntries id s - log.length)) s
  | other (log : List Logged) (v s : Volume) (h : SessionRun log v)
      (hs : findSession s id = findSession v id) : SessionRun log s

theorem run_holdsLog {log : List Logged} {v : Volume} (h : SessionRun hash limit id log v) :
    HoldsLog id log (sessionSize id v) v ∧ sessionSize id v < 2 ^ 63 := by
  induction h with
  | start v hnone =>
    have hsize : sessionSize id v = 0 := by
      unfold sessionSize
      rw [hnone]
      rfl
    exact ⟨.inl ⟨hnone, rfl, hsize⟩, by rw [hsize]; decide⟩
  | call log v s c now _ hs hsize ih =>
    have hgrown := (safe_call hash limit id log c now v ih.1 ih.2 v rfl).2 s hs
    exact ⟨holdsLog_of_grown id hgrown, hsize⟩
  | other log v s _ hs ih =>
    have hsize : sessionSize id s = sessionSize id v := by
      unfold sessionSize
      rw [hs]
    rw [hsize]
    exact ⟨holdsLog_congr id log _ v s hs ih.1, ih.2⟩

/-- After any calls, each stopped anywhere, a load accepts the session. It gives
for every offset the last record that was written whole, with the data that was
sent for it, and leaves a record file of the whole entries only. -/
theorem load_finds_last_records (log : List Logged) (v : Volume)
    (hrun : SessionRun hash limit id log v) :
    LoadsLast id log v ∧ ∀ s, findSession ((loadSession id).exec v) id = some s →
      s.manifest.getD [] = entriesOf log := by
  obtain ⟨hv, hsize⟩ := run_holdsLog hash limit id hrun
  refine ⟨loadsLast_of_holdsLog id log _ hsize hv, ?_⟩
  intro s hs
  obtain ⟨segs, hsegs⟩ := loadSession_ok id
  rcases ((safe_load id log _ hsize v hv).1 segs hsegs).2 s hs with ⟨⟨hstored, -⟩, hm | hm⟩
  · rw [hm, hstored.made hm]
    rfl
  · rw [hm]
    rfl

end Runs

/-- Two bytes for the start of the disk. -/
def twoSent : UploadBody := ⟨[⟨0, false, 2, [7, 8]⟩], true⟩

def copyName : Name := ['a']

/-- The folder after an upload that stopped in its data. -/
def tornUpload : Volume :=
  { Volume.empty with incoming := [(copyName, ⟨some [], some [7], none, 3⟩)] }

theorem stopped_tornUpload :
    (upload 10 copyName twoSent 3).Stopped Volume.empty tornUpload := by
  have hsteps : (upload 10 copyName twoSent 3).steps Volume.empty =
      [.makeSession copyName 3, .createManifest copyName 3, .createData copyName 3,
        .store copyName [([7, 8], appendSeg ⟨.data, 0, 2, 0⟩)] 21] := by decide +kernel
  unfold Prog.Stopped
  refine .inr (.inr (.inr (.inr (.inr (.inr (.inr (.inl ?_)))))))
  exact ⟨0, 1, 0, by decide +kernel⟩

theorem load_finds_last_records_tornUpload :
    ∃ segs, (loadSession copyName).result ((upload 10 copyName twoSent 4).exec tornUpload) =
        .ok segs ∧ findSeg segs 0 = some ⟨.data, 0, 2, 1⟩ := by
  have hnone : SessionRun (fun b => b) 10 copyName [] Volume.empty := .start Volume.empty rfl
  have hone := SessionRun.call [] Volume.empty tornUpload (.upload twoSent) 3 hnone
    stopped_tornUpload (by decide +kernel)
  have htwo := SessionRun.call _ _ ((upload 10 copyName twoSent 4).exec tornUpload)
    (.upload twoSent) 4 hone (stopped_exec _ _) (by decide +kernel)
  obtain ⟨⟨segs, hsegs, hfind, -⟩, -⟩ :=
    load_finds_last_records (fun b => b) 10 copyName _ _ htwo
  exact ⟨segs, hsegs, (hfind 0).trans (by decide +kernel)⟩

end FilePool.SessionRuns
