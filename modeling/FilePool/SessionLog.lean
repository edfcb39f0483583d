import FilePool.Pruning
import FilePool.UploadSessions

/-!
What a session holds after any calls, each stopped anywhere. The record file is
the entries of the records that were written whole, and then at most a piece of
one more entry; the data of each of these records is in the data file. A stop
adds some of the records of its call, in order; a call first cuts off the piece.
-/
namespace FilePool.SessionLog

open ByteFiles BigEndian CopyChunks UndoFormat UndoNames VolumeSteps DurableSteps List
  DurableSteps.Prog UploadSessions

/-- A record together with the bytes that were sent for it. -/
abbrev Logged := Seg × Bytes

def entriesOf (log : List Logged) : Bytes := log.flatMap (fun x => appendSeg x.1)

/-- The record can be read back, and its data is in the data file. -/
structure Good (data : Bytes) (x : Logged) : Prop where
  off : x.1.off < 2 ^ 63
  pos : x.1.pos ≤ data.length
  nonempty : 0 < x.1.length
  short : x.1.length ≤ compareChunk
  inside : x.1.kind = .data → x.1.pos + x.1.length ≤ data.length
  bytes : x.1.kind = .data → readAt data x.1.pos x.1.length = x.2

/-- The session holds the records of the log and at most a piece of one more. -/
structure Stored (log : List Logged) (s : Session) : Prop where
  manifest : ∃ torn, s.manifest.getD [] = entriesOf log ++ torn ∧ torn.length < manifestEntrySize
  made : s.manifest = none → log = []
  good : ∀ x ∈ log, Good (s.data.getD []) x

@[simp] theorem length_appendSeg (s : Seg) : (appendSeg s).length = manifestEntrySize := by
  simp [appendSeg, manifestEntrySize]

@[simp] theorem length_entriesOf (log : List Logged) :
    (entriesOf log).length = log.length * manifestEntrySize := by
  induction log with
  | nil => simp [entriesOf]
  | cons x log ih =>
    unfold entriesOf at ih ⊢
    rw [flatMap_cons, length_append, ih, length_appendSeg, length_cons]
    ring

theorem ofCode_code (k : SegKind) : SegKind.ofCode k.code = some k := by
  cases k <;> rfl

theorem ofBigEndian_four (n : ℕ) (h : n < 2 ^ 32) : ofBigEndian (bigEndian 4 n) = n := by
  rw [ofBigEndian_bigEndian]
  exact Nat.mod_eq_of_lt (by omega)

theorem readSeg_appendSeg (data : Bytes) (hdata : data.length < 2 ^ 63) (x : Logged)
    (h : Good data x) : readSeg (appendSeg x.1) = some x.1 := by
  obtain ⟨⟨kind, off, length, pos⟩, bytes⟩ := x
  have hoff : off < 2 ^ 63 := h.off
  have hpos : pos < 2 ^ 63 := lt_of_le_of_lt h.pos hdata
  have hne : 0 < length := h.nonempty
  have hshort : length ≤ compareChunk := h.short
  have hchunk : compareChunk = 65536 := rfl
  have h1 : readAt (appendSeg ⟨kind, off, length, pos⟩) 1 8 = bigEndian 8 off := by
    simp [readAt, appendSeg]
  have h2 : readAt (appendSeg ⟨kind, off, length, pos⟩) 9 4 = bigEndian 4 length := by
    simp [readAt, appendSeg]
  have h3 : readAt (appendSeg ⟨kind, off, length, pos⟩) 13 8 = bigEndian 8 pos := by
    have hcat : appendSeg ⟨kind, off, length, pos⟩ =
        (kind.code :: (bigEndian 8 off ++ bigEndian 4 length)) ++ bigEndian 8 pos := by
      simp [appendSeg]
    unfold readAt
    rw [hcat, drop_left' (by simp), take_of_length_le (by simp)]
  have h0 : byteAt (appendSeg ⟨kind, off, length, pos⟩) 0 = kind.code := rfl
  unfold readSeg
  simp only [h0, h1, h2, h3, ofCode_code, toSigned_ofBigEndian off hoff,
    toSigned_ofBigEndian pos hpos, ofBigEndian_four length (by omega), Int.toNat_natCast]
  rw [if_pos ⟨by omega, by omega, hne, hshort⟩]

theorem not_dropped (data : Bytes) (hdata : data.length < 2 ^ 63) (x : Logged) (h : Good data x) :
    ¬ x.1.dropped data.length := by
  rintro ⟨hkind, hlt⟩
  have hin := h.inside hkind
  have hwrap : wrap (x.1.pos + x.1.length : ℤ) = x.1.pos + x.1.length := by
    apply wrap_of_inRange
    unfold InRange
    omega
  omega

/-- The whole entries are read, and the piece after them is left out. -/
theorem loadEntries_log (data torn : Bytes) (hdata : data.length < 2 ^ 63)
    (htorn : torn.length < manifestEntrySize) (log : List Logged) (h : ∀ x ∈ log, Good data x)
    (fuel good : ℕ) (segs : List Seg) (hfuel : log.length < fuel) :
    loadEntries data.length fuel (entriesOf log ++ torn) good segs =
      (good + log.length * manifestEntrySize, (log.map Prod.fst).foldl putSeg segs) := by
  induction log generalizing fuel good segs with
  | nil =>
    obtain ⟨fuel, rfl⟩ : ∃ k, fuel = k + 1 := ⟨fuel - 1, by simp at hfuel; omega⟩
    unfold loadEntries
    rw [if_pos (by simpa using htorn)]
    simp
  | cons x log ih =>
    obtain ⟨fuel, rfl⟩ : ∃ k, fuel = k + 1 := ⟨fuel - 1, by simp at hfuel; omega⟩
    have hx := h x (mem_cons_self ..)
    have hcons : entriesOf (x :: log) ++ torn = appendSeg x.1 ++ (entriesOf log ++ torn) := by
      simp [entriesOf]
    have htake : (appendSeg x.1 ++ (entriesOf log ++ torn)).take manifestEntrySize =
        appendSeg x.1 := by
      rw [take_append_of_le_length (by simp), take_of_length_le (by simp)]
    have hdrop : (appendSeg x.1 ++ (entriesOf log ++ torn)).drop manifestEntrySize =
        entriesOf log ++ torn := by
      rw [drop_append_of_le_length (by simp), drop_eq_nil_of_le (by simp), nil_append]
    rw [hcons]
    unfold loadEntries
    rw [if_neg (by simp), htake, readSeg_appendSeg data hdata x hx, hdrop]
    simp only
    rw [if_neg (not_dropped data hdata x hx), ih (fun y hy => h y (mem_cons_of_mem x hy))
      fuel _ _ (by simpa using hfuel), map_cons, foldl_cons, length_cons]
    refine congrArg (·, _) ?_
    ring

variable (v : Volume) (id : Name) {f : Session → Session} {R : Session → Prop} {s : Session}

theorem findSession_onSession (f : Session → Session) :
    findSession (v.onSession id f) id = (findSession v id).map f := by
  unfold findSession Volume.onSession
  simp only [find?_map]
  have hpred : (fun s : Name × Session => decide (s.1 = id)) ∘
      (fun s : Name × Session => if s.1 = id then (s.1, f s.2) else s) =
        fun s => decide (s.1 = id) := by
    funext s
    by_cases hs : s.1 = id <;> simp [hs]
  rw [hpred]
  cases hfind : v.incoming.find? (fun s => decide (s.1 = id)) with
  | none => rfl
  | some s =>
    have hs : s.1 = id := by simpa using find?_some hfind
    simp [hs]

theorem findSession_at (s : Session) (hs : findSession v id = some s) :
    findSession (v.onSession id f) id = some (f s) := by
  rw [findSession_onSession, hs]
  rfl

theorem findSession_makeSession {now : ℤ} : findSession ((Step.makeSession id now).apply v) id =
      some ((findSession v id).getD ⟨none, none, none, now⟩) := by
  unfold findSession
  simp only [Step.apply]
  cases hfind : v.incoming.find? (fun s => decide (s.1 = id)) with
  | none =>
    have hnone : v.incoming.any (fun s => decide (s.1 = id)) = false := by
      rw [any_eq_false]
      intro s hs
      exact find?_eq_none.mp hfind s hs
    rw [if_neg (by simp [hnone])]
    simp [hfind]
  | some s =>
    have hany : v.incoming.any (fun s => decide (s.1 = id)) = true :=
      any_eq_true.mpr ⟨s, mem_of_find?_eq_some hfind, by
        simpa using find?_some hfind⟩
    rw [if_pos hany, hfind]
    rfl

/-- The session of a copy is there and satisfies R. -/
def AtSession (id : Name) (R : Session → Prop) (v : Volume) : Prop :=
  ∃ s, findSession v id = some s ∧ R s

/-- The folder holds these records of a copy, and its data file has this size. -/
def HoldsLog (id : Name) (log : List Logged) (size : ℕ) (v : Volume) : Prop :=
  (findSession v id = none ∧ log = [] ∧ size = 0) ∨
    AtSession id (fun s => Stored log s ∧ dataSize s = size) v

theorem atSession_onSession {id : Name} {R' : Session → Prop}
    (hf : ∀ s, R s → R' (f s)) {v : Volume} (h : AtSession id R v) :
    AtSession id R' (v.onSession id f) := by
  obtain ⟨s, hs, hR⟩ := h
  exact ⟨f s, findSession_at v id s hs, hf s hR⟩

theorem loadSession_eq {id : Name} {log : List Logged} {v : Volume}
    (hs : findSession v id = some s) (hstored : Stored log s) (hdata : dataSize s < 2 ^ 63)
    {manifest : Bytes} (hm : s.manifest = some manifest) :
    loadManifest s manifest = (log.length * manifestEntrySize, (log.map Prod.fst).foldl putSeg []) ∧
      (loadSession id).result v = .ok ((log.map Prod.fst).foldl putSeg []) := by
  obtain ⟨torn, hcat, htorn⟩ := hstored.manifest
  rw [hm] at hcat
  have hload : loadManifest s manifest =
      (log.length * manifestEntrySize, (log.map Prod.fst).foldl putSeg []) := by
    unfold loadManifest dataSize
    change manifest = _ at hcat
    rw [hcat, loadEntries_log (s.data.getD []) torn hdata htorn log hstored.good _ 0 []]
    · rw [Nat.zero_add]
    · rw [length_append, length_entriesOf]
      have hsize : manifestEntrySize = 21 := rfl
      rw [hsize]
      omega
  refine ⟨hload, ?_⟩
  have hlook : (inspect (fun v => .ok (findSession v id)) : VolProg (Option Session)) v =
      ([], .ok (some s)) := congrArg (fun x => ([], Except.ok x)) hs
  unfold loadSession Prog.result
  rw [bind_look _ _ v hlook]
  simp only [hm, hload]
  split
  · rfl
  · rfl

variable (log : List Logged) (size : ℕ) (now : ℤ)

/-- The session holds the records and nothing after them, in a file if any. -/
def WholeOrNone (s : Session) : Prop :=
  (Stored log s ∧ dataSize s = size) ∧ (s.manifest = none ∨ s.manifest = some (entriesOf log))

/-- The session is open: both files are there, and the record file is whole. -/
structure Opened (s : Session) : Prop where
  stored : Stored log s
  size : dataSize s = size
  manifest : s.manifest = some (entriesOf log)
  data : ∃ data, s.data = some data

theorem stored_cut (h : Stored log s) {m : Bytes} (hm : s.manifest = some m) :
    Stored log (Session.cut (log.length * manifestEntrySize) s) ∧
      (Session.cut (log.length * manifestEntrySize) s).manifest = some (entriesOf log) := by
  obtain ⟨torn, hcat, -⟩ := h.manifest
  rw [hm] at hcat
  change m = _ at hcat
  have hcut : (Session.cut (log.length * manifestEntrySize) s).manifest = some (entriesOf log) := by
    unfold Session.cut
    rw [hm, hcat]
    change some (take _ _) = _
    rw [take_append_of_le_length (by simp), take_of_length_le (by simp)]
  refine ⟨⟨⟨[], ?_, by decide⟩, ?_, h.good⟩, hcut⟩
  · rw [hcut, append_nil]
    rfl
  · intro hnone
    rw [hcut] at hnone
    cases hnone

theorem safe_loadSession (hsize : size < 2 ^ 63) :
    Safe (AtSession id (fun s => Stored log s ∧ dataSize s = size)) (loadSession id)
      (fun segs v => segs = (log.map Prod.fst).foldl putSeg [] ∧
        AtSession id (WholeOrNone log size) v)
      (AtSession id (fun s => Stored log s ∧ dataSize s = size)) := by
  apply safe_of_state
  rintro v ⟨s, hs, hstored, hdata⟩
  have hlook : (inspect (fun v => .ok (findSession v id)) : VolProg (Option Session)) v =
      ([], .ok (some s)) := congrArg (fun x => ([], Except.ok x)) hs
  have hstart : AtSession id (fun s => Stored log s ∧ dataSize s = size) v :=
    ⟨s, hs, hstored, hdata⟩
  rintro x rfl
  unfold loadSession Prog.exec Prog.Stopped Prog.result Prog.steps
  rw [bind_look _ _ x hlook]
  cases hm : s.manifest with
  | none =>
    have hlog := hstored.made hm
    simp only [hm]
    refine ⟨?_, ?_⟩
    · intro segs hsegs
      cases hsegs
      rw [hlog]
      refine ⟨rfl, s, hs, ⟨?_, hdata⟩, .inl hm⟩
      rw [← hlog]
      exact hstored
    · intro x' hx'
      exact (show x' = x from hx') ▸ hstart
  | some manifest =>
    obtain ⟨hload, -⟩ := loadSession_eq hs hstored (hdata ▸ hsize) hm
    simp only [hm, hload]
    have hcut := stored_cut log hstored hm
    have hdone : AtSession id (WholeOrNone log size)
        (x.onSession id (Session.cut (log.length * manifestEntrySize))) :=
      ⟨_, findSession_at x id s hs, ⟨hcut.1, hdata⟩, .inr hcut.2⟩
    split
    · refine ⟨?_, ?_⟩
      · intro segs hsegs
        cases hsegs
        exact ⟨rfl, hdone⟩
      · intro x' hx'
        rcases hx' with rfl | htorn | rfl
        · exact hstart
        · exact htorn.elim
        · obtain ⟨t, ht, hw, -⟩ := hdone
          exact ⟨t, ht, hw⟩
    · refine ⟨?_, ?_⟩
      · intro segs hsegs
        cases hsegs
        refine ⟨rfl, s, hs, ⟨hstored, hdata⟩, .inr ?_⟩
        obtain ⟨torn, hcat, -⟩ := hstored.manifest
        rw [hm] at hcat
        change manifest = _ at hcat
        have hlen := congrArg length hcat
        rw [length_append, length_entriesOf] at hlen
        have hnil : torn = [] := length_eq_zero_iff.mp (by omega)
        rw [hm, hcat, hnil, append_nil]
      · intro x' hx'
        exact (show x' = x from hx') ▸ hstart

theorem stored_congr {s' : Session} (h : Stored log s) (hm : s'.manifest = s.manifest)
    (hd : s'.data.getD [] = s.data.getD []) : Stored log s' := by
  refine ⟨?_, ?_, ?_⟩
  · rw [hm]
    exact h.manifest
  · rw [hm]
    exact h.made
  · rw [hd]
    exact h.good

theorem holdsLog_of_at (hR : ∀ s, R s → Stored log s ∧ dataSize s = size)
    (v : Volume) (h : AtSession id R v) : HoldsLog id log size v := by
  obtain ⟨s, hs, hRs⟩ := h
  exact .inr ⟨s, hs, hR s hRs⟩

/-- A step that changes the session only, as f does, and is not torn. -/
theorem safe_onSession (R R' : Session → Prop) (t : Step)
    (ht : ∀ v, t.apply v = v.onSession id f) (htorn : ∀ v v', ¬ t.Torn v v')
    (hf : ∀ s, R s → R' (f s)) (C : Volume → Prop) (hR : ∀ v, AtSession id R v → C v)
    (hR' : ∀ v, AtSession id R' v → C v) :
    Safe (AtSession id R) (perform t : VolProg Unit) (fun _ => AtSession id R') C := by
  refine safe_atomic t htorn hR ?_
  intro v hv
  have hdone : AtSession id R' (t.apply v) := by
    rw [ht]
    exact atSession_onSession hf hv
  exact ⟨hR' _ hdone, hdone⟩

theorem safe_openSession (hsize : size < 2 ^ 63) :
    Safe (HoldsLog id log size) (openSession id now) (fun _ => AtSession id (Opened log size))
      (HoldsLog id log size) := by
  refine safe_bind (Q := fun _ => AtSession id (fun s => Stored log s ∧ dataSize s = size))
    (safe_atomic _ (fun _ _ h => h) (fun _ h => h) ?_) ?_
  · intro v hv
    have hmade : AtSession id (fun s => Stored log s ∧ dataSize s = size)
        ((Step.makeSession id now).apply v) := by
      refine ⟨_, findSession_makeSession v id, ?_⟩
      rcases hv with ⟨hnone, rfl, rfl⟩ | ⟨s, hs, hstored⟩
      · rw [hnone]
        exact ⟨⟨⟨[], rfl, by decide⟩, fun _ => rfl, by simp⟩, rfl⟩
      · rw [hs]
        exact hstored
    exact ⟨.inr hmade, hmade⟩
  intro _
  refine safe_bind (safe_weaken (safe_loadSession id log size hsize) (fun _ h => h.2)
    (fun _ _ h => h) (fun _ h => .inr h)) ?_
  intro segs
  refine safe_bind (Q := fun _ => AtSession id (fun s => (Stored log s ∧ dataSize s = size) ∧
    s.manifest = some (entriesOf log))) ?_ ?_
  · refine safe_from (safe_onSession id (WholeOrNone log size) _
      (.createManifest id now) (fun _ => rfl)
      (fun _ _ h => h) ?_ (HoldsLog id log size)
      (holdsLog_of_at id log size (fun _ h => h.1)) (holdsLog_of_at id log size (fun _ h => h.1)))
      (fun _ h => h.2.2)
    rintro s ⟨⟨hstored, hdata⟩, hm⟩
    rcases hm with hm | hm
    · have hlog := hstored.made hm
      have hnew : Session.createManifest now s = { s with manifest := some [], mtime := now } := by
        unfold Session.createManifest
        rw [hm]
      rw [hnew, hlog]
      exact ⟨⟨⟨⟨[], rfl, by decide⟩, fun _ => rfl, by simp⟩, hdata⟩, rfl⟩
    · have hold : Session.createManifest now s = s := by
        unfold Session.createManifest
        rw [hm]
      rw [hold]
      exact ⟨⟨hstored, hdata⟩, hm⟩
  intro _
  refine safe_from (safe_onSession id (fun s => (Stored log s ∧ dataSize s = size) ∧
      s.manifest = some (entriesOf log)) (Opened log size) (.createData id now) (fun _ => rfl)
      (fun _ _ h => h) ?_
      (HoldsLog id log size) (holdsLog_of_at id log size (fun _ h => h.1))
      (holdsLog_of_at id log size (fun _ h => ⟨h.stored, h.size⟩)))
      (fun _ h => h.2)
  rintro s ⟨⟨hstored, hdata⟩, hm⟩
  cases hd : s.data with
  | none =>
    have hnew : Session.createData now s = { s with data := some [], mtime := now } := by
      unfold Session.createData
      rw [hd]
    rw [hnew]
    refine ⟨stored_congr log hstored rfl ?_, ?_, hm, [], rfl⟩
    · rw [hd]
      rfl
    · rw [← hdata]
      unfold dataSize
      rw [hd]
      rfl
  | some data =>
    have hold : Session.createData now s = s := by
      unfold Session.createData
      rw [hd]
    rw [hold]
    exact ⟨hstored, hdata, hm, data, hd⟩

end FilePool.SessionLog
