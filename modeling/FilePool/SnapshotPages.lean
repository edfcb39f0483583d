import FilePool.CopyOrder
import FilePool.PoolRecords

/-!
The list of snapshots that the driver gives page by page. A request asks for one snapshot by
its ID or for the snapshots of one volume, and of an ID only the name is looked at. The token
of the next page is the place in the list where it begins.
-/
namespace FilePool.SnapshotPages

open UndoNames PoolRecords RewoundFolders CopyOrder List

structure Entry where
  snapshotID : Name
  sourceVolumeID : Name
  sizeBytes : ℤ
  readyToUse : Bool
  deriving DecidableEq, Repr

/-- One snapshot, of one volume if that is given too, the snapshots of a volume, or all. -/
inductive Filter
  | snapshot (id source : Name)
  | source (id : Name)
  | all

def filterOf (snapshotID sourceVolumeID : Name) : Filter :=
  if snapshotID ≠ [] then .snapshot snapshotID sourceVolumeID
  else if sourceVolumeID ≠ [] then .source sourceVolumeID
  else .all

inductive Answer
  | response (entries : List Entry) (nextToken : Name)
  | failed
  | panics
  deriving DecidableEq, Repr

def joinID (pool share name : Name) : Name := pool ++ '/' :: (share ++ '/' :: name)

def snapshotID (s : Snapshot) : Name := joinID s.poolName s.shareID s.name

def sourceVolumeID (s : Snapshot) : Name := joinID s.poolName s.shareID s.sourceSubVolume

def entry (id source : Name) (s : Snapshot) : Entry :=
  ⟨id, source, Int.bmod (s.sizeGB * 2 ^ 30) (2 ^ 64), s.readyToUse⟩

/-- A token that is not a number of 64 bits counts as none. -/
def startIndex (token : Name) : ℤ :=
  ((atoi token).filter (fun n => -2 ^ 63 ≤ n && n < 2 ^ 63)).getD 0

/-- The slice expression panics when the start is negative. -/
def page (maxEntries : ℤ) (entries : List Entry) (token : Name) : Answer :=
  let startIdx := min (startIndex token) entries.length
  if startIdx < 0 then .panics
  else
    let rest := entries.drop startIdx.toNat
    if 0 < maxEntries ∧ maxEntries < rest.length then
      .response (rest.take maxEntries.toNat) (formatInt (startIdx + maxEntries))
    else .response rest []

/-- A single snapshot is not given as a page, and all snapshots are given as none. -/
def listSnapshots (store : List Snapshot) (maxEntries : ℤ) (f : Filter) (token : Name) : Answer :=
  match f with
  | .snapshot id _ => match parseVolumeID id with
    | none => .response [] []
    | some v => .response ((store.find? (fun s => s.name = v.name)).toList.map
        (fun s => entry (joinID v.poolName v.shareID v.name) (sourceVolumeID s) s)) []
  | .source id => match parseVolumeID id with
    | none => .failed
    | some v => page maxEntries ((store.filter (fun s => s.sourceSubVolume = v.name)).map
        (fun s => entry (snapshotID s) id s)) token
  | .all => page maxEntries [] token

/-- What is seen on the way from token to token; an error ends it. -/
def follow (answer : Name → Answer) : ℕ → Name → Option (List Entry)
  | 0, _ => none
  | n + 1, token => match answer token with
    | .response es next => if next = [] then some es else (follow answer n next).map (es ++ ·)
    | .failed => some []
    | .panics => none

/-- No page but the last is empty, so there are no more pages than this. -/
def visited (store : List Snapshot) (maxEntries : ℤ) (f : Filter) : Option (List Entry) :=
  follow (listSnapshots store maxEntries f) (store.length + 1) []

def Matches : Filter → Snapshot → Prop
  | .snapshot id source, s => snapshotID s = id ∧ (source = [] ∨ sourceVolumeID s = source)
  | .source id, s => sourceVolumeID s = id
  | .all, _ => True

instance : (f : Filter) → (s : Snapshot) → Decidable (Matches f s)
  | .snapshot _ _, _ => inferInstanceAs (Decidable (_ ∧ _))
  | .source _, _ => inferInstanceAs (Decidable (_ = _))
  | .all, _ => inferInstanceAs (Decidable True)

/-- The snapshot has the name in the ID that is asked for, or is of a volume of the name in
the source that is asked for. -/
def picked : Filter → Snapshot → Bool
  | .snapshot id _, s => (parseVolumeID id).any (fun v => s.name = v.name)
  | .source id, s => (parseVolumeID id).any (fun v => s.sourceSubVolume = v.name)
  | .all, _ => false

/-- How a snapshot is shown that is picked. -/
def shown : Filter → Snapshot → Entry
  | .snapshot id _, s =>
    entry ((parseVolumeID id).elim [] (fun v => joinID v.poolName v.shareID v.name))
      (sourceVolumeID s) s
  | .source id, s => entry (snapshotID s) id s
  | .all, s => entry (snapshotID s) [] s

/-- The request is for a page, and its token is a negative number. -/
def Negative (f : Filter) (token : Name) : Prop :=
  startIndex token < 0 ∧ match f with
    | .snapshot _ _ => False
    | .source id => (parseVolumeID id).isSome
    | .all => True

/-- The names of the snapshots differ, and no name of a pool or ID of a share has a slash. -/
structure Stored (store : List Snapshot) : Prop where
  names : (store.map Snapshot.name).Nodup
  plain : ∀ s ∈ store, '/' ∉ s.poolName ∧ '/' ∉ s.shareID
  length : store.length < 2 ^ 63

variable {store : List Snapshot} {f : Filter} {maxEntries : ℤ} {token : Name}

theorem cut_append {c : Char} {a b : Name} (h : c ∉ a) : cut c (a ++ c :: b) = some (a, b) := by
  have hall : ∀ x ∈ a, decide (x ≠ c) = true := fun x hx => by
    simpa using ne_of_mem_of_not_mem hx h
  unfold cut
  rw [span_eq_takeWhile_dropWhile, takeWhile_append_of_pos hall, dropWhile_append_of_pos hall]
  simp

theorem parse_joinID {pool share name : Name} (hpool : '/' ∉ pool) (hshare : '/' ∉ share) :
    parseVolumeID (joinID pool share name) = some ⟨pool, share, name⟩ := by
  simp only [parseVolumeID, joinID, cut_append hpool, cut_append hshare, Option.map_some]

theorem startIndex_formatInt {n : ℤ} (hlow : 0 ≤ n) (hhigh : n < 2 ^ 63) :
    startIndex (formatInt n) = n := by
  simp only [startIndex, atoi_formatInt, Option.filter]
  rw [if_pos]
  · rfl
  · simp only [Bool.and_eq_true, decide_eq_true_eq]
    omega

theorem formatInt_ne_nil (n : ℤ) : formatInt n ≠ [] := by
  intro h
  have := atoi_formatInt n
  rw [h] at this
  cases this

/-- The pages from a place on are the rest of the list. -/
theorem follow_page {es : List Entry} (hlen : es.length < 2 ^ 63) {n : ℕ} {k : ℕ}
    (hstart : startIndex token = k) (hk : k ≤ es.length) (hn : es.length < n + k) :
    follow (page maxEntries es) n token = some (es.drop k) := by
  induction n generalizing k token with
  | zero => omega
  | succ n ih =>
    have hmin : min (startIndex token) es.length = k := by omega
    have hnot : ¬(k : ℤ) < 0 := by omega
    simp only [follow, page, hmin, Int.toNat_natCast, if_neg hnot]
    by_cases hmore : 0 < maxEntries ∧ maxEntries < (es.drop k).length
    · simp only [if_pos hmore]
      rw [length_drop] at hmore
      have hnext : startIndex (formatInt (k + maxEntries)) = (k + maxEntries.toNat : ℕ) := by
        rw [startIndex_formatInt (by omega) (by omega)]
        omega
      simp only [formatInt_ne_nil, if_false, ih hnext (by omega) (by omega), Option.map_some]
      rw [← drop_drop, take_append_drop]
    · simp only [if_neg hmore, if_true]

theorem find_toList (hs : Stored store) (n : Name) :
    (store.find? (fun s => s.name = n)).toList = store.filter (fun s => s.name = n) := by
  rw [← head?_filter]
  have hnames := hs.names.sublist ((filter_sublist (p := fun s => s.name = n)).map _)
  have hall : ∀ s ∈ store.filter (fun s => s.name = n), s.name = n := fun s hs => by
    simpa using (mem_filter.mp hs).2
  generalize store.filter (fun s => s.name = n) = l at hnames hall
  match l with
  | [] => rfl
  | [s] => rfl
  | s :: t :: rest => simp [hall s, hall t] at hnames

/-- The snapshots that are shown are those that are picked. -/
theorem visited_eq (hs : Stored store) :
    visited store maxEntries f = some ((store.filter (picked f)).map (shown f)) := by
  have hpages : ∀ es : List Entry, es.length ≤ store.length →
      follow (page maxEntries es) (store.length + 1) [] = some es := by
    intro es hes
    have := hs.length
    exact follow_page (by omega) rfl (Nat.zero_le _) (by omega)
  unfold visited
  cases f with
  | snapshot id source =>
    cases hparse : parseVolumeID id with
    | none => simp [follow, listSnapshots, picked, hparse]
    | some v =>
      have hpicked : picked (.snapshot id source) = fun s => decide (s.name = v.name) := by
        funext s
        simp [picked, hparse]
      simp [follow, listSnapshots, hparse, hpicked, ← find_toList hs, shown]
  | source id =>
    cases hparse : parseVolumeID id with
    | none => simp [follow, listSnapshots, picked, hparse]
    | some v =>
      have hpicked : picked (.source id) = fun s => decide (s.sourceSubVolume = v.name) := by
        funext s
        simp [picked, hparse]
      have hanswer : listSnapshots store maxEntries (.source id) =
          page maxEntries ((store.filter (picked (.source id))).map (shown (.source id))) := by
        funext token
        simp only [listSnapshots, hparse, hpicked]
        rfl
      rw [hanswer, hpages _ (by rw [length_map]; exact length_filter_le _ _)]
  | all =>
    have hpicked : picked .all = fun _ => false := rfl
    rw [hpicked, filter_false]
    exact hpages [] (Nat.zero_le _)

theorem shown_of_matches (hs : Stored store) {s : Snapshot} (hmem : s ∈ store)
    (hf : f ≠ .all) (hm : Matches f s) :
    picked f s = true ∧ shown f s = entry (snapshotID s) (sourceVolumeID s) s := by
  obtain ⟨hpool, hshare⟩ := hs.plain s hmem
  cases f with
  | snapshot id source =>
    obtain ⟨rfl, -⟩ := hm
    simp [picked, shown, snapshotID, parse_joinID hpool hshare]
  | source id =>
    obtain rfl := hm
    simp [picked, shown, sourceVolumeID, parse_joinID hpool hshare]
  | all => exact (hf rfl).elim

theorem matching_iff (hs : Stored store) :
    (store.filter (picked f)).map (shown f) =
        (store.filter (Matches f)).map (fun s => entry (snapshotID s) (sourceVolumeID s) s) ↔
      ∀ s ∈ store, picked f s = true ↔ Matches f s := by
  by_cases hf : f = .all
  · subst hf
    have hnone : store.filter (picked .all) = [] := filter_eq_nil_iff.mpr fun _ _ => nofun
    have hall : store.filter (Matches .all) = store :=
      filter_eq_self.mpr fun s _ => decide_eq_true trivial
    rw [hnone]
    cases store with
    | nil => simp
    | cons s rest =>
      exact iff_of_false nofun fun h => nomatch (h s mem_cons_self).mpr trivial
  · have hshown {s : Snapshot} (hmem : s ∈ store) := shown_of_matches hs hmem hf
    constructor
    · intro h s hmem
      have hlen := congrArg length h
      rw [length_map, length_map] at hlen
      have hfilter : (store.filter (picked f)).filter (Matches f) = store.filter (Matches f) := by
        rw [filter_filter]
        refine filter_congr fun t ht => ?_
        by_cases hm : Matches f t
        · simp [(hshown ht hm).1]
        · simp [hm]
      have hall : ∀ t ∈ store.filter (picked f), Matches f t := by
        rw [← hfilter, eq_comm, length_filter_eq_length_iff] at hlen
        simpa using hlen
      exact ⟨fun hp => hall s (mem_filter.mpr ⟨hmem, hp⟩), fun hm => (hshown hmem hm).1⟩
    · intro h
      have heq : store.filter (picked f) = store.filter (Matches f) :=
        filter_congr fun s hs => Bool.eq_iff_iff.mpr (by simpa using h s hs)
      rw [heq]
      refine map_congr_left fun s hmem => ?_
      obtain ⟨hmem, hm⟩ := mem_filter.mp hmem
      exact (hshown hmem (by simpa using hm)).2

/-- A request is answered with a panic exactly when it is for a page from a negative place. -/
theorem panics_iff : listSnapshots store maxEntries f token = .panics ↔ Negative f token := by
  have hpage : ∀ es, page maxEntries es token = .panics ↔ startIndex token < 0 := by
    intro es
    simp only [page]
    split
    · simp only [true_iff]
      omega
    · have : ¬startIndex token < 0 := by omega
      simp only [this, iff_false]
      split <;> exact nofun
  cases f with
  | snapshot id source => cases hparse : parseVolumeID id <;> simp [listSnapshots, Negative, hparse]
  | source id => cases hparse : parseVolumeID id <;> simp [listSnapshots, Negative, hparse, hpage]
  | all => simp [listSnapshots, Negative, hpage]

/-- The pages show the matching snapshots, each of them once and in order, exactly when a
name picks no snapshot of another ID or source and, without a filter, there is no snapshot;
and there is no panic exactly when the token is not a negative number. -/
theorem pages_right_iff (store : List Snapshot) (hs : Stored store) (maxEntries : ℤ)
    (f : Filter) :
    (visited store maxEntries f = some ((store.filter (Matches f)).map
        (fun s => entry (snapshotID s) (sourceVolumeID s) s)) ↔
      ∀ s ∈ store, picked f s = true ↔ Matches f s) ∧
    ∀ token, listSnapshots store maxEntries f token ≠ .panics ↔ ¬Negative f token := by
  rw [visited_eq hs, Option.some.injEq]
  exact ⟨matching_iff hs, fun token => not_congr panics_iff⟩

def sampleSnapshot (name volume : Char) : Snapshot :=
  ⟨[name], 1, .file, false, [volume], ['p'], ['s'], [], [], [], 1, .ready, true, [], []⟩

def sampleID (pool name : Char) : Name := joinID [pool] ['s'] [name]

/-- Without a filter nothing is listed, a snapshot is found under an ID with another pool and
listed for a volume of another pool, and a negative token ends in a panic. -/
theorem pages_wrong :
    visited [sampleSnapshot 'a' 'v'] 0 (filterOf [] []) = some [] ∧
    visited [sampleSnapshot 'a' 'v'] 0 (filterOf (sampleID 'q' 'a') []) =
      some [entry (sampleID 'q' 'a') (sampleID 'p' 'v') (sampleSnapshot 'a' 'v')] ∧
    visited [sampleSnapshot 'a' 'v'] 0 (filterOf [] (sampleID 'q' 'v')) =
      some [entry (sampleID 'p' 'a') (sampleID 'q' 'v') (sampleSnapshot 'a' 'v')] ∧
    listSnapshots [sampleSnapshot 'a' 'v'] 1 (filterOf [] (sampleID 'p' 'v')) ['-', '1'] =
      .panics := by
  decide +kernel

def sampleStore : List Snapshot :=
  [sampleSnapshot 'a' 'v', sampleSnapshot 'b' 'w', sampleSnapshot 'c' 'v', sampleSnapshot 'd' 'v']

/-- Three snapshots of a volume on two pages. -/
theorem pages_right_two : visited sampleStore 2 (filterOf [] (sampleID 'p' 'v')) =
    some ([sampleSnapshot 'a' 'v', sampleSnapshot 'c' 'v', sampleSnapshot 'd' 'v'].map
      (fun s => entry (snapshotID s) (sourceVolumeID s) s)) :=
  (pages_right_iff sampleStore ⟨by decide, by decide, by decide⟩ 2 _).1.mpr (by decide +kernel)

end FilePool.SnapshotPages
