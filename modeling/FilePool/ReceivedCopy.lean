import FilePool.CommitSteps

/-!
What a commit has checked when it applies a copy. The stored records are apart
and inside the disk, and each can be read whole, so they are a well-formed copy.
-/
namespace FilePool.ReceivedCopy

open ByteFiles BigEndian UndoLog CopyChunks UndoFormat UndoNames VolumeSteps DurableSteps List
  DurableSteps.Prog UndoFolder DiskMoments ApplyCopy UploadSessions CommitCopy

/-- The records end within the signed 64-bit range. -/
def EndsFit (segs : List Seg) : Prop := ∀ s ∈ segs, s.off + s.length < 2 ^ 63

theorem checkSegs_ok (size oldSize : ℕ) (fin : ℤ) (segs : List Seg) (hfit : EndsFit segs)
    (h : checkSegs size oldSize fin segs = .ok ()) :
    segs.Pairwise (fun s t => s.off + s.length ≤ t.off) ∧
      ∀ s ∈ segs, fin ≤ s.off ∧ s.off + s.length ≤ size ∧
        (s.kind = .same → s.off + s.length ≤ oldSize) := by
  induction segs generalizing fin with
  | nil => simp
  | cons s segs ih =>
    have hs := hfit s mem_cons_self
    unfold checkSegs at h
    rw [wrap_of_inRange (s.off + s.length : ℤ) ⟨by omega, by omega⟩] at h
    obtain ⟨hapart, h⟩ := except_unless_ok.mp h
    obtain ⟨hend, h⟩ := except_unless_ok.mp h
    obtain ⟨hold, h⟩ := except_unless_ok.mp h
    obtain ⟨hpairs, hall⟩ := ih _ (fun t ht => hfit t (mem_cons_of_mem s ht)) h
    refine ⟨pairwise_cons.mpr ⟨fun t ht => ?_, hpairs⟩, fun t ht => ?_⟩
    · have hlow := (hall t ht).1
      omega
    rcases mem_cons.mp ht with rfl | ht
    · refine ⟨by omega, by omega, fun hk => ?_⟩
      by_contra hlt
      exact hold ⟨hk, by omega⟩
    · obtain ⟨hlow, hin, hsame⟩ := hall t ht
      exact ⟨by omega, hin, hsame⟩

theorem storedRecords_whole (data : Bytes) (segs : List Seg) (rs : List UploadRecord)
    (h : storedRecords data segs = .ok rs) :
    ∀ s ∈ segs, s.kind = .data → s.pos + s.length ≤ data.length := by
  induction segs generalizing rs with
  | nil => simp
  | cons s segs ih =>
    have hrest : ∃ rs', storedRecords data segs = .ok rs' ∧
        (s.kind = .data → s.pos + s.length ≤ data.length) := by
      unfold storedRecords at h
      cases hk : s.kind with
      | same =>
        rw [hk] at h
        exact ⟨rs, h, nofun⟩
      | zero =>
        rw [hk] at h
        obtain ⟨rs', hrs', -⟩ := except_bind_ok.mp h
        exact ⟨rs', hrs', nofun⟩
      | data =>
        rw [hk] at h
        simp only at h
        split at h
        · next hin =>
          obtain ⟨rs', hrs', -⟩ := except_bind_ok.mp h
          exact ⟨rs', hrs', fun _ => hin⟩
        · cases h
    obtain ⟨rs', hrs', hs⟩ := hrest
    intro t ht hk
    rcases mem_cons.mp ht with rfl | ht
    · exact hs hk
    · exact ih rs' hrs' t ht hk

variable {data disk : Bytes}

theorem segExtent_off {s : Seg} :
    (segExtent data disk s).offset = s.off ∧ (segExtent data disk s).length = s.length := by
  unfold segExtent
  cases s.kind <;> exact ⟨rfl, rfl⟩

/-- Records that passed the checks are a well-formed copy. -/
theorem exists_stagedCopy {size : ℕ} {segs : List Seg}
    {rs : List UploadRecord} (hsize : size < 2 ^ 63)
    (hfit : EndsFit segs)
    (hsegs : checkSegs size disk.length 0 segs = .ok ())
    (hdata : storedRecords data segs = .ok rs) :
    ∃ src : StagedCopy, src.toCopySource = receivedCopy size data disk segs := by
  obtain ⟨hapart, hall⟩ := checkSegs_ok size disk.length 0 segs hfit hsegs
  refine ⟨⟨receivedCopy size data disk segs, hsize, ?_, ?_, ?_⟩, rfl⟩
  · change (segs.map (segExtent data disk)).Pairwise _
    rw [pairwise_map]
    refine hapart.imp ?_
    intro s t hst
    rw [segExtent_off.1, segExtent_off.2, segExtent_off.1]
    exact hst
  · intro e he
    obtain ⟨s, hs, rfl⟩ := mem_map.mp he
    rw [segExtent_off.1, segExtent_off.2]
    exact (hall s hs).2.1
  · intro e he hk
    obtain ⟨s, hs, rfl⟩ := mem_map.mp he
    unfold segExtent at hk ⊢
    cases hkind : s.kind with
    | data =>
      have hin := storedRecords_whole data segs rs hdata s hs hkind
      simp only [length_readAt]
      omega
    | zero =>
      rw [hkind] at hk
      cases hk
    | same =>
      have hin := (hall s hs).2.2 hkind
      simp only [length_readAt]
      omega

/-- What a commit reads before it applies the copy. -/
structure CommitInput where
  disk : Option DiskFile
  cur : Option (Option Moment)
  stored : List Seg
  data : Bytes

namespace CommitInput

variable {δ : Type} (c : CommitInput) (req : CommitRequest δ)

def segs : List Seg := sortSegs c.stored

def copy : CopySource := receivedCopy req.size.toNat c.data (diskBytes c.disk) c.segs

end CommitInput

section Accepted

variable {δ : Type} [DecidableEq δ] (hash : Bytes → δ) (id : Name) (req : CommitRequest δ)
  (now : Moment) {c : CommitInput} {v : Volume}

/-- The commit has read this, and it passed the checks. -/
structure Accepts (v : Volume) (c : CommitInput) : Prop where
  disk : commitDisk v = .ok c.disk
  cur : (if c.disk.isSome then (moment v).map some else .ok none) = .ok c.cur
  base : wrongBase c.cur req = false
  compared : checkBase id v = .ok ()
  stored : (loadSession id).result v = .ok c.stored
  segs : checkSegs req.size.toNat (diskBytes c.disk).length 0 c.segs = .ok ()
  data : stagingData id c.segs ((loadSession id).exec v) = .ok c.data
  digest : checkDigest hash c.data c.segs req.digest = .ok ()

theorem checkCommit_ok (x : CopySource × ApplyOptions)
    (hx : (checkCommit hash id req now).result v = .ok x) :
    ∃ c, Accepts hash id req v c ∧ x = (c.copy req, commitOptions req c.disk now) := by
  unfold checkCommit at hx
  simp only [result_bind, exec_inspect] at hx
  obtain ⟨disk, hdisk, hx⟩ := except_bind_ok.mp hx
  obtain ⟨cur, hcur, hx⟩ := except_bind_ok.mp hx
  obtain ⟨_, hbase, hx⟩ := except_bind_ok.mp hx
  obtain ⟨_, hcompared, hx⟩ := except_bind_ok.mp hx
  obtain ⟨stored, hstored, hx⟩ := except_bind_ok.mp hx
  obtain ⟨_, hsegs, hx⟩ := except_bind_ok.mp hx
  obtain ⟨data, hdata, hx⟩ := except_bind_ok.mp hx
  have hright : wrongBase cur req = false := by
    cases hw : wrongBase cur req with
    | false => rfl
    | true =>
      rw [hw] at hbase
      cases hbase
  cases hdigest : checkDigest hash data (sortSegs stored) req.digest with
  | error e =>
    rw [hdigest] at hx
    cases hx
  | ok _ =>
    rw [hdigest] at hx
    cases hx
    exact ⟨⟨disk, cur, stored, data⟩,
      ⟨hdisk, hcur, hright, hcompared, hstored, hsegs, hdata, hdigest⟩, rfl⟩

theorem accepts_read (h : Accepts hash id req v c) :
    ∃ rs, storedRecords c.data c.segs = .ok rs := by
  have hdigest := h.digest
  obtain ⟨rs, hrs, -⟩ := except_bind_ok.mp hdigest
  exact ⟨rs, hrs⟩

theorem accepts_staged (h : Accepts hash id req v c)
    (hsize : req.size.toNat < 2 ^ 63) (hfit : EndsFit c.segs) :
    ∃ src : StagedCopy, src.toCopySource = c.copy req := by
  obtain ⟨rs, hrs⟩ := accepts_read hash id req h
  exact exists_stagedCopy hsize hfit h.segs hrs

/-- The records lie inside the disk and apart, data inside the staging file, equal ranges
inside the old disk; as a full copy they and their gaps make each byte of the disk once. -/
structure CommitInput.Sound (c : CommitInput) : Prop where
  inside : ∀ s ∈ c.segs, s.off + s.length ≤ req.size.toNat
  apart : c.segs.Pairwise (fun s t => s.off + s.length ≤ t.off)
  data : ∀ s ∈ c.segs, s.kind = .data → s.pos + s.length ≤ c.data.length
  same : ∀ s ∈ c.segs, s.kind = .same → s.off + s.length ≤ (diskBytes c.disk).length
  whole : ∃ ps, forEachNewChunk (c.copy req) true = .ok ps ∧
    ps.Pairwise (fun p q => p.off + p.data.length ≤ q.off) ∧
    ∀ i, Covered ps i ↔ i < req.size.toNat

theorem sound_of_endsFit (h : Accepts hash id req v c)
    (hsize : req.size < 2 ^ 63) (hfit : EndsFit c.segs) : c.Sound req := by
  obtain ⟨rs, hrs⟩ := accepts_read hash id req h
  obtain ⟨hapart, hall⟩ := checkSegs_ok _ _ _ _ hfit h.segs
  obtain ⟨src, hsrc⟩ := accepts_staged hash id req h (by omega) hfit
  obtain ⟨ps, hps, hd⟩ := @forEachNewChunk_ok true src
  have hlen : src.size = req.size.toNat := congrArg CopySource.size hsrc
  refine ⟨fun s hs => (hall s hs).2.1, hapart, storedRecords_whole _ _ rs hrs,
    fun s hs => (hall s hs).2.2, ps, hsrc ▸ hps, hd.ordered, fun i => ⟨?_, fun hi => ?_⟩⟩
  · rintro ⟨p, hp, hi⟩
    have hupper := hd.upper p hp
    have hin := hi.2
    omega
  · refine hd.covers i (Nat.zero_le _) (by omega) ?_
    unfold given
    cases byte? src.extents i with
    | none => exact nofun
    | some x => exact nofun

/-- Whatever a session holds, the records of a commit that passes its checks are sound if and
only if they end within 64 bits. -/
theorem accepted_records_sound_iff {v : Volume} (x : CopySource × ApplyOptions)
    (hsize : req.size < 2 ^ 63) (hx : (checkCommit hash id req now).result v = .ok x) :
    ∃ c, Accepts hash id req v c ∧ x = (c.copy req, commitOptions req c.disk now) ∧
      (c.Sound req ↔ EndsFit c.segs) := by
  obtain ⟨c, hc, hcopy⟩ := checkCommit_ok hash id req now x hx
  refine ⟨c, hc, hcopy, fun h s hs => ?_, sound_of_endsFit hash id req hc hsize⟩
  have hin := h.inside s hs
  omega

end Accepted

/-- New data, a zero byte and an equal range, stored for a disk in another order. -/
def threeRecords : Volume :=
  { Volume.empty with
    disk := some ⟨[5, 6, 7, 8], 3, true⟩
    momentFile := some (some ⟨5, [], 3, 4⟩)
    incoming := [(['a'], ⟨some ([⟨.same, 2, 2, 1⟩, ⟨.data, 0, 1, 0⟩, ⟨.zero, 1, 1, 1⟩].flatMap
      appendSeg), some [9], none, 0⟩)] }

def threeRecordsCommit : CommitRequest Bytes :=
  ⟨4, some 5, 6, false, uploadDigest (fun b => b) [⟨0, false, 1, [9]⟩, ⟨1, true, 1, []⟩], [], 0⟩

theorem accepted_records_sound_three :
    ∃ c, Accepts (fun b => b) ['a'] threeRecordsCommit threeRecords c ∧
      c.copy threeRecordsCommit = ⟨4, [⟨0, 1, .data, [9]⟩, ⟨1, 1, .zero, []⟩,
        ⟨2, 2, .data, [7, 8]⟩]⟩ ∧
      (c.Sound threeRecordsCommit ↔ EndsFit c.segs) := by
  obtain ⟨c, hc, hcopy, hiff⟩ := accepted_records_sound_iff (fun b => b) ['a']
    threeRecordsCommit 0 (v := threeRecords) (⟨4, [⟨0, 1, .data, [9]⟩, ⟨1, 1, .zero, []⟩,
      ⟨2, 2, .data, [7, 8]⟩]⟩, ⟨5, 6, false, 0, 0⟩) (by decide) (by decide +kernel)
  exact ⟨c, hc, (congrArg Prod.fst hcopy).symm, hiff⟩

/-- One record of a zero byte is stored for a new disk of one byte. -/
def oneRecord (off : ℕ) : Volume :=
  { Volume.empty with
    incoming := [(['a'], ⟨some (appendSeg ⟨.zero, off, 1, 0⟩), some [], none, 0⟩)] }

def oneRecordCommit (off : ℕ) : CommitRequest Bytes :=
  ⟨1, none, 6, true, uploadDigest (fun b => b) [⟨off, true, 1, []⟩], [], 0⟩

/-- A record at the last 64-bit offset passes the checks of a disk of one byte. -/
theorem last_offset_passes :
    (checkCommit (fun b => b) ['a'] (oneRecordCommit (2 ^ 63 - 1)) 0).result
        (oneRecord (2 ^ 63 - 1)) =
      .ok (⟨1, [⟨2 ^ 63 - 1, 1, .zero, []⟩]⟩, ⟨zeroTime, 6, true, 0, 0⟩) := by
  decide +kernel

end FilePool.ReceivedCopy
