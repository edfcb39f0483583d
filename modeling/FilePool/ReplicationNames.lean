import FilePool.UndoNames

/-!
The names of the temporary objects of a copy. A copy of one volume for one policy
makes a Job, and a PV and a claim for each share it mounts. Their names are built
from the first letters of the policy name and of the volume name, and every lookup
and every delete goes by name. Two copies keep out of each other's way exactly when
the letters that are kept differ.
-/
namespace FilePool.ReplicationNames

open UndoNames List

def isLetter (c : Char) : Prop := ('a' ≤ c ∧ c ≤ 'z') ∨ ('0' ≤ c ∧ c ≤ '9')

instance (c : Char) : Decidable (isLetter c) := by unfold isLetter; infer_instance

def isHex (c : Char) : Prop := ('a' ≤ c ∧ c ≤ 'f') ∨ ('0' ≤ c ∧ c ≤ '9')

instance (c : Char) : Decidable (isHex c) := by unfold isHex; infer_instance

/-- One part of a Kubernetes name between two dots. -/
def isLabel (s : Name) : Prop :=
  (∀ c ∈ s, isLetter c ∨ c = '-') ∧ (∃ c ∈ s.head?, isLetter c) ∧ ∃ c ∈ s.getLast?, isLetter c

-- the quantifiers range over the letters of the name, not over all characters
instance (s : Name) : Decidable (isLabel s) :=
  @instDecidableAnd _ _ (List.decidableBAll _ s)
    (@instDecidableAnd _ _ (Option.decidableExistsMem s.head?)
      (Option.decidableExistsMem s.getLast?))

/-- The name of a replication policy, a valid name of a Kubernetes object. -/
structure PolicyName where
  name : Name
  length_le : name.length ≤ 253
  labels : ∀ s ∈ name.splitOn '.', isLabel s

def pvcPrefix : Name := ['p', 'v', 'c', '-']

def isUUID (u : Name) : Prop :=
  u.length = 36 ∧ ∀ x ∈ u.zipIdx, if x.2 ∈ [8, 13, 18, 23] then x.1 = '-' else isHex x.1

instance (u : Name) : Decidable (isUUID u) := by unfold isUUID; infer_instance

/-- The name of a volume. -/
structure VolumeName where
  uuid : Name
  isUUID : isUUID uuid

def VolumeName.name (v : VolumeName) : Name := pvcPrefix ++ v.uuid

def truncate (s : Name) (maxLen : ℕ) : Name := if s.length ≤ maxLen then s else s.take maxLen

/-- The common form of the names: a word for the kind of object, the first letters
of the policy name and the first letters of the volume name. -/
def replName (kind : Name) (policyLen : ℕ) (policyName svName : Name) : Name :=
  truncate (kind ++ truncate policyName policyLen ++ ['-'] ++ truncate svName 36) 63

def repl : Name := ['r', 'e', 'p', 'l', '-']

def replSrc : Name := repl ++ ['s', 'r', 'c', '-']

def replDst : Name := repl ++ ['d', 's', 't', '-']

def replJobName (policyName svName : Name) : Name := replName repl 15 policyName svName

def replSourcePVName (policyName svName : Name) : Name := replName replSrc 12 policyName svName

def replSourcePVCName (policyName svName : Name) : Name := replName replSrc 12 policyName svName

def replDestPVName (policyName svName : Name) : Name := replName replDst 12 policyName svName

def replDestPVCName (policyName svName : Name) : Name := replName replDst 12 policyName svName

inductive ObjectKind
  | job
  | persistentVolume
  | persistentVolumeClaim
deriving DecidableEq

/-- The objects that a copy makes, looks up and deletes. A policy that sends to a
receiver mounts no destination share. -/
def tempObjects (receiverMode : Bool) (policyName svName : Name) : List (ObjectKind × Name) :=
  [(.job, replJobName policyName svName),
    (.persistentVolumeClaim, replSourcePVCName policyName svName),
    (.persistentVolume, replSourcePVName policyName svName)] ++
  if receiverMode then [] else
    [(.persistentVolumeClaim, replDestPVCName policyName svName),
      (.persistentVolume, replDestPVName policyName svName)]

variable {s kind : Name} {n : ℕ} {p q : Name} {v w : VolumeName} {a : Bool} {o : ObjectKind × Name}

theorem truncate_eq_take (n : ℕ) : truncate s n = s.take n := by
  unfold truncate
  split
  · rename_i h
    exact (take_of_length_le h).symm
  · rfl

theorem VolumeName.length_name (v : VolumeName) : v.name.length = 40 := by
  have h := v.isUUID.1
  simp [VolumeName.name, pvcPrefix, h]

/-- The whole name is short enough, so the last cut takes nothing away. -/
theorem replName_eq (hlen : kind.length + n ≤ 26) :
    replName kind n p s = kind ++ p.take n ++ ['-'] ++ s.take 36 := by
  unfold replName
  rw [truncate_eq_take, truncate_eq_take, truncate_eq_take]
  apply take_of_length_le
  simp only [length_append, length_take, length_singleton]
  omega

/-- A name gives back its three parts: the volume part always has 36 letters. -/
theorem replName_inj {kind' : Name}
    (hkind : kind.length = kind'.length) (hlen : kind.length + n ≤ 26)
    (h : replName kind n p v.name = replName kind' n q w.name) :
    kind = kind' ∧ p.take n = q.take n ∧ v.name.take 36 = w.name.take 36 := by
  rw [replName_eq hlen, replName_eq (hkind ▸ hlen)] at h
  have hvolume : (v.name.take 36).length = (w.name.take 36).length := by
    simp [v.length_name, w.length_name]
  obtain ⟨hfront, hback⟩ := append_inj' h hvolume
  obtain ⟨hparts, -⟩ := append_inj' hfront rfl
  obtain ⟨hword, hpolicy⟩ := append_inj hparts hkind
  exact ⟨hword, hpolicy, hback⟩

/-- An object is the Job, or it mounts a share and keeps 12 letters of the policy. -/
theorem mem_tempObjects
    (h : o ∈ tempObjects a p s) :
    o = (.job, replJobName p s) ∨
      o.1 ≠ .job ∧ ∃ kind : Name, kind.length = 9 ∧ o.2 = replName kind 12 p s := by
  rcases mem_append.mp h with h | h
  · simp only [mem_cons, not_mem_nil, or_false] at h
    rcases h with rfl | rfl | rfl
    · exact .inl rfl
    all_goals exact .inr ⟨nofun, replSrc, rfl, rfl⟩
  · cases a
    · simp only [Bool.false_eq_true, if_false, mem_cons, not_mem_nil, or_false] at h
      rcases h with rfl | rfl
      all_goals exact .inr ⟨nofun, replDst, rfl, rfl⟩
    · exact absurd h not_mem_nil

/-- Two copies that have an object in common agree in what is kept of the names. -/
theorem parts_of_common {b : Bool}
    (hp : o ∈ tempObjects a p v.name) (hq : o ∈ tempObjects b q w.name) :
    p.take 12 = q.take 12 ∧ v.name.take 36 = w.name.take 36 := by
  rcases mem_tempObjects hp with rfl | ⟨hmount, kind, hlen, hname⟩ <;>
    rcases mem_tempObjects hq with hjob | ⟨hmount', kind', hlen', hname'⟩
  · have hnames : replJobName p v.name = replJobName q w.name := congrArg Prod.snd hjob
    obtain ⟨-, hpolicy, hvolume⟩ := replName_inj rfl (by decide) hnames
    refine ⟨?_, hvolume⟩
    have hfewer := congrArg (take 12) hpolicy
    simpa [take_take] using hfewer
  · exact absurd rfl hmount'
  · exact absurd (congrArg Prod.fst hjob) hmount
  · exact (replName_inj (hlen.trans hlen'.symm) (by omega) (hname.symm.trans hname')).2

/-- The copies of two volumes for two policies have no object in common, so neither
reads, counts or deletes an object of the other, exactly when the first 12 letters
of the policy names or the first 36 letters of the volume names differ. -/
theorem temp_objects_disjoint_iff (a b : Bool) (p q : PolicyName) (v w : VolumeName) :
    (tempObjects a p.name v.name).Disjoint (tempObjects b q.name w.name) ↔
      truncate p.name 12 ≠ truncate q.name 12 ∨ truncate v.name 36 ≠ truncate w.name 36 := by
  simp only [truncate_eq_take]
  constructor
  · intro hdisj
    by_contra hsame
    obtain ⟨hpolicy, hvolume⟩ := not_or.mp hsame
    have hname : replSourcePVName p.name v.name = replSourcePVName q.name w.name := by
      unfold replSourcePVName
      rw [replName_eq (by decide), replName_eq (by decide), not_not.mp hpolicy, not_not.mp hvolume]
    have hq : (.persistentVolume, replSourcePVName p.name v.name) ∈
        tempObjects b q.name w.name := by
      rw [hname]
      simp [tempObjects]
    exact hdisj (by simp [tempObjects]) hq
  · intro hparts o hp hq
    obtain ⟨hpolicy, hvolume⟩ := parts_of_common hp hq
    rcases hparts with h | h
    · exact h hpolicy
    · exact h hvolume

def nightlyBackupEast : PolicyName where
  name := ['n', 'i', 'g', 'h', 't', 'l', 'y', '-', 'b', 'a', 'c', 'k', 'u', 'p', '-',
    'e', 'a', 's', 't']
  length_le := by decide
  labels := by decide

def nightlyBackupWest : PolicyName where
  name := ['n', 'i', 'g', 'h', 't', 'l', 'y', '-', 'b', 'a', 'c', 'k', 'u', 'p', '-',
    'w', 'e', 's', 't']
  length_le := by decide
  labels := by decide

def onesVolume : VolumeName where
  uuid := List.replicate 8 '1' ++ '-' :: List.replicate 4 '1' ++ '-' :: List.replicate 4 '1' ++
    '-' :: List.replicate 4 '1' ++ '-' :: List.replicate 12 '1'
  isUUID := by decide

/-- Two policies whose names differ only after the 15th letter share every object. -/
theorem long_policy_names_share_objects :
    nightlyBackupEast.name ≠ nightlyBackupWest.name ∧
      tempObjects false nightlyBackupEast.name onesVolume.name =
        tempObjects false nightlyBackupWest.name onesVolume.name := by
  decide +kernel

end FilePool.ReplicationNames
