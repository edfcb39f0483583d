import FilePool.NewestEntry
import FilePool.StepRuns
import FilePool.UndoNames

/-!
The choice of a moment folder for a time. The disk server reads each folder name as a time.
Browsing and the restore script compare names as text: browsing those that the time parser
takes, with or without a fraction of a second, and the script all that its pattern matches.
On the names that the driver makes the text order is the order of the times.
-/
namespace FilePool.MomentPicks

open UndoNames NewestEntry StepRuns List

def daysIn (year month : ℕ) : ℕ :=
  if month = 2 then
    if year % 4 = 0 ∧ (year % 100 ≠ 0 ∨ year % 400 = 0) then 29 else 28
  else if month ∈ [4, 6, 9, 11] then 30 else 31

/-- Whether a number of fourteen digits, from the year to the second, is a time. -/
def isTime (k : ℕ) : Bool :=
  k < 10 ^ 14 ∧ 1 ≤ k / 10 ^ 8 % 100 ∧ k / 10 ^ 8 % 100 ≤ 12 ∧ 1 ≤ k / 10 ^ 6 % 100 ∧
    k / 10 ^ 6 % 100 ≤ daysIn (k / 10 ^ 10) (k / 10 ^ 8 % 100) ∧ k / 10 ^ 4 % 100 < 24 ∧
    k / 10 ^ 2 % 100 < 60 ∧ k % 100 < 60

/-- A time as a folder name, such as 20261106T180326Z. -/
def formatMoment (k : ℕ) : Name := decimal 8 (k / 10 ^ 6) ++ 'T' :: (decimal 6 k ++ ['Z'])

def parseRestorePointFolder (n : Name) : Option ℕ :=
  ((digits? 0 (n.take 8)).bind (fun d => digits? d ((n.drop 9).take 6))).filter
    (fun k => isTime k && formatMoment k = n)

/-- The time parser takes a fraction of a second that the layout does not have. -/
def isFraction : Name → Bool
  | c :: ds => (c = '.' || c = ',') && ds ≠ [] && ds.all (fun d => (digit? d).isSome)
  | [] => true

def isMomentName (n : Name) : Bool :=
  (parseRestorePointFolder (n.take 15 ++ ['Z'])).isSome && (n.drop 15).getLast? = some 'Z' &&
    isFraction (n.drop 15).dropLast

/-- The times that can be asked for. -/
abbrev Time := {k : ℕ // isTime k = true}

/-- The choice among the folders: an error if all are after the time, and nothing if there are
none. Without a time it is the newest one. -/
def pickMoment (names : List Name) (asked : Option Time) : Except Unit (Option Name) :=
  let moments := (names.filter isMomentName).insertionSort (· ≤ ·)
  match moments.getLast?, asked with
  | none, _ => .ok none
  | some newestName, none => .ok (some newestName)
  | some _, some t =>
    match lastNotAfter id (formatMoment t) moments with
    | some n => .ok (some n)
    | none => .error ()

/-- The times of the restore point folders. -/
def moments (names : List Name) : List ℕ := names.filterMap parseRestorePointFolder

/-- The newest folder at or before a time, of folders that are sorted oldest first. -/
def pickRestorePointFolder {F T : Type} [LinearOrder T] (moment : F → T) (folders : List F)
    (t : T) :
    Option F := lastNotAfter moment t folders

/-- The choice of the disk server among the names of a moments folder. -/
def pickRestorePoint (names : List Name) (asked : Time) : Option Name :=
  (pickRestorePointFolder id ((moments names).insertionSort (· ≤ ·)) asked.1).map formatMoment

/-- Whether the shell pattern for all names matches. -/
def isShown (n : Name) : Bool := n.head? ≠ some '.'

/-- The name as a command prints it to the shell, which drops the line ends. -/
def shellText (n : Name) : Name := n.rdropWhile (· = '\n')

def newestText (names : List Name) : Name :=
  ((((names.filter isShown).insertionSort (· ≤ ·)).getLast?).map shellText).getD []

def pickShell (names : List Name) (asked : Time) : Option Name :=
  if newestText names = [] then none
  else ((names.filter isShown).insertionSort (· ≤ ·)).foldl
    (fun c n => if formatMoment asked < shellText n then c else some n) none

theorem decimal_append_lt {w m n : ℕ} (h : m % 10 ^ w < n % 10 ^ w) (x y : Name) :
    decimal w m ++ x < decimal w n ++ y := by
  induction w with
  | zero => simp [Nat.mod_one] at h
  | succ w ih =>
    rw [pow_succ, Nat.mod_mul, Nat.mod_mul] at h
    rw [decimal, decimal, cons_append, cons_append, cons_lt_cons_iff]
    rcases lt_trichotomy (m / 10 ^ w % 10) (n / 10 ^ w % 10) with hlt | heq | hgt
    · left
      have hdigit (k : ℕ) := digit_toNat (Nat.mod_lt (k / 10 ^ w) (show 10 > 0 by decide))
      change (Char.ofNat _).toNat < (Char.ofNat _).toNat
      rw [hdigit m, hdigit n]
      omega
    · exact .inr ⟨by rw [heq], ih (by rw [heq] at h; omega)⟩
    · have hle := Nat.mul_le_mul_left (10 ^ w) hgt
      rw [Nat.mul_succ] at hle
      omega

/-- The names sort as the times do. -/
theorem formatMoment_lt {j k : ℕ} (hk : k < 10 ^ 14) (h : j < k) :
    formatMoment j < formatMoment k := by
  rcases Nat.lt_or_ge (j / 10 ^ 6) (k / 10 ^ 6) with hday | hday
  · exact decimal_append_lt (by omega) _ _
  · have heq : j / 10 ^ 6 = k / 10 ^ 6 := by omega
    unfold formatMoment
    rw [heq]
    exact append_left_lt (cons_lt_cons_self.mpr (decimal_append_lt (by omega) _ _))

theorem mem_moments {names : List Name} {k : ℕ} :
    k ∈ moments names ↔ formatMoment k ∈ names ∧ isTime k = true := by
  unfold moments parseRestorePointFolder
  simp only [mem_filterMap, Option.filter_eq_some_iff, Bool.and_eq_true, decide_eq_true_eq]
  constructor
  · rintro ⟨n, hn, -, htime, rfl⟩
    exact ⟨hn, htime⟩
  · rintro ⟨hn, htime⟩
    refine ⟨_, hn, ?_, htime, rfl⟩
    have hk : k < 10 ^ 14 := (of_decide_eq_true htime).1
    have hday : (formatMoment k).take 8 = decimal 8 (k / 10 ^ 6) := take_left' (length_decimal ..)
    have hclock : ((formatMoment k).drop 9).take 6 = decimal 6 k := by
      exact take_left' (length_decimal ..)
    rw [hday, hclock, digits?_decimal, Option.bind_some, digits?_decimal]
    congr 1
    omega

theorem formatMoment_le {j k : ℕ} (hj : j < 10 ^ 14) (hk : k < 10 ^ 14) :
    formatMoment j ≤ formatMoment k ↔ j ≤ k := by
  constructor
  · intro h
    by_contra hgt
    exact absurd (formatMoment_lt hj (not_le.mp hgt)) (not_lt.mpr h)
  · intro h
    rcases h.lt_or_eq with h | rfl
    · exact (formatMoment_lt hk h).le
    · exact le_rfl

theorem Time.lt (t : Time) : t.1 < 10 ^ 14 := (of_decide_eq_true t.2).1

section Picks

variable (names : List Name) (asked : Time)

/-- The newest folder of a time that is not after the asked one, or none. -/
def Newest (o : Option Name) : Prop :=
  (∃ k, IsGreatest (upTo (moments names) asked) k ∧ o = some (formatMoment k)) ∨
    upTo (moments names) asked = ∅ ∧ o = none

/-- No name that a program looks at and takes for early enough is above the folders of such
times in the order of texts. -/
def Clear (looks : Name → Bool) (text : Name → Name) : Prop :=
  ∀ n ∈ names.filter looks, text n ≤ formatMoment asked →
    ∃ k ∈ upTo (moments names) asked, n ≤ formatMoment k

variable {names asked} {k : ℕ}

theorem lt_of_mem_moments (hk : k ∈ moments names) : k < 10 ^ 14 :=
  (of_decide_eq_true (mem_moments.mp hk).2).1

theorem formatMoment_le_asked (hk : k ∈ moments names) :
    formatMoment k ≤ formatMoment asked ↔ k ≤ asked :=
  formatMoment_le (lt_of_mem_moments hk) asked.lt

/-- The disk server's choice is always right. -/
theorem pickRestorePoint_newest : Newest names asked (pickRestorePoint names asked) := by
  unfold pickRestorePoint pickRestorePointFolder
  cases hpick : lastNotAfter id asked.1 ((moments names).insertionSort (· ≤ ·)) with
  | none =>
    refine .inr ⟨(upTo_eq_empty_iff _).mpr fun k hk => ?_, rfl⟩
    exact (lastNotAfter_eq_none_iff _ _ _).mp hpick k ((mem_insertionSort _).mpr hk)
  | some k =>
    obtain ⟨hk, hle, hall⟩ := (lastNotAfter_sort_iff _ _ _ _).mp hpick
    exact .inl ⟨k, ⟨⟨hk, hle⟩, fun j hj => hall j hj.1 hj.2⟩, rfl⟩

theorem textPick_newest_iff {looks : Name → Bool} {text : Name → Name}
    (hlooks : ∀ k ∈ moments names, looks (formatMoment k) = true)
    (htext : ∀ k ∈ moments names, text (formatMoment k) = formatMoment k) :
    Newest names asked (lastNotAfter text (formatMoment asked)
        ((names.filter looks).insertionSort (· ≤ ·))) ↔ Clear names asked looks text := by
  have hmem {k : ℕ} (hk : k ∈ moments names) : formatMoment k ∈ names.filter looks :=
    mem_filter.mpr ⟨(mem_moments.mp hk).1, hlooks k hk⟩
  have hearly {k : ℕ} (hk : k ∈ upTo (moments names) asked) :
      text (formatMoment k) ≤ formatMoment asked := by
    rw [htext k hk.1]
    exact (formatMoment_le_asked hk.1).mpr hk.2
  cases hpick : lastNotAfter text (formatMoment asked)
      ((names.filter looks).insertionSort (· ≤ ·)) with
  | none =>
    have hnone := (lastNotAfter_eq_none_iff _ _ _).mp hpick
    simp only [mem_insertionSort] at hnone
    refine iff_of_true (.inr ⟨?_, rfl⟩) fun n hn hle => absurd hle (hnone n hn)
    exact Set.eq_empty_of_forall_notMem fun k hk => hnone _ (hmem hk.1) (hearly hk)
  | some n =>
    obtain ⟨hn, hle, hall⟩ := (lastNotAfter_sort_iff _ _ _ _).mp hpick
    constructor
    · rintro (⟨k, hk, heq⟩ | ⟨-, heq⟩)
      · cases heq
        exact fun m hm hearly => ⟨k, hk.1, hall m hm hearly⟩
      · cases heq
    · intro hclear
      obtain ⟨j, hj, hbelow⟩ := hclear n hn hle
      rcases @pickRestorePoint_newest names asked with ⟨k, hk, -⟩ | ⟨hnone, -⟩
      · have habove : formatMoment k ≤ n := hall _ (hmem hk.1.1) (hearly hk.1)
        have hjk := (formatMoment_le (lt_of_mem_moments hj.1) (lt_of_mem_moments hk.1.1)).mpr
          (hk.2 hj)
        exact .inl ⟨k, hk, congrArg some (le_antisymm (hbelow.trans hjk) habove)⟩
      · exact absurd hj (hnone ▸ Set.notMem_empty j)

theorem stem_format (k : ℕ) :
    formatMoment k = (decimal 8 (k / 10 ^ 6) ++ 'T' :: decimal 6 k) ++ ['Z'] := by
  rw [formatMoment, append_assoc, cons_append]

theorem isMomentName_format (hk : k ∈ moments names) :
    isMomentName (formatMoment k) = true := by
  have hlen : (decimal 8 (k / 10 ^ 6) ++ 'T' :: decimal 6 k).length = 15 := by
    simp [length_decimal]
  obtain ⟨n, hn, hparse⟩ := mem_filterMap.mp (mem_moments.mpr
    ⟨mem_singleton_self (formatMoment k), (mem_moments.mp hk).2⟩)
  cases mem_singleton.mp hn
  rw [stem_format] at hparse ⊢
  unfold isMomentName
  rw [take_left' hlen, hparse]
  rfl

theorem shellText_format (k : ℕ) : shellText (formatMoment k) = formatMoment k := by
  rw [stem_format]
  exact rdropWhile_concat_neg _ _ _ (by decide)

/-- The name of a moment begins with a digit. -/
theorem cons_format (k : ℕ) : ∃ c rest, formatMoment k = c :: rest ∧ 48 ≤ c.toNat := by
  refine ⟨_, _, rfl, ?_⟩
  rw [digit_toNat (Nat.mod_lt _ (by decide))]
  exact Nat.le_add_right ..

theorem lt_format (k : ℕ) {n : Name} (h : shellText n = []) : n < formatMoment k := by
  obtain ⟨c, rest, heq, hc⟩ := cons_format k
  rw [heq]
  cases n with
  | nil => exact nil_lt_cons ..
  | cons d ds =>
    obtain rfl := of_decide_eq_true (rdropWhile_eq_nil_iff.mp h d mem_cons_self)
    refine cons_lt_cons_iff.mpr (.inl ?_)
    rw [Char.lt_def]
    exact lt_of_lt_of_le (show 10 < 48 by decide) hc

theorem newestText_ne (hk : formatMoment k ∈ names.filter isShown) :
    newestText names ≠ [] := by
  have hmem := (mem_insertionSort (· ≤ ·)).mpr hk
  have hsorted := pairwise_insertionSort (· ≤ ·) (names.filter isShown)
  unfold newestText
  cases hlast : ((names.filter isShown).insertionSort (· ≤ ·)).getLast? with
  | none => simp [getLast?_eq_none_iff.mp hlast] at hmem
  | some n =>
    intro hempty
    obtain ⟨before, heq⟩ := getLast?_eq_some_iff.mp hlast
    rw [heq] at hmem hsorted
    refine absurd (lt_format k hempty) (not_lt.mpr ?_)
    rcases mem_append.mp hmem with hmem | hmem
    · exact (pairwise_append.mp hsorted).2.2 _ hmem n (mem_singleton_self n)
    · exact (mem_singleton.mp hmem).le

theorem pickShell_eq : pickShell names asked = lastNotAfter shellText (formatMoment asked)
    ((names.filter (fun n => isShown n && newestText names ≠ [])).insertionSort (· ≤ ·)) := by
  unfold pickShell
  split
  · rename_i hnone
    simp [hnone, lastNotAfter]
  · rename_i hsome
    rw [foldl_keep_some]
    simp [hsome]

theorem isShown_format (k : ℕ) : isShown (formatMoment k) = true := by
  obtain ⟨c, rest, heq, hc⟩ := cons_format k
  rw [heq]
  refine decide_eq_true ?_
  rintro ⟨⟩
  exact absurd hc (by decide)

/-- The script looks at the folder of a time. -/
theorem shell_looks (hk : formatMoment k ∈ names) :
    (isShown (formatMoment k) && newestText names ≠ []) = true := by
  have hshown := isShown_format k
  simp [hshown, newestText_ne (mem_filter.mpr ⟨hk, hshown⟩)]

theorem pickMoment_eq : pickMoment names (some asked) =
    if names.filter isMomentName = [] then .ok none
    else match lastNotAfter id (formatMoment asked)
        ((names.filter isMomentName).insertionSort (· ≤ ·)) with
      | some n => .ok (some n)
      | none => .error () := by
  unfold pickMoment
  have hnil : (names.filter isMomentName).insertionSort (· ≤ ·) = [] ↔
      names.filter isMomentName = [] := by
    rw [← length_eq_zero_iff, length_insertionSort, length_eq_zero_iff]
  generalize (names.filter isMomentName).insertionSort (· ≤ ·) = moments at hnil
  dsimp only
  cases hlast : moments.getLast? with
  | none => rw [if_pos (hnil.mp (getLast?_eq_none_iff.mp hlast))]
  | some newestName =>
    dsimp only
    rw [if_neg]
    intro hempty
    rw [hnil.mpr hempty] at hlast
    cases hlast

theorem pickMoment_join : (pickMoment names (some asked)).toOption.join =
    lastNotAfter id (formatMoment asked)
      ((names.filter isMomentName).insertionSort (· ≤ ·)) := by
  rw [pickMoment_eq]
  split
  · rename_i hempty
    simp [hempty, lastNotAfter, Except.toOption]
  · split
    · rename_i n hn
      rw [hn]
      rfl
    · rename_i hn
      rw [hn]
      rfl

/-- Browsing and the restore script choose as the disk server does, the newest folder that is
not after the asked time, exactly if the names that they look at are clear of others. -/
theorem picks_newest_iff (names : List Name) (asked : Time) :
    Newest names asked (pickRestorePoint names asked) ∧
      (Newest names asked (pickMoment names (some asked)).toOption.join ↔
        Clear names asked isMomentName id) ∧
      (Newest names asked (pickShell names asked) ↔
        Clear names asked (fun n => isShown n && newestText names ≠ []) shellText) := by
  refine ⟨pickRestorePoint_newest, ?_, ?_⟩
  · rw [pickMoment_join]
    exact textPick_newest_iff (fun k hk => isMomentName_format hk) (fun _ _ => rfl)
  · rw [pickShell_eq]
    exact textPick_newest_iff (fun k hk => shell_looks (mem_moments.mp hk).1)
      (fun k _ => shellText_format k)

end Picks

/-- A folder of 10:00:00.9. -/
def fraction : Name := "20260101T100000.9Z".toList

/-- Browsing and the script choose it for 10:00:00, and the script also a folder that is named
after no time. The disk server chooses none of them. -/
theorem fraction_picked_early :
    let ten : Time := ⟨20260101100000, by decide⟩
    pickMoment [fraction] (some ten) = .ok (some fraction) ∧
      pickShell [fraction] ten = some fraction ∧ pickShell [['0']] ten = some ['0'] ∧
      pickRestorePoint [fraction, ['0']] ten = none := by
  decide +kernel

end FilePool.MomentPicks
