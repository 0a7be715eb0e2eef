import OrderService.Services.Partitions

/-! The monthly partitions tile the calendar: one range for each month from the start on, whose
names and bounds pass the checks of the script, up to the end of the last year of four digits. -/
namespace OrderService
open Calendar

section Statement

def numberOf (digits : List Char) : Int := Nat.ofDigitChars 10 digits 0

/-- The time that a date stands for, in years of any length. -/
def dateOfIso (s : String) : Int :=
  let year := s.toList.takeWhile Char.isDigit
  let month := (s.toList.drop (year.length + 1)).takeWhile Char.isDigit
  let date := (s.toList.drop (year.length + 1 + month.length + 1)).takeWhile Char.isDigit
  makeDate (makeDay (numberOf year) (numberOf month - 1) (numberOf date)) 0

/-- `FROM (fromIso) TO (toIso)`: the upper bound is excluded. -/
def MonthRange.Holds (r : MonthRange) (t : Int) : Prop :=
  dateOfIso r.fromIso ≤ t ∧ t < dateOfIso r.toIso

/-- The ranges are the `count` months from that of `start` on, one after the other. -/
structure Tiles (start : Int) (count : Nat) (ranges : List MonthRange) : Prop where
  length : ranges.length = count
  consecutive : ∀ i r r', ranges[i]? = some r → ranges[i + 1]? = some r' → r.toIso = r'.fromIso
  starts : ∀ r, ranges[0]? = some r → dateOfIso r.fromIso = monthStart (monthIndex start)
  month : ∀ (i : Nat) r, ranges[i]? = some r → ∀ t, r.Holds t ↔ monthIndex t = monthIndex start + i
  covers : ∀ t, (∃ r ∈ ranges, r.Holds t) ↔
    monthIndex start ≤ monthIndex t ∧ monthIndex t < monthIndex start + count
  distinct : (ranges.map MonthRange.name).Nodup
  safeNames : ∀ r ∈ ranges, isSafeIdentifier r.name = true
  safeStarts : ∀ r ∈ ranges, isSafeDate r.fromIso = true

/-- The first day of a month. -/
def firstDay (k : Int) : String := toString (k / 12) ++ "-" ++ pad (k % 12 + 1) ++ "-01"

def monthRange (k : Int) : MonthRange where
  name := "orders_" ++ toString (k / 12) ++ "_" ++ pad (k % 12 + 1)
  fromIso := firstDay k
  toIso := firstDay (k + 1)

end Statement

section Ranges

theorem monthRangesFrom_eq (count : Nat) {k : Int} (hk : 1200 ≤ k) :
    monthRangesFrom count (monthStart k)
      = (List.range count).map fun i : Nat => monthRange (k + i) := by
  induction count generalizing k with
  | zero => rfl
  | succ count ih =>
    have hsucc : 12 * (k / 12) + (k % 12 + 1) = k + 1 := by omega
    have hnext : utc (k / 12) (k % 12 + 1) 1 = monthStart (k + 1) := by
      rw [utc_first (by omega), hsucc]
    have hrest : (fun i : Nat => monthRange (k + 1 + i))
        = (fun i : Nat => monthRange (k + i)) ∘ Nat.succ := by
      funext i
      have hshift : k + 1 + (i : Int) = k + (i.succ : Int) := by omega
      exact congrArg monthRange hshift
    rw [monthRangesFrom, List.range_succ_eq_map, List.map_cons, List.map_map, ← hrest,
      ← ih (by omega)]
    simp only [yearFromTime_monthStart, monthFromTime_monthStart, setUTCMonth_monthStart, hnext,
      hsucc]
    simp [monthRange, firstDay]

theorem monthRanges_eq {start : Int} (hstart : 1000 ≤ yearFromTime start) (count : Nat) :
    monthRanges start count
      = (List.range count).map fun i : Nat => monthRange (monthIndex start + i) := by
  have hmonth := monthFromTime_bounds start
  unfold monthRanges
  rw [utc_first (by omega)]
  exact monthRangesFrom_eq count (by omega)

end Ranges

section Texts
variable {k k' : Int}

theorem toList_year (hk : 0 ≤ k) : (toString (k / 12)).toList = Nat.toDigits 10 (k / 12).toNat := by
  obtain ⟨n, hn⟩ := Int.eq_ofNat_of_zero_le (show 0 ≤ k / 12 by omega)
  rw [hn]
  exact Nat.toList_repr

/-- The number of a month has two digits. -/
theorem toList_pad {n : Int} (hn : 1 ≤ n) (hn' : n ≤ 12) : ∃ a b, (pad n).toList = [a, b] ∧
    a.isDigit = true ∧ b.isDigit = true ∧ numberOf [a, b] = n := by
  obtain rfl | rfl | rfl | rfl | rfl | rfl | rfl | rfl | rfl | rfl | rfl | rfl :
      n = 1 ∨ n = 2 ∨ n = 3 ∨ n = 4 ∨ n = 5 ∨ n = 6 ∨ n = 7 ∨ n = 8 ∨ n = 9 ∨ n = 10 ∨ n = 11 ∨
        n = 12 := by omega
  all_goals exact ⟨_, _, rfl, rfl, rfl, rfl⟩

theorem toList_firstDay (hk : 0 ≤ k) : ∃ a b,
    (firstDay k).toList = Nat.toDigits 10 (k / 12).toNat ++ ['-', a, b, '-', '0', '1'] ∧
      a.isDigit = true ∧ b.isDigit = true ∧ numberOf [a, b] = k % 12 + 1 := by
  obtain ⟨a, b, hpad, ha, hb, hnumber⟩ := toList_pad (n := k % 12 + 1) (by omega) (by omega)
  refine ⟨a, b, ?_, ha, hb, hnumber⟩
  unfold firstDay
  rw [String.toList_append, String.toList_append, String.toList_append, toList_year hk, hpad]
  simp

theorem numberOf_year (hk : 0 ≤ k) : numberOf (Nat.toDigits 10 (k / 12).toNat) = k / 12 := by
  unfold numberOf
  rw [Nat.ofDigitChars_ten_toDigits]
  omega

/-- The first day of a month stands for its first moment. -/
theorem dateOfIso_firstDay (hk : 0 ≤ k) : dateOfIso (firstDay k) = monthStart k := by
  obtain ⟨a, b, htext, ha, hb, hnumber⟩ := toList_firstDay hk
  have hdigits : ∀ c ∈ Nat.toDigits 10 (k / 12).toNat, c.isDigit = true :=
    fun c hc => Nat.isDigit_of_mem_toDigits (by decide) (by decide) hc
  have hyear : (firstDay k).toList.takeWhile Char.isDigit = Nat.toDigits 10 (k / 12).toNat := by
    rw [htext, List.takeWhile_append_of_pos hdigits]
    simp
  have hmonth : ((firstDay k).toList.drop ((Nat.toDigits 10 (k / 12).toNat).length + 1)).takeWhile
      Char.isDigit = [a, b] := by
    rw [htext, List.drop_length_add_append]
    simp [List.takeWhile, ha, hb]
  have hdate : ((firstDay k).toList.drop ((Nat.toDigits 10 (k / 12).toNat).length + 1
      + ([a, b] : List Char).length + 1)).takeWhile Char.isDigit = ['0', '1'] := by
    rw [htext, Nat.add_assoc, Nat.add_assoc, List.drop_length_add_append]
    simp [List.takeWhile]
  unfold dateOfIso
  dsimp only
  rw [hyear, hmonth, hdate, numberOf_year hk, hnumber]
  unfold monthStart
  congr 2
  omega

theorem toList_name (hk : 0 ≤ k) : ∃ a b,
    (monthRange k).name.toList = "orders_".toList ++ (Nat.toDigits 10 (k / 12).toNat ++ ['_', a, b]) ∧
      a.isDigit = true ∧ b.isDigit = true ∧ numberOf [a, b] = k % 12 + 1 := by
  obtain ⟨a, b, hpad, ha, hb, hnumber⟩ := toList_pad (n := k % 12 + 1) (by omega) (by omega)
  refine ⟨a, b, ?_, ha, hb, hnumber⟩
  unfold monthRange
  rw [String.toList_append, String.toList_append, String.toList_append, toList_year hk, hpad]
  simp

/-- The name tells the month. -/
theorem name_inj (hk : 0 ≤ k) (hk' : 0 ≤ k') (h : (monthRange k).name = (monthRange k').name) :
    k = k' := by
  obtain ⟨a, b, hname, _, _, hnumber⟩ := toList_name hk
  obtain ⟨a', b', hname', _, _, hnumber'⟩ := toList_name hk'
  rw [h, hname'] at hname
  obtain ⟨hyear, hmonth⟩ := List.append_inj' (List.append_cancel_left hname) rfl
  have hyears : k' / 12 = k / 12 := by
    rw [← numberOf_year hk, ← numberOf_year hk', hyear]
  have hmonths : [a', b'] = [a, b] := (List.cons.inj hmonth).2
  rw [hmonths, hnumber] at hnumber'
  omega

theorem length_year (hk : 12000 ≤ k) (hk' : k < 120000) :
    (Nat.toDigits 10 (k / 12).toNat).length = 4 := by
  have hmost := (Nat.length_toDigits_le_iff (n := (k / 12).toNat) (b := 10) (k := 4) (by decide)
    (by decide)).mpr (by omega)
  have hleast := mt (Nat.length_toDigits_le_iff (n := (k / 12).toNat) (b := 10) (k := 3) (by decide)
    (by decide)).mp (by omega)
  omega

/-- A year of four digits. -/
theorem toDigits_year (hk : 12000 ≤ k) (hk' : k < 120000) : ∃ y₁ y₂ y₃ y₄,
    Nat.toDigits 10 (k / 12).toNat = [y₁, y₂, y₃, y₄] ∧ y₁.isDigit = true ∧ y₂.isDigit = true ∧
      y₃.isDigit = true ∧ y₄.isDigit = true := by
  have hlength := length_year hk hk'
  obtain ⟨y₁, rest, hdigits⟩ := List.exists_of_length_succ _ hlength
  rw [hdigits, List.length_cons] at hlength
  obtain ⟨y₂, y₃, y₄, hrest⟩ := List.length_eq_three.mp (Nat.succ.inj hlength)
  rw [hrest] at hdigits
  have hall : ∀ c ∈ [y₁, y₂, y₃, y₄], c.isDigit = true := by
    intro c hc
    rw [← hdigits] at hc
    exact Nat.isDigit_of_mem_toDigits (by decide) (by decide) hc
  exact ⟨y₁, y₂, y₃, y₄, hdigits, hall _ (by simp), hall _ (by simp), hall _ (by simp),
    hall _ (by simp)⟩

theorem isSafeDate_firstDay (hk : 12000 ≤ k) (hk' : k < 120000) :
    isSafeDate (firstDay k) = true := by
  obtain ⟨a, b, htext, ha, hb, _⟩ := toList_firstDay (k := k) (by omega)
  obtain ⟨y₁, y₂, y₃, y₄, hyear, h₁, h₂, h₃, h₄⟩ := toDigits_year hk hk'
  rw [hyear] at htext
  unfold isSafeDate
  rw [htext]
  simp [ha, hb, h₁, h₂, h₃, h₄]

theorem isSafeIdentifier_name (hk : 12000 ≤ k) (hk' : k < 120000) :
    isSafeIdentifier (monthRange k).name = true := by
  obtain ⟨a, b, htext, ha, hb, _⟩ := toList_name (k := k) (by omega)
  obtain ⟨y₁, y₂, y₃, y₄, hyear, h₁, h₂, h₃, h₄⟩ := toDigits_year hk hk'
  rw [hyear] at htext
  unfold isSafeIdentifier
  rw [htext]
  simp [ha, hb, h₁, h₂, h₃, h₄]

end Texts

section Result
variable {start : Int} {count : Nat}

theorem holds_monthRange {k : Int} (hk : 0 ≤ k) (t : Int) :
    (monthRange k).Holds t ↔ monthIndex t = k := by
  unfold MonthRange.Holds monthRange
  rw [dateOfIso_firstDay hk, dateOfIso_firstDay (by omega), monthIndex_eq_iff]

theorem getElem?_months {m : Int} {i : Nat} {r : MonthRange}
    (h : ((List.range count).map fun i : Nat => monthRange (m + i))[i]? = some r) :
    i < count ∧ r = monthRange (m + i) := by
  obtain ⟨j, hj, rfl⟩ := Option.map_eq_some_iff.mp ((List.getElem?_map ..).symm.trans h)
  obtain ⟨hlt, hij⟩ := List.getElem?_eq_some_iff.mp hj
  rw [List.getElem_range] at hij
  rw [List.length_range] at hlt
  exact ⟨hlt, by rw [hij]⟩

theorem tiles_months {m : Int} (hm : monthIndex start = m) (hlow : 12000 ≤ m)
    (hhigh : m + count ≤ 120000) :
    Tiles start count ((List.range count).map fun i : Nat => monthRange (m + i)) where
  length := by simp
  consecutive i r r' hr hr' := by
    obtain ⟨_, rfl⟩ := getElem?_months hr
    obtain ⟨_, rfl⟩ := getElem?_months hr'
    have hnext : m + (i : Int) + 1 = m + (i + 1 : Nat) := by omega
    exact congrArg firstDay hnext
  starts r hr := by
    obtain ⟨_, rfl⟩ := getElem?_months hr
    have hfirst : m + ((0 : Nat) : Int) = m := by omega
    rw [hm, hfirst]
    exact dateOfIso_firstDay (by omega)
  month i r hr t := by
    obtain ⟨_, rfl⟩ := getElem?_months hr
    rw [hm]
    exact holds_monthRange (by omega) t
  covers t := by
    simp only [List.mem_map, List.mem_range, hm]
    constructor
    · rintro ⟨_, ⟨i, hi, rfl⟩, hholds⟩
      have hmonth := (holds_monthRange (by omega) t).mp hholds
      omega
    · rintro ⟨hfrom, hto⟩
      refine ⟨_, ⟨(monthIndex t - m).toNat, by omega, rfl⟩, ?_⟩
      apply (holds_monthRange (by omega) t).mpr
      omega
  distinct := by
    rw [List.map_map]
    apply List.Nodup.map_on _ List.nodup_range
    intro i _ j _ heq
    have hmonths := name_inj (by omega) (by omega) heq
    omega
  safeNames r hr := by
    obtain ⟨i, hi, rfl⟩ := List.mem_map.mp hr
    have hlt := List.mem_range.mp hi
    exact isSafeIdentifier_name (by omega) (by omega)
  safeStarts r hr := by
    obtain ⟨i, hi, rfl⟩ := List.mem_map.mp hr
    have hlt := List.mem_range.mp hi
    exact isSafeDate_firstDay (by omega) (by omega)

/-- Up to December 9999 the partitions tile the months, and all of their bounds are safe but the
end of that month. -/
theorem monthRanges_tile (start : Int) (count : Nat) (hstart : 1000 ≤ yearFromTime start)
    (hend : monthIndex start + count ≤ 12 * 10000) :
    Tiles start count (monthRanges start count) ∧
      ∀ r ∈ monthRanges start count, isSafeDate r.toIso = true ∨
        r.fromIso = "9999-12-01" ∧ r.toIso = "10000-01-01" := by
  have hmonth := monthFromTime_bounds start
  have hindex : monthIndex start = 12 * yearFromTime start + monthFromTime start := rfl
  rw [monthRanges_eq hstart]
  refine ⟨tiles_months rfl (by omega) (by omega), fun r hr => ?_⟩
  obtain ⟨i, hi, rfl⟩ := List.mem_map.mp hr
  have hlt := List.mem_range.mp hi
  by_cases hlast : monthIndex start + i = 119999
  · right
    rw [hlast]
    decide
  · left
    exact isSafeDate_firstDay (by omega) (by omega)

/-- Fourteen months from the last day of February 2024. -/
theorem monthRanges_tile_leap :
    Tiles (utc 2024 1 29) 14 (monthRanges (utc 2024 1 29) 14) ∧
      ∀ r ∈ monthRanges (utc 2024 1 29) 14, isSafeDate r.toIso = true ∨
        r.fromIso = "9999-12-01" ∧ r.toIso = "10000-01-01" :=
  monthRanges_tile (utc 2024 1 29) 14 (by decide +kernel) (by decide +kernel)

example : (monthRanges (utc 2024 1 29) 2).map (fun r => (r.name, r.fromIso, r.toIso))
    = [("orders_2024_02", "2024-02-01", "2024-03-01"),
      ("orders_2024_03", "2024-03-01", "2024-04-01")] := by decide +kernel

/-- December 9999 alone: all of its months have years of four digits, and its end has not. -/
theorem december_9999_unsafe : yearFromTime (utc 9999 11 1) = 9999 ∧
    monthIndex (utc 9999 11 1) + 1 = 12 * 10000 ∧
      (monthRanges (utc 9999 11 1) 1).map MonthRange.toIso = ["10000-01-01"] ∧
      ¬∀ r ∈ monthRanges (utc 9999 11 1) 1, isSafeDate r.toIso = true := by
  decide +kernel

/-- What passes the checks is sent, a statement for each range. -/
theorem ensurePartitions_safe {ranges : List MonthRange} (hnames : ∀ r ∈ ranges,
    isSafeIdentifier r.name = true ∧ isSafeDate r.fromIso = true ∧ isSafeDate r.toIso = true) :
    ensurePartitions ranges = (ranges.map partitionSql, none) := by
  induction ranges with
  | nil => rfl
  | cons r ranges ih =>
    obtain ⟨hname, hfrom, hto⟩ := hnames r List.mem_cons_self
    have hrest := ih fun r' hr' => hnames r' (List.mem_cons_of_mem r hr')
    simp [ensurePartitions, hname, hfrom, hto, hrest]

/-- The script refuses none of its ranges, unless they go on to the end of the year 9999. -/
theorem ensurePartitions_monthRanges (hstart : 1000 ≤ yearFromTime start)
    (hend : monthIndex start + count < 12 * 10000) :
    ensurePartitions (monthRanges start count)
      = ((monthRanges start count).map partitionSql, none) := by
  have hmonth := monthFromTime_bounds start
  have hindex : monthIndex start = 12 * yearFromTime start + monthFromTime start := rfl
  rw [monthRanges_eq hstart]
  have htiles : Tiles start count
      ((List.range count).map fun i : Nat => monthRange (monthIndex start + i)) :=
    tiles_months rfl (by omega) (by omega)
  apply ensurePartitions_safe
  intro r hr
  refine ⟨htiles.safeNames r hr, htiles.safeStarts r hr, ?_⟩
  obtain ⟨i, hi, rfl⟩ := List.mem_map.mp hr
  have hlt := List.mem_range.mp hi
  exact isSafeDate_firstDay (by omega) (by omega)

end Result

end OrderService
