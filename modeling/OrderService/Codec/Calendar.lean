import Mathlib.Data.Nat.Find

/-! The proleptic Gregorian calendar in UTC, over time values in milliseconds since 1970, as
ECMAScript computes it. Days, years and months are numbered by integers; the month of number
`12 * year + month` is the stretch from its first moment to that of the next one. -/
namespace Calendar

section Fields

def msPerDay : Int := 86400000

/-- The number of the first day of a year. -/
def dayFromYear (y : Int) : Int :=
  365 * (y - 1970) + (y - 1969) / 4 - (y - 1901) / 100 + (y - 1601) / 400

/-- One in a leap year, else zero. -/
def leapDay (y : Int) : Int := if y % 4 = 0 ∧ (y % 100 ≠ 0 ∨ y % 400 = 0) then 1 else 0

/-- The year of a day: 400 years have 146097 days, which gives it up to one. -/
def yearFromDay (d : Int) : Int :=
  let y := 1970 + 400 * d / 146097
  if d < dayFromYear y then y - 1 else if dayFromYear (y + 1) ≤ d then y + 1 else y

/-- The days of a year before its month, where January is month 0. -/
def daysBefore (leap month : Int) : Int :=
  if month ≤ 0 then 0 else if month = 1 then 31 else if month = 2 then 59 + leap
  else if month = 3 then 90 + leap else if month = 4 then 120 + leap
  else if month = 5 then 151 + leap else if month = 6 then 181 + leap
  else if month = 7 then 212 + leap else if month = 8 then 243 + leap
  else if month = 9 then 273 + leap else if month = 10 then 304 + leap
  else if month = 11 then 334 + leap else 365 + leap

/-- The month of a day that is counted within its year: the last one that has begun. -/
def monthFromDay (leap d : Int) : Int := Nat.findGreatest (fun m : Nat => daysBefore leap m ≤ d) 11

def day (t : Int) : Int := t / msPerDay

def timeWithinDay (t : Int) : Int := t % msPerDay

def yearFromTime (t : Int) : Int := yearFromDay (day t)

def dayWithinYear (t : Int) : Int := day t - dayFromYear (yearFromTime t)

def monthFromTime (t : Int) : Int := monthFromDay (leapDay (yearFromTime t)) (dayWithinYear t)

def dateFromTime (t : Int) : Int :=
  dayWithinYear t - daysBefore (leapDay (yearFromTime t)) (monthFromTime t) + 1

/-- Months outside 0 to 11 carry over to the year, dates to the months. -/
def makeDay (year month date : Int) : Int :=
  dayFromYear (year + month / 12) + daysBefore (leapDay (year + month / 12)) (month % 12) + date - 1

def makeDate (d time : Int) : Int := d * msPerDay + time

/-- The number of the month of a time. -/
def monthIndex (t : Int) : Int := 12 * yearFromTime t + monthFromTime t

/-- The first moment of a month. -/
def monthStart (k : Int) : Int := makeDate (makeDay (k / 12) (k % 12) 1) 0

/-- `Date.UTC(year, month, date)`: a year of two digits is one of the twentieth century. -/
def utc (year month date : Int) : Int :=
  makeDate (makeDay (if 0 ≤ year ∧ year ≤ 99 then 1900 + year else year) month date) 0

/-- `setUTCMonth(month)` keeps the day of the month and the time of the day. -/
def setUTCMonth (t month : Int) : Int :=
  makeDate (makeDay (yearFromTime t) month (dateFromTime t)) (timeWithinDay t)

end Fields

section Years

theorem dayFromYear_succ (y : Int) : dayFromYear (y + 1) = dayFromYear y + 365 + leapDay y := by
  unfold dayFromYear leapDay
  split <;> omega

theorem leapDay_bounds (y : Int) : 0 ≤ leapDay y ∧ leapDay y ≤ 1 := by
  unfold leapDay
  split <;> omega

theorem yearFromDay_bounds (d : Int) :
    dayFromYear (yearFromDay d) ≤ d ∧ d < dayFromYear (yearFromDay d + 1) := by
  have hlow : dayFromYear (1970 + 400 * d / 146097 - 1) ≤ d := by
    unfold dayFromYear
    omega
  have hhigh : d < dayFromYear (1970 + 400 * d / 146097 + 1 + 1) := by
    unfold dayFromYear
    omega
  unfold yearFromDay
  dsimp only
  split
  · refine ⟨hlow, ?_⟩
    rw [Int.sub_add_cancel]
    assumption
  · split
    · exact ⟨by assumption, hhigh⟩
    · omega

end Years

section Months
variable {leap d : Int}

/-- The last month ends with the year. -/
theorem daysBefore_twelve (leap : Int) : daysBefore leap 12 = 365 + leap := rfl

theorem daysBefore_zero (leap : Int) : daysBefore leap 0 = 0 := rfl

theorem monthFromDay_bounds (h : 0 ≤ d) (hd : d < 365 + leap) :
    0 ≤ monthFromDay leap d ∧ monthFromDay leap d ≤ 11 ∧
      daysBefore leap (monthFromDay leap d) ≤ d ∧
      d < daysBefore leap (monthFromDay leap d + 1) := by
  have hle := Nat.findGreatest_le (P := fun m : Nat => daysBefore leap m ≤ d) 11
  have hbegun := Nat.findGreatest_spec (P := fun m : Nat => daysBefore leap m ≤ d) (Nat.zero_le 11) h
  unfold monthFromDay
  refine ⟨by omega, by omega, hbegun, ?_⟩
  by_cases hlast : Nat.findGreatest (fun m : Nat => daysBefore leap m ≤ d) 11 = 11
  · rw [hlast]
    exact hd
  · have hnext := Nat.findGreatest_is_greatest (P := fun m : Nat => daysBefore leap m ≤ d)
      (n := 11) (Nat.lt_succ_self _) (by omega)
    simpa using hnext

theorem daysBefore_lt (hleap : 0 ≤ leap ∧ leap ≤ 1) {m : Int} (hm : 0 ≤ m) (hm' : m ≤ 11) :
    daysBefore leap m < daysBefore leap (m + 1) := by
  obtain rfl | rfl | rfl | rfl | rfl | rfl | rfl | rfl | rfl | rfl | rfl | rfl :
      m = 0 ∨ m = 1 ∨ m = 2 ∨ m = 3 ∨ m = 4 ∨ m = 5 ∨ m = 6 ∨ m = 7 ∨ m = 8 ∨ m = 9 ∨ m = 10 ∨
        m = 11 := by omega
  all_goals simp [daysBefore]; try omega

end Months

section Starts

/-- Counted from January of a year, month 12 is January of the next. -/
theorem makeDay_month (y : Int) {m : Int} (hm : 0 ≤ m) (hm' : m ≤ 12) :
    makeDay y m 1 = dayFromYear y + daysBefore (leapDay y) m := by
  unfold makeDay
  by_cases hlast : m = 12
  · subst hlast
    have hyear := dayFromYear_succ y
    simp only [daysBefore_twelve, Int.reduceDiv, Int.reduceMod, daysBefore_zero]
    omega
  · have hdiv : m / 12 = 0 := by omega
    have hmod : m % 12 = m := by omega
    rw [hdiv, hmod, Int.add_zero]
    omega

/-- The month carries over to the year. -/
theorem makeDay_carry (y m date : Int) : makeDay y m date = makeDay (y + m / 12) (m % 12) date := by
  have hdiv : m % 12 / 12 = 0 := by omega
  have hmod : m % 12 % 12 = m % 12 := by omega
  unfold makeDay
  rw [hdiv, hmod, Int.add_zero]

theorem monthStart_eq (y : Int) {m : Int} (hm : 0 ≤ m) (hm' : m ≤ 12) :
    monthStart (12 * y + m) = (dayFromYear y + daysBefore (leapDay y) m) * msPerDay := by
  have hstart : makeDay ((12 * y + m) / 12) ((12 * y + m) % 12) 1 = makeDay y m 1 := by
    rw [makeDay_carry y m]
    congr 1 <;> omega
  unfold monthStart makeDate
  rw [hstart, makeDay_month y hm hm', Int.add_zero]

theorem monthStart_lt (k : Int) : monthStart k < monthStart (k + 1) := by
  have hk : k = 12 * (k / 12) + k % 12 := by omega
  have hk' : k + 1 = 12 * (k / 12) + (k % 12 + 1) := by omega
  rw [hk', monthStart_eq _ (by omega) (by omega)]
  conv_lhs => rw [hk, monthStart_eq _ (by omega) (by omega)]
  have hlt := daysBefore_lt (leapDay_bounds (k / 12)) (m := k % 12) (by omega) (by omega)
  unfold msPerDay
  omega

/-- The months begin in their order. -/
theorem lt_of_monthStart_lt {k k' : Int} (h : monthStart k < monthStart k') : k < k' := by
  have hle : ∀ n : Nat, monthStart k' ≤ monthStart (k' + n) := by
    intro n
    induction n with
    | zero => exact Int.le_of_eq (by rw [Int.natCast_zero, Int.add_zero])
    | succ n ih =>
      have hstep := monthStart_lt (k' + n)
      rw [Int.natCast_succ, ← Int.add_assoc]
      omega
  by_contra hge
  have hlater := hle (k - k').toNat
  have hk : k' + ((k - k').toNat : Int) = k := by omega
  rw [hk] at hlater
  omega

theorem dayWithinYear_bounds (t : Int) :
    0 ≤ dayWithinYear t ∧ dayWithinYear t < 365 + leapDay (yearFromTime t) := by
  have hyear := yearFromDay_bounds (day t)
  have hnext := dayFromYear_succ (yearFromTime t)
  unfold dayWithinYear
  unfold yearFromTime at hnext ⊢
  omega

theorem monthFromTime_bounds (t : Int) : 0 ≤ monthFromTime t ∧ monthFromTime t ≤ 11 := by
  obtain ⟨hday, hday'⟩ := dayWithinYear_bounds t
  obtain ⟨hm, hm', _, _⟩ := monthFromDay_bounds hday hday'
  exact ⟨hm, hm'⟩

/-- A time lies in its month. -/
theorem monthIndex_bounds (t : Int) :
    monthStart (monthIndex t) ≤ t ∧ t < monthStart (monthIndex t + 1) := by
  obtain ⟨hday, hday'⟩ := dayWithinYear_bounds t
  obtain ⟨hm, hm', hlow, hhigh⟩ := monthFromDay_bounds hday hday'
  have hassoc : monthIndex t + 1 = 12 * yearFromTime t + (monthFromTime t + 1) := by
    unfold monthIndex
    omega
  have hsucc : monthFromTime t + 1 ≤ 12 := by
    unfold monthFromTime
    omega
  rw [hassoc, monthStart_eq _ (by unfold monthFromTime; omega) hsucc]
  conv_lhs => rw [monthIndex, monthStart_eq _ (by exact hm) (by omega)]
  have hsum : day t = dayFromYear (yearFromTime t) + dayWithinYear t := by
    unfold dayWithinYear
    omega
  have htime : day t * msPerDay ≤ t ∧ t < (day t + 1) * msPerDay := by
    unfold day msPerDay
    omega
  unfold monthFromTime
  unfold msPerDay at htime ⊢
  omega

/-- The months tile the time line. -/
theorem monthIndex_eq_iff {t k : Int} :
    monthIndex t = k ↔ monthStart k ≤ t ∧ t < monthStart (k + 1) := by
  have hown := monthIndex_bounds t
  constructor
  · rintro rfl
    exact hown
  · rintro ⟨hlow, hhigh⟩
    have hle : k < monthIndex t + 1 := lt_of_monthStart_lt (by omega)
    have hge : monthIndex t < k + 1 := lt_of_monthStart_lt (by omega)
    omega

theorem monthIndex_monthStart (k : Int) : monthIndex (monthStart k) = k :=
  monthIndex_eq_iff.mpr ⟨Int.le_refl _, monthStart_lt k⟩

theorem yearFromTime_monthStart (k : Int) : yearFromTime (monthStart k) = k / 12 := by
  have hindex := monthIndex_monthStart k
  have hmonth := monthFromTime_bounds (monthStart k)
  unfold monthIndex at hindex
  omega

theorem monthFromTime_monthStart (k : Int) : monthFromTime (monthStart k) = k % 12 := by
  have hindex := monthIndex_monthStart k
  have hmonth := monthFromTime_bounds (monthStart k)
  unfold monthIndex at hindex
  omega

theorem timeWithinDay_monthStart (k : Int) : timeWithinDay (monthStart k) = 0 := by
  unfold timeWithinDay monthStart makeDate
  rw [Int.add_zero, Int.mul_emod_left]

theorem dateFromTime_monthStart (k : Int) : dateFromTime (monthStart k) = 1 := by
  have hsplit : k = 12 * (k / 12) + k % 12 := by omega
  have hday : day (monthStart k)
      = dayFromYear (k / 12) + daysBefore (leapDay (k / 12)) (k % 12) := by
    conv_lhs => rw [hsplit, monthStart_eq _ (by omega) (by omega)]
    exact Int.mul_ediv_cancel _ (by decide)
  unfold dateFromTime dayWithinYear
  rw [yearFromTime_monthStart, monthFromTime_monthStart, hday]
  omega

/-- A year of more than two digits is taken as it is. -/
theorem utc_first {y : Int} (hy : 99 < y) (m : Int) : utc y m 1 = monthStart (12 * y + m) := by
  have hyear : ¬(0 ≤ y ∧ y ≤ 99) := by omega
  have hdiv : (12 * y + m) / 12 = y + m / 12 := by omega
  have hmod : (12 * y + m) % 12 = m % 12 := by omega
  unfold utc monthStart
  rw [if_neg hyear, makeDay_carry, hdiv, hmod]

/-- From the first of a month no day is lost. -/
theorem setUTCMonth_monthStart (k m : Int) :
    setUTCMonth (monthStart k) m = monthStart (12 * (k / 12) + m) := by
  have hdiv : (12 * (k / 12) + m) / 12 = k / 12 + m / 12 := by omega
  have hmod : (12 * (k / 12) + m) % 12 = m % 12 := by omega
  unfold setUTCMonth
  rw [yearFromTime_monthStart, dateFromTime_monthStart, timeWithinDay_monthStart, makeDay_carry]
  unfold monthStart
  rw [hdiv, hmod]

end Starts

end Calendar
