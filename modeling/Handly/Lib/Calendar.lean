import Mathlib

/-!
# The proleptic Gregorian calendar

Dates and day numbers, with the day arithmetic of ECMAScript: day 0 is the first of January
1970, and months are counted from 0. A date carries the proof that its month has such a day.
Dates and day numbers correspond one to one, and later dates have greater numbers.
-/

namespace Calendar

/-! ### Years -/

/-- The number of the first of January. -/
def dayFromYear (y : ℤ) : ℤ :=
  365 * (y - 1970) + (y - 1969) / 4 - (y - 1901) / 100 + (y - 1601) / 400

/-- 1 in a leap year, and 0 in any other. -/
def inLeapYear (y : ℤ) : ℤ := if y % 4 = 0 ∧ (y % 100 ≠ 0 ∨ y % 400 = 0) then 1 else 0

theorem inLeapYear_nonneg (y : ℤ) : 0 ≤ inLeapYear y := by
  unfold inLeapYear
  split <;> decide

/-- A year has 365 days, and 366 in a leap year. -/
theorem dayFromYear_succ (y : ℤ) : dayFromYear (y + 1) = dayFromYear y + 365 + inLeapYear y := by
  unfold dayFromYear inLeapYear
  split <;> omega

theorem dayFromYear_strictMono : StrictMono dayFromYear := by
  refine strictMono_int_of_lt_succ fun y => ?_
  have hleap := inLeapYear_nonneg y
  rw [dayFromYear_succ]
  omega

/-- The year of a day. In 400 years there are 146097 days, so the guess is off by at most one. -/
def yearFromDay (day : ℤ) : ℤ :=
  let guess := 1970 + day * 400 / 146097
  if dayFromYear (guess + 1) ≤ day then guess + 1
  else if day < dayFromYear guess then guess - 1
  else guess

theorem yearFromDay_spec (day : ℤ) :
    dayFromYear (yearFromDay day) ≤ day ∧ day < dayFromYear (yearFromDay day + 1) := by
  have hbelow : dayFromYear (1970 + day * 400 / 146097 - 1) ≤ day := by
    unfold dayFromYear
    omega
  have habove : day < dayFromYear (1970 + day * 400 / 146097 + 1 + 1) := by
    unfold dayFromYear
    omega
  unfold yearFromDay
  dsimp only
  split_ifs with hlate hearly
  · exact ⟨hlate, habove⟩
  · exact ⟨hbelow, by rwa [sub_add_cancel]⟩
  · exact ⟨not_lt.1 hearly, not_le.1 hlate⟩

theorem yearFromDay_le {day y : ℤ} (hlt : day < dayFromYear (y + 1)) : yearFromDay day ≤ y :=
  Int.lt_add_one_iff.1
    (dayFromYear_strictMono.lt_iff_lt.1 ((yearFromDay_spec day).1.trans_lt hlt))

theorem le_yearFromDay {day y : ℤ} (hle : dayFromYear y ≤ day) : y ≤ yearFromDay day :=
  Int.lt_add_one_iff.1
    (dayFromYear_strictMono.lt_iff_lt.1 (hle.trans_lt (yearFromDay_spec day).2))

/-- A day lies in one year only. -/
theorem yearFromDay_eq {day y : ℤ} (hle : dayFromYear y ≤ day) (hlt : day < dayFromYear (y + 1)) :
    yearFromDay day = y :=
  le_antisymm (yearFromDay_le hlt) (le_yearFromDay hle)

/-! ### Months -/

variable {leap day : ℤ} {month : ℕ}

/-- The days of a month. -/
def daysInMonth (leap : ℤ) : ℕ → ℤ
  | 1 => 28 + leap
  | 3 | 5 | 8 | 10 => 30
  | _ => 31

/-- The days of the year before a month. -/
def dayFromMonth (leap : ℤ) : ℕ → ℤ
  | 0 => 0
  | month + 1 => dayFromMonth leap month + daysInMonth leap month

theorem dayFromMonth_year : dayFromMonth leap 12 = 365 + leap := by
  simp only [dayFromMonth, daysInMonth]
  omega

theorem daysInMonth_pos (hleap : 0 ≤ leap) (month : ℕ) : 0 < daysInMonth leap month := by
  unfold daysInMonth
  split <;> omega

theorem dayFromMonth_strictMono (hleap : 0 ≤ leap) : StrictMono (dayFromMonth leap) :=
  strictMono_nat_of_lt_succ fun month => lt_add_of_pos_right _ (daysInMonth_pos hleap month)

/-- The last of the months up to `bound` that has begun. -/
def lastMonth (leap day : ℤ) : ℕ → ℕ
  | 0 => 0
  | bound + 1 =>
      if dayFromMonth leap (bound + 1) ≤ day then bound + 1 else lastMonth leap day bound

theorem lastMonth_spec (hday : 0 ≤ day) {bound : ℕ}
    (hbound : day < dayFromMonth leap (bound + 1)) :
    lastMonth leap day bound ≤ bound ∧ dayFromMonth leap (lastMonth leap day bound) ≤ day ∧
      day < dayFromMonth leap (lastMonth leap day bound + 1) := by
  induction bound with
  | zero => exact ⟨le_rfl, hday, hbound⟩
  | succ bound ih =>
    rw [lastMonth]
    split_ifs with hbegun
    · exact ⟨le_rfl, hbegun, hbound⟩
    · obtain ⟨hle, hspec⟩ := ih (not_le.1 hbegun)
      exact ⟨by omega, hspec⟩

/-- The month of a day of the year. -/
def monthFromDay (leap day : ℤ) : ℕ := lastMonth leap day 11

/-- A day of the year lies in one month only. -/
theorem monthFromDay_eq (hleap : 0 ≤ leap) (hmonth : month < 12)
    (hle : dayFromMonth leap month ≤ day) (hlt : day < dayFromMonth leap (month + 1)) :
    monthFromDay leap day = month := by
  have hmono := dayFromMonth_strictMono hleap
  have hday : 0 ≤ day := (hmono.monotone (Nat.zero_le month)).trans hle
  have hyear : day < dayFromMonth leap 12 := hlt.trans_le (hmono.monotone hmonth)
  obtain ⟨-, hle', hlt'⟩ := lastMonth_spec hday hyear
  have hnot : lastMonth leap day 11 < month + 1 := hmono.lt_iff_lt.1 (hle'.trans_lt hlt)
  have hnot' : month < lastMonth leap day 11 + 1 := hmono.lt_iff_lt.1 (hle.trans_lt hlt')
  rw [monthFromDay]
  omega

/-! ### Dates -/

/-- A date of the calendar. -/
@[ext]
structure Date where
  year : ℤ
  /-- Counted from 0. -/
  month : ℕ
  day : ℤ
  month_lt : month < 12
  one_le_day : 1 ≤ day
  day_le : day ≤ daysInMonth (inLeapYear year) month
  deriving DecidableEq

/-- The number of the day of the month. -/
def makeDay (year : ℤ) (month : ℕ) (day : ℤ) : ℤ :=
  dayFromYear year + dayFromMonth (inLeapYear year) month + day - 1

namespace Date

/-- The number of the day. -/
def dayNumber (date : Date) : ℤ := makeDay date.year date.month date.day

/-- A date lies in its month. -/
theorem day_in_month (date : Date) :
    dayFromMonth (inLeapYear date.year) date.month ≤ date.dayNumber - dayFromYear date.year ∧
      date.dayNumber - dayFromYear date.year <
        dayFromMonth (inLeapYear date.year) (date.month + 1) := by
  have hfirst := date.one_le_day
  have hlast := date.day_le
  rw [dayNumber, makeDay, dayFromMonth]
  omega

/-- A date lies in its year. -/
theorem dayNumber_in_year (date : Date) :
    dayFromYear date.year ≤ date.dayNumber ∧ date.dayNumber < dayFromYear (date.year + 1) := by
  obtain ⟨hle, hlt⟩ := date.day_in_month
  have hmono := dayFromMonth_strictMono (inLeapYear_nonneg date.year)
  have hstart : dayFromMonth (inLeapYear date.year) 0 ≤ _ := hmono.monotone (Nat.zero_le date.month)
  have hend := hmono.monotone (Nat.succ_le_of_lt date.month_lt)
  rw [dayFromMonth_year] at hend
  rw [dayFromYear_succ]
  simp only [dayFromMonth] at hstart hlt
  simp only [dayFromMonth] at hend
  omega

/-- The month of a day number. -/
def monthOf (day : ℤ) : ℕ :=
  monthFromDay (inLeapYear (yearFromDay day)) (day - dayFromYear (yearFromDay day))

theorem monthOf_spec (day : ℤ) :
    monthOf day < 12 ∧
      dayFromMonth (inLeapYear (yearFromDay day)) (monthOf day) ≤
        day - dayFromYear (yearFromDay day) ∧
      day - dayFromYear (yearFromDay day) <
        dayFromMonth (inLeapYear (yearFromDay day)) (monthOf day + 1) := by
  obtain ⟨hle, hlt⟩ := yearFromDay_spec day
  rw [dayFromYear_succ] at hlt
  have hyear : day - dayFromYear (yearFromDay day) <
      dayFromMonth (inLeapYear (yearFromDay day)) (11 + 1) := by
    rw [dayFromMonth_year]
    omega
  obtain ⟨hmonth, hspec⟩ := lastMonth_spec (Int.sub_nonneg.2 hle) hyear
  exact ⟨Nat.lt_succ_of_le hmonth, hspec⟩

/-- The date of a day number. -/
@[simps year month]
def ofDayNumber (day : ℤ) : Date where
  year := yearFromDay day
  month := monthOf day
  day := day - dayFromYear (yearFromDay day) -
    dayFromMonth (inLeapYear (yearFromDay day)) (monthOf day) + 1
  month_lt := (monthOf_spec day).1
  one_le_day := by
    have hle := (monthOf_spec day).2.1
    omega
  day_le := by
    have hlt := (monthOf_spec day).2.2
    rw [dayFromMonth] at hlt
    omega

theorem dayNumber_ofDayNumber (day : ℤ) : (ofDayNumber day).dayNumber = day := by
  simp only [ofDayNumber, dayNumber, makeDay]
  omega

theorem ofDayNumber_dayNumber (date : Date) : ofDayNumber date.dayNumber = date := by
  have hyear : yearFromDay date.dayNumber = date.year :=
    yearFromDay_eq date.dayNumber_in_year.1 date.dayNumber_in_year.2
  have hmonth : monthOf date.dayNumber = date.month := by
    rw [monthOf, hyear]
    exact monthFromDay_eq (inLeapYear_nonneg date.year) date.month_lt date.day_in_month.1
      date.day_in_month.2
  ext
  · exact hyear
  · exact hmonth
  · simp only [ofDayNumber, hyear, hmonth]
    rw [dayNumber, makeDay]
    omega

/-- One date comes before another: by year, then by month, then by day. -/
instance : LT Date where
  lt a b := a.year < b.year ∨ (a.year = b.year ∧
    (a.month < b.month ∨ (a.month = b.month ∧ a.day < b.day)))

/-- Later dates have greater numbers. -/
theorem dayNumber_lt_of_lt {a b : Date} (h : a < b) : a.dayNumber < b.dayNumber := by
  obtain hyear | ⟨hyear, hmonth | ⟨hmonth, hday⟩⟩ := h
  · calc a.dayNumber < dayFromYear (a.year + 1) := a.dayNumber_in_year.2
      _ ≤ dayFromYear b.year := dayFromYear_strictMono.monotone hyear
      _ ≤ b.dayNumber := b.dayNumber_in_year.1
  · have hmono := (dayFromMonth_strictMono (inLeapYear_nonneg a.year)).monotone
      (Nat.succ_le_of_lt hmonth)
    have hend := a.day_in_month.2
    have hstart := b.day_in_month.1
    rw [← hyear] at hstart
    simp only [Nat.succ_eq_add_one] at hmono
    omega
  · simp only [dayNumber, makeDay, hyear, hmonth]
    omega

end Date

end Calendar
