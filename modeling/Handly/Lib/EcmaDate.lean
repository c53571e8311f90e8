import Handly.Lib.Calendar
import Handly.Lib.Decimal
import Mathlib.Data.Rat.Floor

/-!
# Times and their texts in ECMAScript

A time is a number of milliseconds since the epoch. `Date.UTC`, `toISOString` and the parsing
of the texts that `toISOString` writes, over the calendar. An `Option` is `none` for NaN, and
where a method throws.
-/

namespace EcmaDate

open Calendar Decimal

/-- What the engine makes of texts of other forms than those below. -/
structure Engine where
  /-- `Number` of a text that is not one to nine digits; `none` also for an infinity. -/
  number : String → Option ℚ
  /-- `Date.parse` of a text that is not written as `toISOString` writes a year of four
  digits. -/
  parse : String → Option ℤ

/-- An engine that takes no other form. -/
def Engine.strict : Engine where
  number _ := none
  parse _ := none

/-! ### Numbers -/

/-- `Number(text)` -/
def toNumber (engine : Engine) (text : List Char) : Option ℚ :=
  if text ≠ [] ∧ text.length ≤ 9 ∧ text.all Char.isDigit then some (value text)
  else engine.number (String.ofList text)

/-- `ToIntegerOrInfinity` of a finite number. -/
def toInteger (q : ℚ) : ℤ := if 0 ≤ q then ⌊q⌋ else ⌈q⌉

@[simp]
theorem toInteger_intCast (z : ℤ) : toInteger z = z := by
  unfold toInteger
  split <;> simp

theorem toNumber_digits (engine : Engine) {width n : ℕ} (hwidth : 0 < width ∧ width ≤ 9)
    (h : n < 10 ^ width) : toNumber engine (digits width n) = some (n : ℚ) := by
  have hnil : digits width n ≠ [] := by
    rw [← List.length_pos_iff, length_digits]
    exact hwidth.1
  have hall : (digits width n).all Char.isDigit = true :=
    List.all_eq_true.2 fun c hc => isDigit_of_mem_digits hc
  rw [toNumber, if_pos ⟨hnil, by simpa using hwidth.2, hall⟩, value_digits h]

/-! ### Times -/

def msPerDay : ℤ := 86400000

/-- `TimeClip` -/
def timeClip (t : ℤ) : Option ℤ :=
  if -8640000000000000 ≤ t ∧ t ≤ 8640000000000000 then some t else none

/-- `MakeDay`: the month may lie in another year, and the day in another month. The first of
the month must be a time. -/
def makeDay (year month date : ℤ) : Option ℤ :=
  let first := Calendar.makeDay (year + month / 12) (month % 12).toNat 1
  if -100000000 ≤ first ∧ first ≤ 100000000 then some (first + date - 1) else none

/-- `Date.UTC(year, month, date, hours, minutes)`: a year of at most two digits is one of the
twentieth century. -/
def dateUTC (year month date hours minutes : ℚ) : Option ℤ := do
  let y := toInteger year
  let day ← makeDay (if 0 ≤ y ∧ y ≤ 99 then 1900 + y else y) (toInteger month) (toInteger date)
  timeClip (day * msPerDay + (toInteger hours * 3600000 + toInteger minutes * 60000))

theorem timeClip_eq {t : ℤ} (hlow : -8640000000000000 ≤ t) (hhigh : t ≤ 8640000000000000) :
    timeClip t = some t := if_pos ⟨hlow, hhigh⟩

/-- The days of the years 0 to 9999. -/
theorem dayNumber_range {date : Date} (hyear : 0 ≤ date.year ∧ date.year ≤ 9999) :
    -800000 ≤ date.dayNumber ∧ date.dayNumber ≤ 3000000 := by
  obtain ⟨hle, hlt⟩ := date.dayNumber_in_year
  unfold dayFromYear at hle hlt
  omega

/-- The month of a date is at most 31 days long. -/
theorem day_le (date : Date) : date.day ≤ 31 := by
  have hlast := date.day_le
  have hleap : inLeapYear date.year ≤ 1 := by
    unfold inLeapYear
    split <;> decide
  unfold daysInMonth at hlast
  split at hlast <;> omega

/-- `Date.UTC` of a date, with a time of day that may be shifted out of the day. -/
theorem dateUTC_date {date : Date} (hyear : 100 ≤ date.year ∧ date.year ≤ 9999)
    {hours minutes : ℤ} (hhours : -24 ≤ hours ∧ hours ≤ 24)
    (hminutes : -60 ≤ minutes ∧ minutes ≤ 60) :
    dateUTC (date.year : ℤ) (date.month : ℤ) (date.day : ℤ) hours minutes =
      some (date.dayNumber * msPerDay + (hours * 3600000 + minutes * 60000)) := by
  have hmonth := date.month_lt
  have hfirst := date.one_le_day
  have hlast := day_le date
  obtain ⟨hlow, hhigh⟩ := @dayNumber_range date ⟨by omega, hyear.2⟩
  have hsame : date.year + (date.month : ℤ) / 12 = date.year := by omega
  have hindex : ((date.month : ℤ) % 12).toNat = date.month := by omega
  have hday : EcmaDate.makeDay date.year date.month date.day = some date.dayNumber := by
    unfold Date.dayNumber at hlow hhigh
    unfold EcmaDate.makeDay Date.dayNumber
    simp only [hsame, hindex]
    unfold Calendar.makeDay at *
    rw [if_pos ⟨by omega, by omega⟩]
    congr 1
    omega
  unfold dateUTC
  simp only [toInteger_intCast]
  rw [if_neg (by omega), hday]
  exact timeClip_eq (by unfold msPerDay; omega) (by unfold msPerDay; omega)

/-! ### Texts -/

/-- Years outside 0 to 9999 have a sign and six digits. -/
def yearText (year : ℤ) : List Char :=
  if 0 ≤ year ∧ year ≤ 9999 then digits 4 year.toNat
  else (if year < 0 then '-' else '+') :: digits 6 year.natAbs

/-- `YYYY-MM-DD` -/
def dateText (date : Date) : List Char :=
  yearText date.year ++ '-' :: (digits 2 (date.month + 1) ++ '-' :: digits 2 date.day.toNat)

/-- `HH:mm`, for a minute of the day. -/
def clockText (minute : ℤ) : List Char :=
  digits 2 (minute / 60).toNat ++ ':' :: digits 2 (minute % 60).toNat

/-- `toISOString` -/
def toISOString (t : ℤ) : String :=
  .ofList (dateText (.ofDayNumber (t / msPerDay)) ++ 'T' :: (clockText (t % msPerDay / 60000) ++
    ':' :: (digits 2 (t % 60000 / 1000).toNat ++ '.' :: (digits 3 (t % 1000).toNat ++ ['Z']))))

/-- The number at a place of a text. -/
def field (text : List Char) (start length : ℕ) : ℤ := value ((text.drop start).take length)

/-- The time that a text of the form `YYYY-MM-DDTHH:mm:ss.sssZ` names. -/
def fieldsTime (text : List Char) : ℤ :=
  Calendar.makeDay (field text 0 4) (field text 5 2 - 1).toNat (field text 8 2) * msPerDay +
    field text 11 2 * 3600000 + field text 14 2 * 60000 + field text 17 2 * 1000 + field text 20 3

/-- `Date.parse(text)`: if the text is how its fields' time is written, it names that time. -/
def dateParse (engine : Engine) (text : String) : Option ℤ :=
  if toISOString (fieldsTime text.toList) = text then some (fieldsTime text.toList)
  else engine.parse text

/-! ### Round trips -/

section RoundTrip

variable {date : Date} {t : ℤ}

theorem length_dateText (hyear : 0 ≤ date.year ∧ date.year ≤ 9999) :
    (dateText date).length = 10 := by
  simp [dateText, yearText, hyear]

theorem toISOString_toList (t : ℤ) :
    (toISOString t).toList = dateText (.ofDayNumber (t / msPerDay)) ++ 'T' ::
      (clockText (t % msPerDay / 60000) ++ ':' :: (digits 2 (t % 60000 / 1000).toNat ++ '.' ::
        (digits 3 (t % 1000).toNat ++ ['Z']))) :=
  String.toList_ofList

/-- The fields of a text are what was written there. -/
theorem fieldsTime_text {y mo d h mi s ms : ℕ} (hy : y < 10 ^ 4) (hmo : mo < 10 ^ 2)
    (hd : d < 10 ^ 2) (hh : h < 10 ^ 2) (hmi : mi < 10 ^ 2) (hs : s < 10 ^ 2)
    (hms : ms < 10 ^ 3) :
    fieldsTime (digits 4 y ++ '-' :: (digits 2 mo ++ '-' :: digits 2 d) ++ 'T' ::
      (digits 2 h ++ ':' :: digits 2 mi ++ ':' :: (digits 2 s ++ '.' ::
        (digits 3 ms ++ ['Z'])))) =
    Calendar.makeDay y (mo - 1 : ℤ).toNat d * msPerDay + h * 3600000 + mi * 60000 + s * 1000 +
      ms := by
  show Calendar.makeDay (value (digits 4 y)) (value (digits 2 mo) - 1 : ℤ).toNat
      (value (digits 2 d)) * msPerDay + value (digits 2 h) * 3600000 +
      value (digits 2 mi) * 60000 + value (digits 2 s) * 1000 + value (digits 3 ms) = _
  rw [value_digits hy, value_digits hmo, value_digits hd, value_digits hh, value_digits hmi,
    value_digits hs, value_digits hms]

/-- The fields of the text of a time, for a year of four digits. -/
theorem fieldsTime_toISOString
    (hyear : 0 ≤ yearFromDay (t / msPerDay) ∧ yearFromDay (t / msPerDay) ≤ 9999) :
    fieldsTime (toISOString t).toList = t := by
  rw [toISOString_toList]
  generalize hdate : Date.ofDayNumber (t / msPerDay) = date
  have hday : Calendar.makeDay date.year date.month date.day = t / msPerDay := by
    rw [← hdate]
    exact Date.dayNumber_ofDayNumber _
  have hyear : 0 ≤ date.year ∧ date.year ≤ 9999 := by rwa [← hdate]
  have hmonth := date.month_lt
  have hfirst := date.one_le_day
  have hlast := day_le date
  unfold msPerDay at *
  rw [dateText, yearText, if_pos hyear, clockText,
    fieldsTime_text (by omega) (by omega) (by omega) (by omega) (by omega) (by omega) (by omega),
    msPerDay]
  have hmonth' : (((date.month + 1 : ℕ) : ℤ) - 1).toNat = date.month := by omega
  rw [hmonth', Int.toNat_of_nonneg hyear.1, Int.toNat_of_nonneg (by omega), hday]
  omega

/-- The text of a time names the time, for a year of four digits. -/
theorem dateParse_toISOString (engine : Engine)
    (hyear : 0 ≤ yearFromDay (t / msPerDay) ∧ yearFromDay (t / msPerDay) ≤ 9999) :
    dateParse engine (toISOString t) = some t := by
  rw [dateParse, fieldsTime_toISOString hyear, if_pos rfl]

/-- The first ten characters are the date. -/
theorem take_toISOString
    (hyear : 0 ≤ yearFromDay (t / msPerDay) ∧ yearFromDay (t / msPerDay) ≤ 9999) :
    (toISOString t).toList.take 10 = dateText (.ofDayNumber (t / msPerDay)) := by
  rw [toISOString_toList, List.take_left' (length_dateText hyear)]

/-- The five characters after them and the T are the time of day. -/
theorem take_drop_toISOString
    (hyear : 0 ≤ yearFromDay (t / msPerDay) ∧ yearFromDay (t / msPerDay) ≤ 9999) :
    ((toISOString t).toList.drop 11).take 5 = clockText (t % msPerDay / 60000) := by
  have hlength : (dateText (.ofDayNumber (t / msPerDay)) ++ ['T']).length = 11 := by
    rw [List.length_append, length_dateText hyear]
    rfl
  rw [toISOString_toList, List.append_cons, List.drop_left' hlength]
  exact List.take_left' (by simp [clockText])

end RoundTrip

end EcmaDate
