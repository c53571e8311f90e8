import Handly.Lib.EcmaDate
import Handly.Orders.BookingForm

/-!
# Dates and slots as texts

`slotToUtcIso` and `utcIsoToSlot` on the texts that the form and the API exchange. The shift by
five hours is left to `Date.UTC`, which takes negative hours, and so a slot before five in the
morning borrows from the day, the month or the year before. On dates with a year of four digits
the two are inverse to each other, and later slots are later instants.
-/

namespace Handly

open Calendar Decimal
open EcmaDate hiding msPerDay

/-! ### The functions -/

/-- `UZ_UTC_OFFSET_HOURS` -/
def uzUtcOffsetHours : ℚ := 5

/-- `slotToUtcIso`: `toISOString` throws for an invalid date. -/
def slotToUtcIso (engine : Engine) (dateStr slot : String) : Option String := do
  let date := (dateStr.toList.splitOn '-').map (toNumber engine)
  let clock := (slot.toList.splitOn ':').map (toNumber engine)
  let year ← date[0]?.join
  let month ← date[1]?.getD (some 1)
  -- a missing day is `undefined`, which `Date.UTC` takes for NaN
  let day ← date[2]?.join
  let hour ← clock[0]?.getD (some 0)
  let minute ← clock[1]?.getD (some 0)
  let t ← dateUTC year (month - 1) day (hour - uzUtcOffsetHours) minute
  some (toISOString t)

/-- `utcIsoToSlot` -/
def utcIsoToSlot (engine : Engine) (iso : String) : Option (String × String) := do
  let t ← dateParse engine iso
  let shifted ← timeClip (t + uzUtcOffsetMs)
  let text := (toISOString shifted).toList
  some (.ofList (text.take 10), .ofList ((text.drop 11).take 5))

/-- The text of a date. -/
def dateStr (date : Date) : String := .ofList (dateText date)

/-- The text of a minute of the day. -/
def slotStr (slot : ℤ) : String := .ofList (clockText slot)

example : slotToUtcIso .strict "2026-07-21" "02:00" = some "2026-07-20T21:00:00.000Z" := by
  decide +kernel

/-! ### What the texts mean -/

variable {engine : Engine} {date : Date} {slot t : ℤ}

/-- A date and a slot are split into their numbers. -/
theorem toNumber_dateStr (hyear : 0 ≤ date.year ∧ date.year ≤ 9999) :
    ((dateStr date).toList.splitOn '-').map (toNumber engine) =
      [some (date.year : ℚ), some ((date.month : ℚ) + 1), some (date.day : ℚ)] := by
  have hmonth := date.month_lt
  have hfirst := date.one_le_day
  have hlast := day_le date
  have hdash (width n : ℕ) : '-' ∉ digits width n := notMem_digits rfl width n
  rw [dateStr, String.toList_ofList, dateText, yearText, if_pos hyear,
    List.splitOn_append_cons_self_of_not_mem (hdash _ _),
    List.splitOn_append_cons_self_of_not_mem (hdash _ _), List.splitOn_eq_singleton (hdash _ _)]
  simp only [List.map_cons, List.map_nil]
  rw [toNumber_digits engine (by omega) (by omega), toNumber_digits engine (by omega) (by omega),
    toNumber_digits engine (by omega) (by omega)]
  have hy : ((date.year.toNat : ℤ) : ℚ) = date.year := by rw [Int.toNat_of_nonneg hyear.1]
  have hd : ((date.day.toNat : ℤ) : ℚ) = date.day := by rw [Int.toNat_of_nonneg (by omega)]
  push_cast at hy hd ⊢
  rw [hy, hd]

theorem toNumber_slotStr (hslot : 0 ≤ slot ∧ slot < 1440) :
    ((slotStr slot).toList.splitOn ':').map (toNumber engine) =
      [some ((slot / 60 : ℤ) : ℚ), some ((slot % 60 : ℤ) : ℚ)] := by
  have hcolon (width n : ℕ) : ':' ∉ digits width n := notMem_digits rfl width n
  rw [slotStr, String.toList_ofList, clockText,
    List.splitOn_append_cons_self_of_not_mem (hcolon _ _), List.splitOn_eq_singleton (hcolon _ _)]
  simp only [List.map_cons, List.map_nil]
  rw [toNumber_digits engine (by omega) (by omega), toNumber_digits engine (by omega) (by omega)]
  have hh : (((slot / 60).toNat : ℤ) : ℚ) = (slot / 60 : ℤ) := by
    rw [Int.toNat_of_nonneg (by omega)]
  have hm : (((slot % 60).toNat : ℤ) : ℚ) = (slot % 60 : ℤ) := by
    rw [Int.toNat_of_nonneg (by omega)]
  push_cast at hh hm ⊢
  rw [hh, hm]

/-- `slotToUtcIso` computes what `slotToUtc` does. -/
theorem slotToUtcIso_eq (hyear : 100 ≤ date.year ∧ date.year ≤ 9999)
    (hslot : 0 ≤ slot ∧ slot < 1440) :
    slotToUtcIso engine (dateStr date) (slotStr slot) =
      some (toISOString (slotToUtc date.dayNumber slot)) := by
  have hutc := @dateUTC_date date hyear (slot / 60 - 5) (slot % 60) ⟨by omega, by omega⟩
    ⟨by omega, by omega⟩
  have hshift : date.dayNumber * EcmaDate.msPerDay +
      ((slot / 60 - 5) * 3600000 + slot % 60 * 60000) = slotToUtc date.dayNumber slot := by
    unfold slotToUtc EcmaDate.msPerDay msPerDay uzUtcOffsetMs
    omega
  rw [hshift] at hutc
  push_cast at hutc
  unfold slotToUtcIso
  rw [toNumber_dateStr ⟨by omega, hyear.2⟩, toNumber_slotStr hslot]
  simp [uzUtcOffsetHours, hutc]

/-- `utcIsoToSlot` computes what `tashkentDay` and `tashkentMinute` do. -/
theorem utcIsoToSlot_eq (hutc : 0 ≤ yearFromDay (t / msPerDay) ∧ yearFromDay (t / msPerDay) ≤ 9999)
    (hlocal : 0 ≤ yearFromDay (tashkentDay t) ∧ yearFromDay (tashkentDay t) ≤ 9999) :
    utcIsoToSlot engine (toISOString t) =
      some (dateStr (.ofDayNumber (tashkentDay t)), slotStr (tashkentMinute t)) := by
  have hrange := @dayNumber_range (.ofDayNumber (t / msPerDay)) hutc
  rw [Date.dayNumber_ofDayNumber] at hrange
  have hshifted : timeClip (t + uzUtcOffsetMs) = some (t + uzUtcOffsetMs) := by
    unfold msPerDay at hrange
    unfold uzUtcOffsetMs
    exact timeClip_eq (by omega) (by omega)
  have hdate := take_toISOString (t := t + uzUtcOffsetMs) hlocal
  have hclock := take_drop_toISOString (t := t + uzUtcOffsetMs) hlocal
  simp only [utcIsoToSlot, dateParse_toISOString engine hutc, hshifted, Option.bind_eq_bind,
    Option.bind_some]
  rw [hdate, hclock]
  rfl

/-- The date of an instant in Tashkent. -/
def tashkentDate (t : Time) : Date := .ofDayNumber (tashkentDay t)

/-- The date of an instant in UTC. -/
def utcDate (t : Time) : Date := .ofDayNumber (t / msPerDay)

/-- Tashkent is at most one year ahead of UTC. -/
theorem tashkentDate_year (t : Time) :
    (utcDate t).year ≤ (tashkentDate t).year ∧ (tashkentDate t).year ≤ (utcDate t).year + 1 := by
  have hday : t / msPerDay ≤ tashkentDay t ∧ tashkentDay t ≤ t / msPerDay + 1 := by
    have hshift (s : ℤ) : s / 86400000 ≤ (s + 5 * 3600000) / 86400000 ∧
        (s + 5 * 3600000) / 86400000 ≤ s / 86400000 + 1 := by omega
    exact hshift t
  obtain ⟨hstart, hend⟩ := yearFromDay_spec (t / msPerDay)
  have hnext : dayFromYear (yearFromDay (t / msPerDay) + 1) <
      dayFromYear (yearFromDay (t / msPerDay) + 1 + 1) := dayFromYear_strictMono (lt_add_one _)
  have hbefore : tashkentDay t < dayFromYear (yearFromDay (t / msPerDay) + 1 + 1) := by omega
  exact ⟨le_yearFromDay (hstart.trans hday.1), yearFromDay_le hbefore⟩

theorem tashkentDate_slotToUtc (hslot : 0 ≤ slot ∧ slot < 1440) :
    tashkentDate (slotToUtc date.dayNumber slot) = date := by
  rw [tashkentDate, (tashkent_slotToUtc hslot).1, Date.ofDayNumber_dayNumber]

/-- The instant of a slot has a year of four digits. -/
theorem utcDate_slotToUtc (hyear : 100 ≤ date.year ∧ date.year ≤ 9999)
    (hslot : 0 ≤ slot ∧ slot < 1440) :
    0 ≤ (utcDate (slotToUtc date.dayNumber slot)).year ∧
      (utcDate (slotToUtc date.dayNumber slot)).year ≤ 9999 := by
  have hyears := tashkentDate_year (slotToUtc date.dayNumber slot)
  rw [tashkentDate_slotToUtc hslot] at hyears
  omega

/-- The text that `slotToUtcIso` gives names the instant of the slot. -/
theorem dateParse_slotToUtcIso (hyear : 100 ≤ date.year ∧ date.year ≤ 9999)
    (hslot : 0 ≤ slot ∧ slot < 1440) :
    (slotToUtcIso engine (dateStr date) (slotStr slot)).bind (dateParse engine) =
      some (slotToUtc date.dayNumber slot) := by
  rw [slotToUtcIso_eq hyear hslot, Option.bind_some]
  exact dateParse_toISOString engine (utcDate_slotToUtc hyear hslot)

/-- A slot is read back from its instant. -/
theorem utcIsoToSlot_slotToUtcIso (hyear : 100 ≤ date.year ∧ date.year ≤ 9999)
    (hslot : 0 ≤ slot ∧ slot < 1440) :
    ∃ iso, slotToUtcIso engine (dateStr date) (slotStr slot) = some iso ∧
      utcIsoToSlot engine iso = some (dateStr date, slotStr slot) := by
  refine ⟨_, slotToUtcIso_eq hyear hslot, ?_⟩
  have hlocal : 0 ≤ (tashkentDate (slotToUtc date.dayNumber slot)).year ∧
      (tashkentDate (slotToUtc date.dayNumber slot)).year ≤ 9999 := by
    rw [tashkentDate_slotToUtc hslot]
    omega
  obtain ⟨hday, hminute⟩ := @tashkent_slotToUtc date.dayNumber _ hslot
  rw [utcIsoToSlot_eq (utcDate_slotToUtc hyear hslot) hlocal, hday, hminute,
    Date.ofDayNumber_dayNumber]

/-- A whole minute is the instant of the slot that it is read as. -/
theorem slotToUtc_tashkent (minute : ℤ) :
    slotToUtc (tashkentDay (minute * 60000)) (tashkentMinute (minute * 60000)) =
      minute * 60000 := by
  simp only [slotToUtc, tashkentDay, tashkentMinute, msPerDay, uzUtcOffsetMs]
  show ((minute * 60000 + 5 * 3600000) / 86400000 * 86400000 +
    (minute * 60000 + 5 * 3600000) % 86400000 / 60000 * 60000 - 5 * 3600000 : ℤ) = minute * 60000
  omega

/-- An instant is read back from its slot. -/
theorem slotToUtcIso_utcIsoToSlot {minute : ℤ}
    (hutc : 0 ≤ (utcDate (minute * 60000)).year ∧ (utcDate (minute * 60000)).year ≤ 9999)
    (hlocal : 100 ≤ (tashkentDate (minute * 60000)).year ∧
      (tashkentDate (minute * 60000)).year ≤ 9999) :
    ∃ day time, utcIsoToSlot engine (toISOString (minute * 60000)) = some (day, time) ∧
      slotToUtcIso engine day time = some (toISOString (minute * 60000)) := by
  have hyear : 0 ≤ (tashkentDate (minute * 60000)).year ∧ _ := ⟨by omega, hlocal.2⟩
  refine ⟨_, _, utcIsoToSlot_eq hutc hyear, ?_⟩
  have hiso := @slotToUtcIso_eq engine _ _ hlocal (tashkentMinute_range (minute * 60000))
  rw [tashkentDate, Date.dayNumber_ofDayNumber, slotToUtc_tashkent] at hiso
  exact hiso

/-- Later slots are later instants. -/
theorem slotToUtc_lt {date' : Date} {slot' : ℤ} (hslot : 0 ≤ slot ∧ slot < 1440)
    (hslot' : 0 ≤ slot' ∧ slot' < 1440) (hlt : date < date' ∨ (date = date' ∧ slot < slot')) :
    slotToUtc date.dayNumber slot < slotToUtc date'.dayNumber slot' := by
  simp only [slotToUtc, msPerDay, uzUtcOffsetMs]
  show (date.dayNumber * 86400000 + slot * 60000 - 5 * 3600000 : ℤ) <
    date'.dayNumber * 86400000 + slot' * 60000 - 5 * 3600000
  obtain hdate | ⟨rfl, hlater⟩ := hlt
  · have hday := Date.dayNumber_lt_of_lt hdate
    omega
  · omega

/-- **Dates and slots in Tashkent are the whole minutes.** On the dates of the years 1000 to
9998, a slot is read back from its instant, a whole minute in that range (as UTC or as
Tashkent tells the date) is the instant of the slot that it is read as, and later slots are
later instants. -/
theorem slotConversion_bijective (engine : Engine) :
    (∀ (date : Date) (slot : ℤ), 1000 ≤ date.year ∧ date.year ≤ 9998 → 0 ≤ slot ∧ slot < 1440 →
      ∃ iso, slotToUtcIso engine (dateStr date) (slotStr slot) = some iso ∧
        utcIsoToSlot engine iso = some (dateStr date, slotStr slot)) ∧
    (∀ minute : ℤ,
      ((1000 ≤ (utcDate (minute * 60000)).year ∧ (utcDate (minute * 60000)).year ≤ 9998) ∨
        (1000 ≤ (tashkentDate (minute * 60000)).year ∧
          (tashkentDate (minute * 60000)).year ≤ 9998)) →
      ∃ day time, utcIsoToSlot engine (toISOString (minute * 60000)) = some (day, time) ∧
        slotToUtcIso engine day time = some (toISOString (minute * 60000))) ∧
    (∀ (date date' : Date) (slot slot' : ℤ), 1000 ≤ date.year ∧ date.year ≤ 9998 →
      1000 ≤ date'.year ∧ date'.year ≤ 9998 → 0 ≤ slot ∧ slot < 1440 → 0 ≤ slot' ∧ slot' < 1440 →
      (date < date' ∨ (date = date' ∧ slot < slot')) →
      ∃ t t' : ℤ, t < t' ∧
        (slotToUtcIso engine (dateStr date) (slotStr slot)).bind (dateParse engine) = some t ∧
        (slotToUtcIso engine (dateStr date') (slotStr slot')).bind (dateParse engine) =
          some t') := by
  refine ⟨fun date slot hyear hslot => utcIsoToSlot_slotToUtcIso ⟨by omega, by omega⟩ hslot,
    fun minute hrange => ?_, fun date date' slot slot' hyear hyear' hslot hslot' hlt => ?_⟩
  · have hyears := tashkentDate_year (minute * 60000)
    exact slotToUtcIso_utcIsoToSlot ⟨by omega, by omega⟩ ⟨by omega, by omega⟩
  · have hyear : 100 ≤ date.year ∧ date.year ≤ 9999 := by omega
    have hyear' : 100 ≤ date'.year ∧ date'.year ≤ 9999 := by omega
    exact ⟨_, _, slotToUtc_lt hslot hslot' hlt, dateParse_slotToUtcIso hyear hslot,
      dateParse_slotToUtcIso hyear' hslot'⟩

/-- The last night of 1999 belongs to the slots of the first of January. -/
theorem slotConversion_newYear :
    ∃ iso, slotToUtcIso .strict
        (dateStr ⟨2000, 0, 1, by decide, by decide, by decide⟩) (slotStr 90) = some iso ∧
      utcIsoToSlot .strict iso =
        some (dateStr ⟨2000, 0, 1, by decide, by decide, by decide⟩, slotStr 90) :=
  (slotConversion_bijective .strict).1 ⟨2000, 0, 1, by decide, by decide, by decide⟩ 90
    ⟨by decide, by decide⟩ ⟨by decide, by decide⟩

end Handly
