import Handly.Orders.OrdersService
import Mathlib.Data.List.Lex

/-!
# The booking form

`step-schedule.tsx` offers dates and slots for a SCHEDULED order, and
`assertSchedulable` decides about the instant that `slotToUtcIso` makes of them. The
form bounds the date by calendar days in Tashkent, the API bounds the instant by
elapsed milliseconds. On the last date that the form offers, the two differ: a slot
later in the day than the current time lies beyond the API's bound.

A date is its number of days since the epoch, a slot its minute of the day.
-/

namespace Handly

/-! ### The form -/

/-- `addDays` -/
def addDays (date days : ℤ) : ℤ := date + days

/-- The `min` of the date input: `today`. -/
def formMinDate (now : Time) : ℤ := tashkentDay now

/-- The `max` of the date input: `maxDate`. -/
def formMaxDate (now : Time) : ℤ := addDays (tashkentDay now) orderMaxDaysAhead

/-- The code units of the text `HH:MM`. -/
def hhmm (minute : ℤ) : List ℤ :=
  [48 + minute / 60 / 10, 48 + minute / 60 % 10, 58, 48 + minute % 60 / 10, 48 + minute % 60 % 10]

/-- `availableSlots`: on the current day, the slots whose text is greater than the
current time. -/
def availableSlots (now : Time) (date : ℤ) : List ℤ :=
  if date ≠ tashkentDay now then orderTimeSlots
  else orderTimeSlots.filter fun slot => hhmm (tashkentMinute now) < hhmm slot

/-- `slotToUtcIso` -/
def slotToUtc (date slot : ℤ) : Time := date * msPerDay + slot * 60000 - uzUtcOffsetMs

/-- Milliseconds since midnight in Tashkent. -/
def timeOfDay (t : Time) : ℤ := (t + uzUtcOffsetMs) % msPerDay

/-! ### Texts and instants -/

/-- Times of day compare as their texts do. -/
theorem hhmm_lt_iff {a b : ℤ} (ha : 0 ≤ a ∧ a < 1440) (hb : 0 ≤ b ∧ b < 1440) :
    hhmm a < hhmm b ↔ a < b := by
  simp only [hhmm, List.cons_lt_cons_iff, lt_self_iff_false, false_or, true_and,
    and_false, or_false]
  omega

/-- `utcIsoToSlot` inverts `slotToUtcIso`. -/
theorem tashkent_slotToUtc {date slot : ℤ} (h : 0 ≤ slot ∧ slot < 1440) :
    tashkentDay (slotToUtc date slot) = date ∧ tashkentMinute (slotToUtc date slot) = slot := by
  simp only [tashkentDay, tashkentMinute, slotToUtc, msPerDay, uzUtcOffsetMs]
  omega

theorem orderTimeSlots_range : ∀ slot ∈ orderTimeSlots, 0 ≤ slot ∧ slot < 1440 := by decide

theorem tashkentMinute_range (t : Time) : 0 ≤ tashkentMinute t ∧ tashkentMinute t < 1440 := by
  simp only [tashkentMinute, msPerDay]
  omega

theorem mem_availableSlots {now : Time} {date slot : ℤ} :
    slot ∈ availableSlots now date ↔
      slot ∈ orderTimeSlots ∧ (date = tashkentDay now → tashkentMinute now < slot) := by
  unfold availableSlots
  split
  · simp_all
  · rename_i hdate
    rw [List.mem_filter, decide_eq_true_iff]
    refine and_congr_right fun hslot => ?_
    rw [hhmm_lt_iff (tashkentMinute_range now) (orderTimeSlots_range slot hslot)]
    simp [not_ne_iff.mp hdate]

/-! ### What the API takes of it -/

theorem assertSchedulable_eq_ok {now when_ : Time} :
    assertSchedulable now when_ = .ok () ↔ now < when_ ∧
      when_ ≤ now + orderMaxDaysAhead * msPerDay ∧ tashkentMinute when_ ∈ orderTimeSlots := by
  unfold assertSchedulable
  split
  · simp_all
  · split
    · simp_all
    · split <;> simp_all

/-- A slot that the form offers lies in the future. -/
theorem now_lt_slotToUtc {now : Time} {date slot : ℤ} (hmin : formMinDate now ≤ date)
    (hslot : slot ∈ availableSlots now date) : now < slotToUtc date slot := by
  obtain ⟨hslot, htoday⟩ := mem_availableSlots.mp hslot
  have hrange := orderTimeSlots_range slot hslot
  simp only [formMinDate, tashkentDay, tashkentMinute, slotToUtc, msPerDay, uzUtcOffsetMs]
    at hmin htoday ⊢
  refine Int.lt_of_not_ge fun hle => ?_
  omega

/-- It lies within the API's bound, but on the last date only up to the current time of day. -/
theorem slotToUtc_le_iff {now : Time} {date slot : ℤ} (hmax : date ≤ formMaxDate now)
    (hslot : 0 ≤ slot ∧ slot < 1440) :
    slotToUtc date slot ≤ now + orderMaxDaysAhead * msPerDay ↔
      (date = formMaxDate now → slot * 60000 ≤ timeOfDay now) := by
  simp only [formMaxDate, addDays, tashkentDay, slotToUtc, timeOfDay, orderMaxDaysAhead, msPerDay,
    uzUtcOffsetMs] at hmax ⊢
  show (date * 86400000 + slot * 60000 - 5 * 3600000 : ℤ) ≤ now + 14 * 86400000 ↔ _
  omega

/-- **What the form offers and the API takes.** Of the dates and slots that the form
offers, the API takes all but the slots of the last date that lie later in the day than
the current time. -/
theorem assertSchedulable_offered_iff {now : Time} {date slot : ℤ} (hmin : formMinDate now ≤ date)
    (hmax : date ≤ formMaxDate now) (hslot : slot ∈ availableSlots now date) :
    assertSchedulable now (slotToUtc date slot) = .ok () ↔
      (date = formMaxDate now → slot * 60000 ≤ timeOfDay now) := by
  have hmem := (mem_availableSlots.mp hslot).1
  have hrange := orderTimeSlots_range slot hmem
  rw [assertSchedulable_eq_ok, and_iff_right (now_lt_slotToUtc hmin hslot),
    slotToUtc_le_iff hmax hrange, (tashkent_slotToUtc hrange).2, and_iff_left hmem]

/-- At ten in the morning, the nine o'clock slot of the last date is taken. -/
theorem assertSchedulable_offered_tenAM :
    assertSchedulable (slotToUtc 20655 600) (slotToUtc 20669 540) = .ok () :=
  (assertSchedulable_offered_iff (by decide) (by decide) (by decide)).mpr (by decide)

/-- At ten in the morning, the eleven o'clock slot of the last date is refused. -/
theorem not_assertSchedulable_offered :
    ¬ ∀ (now : Time) (date slot : ℤ), formMinDate now ≤ date → date ≤ formMaxDate now →
      slot ∈ availableSlots now date → assertSchedulable now (slotToUtc date slot) = .ok () := by
  intro h
  have hok := h (slotToUtc 20655 600) 20669 660 (by decide) (by decide) (by decide)
  revert hok
  decide

end Handly
