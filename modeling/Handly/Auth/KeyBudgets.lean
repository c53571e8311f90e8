import Handly.Lib.Clock
import Handly.Auth.Tables

/-!
# What a Redis key still lets through

The limits of the service are keys that expire: a cooldown that is set when it is not there, and
counters that are raised up to a cap. Each is a budget against the clock: how often it can still
let something through up to an instant. The budget shrinks as time passes, and what is let through
is taken from it.
-/

namespace Handly.Auth

open Interleaving

/-- How often a cooldown of so many seconds lets something through from an instant up to `stop`. -/
def cooldownBudget (seconds : ℤ) (stop : Time) (key : Option Key) (now : Time) : ℕ :=
  match Key.live key now with
  | none => windows (seconds * 1000) now stop
  | some k => k.expiresAt.elim 0 fun t => windows (seconds * 1000) t stop

/-- When a counter that expires so many seconds after it is first raised can be gone at the
earliest. One that has no expiry yet is given one later. -/
def counterEnd (seconds : ℤ) (k : Key) (now : Time) : Time :=
  k.expiresAt.elim (now + seconds * 1000) (min (now + seconds * 1000))

/-- How often a counter that expires so many seconds after it is first raised can be raised within
a cap from an instant up to `stop`. -/
def counterBudget (seconds : ℤ) (cap : ℕ) (stop : Time) (key : Option Key) (now : Time) : ℕ :=
  match Key.live key now with
  | none => cap * windows (seconds * 1000) now stop
  | some k => cap - k.value + cap * windows (seconds * 1000) (counterEnd seconds k now) stop

section Budgets

variable {key : Option Key} {k : Key} {now now' stop : Time} {seconds : ℤ} {cap : ℕ}

theorem live_eq_some : Key.live key now = some k ↔
    key = some k ∧ ∀ t, k.expiresAt = some t → now < t := by
  simp [Key.live, Option.filter_eq_some_iff, Option.all_eq_true]

/-- A key that has expired stays so. -/
theorem live_eq_none_of_le (hle : now ≤ now') (h : Key.live key now = none) :
    Key.live key now' = none := by
  cases hlater : Key.live key now' with
  | none => rfl
  | some k =>
      obtain ⟨rfl, hexp⟩ := live_eq_some.mp hlater
      have hlive : Key.live (some k) now = some k :=
        live_eq_some.mpr ⟨rfl, fun t ht => lt_of_le_of_lt hle (hexp t ht)⟩
      simp [hlive] at h

/-- A key that is gone later has an expiry by then. -/
theorem exists_expiry (h : Key.live key now = some k) (hlater : Key.live key now' = none) :
    ∃ t, k.expiresAt = some t ∧ t ≤ now' := by
  obtain ⟨rfl, -⟩ := live_eq_some.mp h
  by_contra hnone
  push Not at hnone
  have hlive : Key.live (some k) now' = some k := live_eq_some.mpr ⟨rfl, hnone⟩
  simp [hlive] at hlater

theorem cooldownBudget_passes (hseconds : 0 < seconds) (hle : now ≤ now') :
    cooldownBudget seconds stop key now' ≤ cooldownBudget seconds stop key now := by
  have hperiod : 0 < seconds * 1000 := by omega
  unfold cooldownBudget
  cases hlive : Key.live key now with
  | none =>
      rw [live_eq_none_of_le hle hlive]
      exact windows_anti stop hperiod hle
  | some k =>
      cases hlater : Key.live key now' with
      | none =>
          obtain ⟨t, ht, hgone⟩ := exists_expiry hlive hlater
          simpa [ht] using windows_anti stop hperiod hgone
      | some k' =>
          obtain ⟨rfl, -⟩ := live_eq_some.mp hlive
          obtain ⟨hk, -⟩ := live_eq_some.mp hlater
          rw [Option.some.inj hk]

/-- The cooldown that `setNx` sets takes one from what it can let through. -/
theorem cooldownBudget_set (hseconds : 0 < seconds) (hlive : Key.live key now = none)
    (hstop : now ≤ stop) :
    cooldownBudget seconds stop (some { value := 1, expiresAt := some (now + seconds * 1000) }) now
      + 1 = cooldownBudget seconds stop key now := by
  have hperiod : 0 < seconds * 1000 := by omega
  have hset : Key.live (some { value := 1, expiresAt := some (now + seconds * 1000) }) now =
      some { value := 1, expiresAt := some (now + seconds * 1000) } :=
    live_eq_some.mpr ⟨rfl, fun t ht => by
      obtain rfl := Option.some.inj ht
      exact lt_add_of_pos_right now hperiod⟩
  rw [cooldownBudget, cooldownBudget, hset, hlive]
  exact (windows_eq_add_one hperiod hstop).symm

theorem cooldownBudget_le (hseconds : 0 < seconds) :
    cooldownBudget seconds stop key now ≤ windows (seconds * 1000) now stop := by
  have hperiod : 0 < seconds * 1000 := by omega
  unfold cooldownBudget
  cases hlive : Key.live key now with
  | none => exact Nat.le_refl _
  | some k =>
      obtain ⟨-, hexp⟩ := live_eq_some.mp hlive
      dsimp only
      cases ht : k.expiresAt with
      | none => exact Nat.zero_le _
      | some t => exact windows_anti stop hperiod (hexp t ht).le

/-! ### Counters -/

theorem le_counterEnd (hseconds : 0 < seconds) (h : Key.live key now = some k) :
    now ≤ counterEnd seconds k now := by
  have hperiod : 0 ≤ seconds * 1000 := by omega
  obtain ⟨-, hexp⟩ := live_eq_some.mp h
  unfold counterEnd
  cases ht : k.expiresAt with
  | none => exact le_add_of_nonneg_right hperiod
  | some t => exact le_min (le_add_of_nonneg_right hperiod) (hexp t ht).le

theorem counterEnd_mono (seconds : ℤ) (k : Key) (hle : now ≤ now') :
    counterEnd seconds k now ≤ counterEnd seconds k now' := by
  unfold counterEnd
  cases k.expiresAt with
  | none => exact Int.add_le_add_right hle _
  | some t => exact min_le_min_right t (Int.add_le_add_right hle _)

theorem counterBudget_passes (hseconds : 0 < seconds) (hle : now ≤ now') :
    counterBudget seconds cap stop key now' ≤ counterBudget seconds cap stop key now := by
  have hperiod : 0 < seconds * 1000 := by omega
  unfold counterBudget
  cases hlive : Key.live key now with
  | none =>
      rw [live_eq_none_of_le hle hlive]
      exact Nat.mul_le_mul_left cap (windows_anti stop hperiod hle)
  | some k =>
      cases hlater : Key.live key now' with
      | none =>
          obtain ⟨t, ht, hgone⟩ := exists_expiry hlive hlater
          have hend : counterEnd seconds k now ≤ now' := by
            rw [counterEnd, ht]
            exact (min_le_right _ _).trans hgone
          have hfewer := Nat.mul_le_mul_left cap (windows_anti stop hperiod hend)
          dsimp only
          omega
      | some k' =>
          obtain ⟨rfl, -⟩ := live_eq_some.mp hlive
          obtain ⟨hk, -⟩ := live_eq_some.mp hlater
          obtain rfl := Option.some.inj hk
          exact Nat.add_le_add_left
            (Nat.mul_le_mul_left cap (windows_anti stop hperiod (counterEnd_mono seconds k hle))) _

/-- `INCR` takes one from what the counter can let through, as long as it is within the cap. -/
theorem counterBudget_incr (cap : ℕ) (key : Option Key) (hseconds : 0 < seconds)
    (hstop : now ≤ stop) :
    (if (Key.incr key now).value ≤ cap then 1 else 0) +
        counterBudget seconds cap stop (some (Key.incr key now)) now ≤
      counterBudget seconds cap stop key now := by
  have hperiod : 0 < seconds * 1000 := by omega
  have hset : Key.live (some (Key.incr key now)) now = some (Key.incr key now) := by
    refine live_eq_some.mpr ⟨rfl, fun t ht => ?_⟩
    unfold Key.incr at ht
    cases hlive : Key.live key now with
    | none => simp [hlive] at ht
    | some k =>
        rw [hlive] at ht
        exact (live_eq_some.mp hlive).2 t ht
  rw [counterBudget, counterBudget, hset]
  cases hlive : Key.live key now with
  | none =>
      have hfirst : Key.incr key now = { value := 1, expiresAt := none } := by
        rw [Key.incr, hlive]
      rw [hfirst, windows_eq_add_one hperiod hstop, Nat.mul_add, Nat.mul_one]
      dsimp only [counterEnd, Option.elim]
      split <;> omega
  | some k =>
      have hnext : Key.incr key now = { k with value := k.value + 1 } := by
        rw [Key.incr, hlive]
      rw [hnext]
      dsimp only [counterEnd]
      split <;> omega

/-- `EXPIRE` lets no more through: the counter can be gone a period from now at the earliest. -/
theorem counterBudget_expire_le (hseconds : 0 < seconds) :
    counterBudget seconds cap stop (Key.expire key now seconds) now ≤
      counterBudget seconds cap stop key now := by
  have hperiod : 0 < seconds * 1000 := by omega
  cases hlive : Key.live key now with
  | none =>
      have hgone : Key.expire key now seconds = none := by
        rw [Key.expire, hlive, Option.map_none]
      rw [hgone, counterBudget, counterBudget, hlive]
      exact Nat.le_refl _
  | some k =>
      have hexp : Key.expire key now seconds =
          some { k with expiresAt := some (now + seconds * 1000) } := by
        rw [Key.expire, hlive, Option.map_some]
      have hset : Key.live (some { k with expiresAt := some (now + seconds * 1000) }) now =
          some { k with expiresAt := some (now + seconds * 1000) } :=
        live_eq_some.mpr ⟨rfl, fun t ht => by
          obtain rfl := Option.some.inj ht
          exact lt_add_of_pos_right now hperiod⟩
      rw [hexp, counterBudget, counterBudget, hset, hlive]
      refine Nat.add_le_add_left (Nat.mul_le_mul_left cap (windows_anti stop hperiod ?_)) _
      show k.expiresAt.elim (now + seconds * 1000) (min (now + seconds * 1000)) ≤
        min (now + seconds * 1000) (now + seconds * 1000)
      rw [min_self]
      cases k.expiresAt with
      | none => exact le_rfl
      | some t => exact min_le_left _ _

theorem counterBudget_le (hseconds : 0 < seconds) :
    counterBudget seconds cap stop key now ≤
      cap * (windows (seconds * 1000) now stop + if (Key.live key now).isSome then 1 else 0) := by
  have hperiod : 0 < seconds * 1000 := by omega
  unfold counterBudget
  cases hlive : Key.live key now with
  | none => simp
  | some k =>
      have hfewer := Nat.mul_le_mul_left cap
        (windows_anti stop hperiod (le_counterEnd hseconds hlive))
      rw [Option.isSome_some, if_pos rfl, Nat.mul_add, Nat.mul_one]
      dsimp only
      omega

/-- `DEL` gives back what was counted, which is at most the cap. -/
theorem counterBudget_none_le (hseconds : 0 < seconds) (hstop : now ≤ stop) :
    counterBudget seconds cap stop none now ≤ counterBudget seconds cap stop key now + cap := by
  have hperiod : 0 < seconds * 1000 := by omega
  show cap * windows (seconds * 1000) now stop ≤ _
  unfold counterBudget
  cases hlive : Key.live key now with
  | none => exact Nat.le_add_right _ _
  | some k =>
      have hend : counterEnd seconds k now ≤ now + seconds * 1000 := by
        unfold counterEnd
        cases k.expiresAt with
        | none => exact le_rfl
        | some t => exact min_le_left _ _
      have hmore := Nat.mul_le_mul_left cap (windows_anti stop hperiod hend)
      rw [windows_eq_add_one hperiod hstop, Nat.mul_add, Nat.mul_one]
      dsimp only
      omega

end Budgets

end Handly.Auth
