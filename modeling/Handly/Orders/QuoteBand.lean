import Handly.Lib.Rounding
import Handly.Orders.Pricing
import Mathlib.Tactic.GCongr
import Mathlib.Tactic.Positivity

/-!
# The quote band

What `computeQuote` promises about a base band. Both bounds are rounded outward to a
grid of 5 000 so'm, so the quote covers the raw band as far as the floor price lets
it; the floor price and the minimum width are the only reasons for a bound to lie a
grid step or more away from its raw value. Every ingredient is monotone, and so is
the quote.
-/

namespace Handly

open Rounding

/-! ### The orders on the enumerations -/

/-- From SIMPLE to CRITICAL, as they are declared. -/
instance : LE Complexity := ⟨fun a b => a.ctorIdx ≤ b.ctorIdx⟩

/-- From SCHEDULED to EMERGENCY, as they are declared. -/
instance : LE ServiceTier := ⟨fun a b => a.ctorIdx ≤ b.ctorIdx⟩

instance (a b : Complexity) : Decidable (a ≤ b) := inferInstanceAs (Decidable (_ ≤ _))

instance (a b : ServiceTier) : Decidable (a ≤ b) := inferInstanceAs (Decidable (_ ≤ _))

theorem Complexity.multiplier_pos (c : Complexity) : 0 < c.multiplier := by
  cases c <;> norm_num [Complexity.multiplier]

theorem ServiceTier.multiplier_pos (t : ServiceTier) : 0 < t.multiplier := by
  cases t <;> norm_num [ServiceTier.multiplier]

theorem Complexity.multiplier_mono {a b : Complexity} (h : a ≤ b) :
    a.multiplier ≤ b.multiplier := by
  cases a <;> cases b <;> revert h <;> decide +kernel

theorem ServiceTier.multiplier_mono {a b : ServiceTier} (h : a ≤ b) :
    a.multiplier ≤ b.multiplier := by
  cases a <;> cases b <;> revert h <;> decide +kernel

/-! ### The raw band -/

/-- A bound of the base band × complexity × service tier, before any rounding. -/
def rawPrice (base : ℤ) (c : Complexity) (t : ServiceTier) : ℚ :=
  base * c.multiplier * t.multiplier

theorem rawPrice_mono {base base' : ℤ} {c c' : Complexity} {t t' : ServiceTier}
    (hnonneg : 0 ≤ base) (hbase : base ≤ base') (hc : c ≤ c') (ht : t ≤ t') :
    rawPrice base c t ≤ rawPrice base' c' t' := by
  have hbaseQ : (base : ℚ) ≤ base' := Int.cast_le.mpr hbase
  have hbase' : (0 : ℚ) ≤ base' := Int.cast_nonneg (hnonneg.trans hbase)
  have hmc : (base : ℚ) * c.multiplier ≤ base' * c'.multiplier :=
    mul_le_mul hbaseQ (Complexity.multiplier_mono hc) c.multiplier_pos.le hbase'
  exact mul_le_mul hmc (ServiceTier.multiplier_mono ht) t.multiplier_pos.le
    (mul_nonneg hbase' c'.multiplier_pos.le)

/-! ### The bounds of the quote -/

section Bounds

variable {baseMin baseMax : ℤ} {c : Complexity} {t : ServiceTier}

theorem computeQuote_priceMin (baseMin baseMax : ℤ) (c : Complexity) (t : ServiceTier) :
    (computeQuote baseMin baseMax c t).priceMin =
      max priceFloor (floorTo roundTo (rawPrice baseMin c t)) := rfl

theorem computeQuote_priceMax (baseMin baseMax : ℤ) (c : Complexity) (t : ServiceTier) :
    (computeQuote baseMin baseMax c t).priceMax =
      max ((computeQuote baseMin baseMax c t).priceMin + roundTo)
        (ceilTo roundTo (rawPrice baseMax c t)) := rfl

theorem roundTo_pos : 0 < roundTo := by decide

/-- The floor price lies on the grid. -/
theorem roundTo_dvd_priceFloor : roundTo ∣ priceFloor := by decide

theorem roundTo_dvd_priceMin : roundTo ∣ (computeQuote baseMin baseMax c t).priceMin := by
  rw [computeQuote_priceMin]
  rcases max_choice priceFloor (floorTo roundTo (rawPrice baseMin c t)) with h | h <;> rw [h]
  · exact roundTo_dvd_priceFloor
  · exact dvd_floorTo _ _

theorem roundTo_dvd_priceMax : roundTo ∣ (computeQuote baseMin baseMax c t).priceMax := by
  rw [computeQuote_priceMax]
  rcases max_choice ((computeQuote baseMin baseMax c t).priceMin + roundTo)
    (ceilTo roundTo (rawPrice baseMax c t)) with h | h <;> rw [h]
  · exact dvd_add roundTo_dvd_priceMin dvd_rfl
  · exact dvd_ceilTo _ _

/-- A raw minimum below the floor price is raised to it. -/
theorem priceMin_of_lt (h : rawPrice baseMin c t < priceFloor) :
    (computeQuote baseMin baseMax c t).priceMin = priceFloor := by
  rw [computeQuote_priceMin, max_eq_left]
  have hle := (floorTo_le roundTo_pos (rawPrice baseMin c t)).trans h.le
  exact_mod_cast hle

/-- Any other raw minimum is rounded down. -/
theorem priceMin_of_le (h : (priceFloor : ℚ) ≤ rawPrice baseMin c t) :
    (computeQuote baseMin baseMax c t).priceMin = floorTo roundTo (rawPrice baseMin c t) := by
  rw [computeQuote_priceMin, max_eq_right]
  exact (le_floorTo_iff roundTo_pos roundTo_dvd_priceFloor).mpr h

/-- A raw maximum that the minimum already reaches is pushed up to the minimum width. -/
theorem priceMax_of_le (h : rawPrice baseMax c t ≤ (computeQuote baseMin baseMax c t).priceMin) :
    (computeQuote baseMin baseMax c t).priceMax =
      (computeQuote baseMin baseMax c t).priceMin + roundTo := by
  rw [computeQuote_priceMax, max_eq_left]
  have hceil := (ceilTo_le_iff roundTo_pos roundTo_dvd_priceMin).mpr h
  have hstep := roundTo_pos
  omega

/-- Any other raw maximum is rounded up. -/
theorem priceMax_of_lt (h : (computeQuote baseMin baseMax c t).priceMin < rawPrice baseMax c t) :
    (computeQuote baseMin baseMax c t).priceMax = ceilTo roundTo (rawPrice baseMax c t) := by
  rw [computeQuote_priceMax, max_eq_right]
  -- The first grid point beyond the minimum is a grid step away.
  have hlt : (computeQuote baseMin baseMax c t).priceMin <
      ceilTo roundTo (rawPrice baseMax c t) := by
    by_contra hle
    exact absurd ((ceilTo_le_iff roundTo_pos roundTo_dvd_priceMin).mp (not_lt.mp hle)) h.not_ge
  exact add_le_of_lt roundTo_dvd_priceMin (dvd_ceilTo _ _) hlt

end Bounds

/-! ### The band as a whole -/

/-- What the quote of a base band, a complexity and a tier guarantees. -/
structure SoundQuote (baseMin baseMax : ℤ) (c : Complexity) (t : ServiceTier) (q : Quote) :
    Prop where
  rounded : roundTo ∣ q.priceMin ∧ roundTo ∣ q.priceMax
  floor_le : priceFloor ≤ q.priceMin
  width : q.priceMin ≤ q.priceMax - roundTo
  covers_max : rawPrice baseMax c t ≤ q.priceMax
  covers_min : priceFloor ≤ rawPrice baseMin c t → q.priceMin ≤ rawPrice baseMin c t
  /-- Only the floor price moves the minimum by a grid step or more. -/
  tight_min : |(q.priceMin : ℚ) - rawPrice baseMin c t| < roundTo ∨
    (rawPrice baseMin c t < priceFloor ∧ q.priceMin = priceFloor)
  /-- Only the minimum width moves the maximum by a grid step or more. -/
  tight_max : |(q.priceMax : ℚ) - rawPrice baseMax c t| < roundTo ∨
    (rawPrice baseMax c t ≤ q.priceMin ∧ q.priceMax = q.priceMin + roundTo)

/-- The quote is sound for any base band. -/
theorem soundQuote (baseMin baseMax : ℤ) (c : Complexity) (t : ServiceTier) :
    SoundQuote baseMin baseMax c t (computeQuote baseMin baseMax c t) where
  rounded := ⟨roundTo_dvd_priceMin, roundTo_dvd_priceMax⟩
  floor_le := by
    rw [computeQuote_priceMin]
    exact le_max_left _ _
  width := by
    rw [computeQuote_priceMax]
    exact le_sub_right_of_add_le (le_max_left _ _)
  covers_max := by
    rw [computeQuote_priceMax]
    exact (le_ceilTo roundTo_pos _).trans (Int.cast_le.mpr (le_max_right _ _))
  covers_min h := by
    rw [priceMin_of_le h]
    exact floorTo_le roundTo_pos _
  tight_min := by
    rcases lt_or_ge (rawPrice baseMin c t) priceFloor with hlt | hle
    · exact Or.inr ⟨hlt, priceMin_of_lt hlt⟩
    · left
      rw [priceMin_of_le hle, abs_sub_comm,
        abs_of_nonneg (sub_nonneg.mpr (floorTo_le roundTo_pos _))]
      exact sub_left_lt_of_lt_add (lt_floorTo_add roundTo_pos _)
  tight_max := by
    rcases lt_or_ge ((computeQuote baseMin baseMax c t).priceMin : ℚ) (rawPrice baseMax c t)
      with hlt | hle
    · left
      rw [priceMax_of_lt hlt, abs_of_nonneg (sub_nonneg.mpr (le_ceilTo roundTo_pos _))]
      exact sub_lt_comm.mp (ceilTo_sub_lt roundTo_pos _)
    · exact Or.inr ⟨hle, priceMax_of_le hle⟩

/-- Both bounds are non-decreasing in everything they are computed from. -/
theorem computeQuote_mono {baseMin baseMin' baseMax baseMax' : ℤ} {c c' : Complexity}
    {t t' : ServiceTier} (hmin : 0 ≤ baseMin) (hmax : 0 ≤ baseMax) (hmin' : baseMin ≤ baseMin')
    (hmax' : baseMax ≤ baseMax') (hc : c ≤ c') (ht : t ≤ t') :
    (computeQuote baseMin baseMax c t).priceMin ≤ (computeQuote baseMin' baseMax' c' t').priceMin ∧
      (computeQuote baseMin baseMax c t).priceMax ≤
        (computeQuote baseMin' baseMax' c' t').priceMax := by
  have hlow : (computeQuote baseMin baseMax c t).priceMin ≤
      (computeQuote baseMin' baseMax' c' t').priceMin := by
    rw [computeQuote_priceMin, computeQuote_priceMin]
    exact max_le_max le_rfl (floorTo_mono roundTo_pos (rawPrice_mono hmin hmin' hc ht))
  refine ⟨hlow, ?_⟩
  rw [computeQuote_priceMax, computeQuote_priceMax]
  exact max_le_max (by omega) (ceilTo_mono roundTo_pos (rawPrice_mono hmax hmax' hc ht))

/-- **The quote band is sound and monotone.** -/
theorem soundQuote_and_mono {baseMin baseMax : ℤ} (hmin : 0 ≤ baseMin) (hband : baseMin ≤ baseMax)
    (c : Complexity) (t : ServiceTier) :
    SoundQuote baseMin baseMax c t (computeQuote baseMin baseMax c t) ∧
      ∀ (baseMin' baseMax' : ℤ) (c' : Complexity) (t' : ServiceTier),
        baseMin ≤ baseMin' → baseMax ≤ baseMax' → c ≤ c' → t ≤ t' →
          (computeQuote baseMin baseMax c t).priceMin ≤
              (computeQuote baseMin' baseMax' c' t').priceMin ∧
            (computeQuote baseMin baseMax c t).priceMax ≤
              (computeQuote baseMin' baseMax' c' t').priceMax :=
  ⟨soundQuote baseMin baseMax c t, fun _ _ _ _ hmin' hmax' hc ht =>
    computeQuote_mono hmin (hmin.trans hband) hmin' hmax' hc ht⟩

/-- A band of which both bounds are raised: the minimum by the floor price, the maximum by the
minimum width. -/
theorem soundQuote_and_mono_small :
    SoundQuote 10000 20000 .simple .scheduled (computeQuote 10000 20000 .simple .scheduled) ∧
      (computeQuote 10000 20000 .simple .scheduled).priceMax ≤
        (computeQuote 40000 90000 .critical .emergency).priceMax := by
  have hband := @soundQuote_and_mono 10000 20000 (by decide) (by decide) .simple .scheduled
  exact ⟨hband.1, (hband.2 40000 90000 .critical .emergency (by decide) (by decide) (by decide)
    (by decide)).2⟩

end Handly
