import Mathlib.Algebra.Order.Floor.Ring
import Mathlib.Algebra.Order.Field.Basic
import Mathlib.Tactic.Linarith

/-!
# Rounding to a grid

The multiples of a positive integer `g` form a grid. `floorTo g x` is the greatest
grid point that is at most `x`, and `ceilTo g x` the least one that is at least `x`.
Both are adjoint to the inclusion of the grid (`le_floorTo_iff`, `ceilTo_le_iff`),
and the other laws follow from that.
-/

namespace Rounding

variable {K : Type*} [Field K] [LinearOrder K] [FloorRing K] {g m n : ℤ} {x y : K}

/-- The greatest multiple of `g` that is at most `x`. -/
def floorTo (g : ℤ) (x : K) : ℤ := ⌊x / g⌋ * g

/-- The least multiple of `g` that is at least `x`. -/
def ceilTo (g : ℤ) (x : K) : ℤ := ⌈x / g⌉ * g

/-- A number in a column `numeric(p, s)`: `s` decimals, halves away from zero. -/
def toNumeric (s : ℕ) (x : K) : K :=
  ((if 0 ≤ x then ⌊x * 10 ^ s + 1 / 2⌋ else ⌈x * 10 ^ s - 1 / 2⌉ : ℤ) : K) / 10 ^ s

/-- Two grid points lie at least `g` apart. -/
theorem add_le_of_lt (hm : g ∣ m) (hn : g ∣ n) (h : m < n) : m + g ≤ n := by
  have hle := Int.le_of_dvd (sub_pos.mpr h) (dvd_sub hn hm)
  omega

theorem dvd_floorTo (g : ℤ) (x : K) : g ∣ floorTo g x := dvd_mul_left g _

theorem dvd_ceilTo (g : ℤ) (x : K) : g ∣ ceilTo g x := dvd_mul_left g _

variable [IsStrictOrderedRing K]

/-- A grid point is at most `floorTo g x` exactly if it is at most `x`. -/
theorem le_floorTo_iff (hg : 0 < g) (hn : g ∣ n) : n ≤ floorTo g x ↔ (n : K) ≤ x := by
  obtain ⟨m, rfl⟩ := hn
  have hgK : (0 : K) < g := Int.cast_pos.mpr hg
  calc g * m ≤ ⌊x / g⌋ * g ↔ m ≤ ⌊x / g⌋ := by
        rw [mul_comm g m]
        exact mul_le_mul_iff_left₀ hg
    _ ↔ (m : K) * g ≤ x := by rw [Int.le_floor, le_div_iff₀ hgK]
    _ ↔ ((g * m : ℤ) : K) ≤ x := by push_cast; rw [mul_comm]

/-- A grid point is at least `ceilTo g x` exactly if it is at least `x`. -/
theorem ceilTo_le_iff (hg : 0 < g) (hn : g ∣ n) : ceilTo g x ≤ n ↔ x ≤ (n : K) := by
  obtain ⟨m, rfl⟩ := hn
  have hgK : (0 : K) < g := Int.cast_pos.mpr hg
  calc ⌈x / g⌉ * g ≤ g * m ↔ ⌈x / g⌉ ≤ m := by
        rw [mul_comm g m]
        exact mul_le_mul_iff_left₀ hg
    _ ↔ x ≤ (m : K) * g := by rw [Int.ceil_le, div_le_iff₀ hgK]
    _ ↔ x ≤ ((g * m : ℤ) : K) := by push_cast; rw [mul_comm]

theorem floorTo_le (hg : 0 < g) (x : K) : (floorTo g x : K) ≤ x :=
  (le_floorTo_iff hg (dvd_floorTo g x)).mp le_rfl

theorem le_ceilTo (hg : 0 < g) (x : K) : x ≤ (ceilTo g x : K) :=
  (ceilTo_le_iff hg (dvd_ceilTo g x)).mp le_rfl

/-- The next grid point is beyond `x`. -/
theorem lt_floorTo_add (hg : 0 < g) (x : K) : x < (floorTo g x : K) + g := by
  have hnext : ¬ floorTo g x + g ≤ floorTo g x := by omega
  rw [le_floorTo_iff hg (dvd_add (dvd_floorTo g x) dvd_rfl), not_le] at hnext
  exact_mod_cast hnext

/-- The grid point before is beyond `x`. -/
theorem ceilTo_sub_lt (hg : 0 < g) (x : K) : (ceilTo g x : K) - g < x := by
  have hprev : ¬ ceilTo g x ≤ ceilTo g x - g := by omega
  rw [ceilTo_le_iff hg (dvd_sub (dvd_ceilTo g x) dvd_rfl), not_le] at hprev
  exact_mod_cast hprev

theorem floorTo_mono (hg : 0 < g) (h : x ≤ y) : floorTo g x ≤ floorTo g y :=
  (le_floorTo_iff hg (dvd_floorTo g x)).mpr ((floorTo_le hg x).trans h)

theorem ceilTo_mono (hg : 0 < g) (h : x ≤ y) : ceilTo g x ≤ ceilTo g y :=
  (ceilTo_le_iff hg (dvd_ceilTo g y)).mpr (h.trans (le_ceilTo hg y))

end Rounding
