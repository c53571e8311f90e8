import Mathlib.Algebra.Order.Group.Nat

/-!
# Decimal texts

A number written with a fixed number of decimal digits, and the value that is read back.
-/

namespace Decimal

/-- The last `width` decimal digits of a number. -/
def digits : ℕ → ℕ → List Char
  | 0, _ => []
  | width + 1, n => digits width (n / 10) ++ [(n % 10).digitChar]

/-- The value of a text of digits. -/
def value (text : List Char) : ℕ := text.foldl (fun n c => 10 * n + (c.toNat - 48)) 0

@[simp]
theorem length_digits (width n : ℕ) : (digits width n).length = width := by
  induction width generalizing n with
  | zero => rfl
  | succ width ih => simp [digits, ih]

theorem isDigit_of_mem_digits {width n : ℕ} {c : Char} (h : c ∈ digits width n) :
    c.isDigit = true := by
  induction width generalizing n with
  | zero => simp [digits] at h
  | succ width ih =>
    rw [digits, List.mem_append, List.mem_singleton] at h
    obtain h | rfl := h
    · exact ih h
    · simp [Nat.mod_lt]

/-- No other character occurs in a text of digits. -/
theorem notMem_digits {c : Char} (hc : c.isDigit = false) (width n : ℕ) : c ∉ digits width n := by
  intro h
  simp [isDigit_of_mem_digits h] at hc

/-- The digits of a number are read back. -/
theorem value_digits {width n : ℕ} (h : n < 10 ^ width) : value (digits width n) = n := by
  induction width generalizing n with
  | zero =>
    obtain rfl : n = 0 := by simpa using h
    rfl
  | succ width ih =>
    have hrest : value (digits width (n / 10)) = n / 10 := ih (by rw [pow_succ] at h; omega)
    have hlast : (n % 10).digitChar.toNat - 48 = n % 10 :=
      Nat.toNat_digitChar_sub_48_of_lt_ten (Nat.mod_lt n (by decide))
    rw [value] at hrest
    rw [value, digits, List.foldl_append, List.foldl_cons, List.foldl_nil, hrest, hlast]
    omega

end Decimal
