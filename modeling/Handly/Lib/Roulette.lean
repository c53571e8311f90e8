import Mathlib.Algebra.BigOperators.Group.List.Basic
import Mathlib.Algebra.Order.BigOperators.Group.List
import Mathlib.MeasureTheory.Measure.Lebesgue.Basic

/-!
# Roulette-wheel selection

A wheel is a list of positive weights. A roll between zero and their total is spent on
the weights one after the other, and the place at which it is used up is selected
(`spin`). The place is the one whose slice of the total, from the sum of the weights
before it to that sum with its own weight, contains the roll (`spin_eq_iff`).

The rolls come from a uniform number in `[0, 1)`, scaled by the total. The numbers that
select a place have the measure of its share of the total (`volume_rolls`), and raising
one weight alone raises its own share and no other (`share_set`, `share_set_of_ne`).
-/

namespace Roulette

open MeasureTheory Set

section Spin

variable {K : Type*} [Field K] [LinearOrder K]

/-- The place at which the running subtraction of the weights uses up the roll; one
past the last place if it never does. -/
def spin : K → List K → ℕ
  | _, [] => 0
  | r, w :: ws => if r - w ≤ 0 then 0 else spin (r - w) ws + 1

variable [IsStrictOrderedRing K] {r : K} {ws : List K} {i : ℕ}

/-- A roll that the total covers is used up at some place. -/
theorem spin_lt_length (hne : ws ≠ []) (h : r ≤ ws.sum) : spin r ws < ws.length := by
  induction ws generalizing r with
  | nil => exact absurd rfl hne
  | cons w ws ih =>
      rw [spin]
      split
      · simp
      · rename_i hover
        rw [List.sum_cons] at h
        have hne' : ws ≠ [] := by
          rintro rfl
          exact hover (sub_nonpos.mpr (by simpa using h))
        have hrest := ih hne' (sub_le_iff_le_add'.mpr h)
        simpa using hrest

/-- **The slices.** A roll selects the place whose slice contains it; the first slice
has no lower end. -/
theorem spin_eq_iff (hpos : ∀ w ∈ ws, 0 < w) (hi : i < ws.length) :
    spin r ws = i ↔ (i = 0 ∨ (ws.take i).sum < r) ∧ r ≤ (ws.take (i + 1)).sum := by
  induction ws generalizing r i with
  | nil => simp at hi
  | cons w ws ih =>
      have hpos' : ∀ v ∈ ws, 0 < v := fun v hv => hpos v (List.mem_cons_of_mem _ hv)
      cases i with
      | zero =>
          have hzero : spin r (w :: ws) = 0 ↔ r - w ≤ 0 := by
            rw [spin]
            split <;> simp_all
          simp [hzero]
      | succ i =>
          have hsucc : spin r (w :: ws) = i + 1 ↔ w < r ∧ spin (r - w) ws = i := by
            rw [spin]
            split
            · rename_i hle
              simp [(sub_nonpos.mp hle).not_gt]
            · rename_i hlt
              simp [sub_nonpos.not.mp hlt |> not_le.mp]
          have hbefore : 0 ≤ (ws.take i).sum :=
            List.sum_nonneg fun v hv => (hpos' v (List.mem_of_mem_take hv)).le
          rw [hsucc, ih hpos' (by simpa using hi)]
          simp only [List.take_succ_cons, List.sum_cons, Nat.add_eq_zero_iff, one_ne_zero,
            and_false, false_or, lt_sub_iff_add_lt', sub_le_iff_le_add', ← and_assoc]
          refine and_congr_left fun _ => ⟨fun h => ?_, fun h => ?_⟩
          · obtain ⟨hlt, rfl | hlt'⟩ := h
            · simpa using hlt
            · exact hlt'
          · exact ⟨(le_add_of_nonneg_right hbefore).trans_lt h, Or.inr h⟩

end Spin

/-- Spinning commutes with the inclusion of the rational numbers. -/
theorem spin_cast (r : ℚ) (ws : List ℚ) : spin (r : ℝ) (ws.map (↑)) = spin r ws := by
  induction ws generalizing r with
  | nil => rfl
  | cons w ws ih =>
      have hle : (r : ℝ) - w ≤ 0 ↔ r - w ≤ 0 := by
        rw [← Rat.cast_sub]
        exact Rat.cast_nonpos
      rw [List.map_cons, spin, spin, ← Rat.cast_sub, ih]
      exact if_congr (by rw [Rat.cast_sub]; exact hle) rfl rfl

/-! ### Shares -/

section Share

variable {K : Type*} [Field K] {ws : List K} {i j : ℕ}

/-- The part of the total that the weight at a place makes up. -/
def share (ws : List K) (i : ℕ) : K := ws[i]?.getD 0 / ws.sum

theorem share_eq (hi : i < ws.length) : share ws i = ws[i] / ws.sum := by
  rw [share, List.getElem?_eq_getElem hi, Option.getD_some]

theorem sum_set_eq (hi : i < ws.length) (w : K) : (ws.set i w).sum = ws.sum + (w - ws[i]) := by
  rw [List.sum_set', dif_pos hi, neg_add_eq_sub]

variable [LinearOrder K] [IsStrictOrderedRing K]

theorem sum_pos (hpos : ∀ w ∈ ws, 0 < w) (hne : ws ≠ []) : 0 < ws.sum :=
  List.sum_pos ws hpos hne

/-- The total, of which one weight and the others are parts. -/
theorem getElem_le_sum (hpos : ∀ w ∈ ws, 0 < w) (hi : i < ws.length) : ws[i] ≤ ws.sum :=
  List.single_le_sum (fun w hw => (hpos w hw).le) _ (List.getElem_mem hi)

/-- A weight that is raised makes up a larger share. -/
theorem share_set (hpos : ∀ w ∈ ws, 0 < w) (hi : i < ws.length) {w : K} (hw : ws[i] ≤ w) :
    share ws i ≤ share (ws.set i w) i := by
  have htotal := sum_pos hpos (List.ne_nil_of_length_pos (by omega : 0 < ws.length))
  have htotal' : 0 < ws.sum + (w - ws[i]) := add_pos_of_pos_of_nonneg htotal (sub_nonneg.mpr hw)
  rw [share_eq hi, share_eq (by simpa using hi), List.getElem_set_self, sum_set_eq hi,
    div_le_div_iff₀ htotal htotal']
  have hle := mul_le_mul_of_nonneg_right (getElem_le_sum hpos hi) (sub_nonneg.mpr hw)
  calc ws[i] * (ws.sum + (w - ws[i])) = ws[i] * ws.sum + ws[i] * (w - ws[i]) := mul_add _ _ _
    _ ≤ ws[i] * ws.sum + ws.sum * (w - ws[i]) := add_le_add_right hle _
    _ = w * ws.sum := by ring

/-- The others then make up smaller ones. -/
theorem share_set_of_ne (hpos : ∀ w ∈ ws, 0 < w) (hi : i < ws.length) {w : K} (hw : ws[i] ≤ w)
    (hj : j ≠ i) : share (ws.set i w) j ≤ share ws j := by
  have htotal := sum_pos hpos (List.ne_nil_of_length_pos (by omega : 0 < ws.length))
  rw [share, share, List.getElem?_set_ne (Ne.symm hj), sum_set_eq hi]
  have hnonneg : 0 ≤ ws[j]?.getD 0 := by
    cases hget : ws[j]? with
    | none => exact le_rfl
    | some v => exact (hpos v (List.mem_of_getElem? hget)).le
  exact div_le_div_of_nonneg_left hnonneg htotal (le_add_of_nonneg_right (sub_nonneg.mpr hw))

end Share

/-! ### The measure of a selection -/

section Measure

variable {ws : List ℝ} {i : ℕ}

/-- The uniform numbers that select a place. -/
def rolls (ws : List ℝ) (i : ℕ) : Set ℝ := {u | u ∈ Ico 0 1 ∧ spin (u * ws.sum) ws = i}

theorem take_sum_le_sum (hpos : ∀ w ∈ ws, 0 < w) (n : ℕ) : (ws.take n).sum ≤ ws.sum := by
  have hrest : 0 ≤ (ws.drop n).sum :=
    List.sum_nonneg fun v hv => (hpos v (List.mem_of_mem_drop hv)).le
  calc (ws.take n).sum ≤ (ws.take n).sum + (ws.drop n).sum := le_add_of_nonneg_right hrest
    _ = ws.sum := List.sum_take_add_sum_drop ws n

/-- **Selection is proportional.** A place is selected with the probability of its share. -/
theorem volume_rolls (hpos : ∀ w ∈ ws, 0 < w) (hi : i < ws.length) :
    volume (rolls ws i) = ENNReal.ofReal (share ws i) := by
  have htotal := sum_pos hpos (List.ne_nil_of_length_pos (by omega : 0 < ws.length))
  have hbefore : 0 ≤ (ws.take i).sum :=
    List.sum_nonneg fun v hv => (hpos v (List.mem_of_mem_take hv)).le
  have hwidth : (ws.take (i + 1)).sum / ws.sum - (ws.take i).sum / ws.sum = share ws i := by
    rw [share_eq hi, ← sub_div, List.sum_take_succ ws i hi, add_sub_cancel_left]
  -- Up to its ends, the selection is the slice.
  have hinner : Ioo ((ws.take i).sum / ws.sum) ((ws.take (i + 1)).sum / ws.sum) ⊆ rolls ws i := by
    intro u hu
    have hlo : (ws.take i).sum < u * ws.sum := (div_lt_iff₀ htotal).mp hu.1
    have hhi : u * ws.sum < (ws.take (i + 1)).sum := (lt_div_iff₀ htotal).mp hu.2
    refine ⟨⟨(div_nonneg hbefore htotal.le).trans hu.1.le, ?_⟩,
      (spin_eq_iff hpos hi).mpr ⟨Or.inr hlo, hhi.le⟩⟩
    exact hu.2.trans_le (div_le_one_of_le₀ (take_sum_le_sum hpos _) htotal.le)
  have houter : rolls ws i ⊆ Icc ((ws.take i).sum / ws.sum) ((ws.take (i + 1)).sum / ws.sum) := by
    intro u hu
    obtain ⟨hlo, hhi⟩ := (spin_eq_iff hpos hi).mp hu.2
    refine ⟨?_, (le_div_iff₀ htotal).mpr hhi⟩
    rcases hlo with rfl | hlo
    · simpa using hu.1.1
    · exact ((div_lt_iff₀ htotal).mpr hlo).le
  refine le_antisymm ?_ ?_
  · calc volume (rolls ws i) ≤ volume (Icc _ _) := measure_mono houter
      _ = ENNReal.ofReal (share ws i) := by rw [Real.volume_Icc, hwidth]
  · calc ENNReal.ofReal (share ws i) = volume (Ioo _ _) := by rw [Real.volume_Ioo, hwidth]
      _ ≤ volume (rolls ws i) := measure_mono hinner

end Measure

end Roulette
