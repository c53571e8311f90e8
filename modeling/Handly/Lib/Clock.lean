import Handly.Lib.Interleaving

/-!
# Runs against a clock

The inputs of a machine carry the time at which a statement runs. In a run whose times do not go
backwards, a limiter grants rights again as time passes, so a potential that bounds what is still
granted depends on the time as well: it shrinks while nothing happens, and each granted right is
taken from it (`Machine.Run.countP_add_budget_le`).

`windows` counts how often something can happen in an interval that needs a period of rest in
between, which is what such a potential is made of.
-/

namespace Interleaving

universe u v w

/-! ### Periods in an interval -/

/-- How many instants of `[start, stop]` fit that are at least `period` apart. -/
def windows (period : ℤ) (start stop : ℤ) : ℕ :=
  if start ≤ stop then ((stop - start) / period).toNat + 1 else 0

variable {period start start' stop : ℤ}

/-- One of them at the beginning, and the others after a period. -/
theorem windows_eq_add_one (hperiod : 0 < period) (h : start ≤ stop) :
    windows period start stop = windows period (start + period) stop + 1 := by
  rw [windows, if_pos h]
  by_cases hnext : start + period ≤ stop
  · rw [windows, if_pos hnext]
    have hdiv : (stop - start) / period = (stop - (start + period)) / period + 1 := by
      have hsplit : stop - start = stop - (start + period) + period := by omega
      rw [hsplit, Int.add_ediv_of_dvd_right (dvd_refl period), Int.ediv_self hperiod.ne']
    have hnonneg : 0 ≤ (stop - (start + period)) / period :=
      Int.ediv_nonneg (by omega) hperiod.le
    omega
  · rw [windows, if_neg hnext]
    have hzero : (stop - start) / period = 0 := Int.ediv_eq_zero_of_lt (by omega) (by omega)
    simp [hzero]

/-- The later it begins, the fewer fit. -/
theorem windows_anti (stop : ℤ) (hperiod : 0 < period) (h : start ≤ start') :
    windows period start' stop ≤ windows period start stop := by
  unfold windows
  split
  · rename_i hle
    rw [if_pos (h.trans hle)]
    have hdiv : (stop - start') / period ≤ (stop - start) / period :=
      Int.ediv_le_ediv hperiod (by omega)
    omega
  · exact Nat.zero_le _

/-! ### Times of a run -/

variable {σ : Type u} {κ : Type v} {ι : Type w}

/-- The time of a transition, unless it only starts a call. -/
def Transition.time (now : ι → ℤ) (t : Transition σ κ ι) : Option ℤ :=
  match t.event with
  | .start _ => none
  | .run _ x => some (now x)

/-- The clock does not go backwards, and shows times of `[start, stop]`. -/
structure Clocked (now : ι → ℤ) (start stop : ℤ) (ts : List (Transition σ κ ι)) : Prop where
  sorted : (ts.filterMap (Transition.time now)).Pairwise (· ≤ ·)
  within : ∀ τ ∈ ts.filterMap (Transition.time now), start ≤ τ ∧ τ ≤ stop

variable {now : ι → ℤ} {ts ts' : List (Transition σ κ ι)}

theorem Clocked.left (h : Clocked now start stop (ts ++ ts')) : Clocked now start stop ts := by
  obtain ⟨hsorted, hwithin⟩ := h
  rw [List.filterMap_append] at hsorted hwithin
  exact ⟨(List.pairwise_append.mp hsorted).1,
    fun τ hτ => hwithin τ (List.mem_append_left _ hτ)⟩

theorem Clocked.time_le {t : Transition σ κ ι} (h : Clocked now start stop (ts ++ [t])) {τ : ℤ}
    (htime : t.time now = some τ) :
    (start ≤ τ ∧ τ ≤ stop) ∧ ∀ τ₀ ∈ ts.filterMap (Transition.time now), τ₀ ≤ τ := by
  obtain ⟨hsorted, hwithin⟩ := h
  rw [List.filterMap_append] at hsorted hwithin
  have hmem : τ ∈ [t].filterMap (Transition.time now) := by simp [htime]
  exact ⟨hwithin τ (List.mem_append_right _ hmem),
    fun τ₀ hτ₀ => (List.pairwise_append.mp hsorted).2.2 τ₀ hτ₀ τ hmem⟩

/-- **The rule for limits.** The budget that a configuration leaves at a time shrinks as time
passes. Every transition with `P` takes one from it, and one with `Q` may put `gain` back. Then a
run has at most as many of the former as the budget at its beginning and what the latter put
back. -/
theorem Machine.Run.countP_add_budget_le {M : Machine σ κ ι} {c c' : Config σ κ}
    (hrun : M.Run c ts c') (budget : Config σ κ → ℤ → ℕ) (P Q : Transition σ κ ι → Bool) (gain : ℕ)
    (hpasses : ∀ d τ τ', τ ≤ τ' → budget d τ' ≤ budget d τ)
    (hstart : ∀ t ∈ ts, t.time now = none →
      P t = false ∧ ∀ τ, budget t.post τ ≤ budget t.pre τ)
    (hstep : ∀ t ∈ ts, ∀ τ, t.time now = some τ → τ ≤ stop →
      (if P t then 1 else 0) + budget t.post τ ≤ budget t.pre τ + if Q t then gain else 0)
    (hclock : Clocked now start stop ts) :
    ∀ τ', start ≤ τ' → (∀ τ ∈ ts.filterMap (Transition.time now), τ ≤ τ') →
      ts.countP P + budget c' τ' ≤ budget c start + gain * ts.countP Q := by
  induction hrun with
  | nil =>
      intro τ' hτ' _
      simpa using hpasses c start τ' hτ'
  | @snoc c' ts t hrun hpre hfire ih =>
      obtain rfl := hpre
      intro τ' hτ' hafter
      have hrest := ih (fun t ht => hstart t (List.mem_append_left _ ht))
        (fun t ht => hstep t (List.mem_append_left _ ht)) hclock.left
      rw [List.filterMap_append] at hafter
      have hgain : gain * (ts ++ [t]).countP Q =
          gain * ts.countP Q + if Q t then gain else 0 := by
        rw [List.countP_append, List.countP_singleton, Nat.mul_add]
        cases Q t <;> simp
      rw [hgain, List.countP_append, List.countP_singleton]
      cases htime : t.time now with
      | none =>
          obtain ⟨hP, hle⟩ := hstart t (by simp) htime
          have hbefore := hrest τ' hτ' fun τ hτ => hafter τ (List.mem_append_left _ hτ)
          have hlast := hle τ'
          simp only [hP, Bool.false_eq_true, if_false]
          omega
      | some τ =>
          obtain ⟨⟨hfrom, hto⟩, hordered⟩ := hclock.time_le htime
          have hbefore := hrest τ hfrom hordered
          have hlast := hstep t (by simp) τ htime hto
          have hlater := hpasses t.post τ τ' (hafter τ (by simp [htime]))
          omega

end Interleaving
