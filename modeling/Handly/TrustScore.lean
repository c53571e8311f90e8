import Handly.Trust
import Mathlib.Algebra.Order.Floor.Ring
import Mathlib.Tactic.GCongr
import Mathlib.Tactic.Positivity

/-!
# The trust score

What the formula of `computeTrustScore` promises. Both guarded rates take the value of
the best possible history when there is none, so they stay monotone across the step
from an empty history. Rounding and the two clamps are monotone, and a penalty is a
whole number of points, which passes through the rounding unchanged.
-/

namespace Handly

/-! ### Rounding -/

theorem mathRound_mono {x y : ℚ} (h : x ≤ y) : mathRound x ≤ mathRound y :=
  Int.floor_mono (add_le_add_left h _)

/-- Whole numbers pass through the rounding. -/
theorem mathRound_sub_natCast (x : ℚ) (n : ℕ) : mathRound (x - n) = mathRound x - n := by
  rw [mathRound, mathRound, sub_add_eq_add_sub, Int.floor_sub_natCast]

/-! ### The guarded rates -/

/-- `cancellationRate`: nothing is held against a master who has had no order. -/
def cancellationRate (cancelled closed : ℕ) : ℚ :=
  if 0 < cancelled + closed then cancelled / (cancelled + closed : ℕ) else 0

/-- `responseRate`: a master who has had no offer gets the benefit of the doubt. -/
def responseRate (accepted declinedOrExpired : ℕ) : ℚ :=
  if 0 < accepted + declinedOrExpired then accepted / (accepted + declinedOrExpired : ℕ) else 1

theorem div_add_mono {a b a' b' : ℕ} (hpos : 0 < a + b) (ha : a ≤ a') (hb : b' ≤ b) :
    (a : ℚ) / (a + b : ℕ) ≤ a' / (a' + b' : ℕ) := by
  rcases Nat.eq_zero_or_pos (a' + b') with hzero | hpos'
  · obtain rfl : a = 0 := by omega
    obtain rfl : a' = 0 := by omega
    simp
  · rw [div_le_div_iff₀ (by exact_mod_cast hpos) (by exact_mod_cast hpos')]
    have hcross : a * (a' + b') ≤ a' * (a + b) := by
      calc a * (a' + b') = a * a' + a * b' := by ring
        _ ≤ a * a' + a' * b := by gcongr
        _ = a' * (a + b) := by ring
    exact_mod_cast hcross

theorem div_add_le_one (a b : ℕ) : (a : ℚ) / (a + b : ℕ) ≤ 1 := by
  refine div_le_one_of_le₀ ?_ (Nat.cast_nonneg _)
  exact_mod_cast Nat.le_add_right a b

theorem cancellationRate_mono {cancelled closed cancelled' closed' : ℕ}
    (hcancelled : cancelled ≤ cancelled') (hclosed : closed' ≤ closed) :
    cancellationRate cancelled closed ≤ cancellationRate cancelled' closed' := by
  unfold cancellationRate
  split
  · rename_i hpos
    have hle := div_add_mono hpos hcancelled hclosed
    split
    · exact hle
    · rename_i hzero
      simpa [Nat.eq_zero_of_not_pos hzero] using hle
  · split
    · positivity
    · exact le_rfl

theorem responseRate_mono {accepted declined accepted' declined' : ℕ}
    (haccepted : accepted ≤ accepted') (hdeclined : declined' ≤ declined) :
    responseRate accepted declined ≤ responseRate accepted' declined' := by
  unfold responseRate
  split
  · rename_i hpos
    split
    · exact div_add_mono hpos haccepted hdeclined
    · exact div_add_le_one _ _
  · -- Without a history there are no declined offers, so the first one is accepted.
    rename_i hzero
    split
    · rename_i hpos
      obtain rfl : declined' = 0 := by omega
      have hne : (accepted' : ℚ) ≠ 0 := by
        exact_mod_cast (by omega : accepted' ≠ 0)
      simp [div_self hne]
    · exact le_rfl

/-! ### The score -/

/-- `rawScore` -/
def rawScore (c : TrustCounts) (jobsDone : ℕ) (ratingAvg : ℚ) (verified : Bool) : ℚ :=
  (min jobsDone jobsDoneCap : ℕ) / jobsDoneCap * 30 + ratingAvg / 5 * 25 +
    responseRate c.accepted c.declinedOrExpired * 15 +
    (1 - cancellationRate c.cancelled c.closed) * 15 + (if verified then 1 else 0) * 15

theorem trustScore_eq (c : TrustCounts) (jobsDone : ℕ) (ratingAvg : ℚ) (verified : Bool) :
    trustScore c jobsDone ratingAvg verified =
      max 0 (min 100 (mathRound (rawScore c jobsDone ratingAvg verified) -
        (min maxPenaltyDeduction c.activePenaltyPoints : ℕ))) := by
  rw [← mathRound_sub_natCast]
  rfl

/-- The second history is no worse than the first in any respect. -/
structure TrustCounts.NoWorse (c c' : TrustCounts) : Prop where
  cancelled : c'.cancelled ≤ c.cancelled
  closed : c.closed ≤ c'.closed
  accepted : c.accepted ≤ c'.accepted
  declinedOrExpired : c'.declinedOrExpired ≤ c.declinedOrExpired
  activePenaltyPoints : c'.activePenaltyPoints ≤ c.activePenaltyPoints

theorem rawScore_mono {c c' : TrustCounts} {jobsDone jobsDone' : ℕ} {ratingAvg ratingAvg' : ℚ}
    {verified verified' : Bool} (hc : c.NoWorse c') (hjobs : jobsDone ≤ jobsDone')
    (hrating : ratingAvg ≤ ratingAvg') (hverified : verified → verified') :
    rawScore c jobsDone ratingAvg verified ≤ rawScore c' jobsDone' ratingAvg' verified' := by
  have hresponse := responseRate_mono hc.accepted hc.declinedOrExpired
  have hcancellation := cancellationRate_mono hc.cancelled hc.closed
  have hverification : (if verified then (1 : ℚ) else 0) ≤ if verified' then 1 else 0 := by
    cases verified <;> cases verified' <;> simp_all
  have hdone : ((min jobsDone jobsDoneCap : ℕ) : ℚ) ≤ (min jobsDone' jobsDoneCap : ℕ) := by
    exact_mod_cast min_le_min_right _ hjobs
  unfold rawScore
  gcongr

theorem trustScore_mono {c c' : TrustCounts} {jobsDone jobsDone' : ℕ} {ratingAvg ratingAvg' : ℚ}
    {verified verified' : Bool} (hc : c.NoWorse c') (hjobs : jobsDone ≤ jobsDone')
    (hrating : ratingAvg ≤ ratingAvg') (hverified : verified → verified') :
    trustScore c jobsDone ratingAvg verified ≤ trustScore c' jobsDone' ratingAvg' verified' := by
  have hround := mathRound_mono (rawScore_mono hc hjobs hrating hverified)
  have hpenalty := hc.activePenaltyPoints
  rw [trustScore_eq, trustScore_eq]
  refine max_le_max le_rfl (min_le_min le_rfl ?_)
  omega

/-- The score never leaves its scale. -/
theorem trustScore_mem (c : TrustCounts) (jobsDone : ℕ) (ratingAvg : ℚ) (verified : Bool) :
    0 ≤ trustScore c jobsDone ratingAvg verified ∧
      trustScore c jobsDone ratingAvg verified ≤ 100 := by
  rw [trustScore_eq]
  omega

/-- Whatever the penalties, they take at most `MAX_PENALTY_DEDUCTION` off the score. -/
theorem trustScore_le_add (c : TrustCounts) (jobsDone : ℕ) (ratingAvg : ℚ) (verified : Bool) :
    trustScore { c with activePenaltyPoints := 0 } jobsDone ratingAvg verified ≤
      trustScore c jobsDone ratingAvg verified + maxPenaltyDeduction := by
  have hraw : rawScore { c with activePenaltyPoints := 0 } jobsDone ratingAvg verified =
      rawScore c jobsDone ratingAvg verified := rfl
  rw [trustScore_eq, trustScore_eq, hraw]
  simp only [maxPenaltyDeduction]
  omega

/-! ### The tier -/

theorem scoreToTier_le (score : ℤ) : scoreToTier score ≤ 3 := List.length_filter_le _ _

/-- A higher score meets every threshold that a lower one meets. -/
theorem scoreToTier_mono {score score' : ℤ} (h : score ≤ score') :
    scoreToTier score ≤ scoreToTier score' := by
  refine (List.monotone_filter_right _ fun t ht => ?_).length_le
  simp only [decide_eq_true_eq] at ht ⊢
  exact ht.trans h

/-! ### The score as a whole -/

/-- **The trust score is bounded and monotone**, and penalties take a bounded amount off it. -/
theorem trustScore_bounded_mono (c : TrustCounts) (jobsDone : ℕ) (ratingAvg : ℚ) (verified : Bool) :
    (0 ≤ trustScore c jobsDone ratingAvg verified ∧
      trustScore c jobsDone ratingAvg verified ≤ 100 ∧
      scoreToTier (trustScore c jobsDone ratingAvg verified) ≤ 3) ∧
    (∀ (c' : TrustCounts) (jobsDone' : ℕ) (ratingAvg' : ℚ) (verified' : Bool),
      c.NoWorse c' → jobsDone ≤ jobsDone' → ratingAvg ≤ ratingAvg' → (verified → verified') →
        trustScore c jobsDone ratingAvg verified ≤ trustScore c' jobsDone' ratingAvg' verified' ∧
          scoreToTier (trustScore c jobsDone ratingAvg verified) ≤
            scoreToTier (trustScore c' jobsDone' ratingAvg' verified')) ∧
    trustScore { c with activePenaltyPoints := 0 } jobsDone ratingAvg verified ≤
      trustScore c jobsDone ratingAvg verified + maxPenaltyDeduction := by
  have hmem := trustScore_mem c jobsDone ratingAvg verified
  refine ⟨⟨hmem.1, hmem.2, scoreToTier_le _⟩, fun c' jobsDone' ratingAvg' verified' hc hjobs
    hrating hverified => ?_, trustScore_le_add c jobsDone ratingAvg verified⟩
  have hmono := trustScore_mono hc hjobs hrating hverified
  exact ⟨hmono, scoreToTier_mono hmono⟩

/-- The first offer of a new master, once declined and once accepted. -/
theorem trustScore_bounded_mono_firstOffer :
    trustScore ⟨0, 0, 0, 1, 0⟩ 0 0 true ≤ trustScore ⟨0, 0, 0, 0, 0⟩ 0 0 true ∧
      trustScore ⟨0, 0, 0, 0, 0⟩ 0 0 true ≤ trustScore ⟨0, 0, 1, 0, 0⟩ 0 0 true :=
  ⟨((trustScore_bounded_mono ⟨0, 0, 0, 1, 0⟩ 0 0 true).2.1 ⟨0, 0, 0, 0, 0⟩ 0 0 true
      ⟨by decide, by decide, by decide, by decide, by decide⟩ le_rfl le_rfl id).1,
    ((trustScore_bounded_mono ⟨0, 0, 0, 0, 0⟩ 0 0 true).2.1 ⟨0, 0, 1, 0, 0⟩ 0 0 true
      ⟨by decide, by decide, by decide, by decide, by decide⟩ le_rfl le_rfl id).1⟩

end Handly
