import Handly.Dispatch.Scoring
import Handly.Lib.Roulette
import Mathlib.Data.Rat.BigOperators

/-!
# The pick among the candidates

`weightedRandomPick` is a roulette wheel: its loop returns the candidate at the place
where the roll is used up, and the total of the weights covers every roll that
`Math.random()` can give. Each candidate is therefore picked in proportion to its
weight. The score is monotone in what makes a candidate better, so a better candidate
gains at the expense of the others.
-/

namespace Handly

open MeasureTheory

/-! ### The loop as a wheel -/

section Loop

variable {α : Type*} {weight : α → ℚ} {candidates : List α} {roll : ℚ}

/-- Does the loop of `weightedRandomPick` end without returning, so that its last
statement is reached? -/
def fallsThrough (weight : α → ℚ) : ℚ → List α → Bool
  | _, [] => true
  | roll, c :: cs => if roll - weight c ≤ 0 then false else fallsThrough weight (roll - weight c) cs

theorem fallsThrough_eq_false (hne : candidates ≠ [])
    (h : roll ≤ (candidates.map weight).sum) : fallsThrough weight roll candidates = false := by
  induction candidates generalizing roll with
  | nil => exact absurd rfl hne
  | cons c cs ih =>
      rw [fallsThrough]
      split
      · rfl
      · rename_i hover
        rw [List.map_cons, List.sum_cons] at h
        refine ih ?_ (sub_le_iff_le_add'.mpr h)
        rintro rfl
        exact hover (sub_nonpos.mpr (by simpa using h))

/-- The loop returns the candidate at the place that the wheel selects. -/
theorem pickLoop_eq (last : α)
    (h : Roulette.spin roll (candidates.map weight) < candidates.length) :
    pickLoop weight roll last candidates =
      candidates[Roulette.spin roll (candidates.map weight)] := by
  induction candidates generalizing roll last with
  | nil => simp at h
  | cons c cs ih =>
      simp only [List.map_cons, Roulette.spin, pickLoop] at h ⊢
      split
      · simp
      · rename_i hover
        simp only [hover, if_false, List.length_cons, Nat.add_lt_add_iff_right] at h
        simpa [hover] using ih c h

end Loop

/-! ### What is picked, and how often -/

section Pick

variable {α : Type*}

/-- The weight that `weightedRandomPick` gives a candidate. -/
def pickWeight (weightOf : α → ℚ) (c : α) : ℚ := max (weightOf c) (1 / 10000)

/-- The weights of the candidates, in order. -/
def pickWeights (weightOf : α → ℚ) (candidates : List α) : List ℚ :=
  candidates.map (pickWeight weightOf)

variable {weightOf : α → ℚ} {candidates : List α}

theorem pickWeight_pos (c : α) : 0 < pickWeight weightOf c :=
  lt_of_lt_of_le (by norm_num) (le_max_right _ _)

theorem pickWeights_pos : ∀ w ∈ pickWeights weightOf candidates, 0 < w := by
  simp only [pickWeights, List.forall_mem_map]
  exact fun c _ => pickWeight_pos c

/-- The scaled roll lies in the slice of candidate `i`; a roll of zero, in the first. -/
def Lands (weights : List ℚ) (random : ℚ) (i : ℕ) : Prop :=
  (random = 0 ∧ i = 0) ∨
    ((weights.take i).sum < random * weights.sum ∧
      random * weights.sum ≤ (weights.take (i + 1)).sum)

/-- The numbers in `[0, 1)` with which the candidate at place `i` is picked, when
`Math.random()` is exact. -/
def picksOf (weightOf : α → ℚ) (candidates : List α) (i : ℕ) : Set ℝ :=
  Roulette.rolls ((pickWeights weightOf candidates).map (↑)) i

/-- The probability with which the candidate at place `i` is picked. -/
noncomputable def pickProbability (weightOf : α → ℚ) (candidates : List α) (i : ℕ) : ENNReal :=
  volume (picksOf weightOf candidates i)

theorem lands_iff {random : ℚ} (h0 : 0 ≤ random) {i : ℕ} (hi : i < candidates.length) :
    Lands (pickWeights weightOf candidates) random i ↔
      Roulette.spin (random * (pickWeights weightOf candidates).sum)
        (pickWeights weightOf candidates) = i := by
  have hlen : i < (pickWeights weightOf candidates).length := by simpa [pickWeights] using hi
  have hne : pickWeights weightOf candidates ≠ [] := List.ne_nil_of_length_pos (by omega)
  have htotal := Roulette.sum_pos pickWeights_pos hne
  rw [Roulette.spin_eq_iff pickWeights_pos hlen, Lands]
  constructor
  · intro h
    obtain ⟨rfl, rfl⟩ | ⟨hlo, hhi⟩ := h
    · refine ⟨Or.inl rfl, ?_⟩
      rw [zero_mul]
      exact List.sum_nonneg fun v hv => (pickWeights_pos v (List.mem_of_mem_take hv)).le
    · exact ⟨Or.inr hlo, hhi⟩
  · intro h
    obtain ⟨rfl | hlo, hhi⟩ := h
    · rcases h0.eq_or_lt with rfl | hrandom
      · exact Or.inl ⟨rfl, rfl⟩
      · exact Or.inr ⟨by simpa using mul_pos hrandom htotal, hhi⟩
    · exact Or.inr ⟨hlo, hhi⟩

/-- On rational numbers, exact picking is the wheel of the code. -/
theorem cast_mem_picksOf {random : ℚ} {i : ℕ} :
    (random : ℝ) ∈ picksOf weightOf candidates i ↔
      (0 ≤ random ∧ random < 1) ∧
        Roulette.spin (random * (pickWeights weightOf candidates).sum)
          (pickWeights weightOf candidates) = i := by
  rw [picksOf, Roulette.rolls, Set.mem_ofPred_eq, ← Rat.cast_list_sum, ← Rat.cast_mul,
    Roulette.spin_cast, Set.mem_Ico, Rat.cast_nonneg, ← Rat.cast_one, Rat.cast_lt]

/-- `weightedRandomPick` on a non-empty list: which candidate a number picks, and with
which probability each candidate is picked. -/
structure ProportionalPick (weightOf : α → ℚ) (candidates : List α) : Prop where
  /-- The scaled roll lands in one slice, and that candidate is returned. -/
  picks : ∀ random : ℚ, 0 ≤ random → random < 1 → ∃ i, ∃ hi : i < candidates.length,
    weightedRandomPick random candidates weightOf = some candidates[i] ∧
      ∀ j < candidates.length, (Lands (pickWeights weightOf candidates) random j ↔ j = i) ∧
        ((random : ℝ) ∈ picksOf weightOf candidates j ↔ j = i)
  /-- The statement after the loop is never reached. -/
  returns : ∀ random : ℚ, 0 ≤ random → random < 1 →
    fallsThrough (pickWeight weightOf) (random * (pickWeights weightOf candidates).sum)
      candidates = false
  /-- Every candidate has a chance, the part of the total that its weight makes up. -/
  proportional : ∀ i, ∀ hi : i < candidates.length,
    pickProbability weightOf candidates i =
        ENNReal.ofReal ((pickWeight weightOf candidates[i] /
          (pickWeights weightOf candidates).sum : ℚ) : ℝ) ∧
      0 < pickWeight weightOf candidates[i] / (pickWeights weightOf candidates).sum

theorem total_pos (hne : candidates ≠ []) : 0 < (pickWeights weightOf candidates).sum :=
  Roulette.sum_pos pickWeights_pos (by simpa [pickWeights] using hne)

theorem roll_le_total (hne : candidates ≠ []) {random : ℚ} (h1 : random < 1) :
    random * (pickWeights weightOf candidates).sum ≤ (pickWeights weightOf candidates).sum :=
  mul_le_of_le_one_left (total_pos hne).le h1.le

/-- The weights as real numbers are positive, too. -/
theorem cast_pickWeights_pos :
    ∀ w ∈ (pickWeights weightOf candidates).map (Rat.cast : ℚ → ℝ), 0 < w := by
  simp only [List.forall_mem_map]
  exact fun w hw => Rat.cast_pos.mpr (pickWeights_pos w hw)

theorem share_cast (i : ℕ) :
    Roulette.share ((pickWeights weightOf candidates).map (Rat.cast : ℚ → ℝ)) i =
      (Roulette.share (pickWeights weightOf candidates) i : ℚ) := by
  rw [Roulette.share, Roulette.share, ← Rat.cast_list_sum, Rat.cast_div, List.getElem?_map]
  cases (pickWeights weightOf candidates)[i]? <;> simp

theorem pickProbability_eq {i : ℕ} (hi : i < candidates.length) :
    pickProbability weightOf candidates i =
      ENNReal.ofReal (Roulette.share (pickWeights weightOf candidates) i : ℚ) := by
  rw [pickProbability, picksOf, Roulette.volume_rolls cast_pickWeights_pos
    (by simpa [pickWeights] using hi), share_cast]

theorem proportionalPick (hne : candidates ≠ []) : ProportionalPick weightOf candidates where
  picks random h0 h1 := by
    have hlt : Roulette.spin (random * (pickWeights weightOf candidates).sum)
        (pickWeights weightOf candidates) < candidates.length := by
      have htotal : random * (pickWeights weightOf candidates).sum ≤
          (pickWeights weightOf candidates).sum := roll_le_total hne h1
      have hspin := Roulette.spin_lt_length (by simpa [pickWeights] using hne) htotal
      simpa [pickWeights] using hspin
    refine ⟨_, hlt, ?_, fun j hj => ⟨?_, ?_⟩⟩
    · cases candidates with
      | nil => exact absurd rfl hne
      | cons c cs => exact congrArg some (pickLoop_eq c hlt)
    · rw [lands_iff h0 hj, eq_comm]
    · rw [cast_mem_picksOf, and_iff_right ⟨h0, h1⟩, eq_comm]
  returns random h0 h1 := fallsThrough_eq_false hne (roll_le_total hne h1)
  proportional i hi := by
    have hshare : Roulette.share (pickWeights weightOf candidates) i =
        pickWeight weightOf candidates[i] / (pickWeights weightOf candidates).sum := by
      rw [Roulette.share_eq (by simpa [pickWeights] using hi)]
      simp [pickWeights]
    rw [pickProbability_eq hi, hshare]
    exact ⟨rfl, div_pos (pickWeight_pos _) (total_pos hne)⟩

end Pick

/-! ### Better candidates -/

/-- The second candidate is at least as good as the first in everything that is scored. -/
structure Improves (c c' : EligibleCandidate) : Prop where
  distanceM : c'.distanceM ≤ c.distanceM
  ratingAvg : c.ratingAvg ≤ c'.ratingAvg
  jobsDone : c.jobsDone ≤ c'.jobsDone
  isPremium : c.isPremium → c'.isPremium

theorem clamp01_mono {x y : ℚ} (h : x ≤ y) : clamp01 x ≤ clamp01 y :=
  max_le_max le_rfl (min_le_min le_rfl h)

theorem scoreCandidate_mono {c c' : EligibleCandidate} (h : Improves c c') :
    scoreCandidate c ≤ scoreCandidate c' := by
  have hdistance : clamp01 (1 - c.distanceM / scoreDistanceReferenceM) ≤
      clamp01 (1 - c'.distanceM / scoreDistanceReferenceM) := by
    refine clamp01_mono (sub_le_sub_left (div_le_div_of_nonneg_right ?_ ?_) 1)
    · exact_mod_cast h.distanceM
    · norm_num [scoreDistanceReferenceM]
  have hrating : clamp01 (c.ratingAvg / 5) ≤ clamp01 (c'.ratingAvg / 5) :=
    clamp01_mono (div_le_div_of_nonneg_right h.ratingAvg (by norm_num))
  have hjobs : clamp01 ((c.jobsDone : ℚ) / 100) ≤ clamp01 ((c'.jobsDone : ℚ) / 100) := by
    refine clamp01_mono (div_le_div_of_nonneg_right ?_ (by norm_num))
    exact_mod_cast h.jobsDone
  have hbonus : (0 : ℚ) ≤ premiumScoreBonus := by norm_num [premiumScoreBonus]
  have hpremium := h.isPremium
  unfold scoreCandidate
  split <;> split
  · linarith
  · simp_all
  · linarith
  · linarith

/-- A better candidate gains, and only at the expense of the others. -/
theorem pickProbability_improves {candidates : List EligibleCandidate} {i : ℕ}
    (hi : i < candidates.length) {c' : EligibleCandidate} (h : Improves candidates[i] c') :
    pickProbability scoreCandidate candidates i ≤
        pickProbability scoreCandidate (candidates.set i c') i ∧
      ∀ j < candidates.length, j ≠ i →
        pickProbability scoreCandidate (candidates.set i c') j ≤
          pickProbability scoreCandidate candidates j := by
  have hset : pickWeights scoreCandidate (candidates.set i c') =
      (pickWeights scoreCandidate candidates).set i (pickWeight scoreCandidate c') := by
    simp [pickWeights, List.map_set]
  have hi' : i < (pickWeights scoreCandidate candidates).length := by simpa [pickWeights] using hi
  have hraise : (pickWeights scoreCandidate candidates)[i] ≤ pickWeight scoreCandidate c' := by
    simp only [pickWeights, List.getElem_map]
    exact max_le_max (scoreCandidate_mono h) le_rfl
  refine ⟨?_, fun j hj hne => ?_⟩
  · rw [pickProbability_eq hi, pickProbability_eq (by simpa using hi), hset]
    refine ENNReal.ofReal_le_ofReal (Rat.cast_le.mpr ?_)
    exact Roulette.share_set pickWeights_pos hi' hraise
  · rw [pickProbability_eq hj, pickProbability_eq (by simpa using hj), hset]
    refine ENNReal.ofReal_le_ofReal (Rat.cast_le.mpr ?_)
    exact Roulette.share_set_of_ne pickWeights_pos hi' hraise hne

/-- **Selection is exactly proportional and fair.** -/
theorem pick_proportional_fair {candidates : List EligibleCandidate} (hne : candidates ≠ []) :
    ProportionalPick scoreCandidate candidates ∧
      ∀ i, ∀ hi : i < candidates.length, ∀ c', Improves candidates[i] c' →
        pickProbability scoreCandidate candidates i ≤
            pickProbability scoreCandidate (candidates.set i c') i ∧
          ∀ j < candidates.length, j ≠ i →
            pickProbability scoreCandidate (candidates.set i c') j ≤
              pickProbability scoreCandidate candidates j :=
  ⟨proportionalPick hne, fun _ hi _ h => pickProbability_improves hi h⟩

/-- Two candidates of whom the second takes out a subscription. -/
theorem pick_proportional_fair_premium :
    pickProbability scoreCandidate [⟨0, 0, 5, 0, false⟩, ⟨1, 0, 5, 0, false⟩] 1 ≤
      pickProbability scoreCandidate [⟨0, 0, 5, 0, false⟩, ⟨1, 0, 5, 0, true⟩] 1 :=
  ((@pick_proportional_fair [⟨0, 0, 5, 0, false⟩, ⟨1, 0, 5, 0, false⟩]
    (List.cons_ne_nil _ _)).2 1 (by decide) ⟨1, 0, 5, 0, true⟩
    ⟨le_rfl, le_rfl, le_rfl, fun _ => rfl⟩).1

end Handly
