import Handly.Contracts

/-!
# Scoring and picking a candidate

`dispatch-scoring.ts`, in exact rational arithmetic. `Math.random()` is an
argument of `weightedRandomPick`.
-/

namespace Handly

/-- `requiredTierForComplexity` -/
def requiredTierForComplexity : Option Complexity → ℕ
  | some .critical => 3
  | some .complex => 2
  | some .medium => 1
  | some .simple => 0
  | none => 0

structure EligibleCandidate where
  masterId : UserId
  distanceM : ℤ
  ratingAvg : ℚ
  jobsDone : ℕ
  isPremium : Bool
  deriving DecidableEq

/-- `PREMIUM_SCORE_BONUS` -/
def premiumScoreBonus : ℚ := 1 / 10

/-- `SCORE_DISTANCE_REFERENCE_M` -/
def scoreDistanceReferenceM : ℚ := 20000

def clamp01 (n : ℚ) : ℚ := max 0 (min 1 n)

/-- Weighted(distance, rating, completed jobs), plus the flat Premium bonus. -/
def scoreCandidate (c : EligibleCandidate) : ℚ :=
  let distanceScore := clamp01 (1 - c.distanceM / scoreDistanceReferenceM)
  let ratingScore := clamp01 (c.ratingAvg / 5)
  let jobsScore := clamp01 (c.jobsDone / 100)
  let base := 5 / 10 * distanceScore + 35 / 100 * ratingScore + 15 / 100 * jobsScore
  if c.isPremium then base + premiumScoreBonus else base

/-- The loop of `weightedRandomPick`: subtract weights until the roll is used
up; past the last candidate the last one is returned. -/
def pickLoop {α : Type*} (weight : α → ℚ) : ℚ → α → List α → α
  | _, last, [] => last
  | roll, _, c :: cs =>
      let roll' := roll - weight c
      if roll' ≤ 0 then c else pickLoop weight roll' c cs

/-- `weightedRandomPick`, with `random` for `Math.random()`. `none` stands for the
exception on an empty list. -/
def weightedRandomPick {α : Type*} (random : ℚ) (candidates : List α) (weightOf : α → ℚ) :
    Option α :=
  match candidates with
  | [] => none
  | c :: _ =>
      let weight := fun c => max (weightOf c) (1 / 10000)
      let total := (candidates.map weight).sum
      some (pickLoop weight (random * total) c candidates)

/-- The pick is one of the candidates. -/
theorem pickLoop_mem {α : Type*} (weight : α → ℚ) :
    ∀ (cs : List α) (roll : ℚ) (last : α), pickLoop weight roll last cs = last ∨
      pickLoop weight roll last cs ∈ cs
  | [], _, _ => Or.inl rfl
  | c :: cs, roll, last => by
      right
      rw [pickLoop]
      split
      · exact List.mem_cons_self
      · rcases pickLoop_mem weight cs (roll - weight c) c with h | h
        · rw [h]
          exact List.mem_cons_self
        · exact List.mem_cons_of_mem _ h

/-- Some candidate is picked, unless there is none. -/
theorem weightedRandomPick_eq_none {α : Type*} {random : ℚ} {candidates : List α}
    {weightOf : α → ℚ} :
    weightedRandomPick random candidates weightOf = none ↔ candidates = [] := by
  cases candidates <;> simp [weightedRandomPick]

theorem weightedRandomPick_mem {α : Type*} {random : ℚ} {candidates : List α}
    {weightOf : α → ℚ} {c : α} (h : weightedRandomPick random candidates weightOf = some c) :
    c ∈ candidates := by
  cases candidates with
  | nil => simp [weightedRandomPick] at h
  | cons a cs =>
      simp only [weightedRandomPick, Option.some.injEq] at h
      rcases pickLoop_mem (fun c => max (weightOf c) (1 / 10000)) (a :: cs)
        (random * ((a :: cs).map fun c => max (weightOf c) (1 / 10000)).sum) a with h' | h'
      · rw [← h, h']
        exact List.mem_cons_self
      · rw [← h]
        exact h'

end Handly
