import Handly.Contracts

/-!
# The quote

`pricing.ts`: a deterministic price range, computed in exact rational
arithmetic. The lower bound is rounded down and the upper bound up to 5 000 so'm,
and the range starts at 30 000 or above.
-/

namespace Handly

structure Quote where
  priceMin : ℤ
  priceMax : ℤ
  platformFee : ℤ
  deriving DecidableEq

/-- `ROUND_TO` -/
def roundTo : ℤ := 5000

/-- `FLOOR` -/
def priceFloor : ℤ := 30000

/-- Category base band × complexity × service tier. -/
def computeQuote (baseMin baseMax : ℤ) (complexity : Complexity) (tier : ServiceTier) : Quote :=
  let c := complexity.multiplier
  let t := tier.multiplier
  let rawMin := baseMin * c * t
  let rawMax := baseMax * c * t
  let priceMin := max priceFloor (⌊rawMin / roundTo⌋ * roundTo)
  let priceMax := max (priceMin + roundTo) (⌈rawMax / roundTo⌉ * roundTo)
  { priceMin, priceMax, platformFee := tier.platformFee }

end Handly
