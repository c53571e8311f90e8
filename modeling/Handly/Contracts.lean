import Mathlib.Data.Rat.Floor
import Mathlib.Algebra.Order.Ring.Rat

/-!
# Shared vocabulary

The enumerations and constant tables that the API services share: the Prisma
enums, the metadata of service tiers and complexities, the bookable slots, and
the error classes that a handler can throw.

Amounts are integer so'm. Multipliers are exact rationals, and an instant is a
number of milliseconds since the epoch.
-/

namespace Handly

abbrev UserId := ℕ
abbrev OrderId := ℕ
abbrev DispatchId := ℕ
abbrev CategoryId := ℕ
abbrev PaymentId := ℕ
abbrev ReferralId := ℕ
abbrev VerificationId := ℕ
abbrev ClaimId := ℕ

/-- Milliseconds since the epoch. -/
abbrev Time := ℤ

/-- The exception classes the services throw, with their message. -/
inductive ApiError
  | badRequest (message : String)
  | forbidden (message : String)
  | notFound (message : String)
  | conflict (message : String)
  | unauthorized (message : String)
  | unsupportedMediaType (message : String)
  | payloadTooLarge (message : String)
  /-- The awaited database, queue or network operation itself failed. -/
  | infrastructure
  deriving DecidableEq

inductive ServiceTier
  | scheduled | priority | emergency
  deriving DecidableEq

inductive Complexity
  | simple | medium | complex | critical
  deriving DecidableEq

inductive OrderStatus
  | draft | priced | searching | assigned | enRoute | inProgress | completed | closed
  | cancelledByCustomer | cancelledByMaster | expired | disputed
  deriving DecidableEq

inductive DispatchStatus
  | offered | accepted | declined | expired | withdrawn
  deriving DecidableEq

inductive Role
  | customer | master | admin
  deriving DecidableEq

inductive UserStatus
  | pending | active | suspended | banned
  deriving DecidableEq

inductive VerificationStatus
  | unverified | pending | verified | rejected
  deriving DecidableEq

inductive VerificationProvider
  | myid | manual
  deriving DecidableEq

inductive GuaranteeClaimStatus
  | open_ | underReview | approved | rejected
  deriving DecidableEq

inductive SubscriptionPlan
  | free | premium
  deriving DecidableEq

inductive SubscriptionStatus
  | active | trial | expired | cancelled
  deriving DecidableEq

inductive PenaltyEventType
  | cancellation | noShow | lateResponse | poorQuality | customerComplaint
  deriving DecidableEq

inductive PenaltySeverity
  | minor | moderate | severe
  deriving DecidableEq

inductive NotificationType
  | offerReceived | offerExpired | orderAssigned | orderSearchFailed | orderCompleted
  | orderClosed | paymentSucceeded | paymentFailed | verificationApproved
  | verificationRejected | guaranteeClaimDecided | penaltyIssued | referralRewarded
  | orderCancelledByMaster | paymentResolved
  deriving DecidableEq

inductive PaymentStatus
  | pending | processing | succeeded | failed | cancelled | refunded
  deriving DecidableEq

inductive PaymentMethod
  | click | payme | uzum | mock
  deriving DecidableEq

inductive ReferralStatus
  | pending | active | rewarded
  deriving DecidableEq

inductive CashbackSourceType
  | referralReward | promotion
  deriving DecidableEq

inductive CashbackStatus
  | eligible | redeemed
  deriving DecidableEq

/-- `Math.round` -/
def mathRound (x : ℚ) : ℤ := ⌊x + 1 / 2⌋

/-! ### Constant tables -/

/-- Price multiplier of a service tier (`SERVICE_TIER_INFO`). -/
def ServiceTier.multiplier : ServiceTier → ℚ
  | .scheduled => 1
  | .priority => 115 / 100
  | .emergency => 13 / 10

/-- Platform fee of a service tier in so'm (`SERVICE_TIER_INFO`). -/
def ServiceTier.platformFee : ServiceTier → ℤ
  | .scheduled => 0
  | .priority => 15000
  | .emergency => 30000

/-- Price multiplier of a complexity (`COMPLEXITY_INFO`). -/
def Complexity.multiplier : Complexity → ℚ
  | .simple => 8 / 10
  | .medium => 1
  | .complex => 16 / 10
  | .critical => 22 / 10

/-- How many days ahead a SCHEDULED order can be booked. -/
def orderMaxDaysAhead : ℤ := 14

/-- `ORDER_TIME_SLOTS` as minutes after midnight, Tashkent wall-clock:
09:00, 11:00, 14:00 and 16:00. -/
def orderTimeSlots : List ℤ := [540, 660, 840, 960]

def msPerDay : ℤ := 86400000

/-- Uzbekistan is at UTC+5 all year. -/
def uzUtcOffsetMs : ℤ := 5 * 3600000

/-- The `slot` of `utcIsoToSlot`: the Tashkent wall-clock minute of an instant
(`HH:MM` drops the seconds). -/
def tashkentMinute (t : Time) : ℤ := (t + uzUtcOffsetMs) % msPerDay / 60000

/-- The `dateStr` of `utcIsoToSlot`: the Tashkent day of an instant, counted in
days since the epoch. -/
def tashkentDay (t : Time) : ℤ := (t + uzUtcOffsetMs) / msPerDay

end Handly
