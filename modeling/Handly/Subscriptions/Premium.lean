import Handly.Dispatch.EligibilityQuery
import Handly.Subscriptions.SubscriptionsService

/-!
# Two definitions of Premium

Dispatch computes the column `isPremium` inline, and everything else asks
`SubscriptionsService`. Both mean an active plan or a trial that is not over. They differ
on a trial at the very instant at which it ends, where the query compares strictly, and
on a trial without an end, which the query takes for over and the service for running.
-/

namespace Handly.Subscriptions

open Interleaving

/-- What `getStatus` reports of a row, or of none, at one instant. -/
def statusAt (row : Option MasterSubscription) (now : Time) : MasterSubscriptionDto :=
  match row with
  | none => freeDto
  | some row => if lapsed row now then toDto (expire row) else toDto row

/-- `isPremiumActive` -/
def isPremiumActive (row : Option MasterSubscription) (now : Time) : Bool :=
  (statusAt row now).isPremiumActive

/-- A `getStatus` call that runs alone and in no time reports this status. -/
theorem getStatus_alone (db : Db) (masterId : UserId) :
    (subscribing.after ⟨db, [⟨.getStatus masterId, .start⟩]⟩ [.run 0 {}, .run 0 {}]).calls =
      [⟨.getStatus masterId,
        .returned (statusAt (db.findSubscription masterId) db.clock) db.clock⟩] := by
  have htick : db.tick 0 = db := by simp [Db.tick]
  cases hrow : db.findSubscription masterId with
  | none =>
      simp [Machine.after, Machine.fire, subscribing, step, Call.isFinished, proceed, htick,
        Op.masterId, hrow, settle, Call.goto, statusAt]
  | some row =>
      cases hlapsed : lapsed row db.clock <;>
        simp [Machine.after, Machine.fire, subscribing, step, Call.isFinished, proceed, htick,
          Op.masterId, hrow, settle, Call.goto, statusAt, hlapsed]

/-- **Where the two definitions agree**: everywhere but on a Premium trial that has no end
or ends at this very instant. -/
theorem isPremium_agree_iff (row : Option MasterSubscription) (now : Time) :
    isPremiumColumn row now = isPremiumActive row now ↔
      ¬ ∃ s, row = some s ∧ s.plan = .premium ∧ s.status = .trial ∧
        (s.trialEndsAt = none ∨ s.trialEndsAt = some now) := by
  cases row with
  | none => simp [isPremiumColumn, isPremiumActive, statusAt, freeDto]
  | some s =>
      obtain ⟨masterId, plan, status, trialEndsAt, currentPeriodEnd⟩ := s
      cases plan with
      | free => simp [isPremiumColumn, isPremiumActive, statusAt, toDto, expire, apply_ite]
      | premium =>
          cases status with
          | trial =>
              cases trialEndsAt with
              | none => simp [isPremiumColumn, isPremiumActive, statusAt, toDto, lapsed]
              | some endsAt =>
                  rcases lt_trichotomy endsAt now with h | rfl | h
                  · simp [isPremiumColumn, isPremiumActive, statusAt, toDto, expire, lapsed, h,
                      h.not_gt, h.ne]
                  · simp [isPremiumColumn, isPremiumActive, statusAt, toDto, lapsed]
                  · simp [isPremiumColumn, isPremiumActive, statusAt, toDto, lapsed, h, h.not_gt,
                      h.ne']
          | active | expired | cancelled =>
              simp [isPremiumColumn, isPremiumActive, statusAt, toDto, lapsed]

/-- A trial at the instant at which it ends. -/
theorem not_isPremium_agree_always :
    ¬ ∀ (row : Option MasterSubscription) (now : Time),
      isPremiumColumn row now = isPremiumActive row now := by
  intro h
  have hagree := h (some (newTrial 0 0)) 0
  revert hagree
  decide

end Handly.Subscriptions
