import Handly.Dispatch.Eligibility
import Handly.Orders.Pricing

/-!
# Calls and their local states

A service call is an `Op` (the method and its arguments, which stay the same
while it runs) together with a `Pc`: the point between two awaited statements at
which it stands, and the local variables that are still live there.

The constructors of `Pc` follow the `await`s of `orders.service.ts` and
`dispatch.service.ts`. Socket emits and push deliveries are not awaited and
touch no table, so no `Pc` stands for them.
-/

namespace Handly

/-- `OrderCreateInput` -/
structure OrderCreateInput where
  categoryId : Option CategoryId
  description : String

/-- `OrderUpdateInput`: a field is `none` when the request leaves it out.
`scheduledAt` may also be given as `null`. -/
structure OrderUpdateInput where
  categoryId : Option CategoryId := none
  description : Option String := none
  serviceTier : Option ServiceTier := none
  scheduledAt : Option (Option Time) := none
  addressText : Option String := none
  latitude : Option ℚ := none
  longitude : Option ℚ := none

/-- The part of the AI's answer that is stored in columns of its own. -/
structure Diagnosis where
  suggestedCategoryId : Option CategoryId
  complexity : Complexity
  source : String

/-- `attempt: 1 | 2` of `cascadeNext`. -/
inductive Attempt
  | one | two
  deriving DecidableEq

/-- The calls that move a submitted order along under a guarded update. -/
inductive Lifecycle
  | cancel (customerId : UserId) (orderId : OrderId)
  | startEnRoute (masterId : UserId) (orderId : OrderId)
  | startService (masterId : UserId) (orderId : OrderId)
  | completeService (masterId : UserId) (orderId : OrderId) (finalAmount : ℤ)
  | confirmCompletion (customerId : UserId) (orderId : OrderId)
  | cancelByMaster (masterId : UserId) (orderId : OrderId) (reason : Option String)

/-- A method call of `OrdersService` or `DispatchService` with its arguments. -/
inductive Op
  | createDraft (customerId : UserId) (dto : OrderCreateInput)
  | updateDraft (customerId : UserId) (orderId : OrderId) (dto : OrderUpdateInput)
  | diagnose (customerId : UserId) (orderId : OrderId)
  | submit (customerId : UserId) (orderId : OrderId)
  | lifecycle (l : Lifecycle)
  | acceptOffer (dispatchId : DispatchId) (masterId : UserId)
  | declineOffer (dispatchId : DispatchId) (masterId : UserId)
  | handleOfferExpiry (dispatchId : DispatchId)
  | startDispatch (orderId : OrderId)
  | cascadeNext (orderId : OrderId) (attempt : Attempt)
  | failSearch (orderId : OrderId) (reason : String)

/-- An awaited write that follows the statement which made a call take effect. -/
inductive Followup
  /-- `notifications.notify` -/
  | notify (n : Notification)
  /-- The `penaltyRecord.create` of `recordEvent`. -/
  | createPenalty (masterId : UserId) (eventType : PenaltyEventType) (orderId : OrderId)
      (note : Option String)
  /-- `trust.recomputeTrustTier` -/
  | recomputeTrustTier (masterId : UserId)
  /-- `toOfferDto`, which only reads. -/
  | toOfferDto (dispatchId : DispatchId)

/-- Where a call stands between two awaited statements. -/
inductive Pc
  /-- Nothing has run yet. -/
  | start
  /-- The order was read and passed the guards; its write is next. -/
  | guarded (order : Order)
  /-- `diagnose`: the categories were read; the AI is asked. -/
  | diagnosing (order : Order) (categories : List ServiceCategory)
  /-- `diagnose`: the quote is computed; the write is next. -/
  | quoted (order : Order) (diagnosis : Diagnosis) (categoryId : CategoryId) (quote : Quote)
  /-- `acceptOffer`, `declineOffer`: the caller's own dispatch was read. -/
  | ownOffer (dispatch : OrderDispatch)
  /-- `acceptOffer`: the transaction holds the order row. -/
  | locked (dispatch : OrderDispatch)
  /-- `acceptOffer`: the locked order was read. -/
  | lockedOrder (dispatch : OrderDispatch) (order : Order)
  /-- `acceptOffer`: the fresh dispatch and the order passed the checks. -/
  | accepting (dispatch : OrderDispatch) (order : Order)
  /-- `handleOfferExpiry`: the dispatch was claimed; `full` is read next. The
  order of the claimed row is kept as a ghost. -/
  | claimed (orderId : OrderId)
  /-- Awaited writes after the effect, then `cascadeNext(next, 1)` if given. -/
  | after (todo : List Followup) (next : Option OrderId)
  /-- `cascadeNext` is entered. -/
  | cascade (orderId : OrderId) (attempt : Attempt)
  | cascadeCount (orderId : OrderId) (attempt : Attempt) (order : Order) (categoryId : CategoryId)
  | cascadeQuery (orderId : OrderId) (attempt : Attempt) (order : Order) (categoryId : CategoryId)
      (rankSoFar : ℕ)
  | cascadeCreate (orderId : OrderId) (attempt : Attempt) (order : Order) (rankSoFar : ℕ)
      (picked : EligibleCandidate)
  | cascadeEnqueue (orderId : OrderId) (order : Order) (picked : EligibleCandidate)
      (dispatchId : DispatchId)
  /-- `failSearch` is entered. -/
  | failSearch (orderId : OrderId) (reason : String)
  | failSearchWrite (orderId : OrderId) (reason : String) (order : Order)
  | failSearchHistory (orderId : OrderId) (reason : String) (order : Order)
  /-- The promise is resolved. -/
  | returned
  /-- The promise is rejected. -/
  | threw (e : ApiError)

/-- A call in flight, or a finished one. -/
structure Call where
  op : Op
  pc : Pc

namespace Call

/-- The environment may start this call: nothing of it has run yet. -/
def isStart (k : Call) : Bool := k.pc matches .start

/-- The call has returned. -/
def isReturned (k : Call) : Bool := k.pc matches .returned

/-- The call has returned or thrown. -/
def Finished (k : Call) : Prop :=
  match k.pc with
  | .returned | .threw _ => True
  | _ => False

instance : DecidablePred Finished := fun k =>
  decidable_of_bool (k.pc matches .returned | .threw _) (by unfold Finished; split <;> simp)

end Call

/-- What the world outside the database supplies to one statement. -/
structure Input where
  /-- `Date.now()` -/
  now : Time := 0
  /-- `Math.random()` -/
  random : ℚ := 0
  /-- The answer of the AI provider. -/
  diagnosis : Diagnosis := { suggestedCategoryId := none, complexity := .simple, source := "mock" }
  /-- The awaited operation fails: its statement or transaction has no effect. -/
  fail : Bool := false

end Handly
