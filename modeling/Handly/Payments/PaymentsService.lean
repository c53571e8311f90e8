import Handly.Lib.Interleaving
import Handly.Payments.Tables

/-!
# PaymentsService

`payments.service.ts` with the two services that `settle` awaits: the withholding of
`mock-tax.provider.ts` and `rewardOnFirstPayment` of `referrals.service.ts`.

The transaction of `initiate` is several steps, because it reads between taking the
lock of the order row and inserting. Every other statement is one step. What the
payment rail answers is an input of the step that asks it. An awaited operation may
fail (`Input.fail`): it has no effect, an open transaction is rolled back, and the
call throws.
-/

namespace Handly.Payments

open Interleaving

/-- `ACTIVE_PAYMENT_STATUSES` -/
def activePaymentStatuses : List PaymentStatus := [.pending, .processing, .succeeded]

/-- `REFERRAL_REWARD_AMOUNT` -/
def referralRewardAmount : ℤ := 20000

/-- The environment variable of `env.ts` that the tax provider reads. -/
structure Env where
  taxWithholdingRate : ℚ := 1 / 100

/-- `ChargeResult` -/
structure ChargeResult where
  success : Bool
  providerRef : String
  failureReason : Option String := none

/-! ### Calls -/

/-- A method call with its arguments. -/
inductive Op
  | initiate (customerId : UserId) (orderId : OrderId) (method : PaymentMethod)
  | handleWebhook (providerRef : String) (success : Bool) (failureReason : Option String)
  | resolve (paymentId : PaymentId) (adminId : UserId) (refund : Bool) (note : String)
  | rewardOnFirstPayment (refereeId : UserId)

/-- Where a call stands between two awaited statements. -/
inductive Pc
  /-- Nothing has run yet. -/
  | start
  /-- `initiate`: the order was read and passed the checks. -/
  | checked (order : Order)
  /-- `initiate`: the transaction holds the order row. -/
  | locked (order : Order)
  /-- `initiate`: the transaction found no active payment of the order. -/
  | vacant (order : Order)
  /-- `initiate`: the payment is committed; the provider is charged next. -/
  | created (paymentId : PaymentId) (payment : Payment)
  /-- `settle` is entered; the payment is updated next. -/
  | settling (paymentId : PaymentId) (payment : Payment) (result : ChargeResult)
  /-- `settle`: the payment succeeded; its order is read next. -/
  | succeeded (paymentId : PaymentId) (payment : Payment)
  | recording (paymentId : PaymentId) (payment : Payment) (order : Order)
  | notifySucceeded (paymentId : PaymentId) (payment : Payment)
  /-- `rewardOnFirstPayment` is entered. -/
  | reward (refereeId : UserId)
  | rewarding (referralId : ReferralId) (referral : Referral)
  | crediting (referralId : ReferralId) (referral : Referral)
  | notifyReferrer (referral : Referral)
  /-- `settle`: the payment failed; the customer is notified next. -/
  | notifyFailed (paymentId : PaymentId) (payment : Payment)
  /-- `resolve`: the payment was read and passed the checks. -/
  | resolving (payment : Payment)
  /-- `resolve`: the guarded update matched; the row is read again. -/
  | resolved (payment : Payment)
  | notifyResolved (payment : Payment)
  /-- The promise is resolved. -/
  | returned
  /-- The promise is rejected. -/
  | threw (e : ApiError)

/-- A call in flight, or a finished one. -/
structure Call where
  op : Op
  pc : Pc

namespace Call

def isStart (k : Call) : Bool := k.pc matches .start

/-- The call has returned or thrown. -/
def isFinished (k : Call) : Bool :=
  match k.pc with
  | .returned | .threw _ => true
  | _ => false

/-- The call stands at `pc` next. -/
def goto (k : Call) (db : Db) (pc : Pc) : Outcome Db Call := ⟨db, { k with pc }, []⟩

end Call

/-- What the world outside the database supplies to one statement. -/
structure Input where
  now : Time := 0
  /-- The answer of the payment provider. -/
  charge : ChargeResult := { success := true, providerRef := "" }
  /-- The reference that the tax provider returns. -/
  reference : String := ""
  /-- The awaited operation fails. -/
  fail : Bool := false

/-! ### Checks -/

/-- The read and the checks of `initiate` before its transaction. -/
def initiateGuard (db : Db) (customerId : UserId) (orderId : OrderId) : Except ApiError Order :=
  match db.orders[orderId]? with
  | none => .error (.notFound "Buyurtma topilmadi")
  | some order => do
      if order.customerId ≠ customerId then throw (.forbidden "Ruxsat yo'q")
      if order.status ≠ .completed ∧ order.status ≠ .closed then
        throw (.conflict "Bu buyurtma uchun hali to'lov qilib bo'lmaydi")
      if order.finalAmount = none then
        throw (.conflict "Buyurtma uchun yakuniy narx belgilanmagan")
      return order

/-- The `findFirst` of the locked transaction finds a payment. -/
def hasActivePayment (db : Db) (orderId : OrderId) : Bool :=
  db.payments.any fun p => p.orderId = orderId ∧ p.status ∈ activePaymentStatuses

/-- The read and the checks of `resolve`. -/
def resolveGuard (db : Db) (paymentId : PaymentId) (refund : Bool) : Except ApiError Payment :=
  match db.payments[paymentId]? with
  | none => .error (.notFound "To'lov topilmadi")
  | some payment => do
      if payment.resolvedAt.isSome then throw (.conflict "Bu to'lov allaqachon hal qilingan")
      if refund ∧ payment.status ≠ .succeeded then
        throw (.conflict "Faqat muvaffaqiyatli to'lovni qaytarish mumkin")
      return payment

/-! ### Writes -/

/-- `computeWithholding` -/
def computeWithholding (env : Env) (grossAmount : ℤ) : TaxWithholding :=
  let taxAmount := mathRound (grossAmount * env.taxWithholdingRate)
  { rate := env.taxWithholdingRate, taxAmount, netAmount := grossAmount - taxAmount, grossAmount }

/-- The row that `initiate` inserts. Its check has excluded a `finalAmount` of
`null`. -/
def paymentOf (env : Env) (me : ℕ) (customerId : UserId) (orderId : OrderId)
    (method : PaymentMethod) (order : Order) : Payment :=
  let amount := order.finalAmount.getD 0
  let withholding := computeWithholding env (amount - order.platformFee)
  { orderId, customerId, method, status := .processing, amount, platformFee := order.platformFee,
    taxRate := withholding.rate, taxAmount := withholding.taxAmount,
    masterNetAmount := withholding.netAmount, createdBy := me }

/-- The columns that `settle` sets. -/
def settleData (result : ChargeResult) (now : Time) (row : Payment) : Payment :=
  if result.success then
    { row with
      status := .succeeded, providerRef := some result.providerRef, succeededAt := some now }
  else
    { row with
      status := .failed, providerRef := some result.providerRef
      failureReason := result.failureReason <|> row.failureReason, failedAt := some now }

/-- The columns that `resolve` sets. -/
def resolveData (adminId : UserId) (refund : Bool) (note : String) (now : Time) (row : Payment) :
    Payment :=
  { row with
    status := if refund then .refunded else row.status
    resolutionNote := some note, resolvedByAdminId := some adminId, resolvedAt := some now }

/-- What `settle` tells the tax provider. -/
def withholdingOf (paymentId : PaymentId) (payment : Payment) (order : Order) (reference : String) :
    RecordedWithholding :=
  { userId := order.masterId, paymentId, reference
    withholding :=
      { rate := payment.taxRate, taxAmount := payment.taxAmount
        netAmount := payment.masterNetAmount
        grossAmount := payment.amount - payment.platformFee } }

def cashbackOf (referralId : ReferralId) (referral : Referral) : CashbackRecord :=
  { userId := referral.referrerId, amount := referralRewardAmount, sourceType := .referralReward
    status := .eligible, referralId := some referralId, note := some "Referal mukofoti" }

/-! ### Notifications -/

def succeededNotice (paymentId : PaymentId) (payment : Payment) : Notification :=
  { userId := payment.customerId, type := .paymentSucceeded, title := "To'lov muvaffaqiyatli"
    body := "To'lovingiz qabul qilindi. Rahmat!"
    orderId := some payment.orderId, paymentId := some paymentId }

def failedNotice (paymentId : PaymentId) (payment : Payment) : Notification :=
  { userId := payment.customerId, type := .paymentFailed, title := "To'lov amalga oshmadi"
    body := "To'lovni qayta urinib ko'ring."
    orderId := some payment.orderId, paymentId := some paymentId }

def rewardNotice (referral : Referral) : Notification :=
  { userId := referral.referrerId, type := .referralRewarded, title := "Referal mukofoti"
    body := "Do'stingiz birinchi to'lovni amalga oshirdi — sizga cashback berildi!"
    customerId := some referral.refereeId }

def resolvedNotice (paymentId : PaymentId) (payment : Payment) (refund : Bool) (note : String) :
    Notification :=
  { userId := payment.customerId, type := .paymentResolved
    title := if refund then "To'lovingiz qaytarildi" else "To'lov masalasi ko'rib chiqildi"
    body := note, orderId := some payment.orderId, paymentId := some paymentId }

/-! ### Steps -/

/-- The read of `rewardOnFirstPayment`. -/
def enterReward (k : Call) (me : ℕ) (db : Db) (refereeId : UserId) : Outcome Db Call :=
  match db.findReferral refereeId with
  | none => k.goto (db.rewardReturned me refereeId) .returned
  | some (referralId, referral) =>
      if referral.status ≠ .active then k.goto (db.rewardReturned me refereeId) .returned
      else k.goto db (.rewarding referralId referral)

/-- The first statement of a call. -/
def begin (k : Call) (me : ℕ) (db : Db) : Outcome Db Call :=
  match k.op with
  | .initiate customerId orderId _ =>
      match initiateGuard db customerId orderId with
      | .error e => k.goto db (.threw e)
      | .ok order => k.goto db (.checked order)
  | .handleWebhook providerRef success failureReason =>
      match db.findByProviderRef providerRef with
      | none => k.goto db .returned
      | some (paymentId, payment) =>
          if payment.status ≠ .processing then k.goto db .returned
          else k.goto db (.settling paymentId payment { success, providerRef, failureReason })
  | .resolve paymentId _ refund _ =>
      match resolveGuard db paymentId refund with
      | .error e => k.goto db (.threw e)
      | .ok payment => k.goto db (.resolving payment)
  | .rewardOnFirstPayment refereeId => enterReward k me db refereeId

/-- The `payment.update` of `settle`. It is conditioned on the id alone. -/
def settle (k : Call) (x : Input) (db : Db) (paymentId : PaymentId) (payment : Payment)
    (result : ChargeResult) : Outcome Db Call :=
  if db.payments[paymentId]?.isNone ∨ db.providerRefTaken paymentId result.providerRef then
    k.goto db (.threw .infrastructure)
  else
    k.goto (db.updatePayment paymentId (settleData result x.now))
      (if result.success then .succeeded paymentId payment else .notifyFailed paymentId payment)

/-- The next statement of a call that has not finished and does not fail. -/
def proceed (env : Env) (me : ℕ) (x : Input) (k : Call) (db : Db) : Option (Outcome Db Call) :=
  match k.pc, k.op with
  | .start, _ => some (begin k me db)
  -- initiate
  | .checked order, .initiate _ orderId _ =>
      if (db.orderLock orderId).isSome then none
      else some (k.goto (db.lockOrder orderId me) (.locked order))
  | .locked order, .initiate _ orderId _ =>
      if hasActivePayment db orderId then
        some (k.goto (db.unlock me)
          (.threw (.conflict "Bu buyurtma uchun to'lov allaqachon mavjud")))
      else some (k.goto db (.vacant order))
  | .vacant order, .initiate customerId orderId method =>
      let payment := paymentOf env me customerId orderId method order
      some (k.goto ((db.createPayment payment).unlock me) (.created db.payments.length payment))
  | .created paymentId payment, _ => some (k.goto db (.settling paymentId payment x.charge))
  -- settle
  | .settling paymentId payment result, _ => some (settle k x db paymentId payment result)
  | .succeeded paymentId payment, _ =>
      match db.orders[payment.orderId]? with
      | none => some (k.goto db (.threw .infrastructure))
      | some order => some (k.goto db (.recording paymentId payment order))
  | .recording paymentId payment order, _ =>
      some (k.goto (db.recordWithholding (withholdingOf paymentId payment order x.reference))
        (.notifySucceeded paymentId payment))
  | .notifySucceeded paymentId payment, _ =>
      some (k.goto (db.createNotification (succeededNotice paymentId payment))
        (.reward payment.customerId))
  | .notifyFailed paymentId payment, _ =>
      some (k.goto (db.createNotification (failedNotice paymentId payment)) .returned)
  -- rewardOnFirstPayment
  | .reward refereeId, _ => some (enterReward k me db refereeId)
  | .rewarding referralId referral, _ =>
      if db.referrals[referralId]?.any fun r => r.status = .active then
        some (k.goto
          (db.updateReferral referralId fun r =>
            { r with status := .rewarded, rewardedAt := some x.now })
          (.crediting referralId referral))
      else some (k.goto (db.rewardReturned me referral.refereeId) .returned)
  | .crediting referralId referral, op =>
      some (k.goto
        ((db.createCashback (cashbackOf referralId referral)).rewardReturned me referral.refereeId)
        (if op matches .rewardOnFirstPayment _ then .returned else .notifyReferrer referral))
  | .notifyReferrer referral, _ =>
      some (k.goto (db.createNotification (rewardNotice referral)) .returned)
  -- resolve
  | .resolving payment, .resolve paymentId adminId refund note =>
      if db.payments[paymentId]?.any fun p => p.resolvedAt.isNone then
        some (k.goto (db.updatePayment paymentId (resolveData adminId refund note x.now))
          (.resolved payment))
      else some (k.goto db (.threw (.conflict "Bu to'lov allaqachon hal qilingan")))
  | .resolved payment, .resolve paymentId _ _ _ =>
      match db.payments[paymentId]? with
      | none => some (k.goto db (.threw .infrastructure))
      | some _ => some (k.goto db (.notifyResolved payment))
  | .notifyResolved payment, .resolve paymentId _ refund note =>
      some (k.goto (db.createNotification (resolvedNotice paymentId payment refund note)) .returned)
  | _, _ => none

/-- The next awaited statement of a call. -/
def step (env : Env) (me : ℕ) (x : Input) (k : Call) (db : Db) : Option (Outcome Db Call) :=
  if k.isFinished then none
  else if x.fail then some (k.goto (db.unlock me) (.threw .infrastructure))
  else proceed env me x k db

/-- The machine of the payment service. -/
def payments (env : Env) : Machine Db Call Input where
  entry := Call.isStart
  step := step env

end Handly.Payments
