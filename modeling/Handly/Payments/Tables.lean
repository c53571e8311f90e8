import Handly.Lib.Table
import Handly.Schema

/-!
# The payment tables

The rows of `schema.prisma` that settling a payment reads or writes: payments, the
referrals they reward and the cashback ledger. `withholdings` is what the tax
provider has been told, outside the database.

A payment is created by `initiate` alone. Its row keeps the index of the creating
call as a ghost, which says who may still settle it. `rewardReturns` is a ghost too.
-/

namespace Handly.Payments

structure Payment where
  orderId : OrderId
  customerId : UserId
  method : PaymentMethod
  status : PaymentStatus := .pending
  amount : ℤ
  platformFee : ℤ
  taxRate : ℚ
  taxAmount : ℤ
  masterNetAmount : ℤ
  taxWithholdingRef : Option String := none
  /-- The provider's own transaction id, `@unique`. -/
  providerRef : Option String := none
  failureReason : Option String := none
  resolutionNote : Option String := none
  resolvedByAdminId : Option UserId := none
  resolvedAt : Option Time := none
  succeededAt : Option Time := none
  failedAt : Option Time := none
  /-- Ghost: the call that created the row. -/
  createdBy : ℕ
  deriving DecidableEq

structure CashbackRecord where
  userId : UserId
  amount : ℤ
  sourceType : CashbackSourceType
  status : CashbackStatus := .eligible
  referralId : Option ReferralId
  note : Option String

/-- `TaxWithholding` -/
structure TaxWithholding where
  rate : ℚ
  taxAmount : ℤ
  netAmount : ℤ
  grossAmount : ℤ

/-- One call of `recordWithholding`, with the reference it returned. -/
structure RecordedWithholding where
  userId : Option UserId
  paymentId : PaymentId
  withholding : TaxWithholding
  reference : String

structure Db where
  orders : List Order := []
  payments : List Payment := []
  referrals : List Referral := []
  cashbackRecords : List CashbackRecord := []
  notifications : List Notification := []
  withholdings : List RecordedWithholding := []
  /-- The transaction that holds an order row `FOR UPDATE`. -/
  orderLock : OrderId → Option ℕ := fun _ => none
  /-- Ghost: the calls in which `rewardOnFirstPayment` has returned, each with its
  referee. -/
  rewardReturns : List (ℕ × UserId) := []

namespace Db

/-- `SELECT id FROM orders WHERE id = … FOR UPDATE` by the transaction `me`. -/
@[simps orders payments withholdings notifications orderLock rewardReturns]
def lockOrder (db : Db) (id : OrderId) (me : ℕ) : Db :=
  { db with orderLock := Function.update db.orderLock id (some me) }

/-- A transaction ends: the row locks it holds are released. -/
@[simps orders payments withholdings notifications orderLock rewardReturns]
def unlock (db : Db) (me : ℕ) : Db :=
  { db with orderLock := fun id => if db.orderLock id = some me then none else db.orderLock id }

/-- `payment.create`: the new row's id is its position. -/
@[simps orders payments withholdings notifications orderLock rewardReturns]
def createPayment (db : Db) (row : Payment) : Db := { db with payments := db.payments ++ [row] }

/-- `payment.update` of one row by id. -/
@[simps orders payments withholdings notifications orderLock rewardReturns]
def updatePayment (db : Db) (id : PaymentId) (data : Payment → Payment) : Db :=
  { db with payments := db.payments.modify id data }

/-- `referral.update` of one row by id. -/
@[simps orders payments withholdings notifications orderLock rewardReturns]
def updateReferral (db : Db) (id : ReferralId) (data : Referral → Referral) : Db :=
  { db with referrals := db.referrals.modify id data }

/-- `cashbackRecord.create` -/
@[simps orders payments withholdings notifications orderLock rewardReturns]
def createCashback (db : Db) (row : CashbackRecord) : Db :=
  { db with cashbackRecords := db.cashbackRecords ++ [row] }

/-- `notification.create` -/
@[simps orders payments withholdings notifications orderLock rewardReturns]
def createNotification (db : Db) (n : Notification) : Db :=
  { db with notifications := db.notifications ++ [n] }

/-- `tax.recordWithholding` -/
@[simps orders payments withholdings notifications orderLock rewardReturns]
def recordWithholding (db : Db) (w : RecordedWithholding) : Db :=
  { db with withholdings := db.withholdings ++ [w] }

/-- Ghost: `rewardOnFirstPayment` returns in the call `me`. -/
@[simps orders payments withholdings notifications orderLock rewardReturns]
def rewardReturned (db : Db) (me : ℕ) (refereeId : UserId) : Db :=
  { db with rewardReturns := db.rewardReturns ++ [(me, refereeId)] }

/-- `payment.findFirst({ where: { providerRef } })`, with the row's id. -/
def findByProviderRef (db : Db) (providerRef : String) : Option (PaymentId × Payment) :=
  Table.findRow (fun p => p.providerRef = some providerRef) db.payments

/-- The unique index on `providerRef` refuses this reference for the row `id`. -/
def providerRefTaken (db : Db) (id : PaymentId) (providerRef : String) : Bool :=
  (db.payments.eraseIdx id).any fun p => p.providerRef = some providerRef

/-- `referral.findUnique({ where: { refereeId } })`, with the row's id. -/
def findReferral (db : Db) (refereeId : UserId) : Option (ReferralId × Referral) :=
  Table.findRow (fun r => r.refereeId = refereeId) db.referrals

end Db

end Handly.Payments
