import Handly.Orders.OrderState
import Mathlib.Logic.Function.Basic
import Mathlib.Tactic.Simps.Basic

/-!
# The order and dispatch tables

The rows of `schema.prisma` that the order and dispatch services read or write,
and the single statements they issue. A table is the list of its rows in the
order of creation. An order or a dispatch is never deleted, so its position is
its id.

Two components of `Db` are not tables. `orderLock` records which transaction
holds an order row `FOR UPDATE`. `statusWrites` is a ghost log: every committed
write of `Order.status`, with the value it replaced and the call that made it.
Nothing reads it; properties are stated about it.
-/

namespace Handly

structure User where
  status : UserStatus
  role : Role

structure MasterProfile where
  userId : UserId
  verificationStatus : VerificationStatus
  trustTier : ℕ
  ratingAvg : ℚ
  jobsDone : ℕ
  isOnline : Bool

structure ServiceCategory where
  basePriceMin : ℤ
  basePriceMax : ℤ
  active : Bool

structure MasterSkill where
  masterId : UserId
  categoryId : CategoryId

/-- Latitude and longitude in degrees. -/
abbrev Point := ℚ × ℚ

structure ServiceArea where
  masterId : UserId
  centerPoint : Point
  radiusM : ℕ

/-- A day on which the master is BUSY or BOOKED (`AvailabilityKind` has no other
value). -/
structure AvailabilitySlot where
  masterId : UserId
  day : ℤ

structure MasterSubscription where
  masterId : UserId
  plan : SubscriptionPlan
  status : SubscriptionStatus
  trialEndsAt : Option Time
  currentPeriodEnd : Option Time := none

structure Order where
  customerId : UserId
  categoryId : Option CategoryId
  description : String
  status : OrderStatus := .draft
  serviceTier : ServiceTier := .scheduled
  scheduledAt : Option Time := none
  addressText : Option String := none
  latitude : Option ℚ := none
  longitude : Option ℚ := none
  masterId : Option UserId := none
  complexity : Option Complexity := none
  priceMin : Option ℤ := none
  priceMax : Option ℤ := none
  platformFee : ℤ := 0
  finalAmount : Option ℤ := none
  consentAcceptedAt : Option Time := none
  submittedAt : Option Time := none
  cancelledAt : Option Time := none
  /-- Ghost: the description for which `complexity` was diagnosed. -/
  diagnosedFrom : Option String := none

/-- The generated column `location`: set once both coordinates are. -/
def Order.location (o : Order) : Option Point :=
  match o.latitude, o.longitude with
  | some lat, some lng => some (lat, lng)
  | _, _ => none

structure OrderDispatch where
  orderId : OrderId
  masterId : UserId
  rankInCascade : ℕ
  distanceM : ℤ
  score : ℚ
  status : DispatchStatus := .offered
  countedAsLead : Bool := false
  expiresAt : Time
  respondedAt : Option Time := none

structure OrderStatusHistory where
  orderId : OrderId
  fromStatus : Option OrderStatus
  toStatus : OrderStatus
  actorId : Option UserId
  note : Option String
  createdAt : Time

structure PenaltyRecord where
  masterId : UserId
  eventType : PenaltyEventType
  severity : PenaltySeverity
  points : ℕ
  orderId : Option OrderId
  note : Option String
  createdAt : Time

/-- The keys of the JSON column `data` are fields of their own, `none` when left
out. -/
structure Notification where
  userId : UserId
  type : NotificationType
  title : String
  body : String
  orderId : Option OrderId := none
  dispatchId : Option DispatchId := none
  paymentId : Option PaymentId := none
  customerId : Option UserId := none
  verificationId : Option VerificationId := none
  claimId : Option ClaimId := none

structure Referral where
  referrerId : UserId
  refereeId : UserId
  status : ReferralStatus := .pending
  rewardedAt : Option Time := none

/-- A delayed `offer-expiry` job. -/
structure OfferExpiryJob where
  dispatchId : DispatchId
  runAt : Time

/-- Ghost: one committed write of `Order.status`. -/
structure StatusWrite where
  /-- Index of the call whose statement wrote. -/
  author : ℕ
  orderId : OrderId
  /-- The status that the write replaced. -/
  replaced : OrderStatus
  written : OrderStatus
  /-- The order's `masterId` after the write. -/
  masterId : Option UserId
  deriving DecidableEq

structure Db where
  users : List User := []
  masters : List MasterProfile := []
  categories : List ServiceCategory := []
  skills : List MasterSkill := []
  serviceAreas : List ServiceArea := []
  availability : List AvailabilitySlot := []
  subscriptions : List MasterSubscription := []
  orders : List Order := []
  dispatches : List OrderDispatch := []
  history : List OrderStatusHistory := []
  penalties : List PenaltyRecord := []
  notifications : List Notification := []
  queue : List OfferExpiryJob := []
  /-- The transaction that holds an order row `FOR UPDATE`. -/
  orderLock : OrderId → Option ℕ := fun _ => none
  /-- Ghost: the committed writes of `Order.status`, oldest first. -/
  statusWrites : List StatusWrite := []

namespace Db

/-! ### Statements on orders -/

/-- The status of an order. -/
def statusOf (db : Db) (id : OrderId) : Option OrderStatus := db.orders[id]?.map Order.status

/-- `order.update` of columns other than `status`. -/
@[simps orders dispatches history statusWrites orderLock masters]
def updateOrder (db : Db) (id : OrderId) (data : Order → Order) : Db :=
  { db with orders := db.orders.modify id fun row => { data row with status := row.status } }

/-- A write of `Order.status`, together with the other columns in `data`. -/
@[simps orders dispatches history statusWrites orderLock masters]
def setStatus (db : Db) (author : ℕ) (id : OrderId) (status : OrderStatus)
    (data : Order → Order) : Db :=
  { db with
    orders := db.orders.modify id fun row => { data row with status }
    statusWrites := db.statusWrites ++ db.orders[id]?.toList.map fun row =>
      { author, orderId := id, replaced := row.status, written := status,
        masterId := (data row).masterId } }

/-- `order.create`: the new row's id is its position. -/
@[simps orders dispatches history statusWrites orderLock masters]
def createOrder (db : Db) (row : Order) : Db := { db with orders := db.orders ++ [row] }

/-- `orderStatusHistory.create` -/
@[simps orders dispatches history statusWrites orderLock masters]
def createHistory (db : Db) (row : OrderStatusHistory) : Db :=
  { db with history := db.history ++ [row] }

/-! ### Statements on dispatches -/

/-- `orderDispatch.create`: the new row's id is its position. -/
@[simps orders dispatches history statusWrites orderLock masters]
def createDispatch (db : Db) (row : OrderDispatch) : Db :=
  { db with dispatches := db.dispatches ++ [row] }

/-- `orderDispatch.update` of one row by id. -/
@[simps orders dispatches history statusWrites orderLock masters]
def updateDispatch (db : Db) (id : DispatchId) (data : OrderDispatch → OrderDispatch) : Db :=
  { db with dispatches := db.dispatches.modify id data }

/-- The `updateMany` of `acceptOffer`: every other OFFERED dispatch of the order
becomes WITHDRAWN. -/
@[simps orders dispatches history statusWrites orderLock masters]
def withdrawOthers (db : Db) (orderId : OrderId) (except : DispatchId) (now : Time) : Db :=
  { db with
    dispatches := db.dispatches.mapIdx fun id row =>
      if row.orderId = orderId ∧ row.status = .offered ∧ id ≠ except then
        { row with status := .withdrawn, respondedAt := some now }
      else row }

/-- `orderDispatch.count({ where: { orderId } })` -/
def countDispatches (db : Db) (orderId : OrderId) : ℕ :=
  db.dispatches.countP fun d => d.orderId = orderId

/-! ### Other statements -/

/-- `masterProfile.findUnique` -/
def findMaster (db : Db) (id : UserId) : Option MasterProfile :=
  db.masters.find? fun m => m.userId = id

/-- `masterProfile.update` of one row by `userId`. -/
@[simps orders dispatches history statusWrites orderLock masters]
def updateMaster (db : Db) (id : UserId) (data : MasterProfile → MasterProfile) : Db :=
  { db with masters := db.masters.map fun m => if m.userId = id then data m else m }

/-- `penaltyRecord.create` -/
@[simps orders dispatches history statusWrites orderLock masters]
def createPenalty (db : Db) (p : PenaltyRecord) : Db := { db with penalties := db.penalties ++ [p] }

/-- `notification.create` -/
@[simps orders dispatches history statusWrites orderLock masters]
def createNotification (db : Db) (n : Notification) : Db :=
  { db with notifications := db.notifications ++ [n] }

/-- `queue.add` -/
@[simps orders dispatches history statusWrites orderLock masters]
def enqueue (db : Db) (job : OfferExpiryJob) : Db := { db with queue := db.queue ++ [job] }

/-- `SELECT id FROM orders WHERE id = … FOR UPDATE` by the transaction `me`. -/
@[simps orders dispatches history statusWrites orderLock masters]
def lockOrder (db : Db) (id : OrderId) (me : ℕ) : Db :=
  { db with orderLock := Function.update db.orderLock id (some me) }

/-- A transaction ends: the row locks it holds are released. -/
@[simps orders dispatches history statusWrites orderLock masters]
def unlock (db : Db) (me : ℕ) : Db :=
  { db with orderLock := fun id => if db.orderLock id = some me then none else db.orderLock id }

theorem statusOf_eq_some {db : Db} {id : OrderId} {s : OrderStatus} :
    db.statusOf id = some s ↔ ∃ row, db.orders[id]? = some row ∧ row.status = s := by
  simp [statusOf]

end Db

end Handly
