import Handly.Lib.Interleaving
import Handly.Payments.Tables

/-!
# GuaranteeService

`guarantee.service.ts`: a customer files a claim on a closed order, and an admin decides on it.
Every statement commits by itself. An awaited operation may fail (`Input.fail`): it has no
effect and the call throws.
-/

namespace Handly.Guarantees

open Interleaving

/-- A row of `GuaranteeClaim`; `orderId` is unique. -/
structure GuaranteeClaim where
  orderId : OrderId
  customerId : UserId
  reason : String
  status : GuaranteeClaimStatus := .open_
  decidedBy : Option UserId := none
  decidedAt : Option Time := none
  resolutionNote : Option String := none

structure Db where
  orders : List Order := []
  masters : List MasterProfile := []
  payments : List Payments.Payment := []
  claims : List GuaranteeClaim := []
  notifications : List Notification := []

namespace Db

/-- `guaranteeClaim.create`: the new row's id is its position. -/
@[simps]
def createClaim (db : Db) (row : GuaranteeClaim) : Db := { db with claims := db.claims ++ [row] }

/-- `guaranteeClaim.updateMany` of the row `id`. -/
@[simps]
def updateClaim (db : Db) (id : ClaimId) (data : GuaranteeClaim → GuaranteeClaim) : Db :=
  { db with claims := db.claims.modify id data }

/-- `notification.create` -/
@[simps]
def createNotification (db : Db) (n : Notification) : Db :=
  { db with notifications := db.notifications ++ [n] }

/-- There is a claim for the order. -/
def hasClaim (db : Db) (orderId : OrderId) : Bool := db.claims.any fun c => c.orderId = orderId

/-- The `master` of an order that the query includes. -/
def masterOf (db : Db) (order : Order) : Option MasterProfile :=
  order.masterId.bind fun id => db.masters.find? fun m => m.userId = id

/-- The `payments` of an order that the query includes: those that have SUCCEEDED. -/
def paymentsOf (db : Db) (orderId : OrderId) : List Payments.Payment :=
  db.payments.filter fun p => p.orderId = orderId ∧ p.status = .succeeded

end Db

/-! ### Calls -/

/-- A method call with its arguments. -/
inductive Op
  | fileClaim (customerId : UserId) (orderId : OrderId) (reason : String)
  | decide (claimId : ClaimId) (adminId : UserId) (approve : Bool)
      (resolutionNote : Option String)

/-- Where a call stands between two awaited statements. -/
inductive Pc
  /-- Nothing has run yet. -/
  | start
  /-- `fileClaim`: the order was read and passed the checks. -/
  | eligible
  /-- `fileClaim`: the order has no claim yet. -/
  | vacant
  /-- `decide`: the claim was read and passed the check. -/
  | checked (claim : GuaranteeClaim)
  /-- `decide`: the `updateMany` has matched; the claim is read again. -/
  | decided (claim : GuaranteeClaim)
  /-- `decide`: the customer is notified next. -/
  | notifying (claim : GuaranteeClaim)
  /-- The promise is resolved. -/
  | returned
  /-- The promise is rejected. -/
  | threw (e : ApiError)

/-- A call in flight, or a finished one. -/
structure Call where
  op : Op
  pc : Pc

namespace Call

def isStart (k : Call) : Bool := k.pc matches .start

/-- The call has returned or thrown. -/
def isFinished (k : Call) : Bool :=
  match k.pc with
  | .returned | .threw _ => true
  | _ => false

/-- The call stands at `pc` next. -/
def goto (k : Call) (db : Db) (pc : Pc) : Outcome Db Call := ⟨db, { k with pc }, []⟩

end Call

/-- What the world outside the database supplies to one statement. -/
structure Input where
  now : Time := 0
  /-- The awaited operation fails. -/
  fail : Bool := false

/-! ### Values -/

def alreadyClosed : ApiError := .conflict "Bu soʻrov allaqachon yopilgan"

/-- The row that `fileClaim` inserts. -/
def claimOf (customerId : UserId) (orderId : OrderId) (reason : String) : GuaranteeClaim :=
  { orderId, customerId, reason }

/-- The read and the checks of `fileClaim` on the order. -/
def fileGuard (db : Db) (customerId : UserId) (orderId : OrderId) : Except ApiError Unit :=
  match db.orders[orderId]? with
  | none => .error (.notFound "Buyurtma topilmadi")
  | some order => do
      if order.customerId ≠ customerId then throw (.forbidden "Ruxsat yo'q")
      if order.status ≠ .closed then
        throw (.conflict "Faqat yakunlangan buyurtmalar uchun kafolat talab qilish mumkin")
      if ¬ (db.masterOf order).any fun m => m.verificationStatus = .verified then
        throw (.conflict "Kafolat faqat tasdiqlangan ustalar uchun amal qiladi")
      if db.paymentsOf orderId = [] then
        throw (.conflict "Kafolat uchun to'lov amalga oshirilgan bo'lishi kerak")

/-- The read and the check of `decide`. -/
def decideGuard (db : Db) (claimId : ClaimId) : Except ApiError GuaranteeClaim :=
  match db.claims[claimId]? with
  | none => .error (.notFound "So'rov topilmadi")
  | some claim => do
      if claim.status ≠ .open_ ∧ claim.status ≠ .underReview then throw alreadyClosed
      return claim

/-- The columns that `decide` sets. A note that is left out is not written. -/
def decideData (adminId : UserId) (approve : Bool) (resolutionNote : Option String) (now : Time)
    (row : GuaranteeClaim) : GuaranteeClaim :=
  { row with
    status := if approve then .approved else .rejected
    decidedBy := some adminId, decidedAt := some now
    resolutionNote := resolutionNote <|> row.resolutionNote }

def decidedNotice (claimId : ClaimId) (claim : GuaranteeClaim) (approve : Bool)
    (resolutionNote : Option String) : Notification :=
  { userId := claim.customerId, type := .guaranteeClaimDecided
    title := if approve then "Kafolat so'rovi tasdiqlandi" else "Kafolat so'rovi rad etildi"
    body := resolutionNote.getD "", claimId := some claimId, orderId := some claim.orderId }

/-! ### Steps -/

/-- The next statement of a call that has not finished and does not fail. -/
def proceed (x : Input) (k : Call) (db : Db) : Option (Outcome Db Call) :=
  match k.pc, k.op with
  -- fileClaim
  | .start, .fileClaim customerId orderId _ =>
      match fileGuard db customerId orderId with
      | .error e => some (k.goto db (.threw e))
      | .ok _ => some (k.goto db .eligible)
  | .eligible, .fileClaim _ orderId _ =>
      if db.hasClaim orderId then
        some (k.goto db
          (.threw (.conflict "Bu buyurtma uchun kafolat so'rovi allaqachon mavjud")))
      else some (k.goto db .vacant)
  | .vacant, .fileClaim customerId orderId reason =>
      if db.hasClaim orderId then some (k.goto db (.threw .infrastructure))
      else some (k.goto (db.createClaim (claimOf customerId orderId reason)) .returned)
  -- decide
  | .start, .decide claimId _ _ _ =>
      match decideGuard db claimId with
      | .error e => some (k.goto db (.threw e))
      | .ok claim => some (k.goto db (.checked claim))
  | .checked claim, .decide claimId adminId approve resolutionNote =>
      if db.claims[claimId]?.any fun c => c.status = claim.status then
        some (k.goto (db.updateClaim claimId (decideData adminId approve resolutionNote x.now))
          (.decided claim))
      else some (k.goto db (.threw alreadyClosed))
  | .decided claim, .decide claimId _ _ _ =>
      match db.claims[claimId]? with
      | none => some (k.goto db (.threw .infrastructure))
      | some _ => some (k.goto db (.notifying claim))
  | .notifying claim, .decide claimId _ approve resolutionNote =>
      some (k.goto (db.createNotification (decidedNotice claimId claim approve resolutionNote))
        .returned)
  | _, _ => none

/-- The next awaited statement of a call. -/
def step (_me : ℕ) (x : Input) (k : Call) (db : Db) : Option (Outcome Db Call) :=
  if k.isFinished then none
  else if x.fail then some (k.goto db (.threw .infrastructure))
  else proceed x k db

/-- The machine of the guarantee service. -/
def guarantees : Machine Db Call Input where
  entry := Call.isStart
  step := step

end Handly.Guarantees
