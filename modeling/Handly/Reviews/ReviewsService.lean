import Handly.Lib.Interleaving
import Handly.Trust

/-!
# ReviewsService

`create` of `reviews.service.ts`: a customer rates a CLOSED order.

The transaction inserts the review, aggregates the ratings of the master and writes their
average, at READ COMMITTED: the aggregate sees what is committed and the transaction's own row.
What a transaction has written stays in the local state of its call until the commit, the tables
hold what is committed. The insert waits for another one of the same order, the update for the
row of the profile. A failed operation rolls the transaction back.
-/

namespace Handly.Reviews

open Interleaving

structure Review where
  orderId : OrderId
  customerId : UserId
  masterId : UserId
  rating : ℕ
  comment : Option String

structure Db extends Handly.Db where
  reviews : List Review := []
  /-- The transaction that has inserted a review of the order. -/
  reviewLock : OrderId → Option ℕ := fun _ => none
  /-- The transaction that holds a profile row. -/
  profileLock : UserId → Option ℕ := fun _ => none

namespace Db

/-- `review.findUnique({ where: { orderId } })` -/
def hasReview (db : Db) (orderId : OrderId) : Bool := db.reviews.any fun r => r.orderId = orderId

/-- The committed ratings of a master. -/
def ratingsOf (db : Db) (masterId : UserId) : List ℕ :=
  (db.reviews.filter fun r => r.masterId = masterId).map Review.rating

/-- The transaction `me` inserts a review of the order. -/
@[simps toDb reviews reviewLock profileLock]
def lockReview (db : Db) (id : OrderId) (me : ℕ) : Db :=
  { db with reviewLock := Function.update db.reviewLock id (some me) }

/-- The transaction `me` locks the profile row. -/
@[simps toDb reviews reviewLock profileLock]
def lockProfile (db : Db) (id : UserId) (me : ℕ) : Db :=
  { db with profileLock := Function.update db.profileLock id (some me) }

/-- A transaction ends: the locks it holds are released. -/
@[simps toDb reviews reviewLock profileLock]
def unlock (db : Db) (me : ℕ) : Db :=
  { db with
    reviewLock := fun id => if db.reviewLock id = some me then none else db.reviewLock id
    profileLock := fun id => if db.profileLock id = some me then none else db.profileLock id }

end Db

/-! ### Calls -/

/-- A call of `create` with its arguments. -/
structure Op where
  customerId : UserId
  orderId : OrderId
  rating : ℕ
  comment : Option String := none

/-- Where a call stands between two awaited operations. -/
inductive Pc
  /-- Nothing has run yet. -/
  | start
  /-- The order was read and passed the checks. -/
  | checked (masterId : UserId)
  /-- There is no review of the order; the transaction is opened next. -/
  | vacant (masterId : UserId)
  /-- The transaction has inserted the review. -/
  | inserted (masterId : UserId)
  /-- The transaction has aggregated the ratings. -/
  | aggregated (masterId : UserId) (ratingAvg : ℚ)
  /-- The transaction has updated the profile; it commits next. -/
  | updated (masterId : UserId) (ratingAvg : ℚ)
  /-- The awaited writes after the transaction. -/
  | after (todo : List Followup)
  /-- The promise is resolved. -/
  | returned
  /-- The promise is rejected. -/
  | threw (e : ApiError)

/-- A call in flight, or a finished one. -/
structure Call where
  op : Op
  pc : Pc

namespace Call

def isStart (k : Call) : Bool := k.pc matches .start

/-- The call has returned or thrown. -/
def isFinished (k : Call) : Bool :=
  match k.pc with
  | .returned | .threw _ => true
  | _ => false

/-- The call stands at `pc` next. -/
def goto (k : Call) (db : Db) (pc : Pc) : Outcome Db Call := ⟨db, { k with pc }, []⟩

end Call

/-- What the world outside the database supplies to one statement. -/
structure Input where
  now : Time := 0
  /-- The awaited operation fails, and its transaction is rolled back. -/
  fail : Bool := false

/-! ### Values -/

/-- `COMPLAINT_RATING_THRESHOLD` -/
def complaintRatingThreshold : ℕ := 2

/-- The read of the order and its checks: the master to be rated. -/
def createGuard (db : Db) (op : Op) : Except ApiError UserId :=
  match db.orders[op.orderId]? with
  | none => .error (.notFound "Buyurtma topilmadi")
  | some order => do
      if order.customerId ≠ op.customerId then throw (.forbidden "Ruxsat yo'q")
      if order.status ≠ .closed then
        throw (.conflict "Faqat yakunlangan buyurtmalarga baho qo'yish mumkin")
      match order.masterId with
      | none => throw (.conflict "Buyurtmaga usta tayinlanmagan")
      | some masterId => return masterId

/-- The row that the transaction inserts. -/
def reviewOf (op : Op) (masterId : UserId) : Review :=
  { orderId := op.orderId, customerId := op.customerId, masterId, rating := op.rating
    comment := op.comment }

/-- `_avg` of the aggregate: `null` over no rows. -/
def average (ratings : List ℕ) : Option ℚ :=
  if ratings.isEmpty then none else some ((ratings.sum : ℚ) / ratings.length)

/-- A number in a column `Decimal(3, 2)`: rounded to two decimals. -/
def toDecimal (q : ℚ) : ℚ := (mathRound (q * 100) : ℚ) / 100

/-- The writes of the transaction, at its commit. -/
def commitReview (db : Db) (me : ℕ) (op : Op) (masterId : UserId) (ratingAvg : ℚ) : Db :=
  { db with
    toDb := db.updateMaster masterId fun m => { m with ratingAvg := toDecimal ratingAvg }
    reviews := db.reviews ++ [reviewOf op masterId] }.unlock me

/-- What `create` awaits once the review is committed. -/
def reviewFollowups (op : Op) (masterId : UserId) : List Followup :=
  if op.rating ≤ complaintRatingThreshold then
    recordEvent masterId .customerComplaint op.orderId (some s!"{op.rating}/5 baho")
  else [.recomputeTrustTier masterId]

/-! ### Steps -/

/-- The next operation of a call that has not finished and does not fail. -/
def proceed (me : ℕ) (x : Input) (k : Call) (db : Db) : Option (Outcome Db Call) :=
  match k.pc with
  | .start =>
      match createGuard db k.op with
      | .error e => some (k.goto db (.threw e))
      | .ok masterId => some (k.goto db (.checked masterId))
  | .checked masterId =>
      if db.hasReview k.op.orderId then
        some (k.goto db (.threw (.conflict "Bu buyurtmaga baho allaqachon qo'yilgan")))
      else some (k.goto db (.vacant masterId))
  | .vacant masterId =>
      if (db.reviewLock k.op.orderId).isSome then none
      else if db.hasReview k.op.orderId then some (k.goto db (.threw .infrastructure))
      else some (k.goto (db.lockReview k.op.orderId me) (.inserted masterId))
  | .inserted masterId =>
      some (k.goto db (.aggregated masterId
        ((average (db.ratingsOf masterId ++ [k.op.rating])).getD k.op.rating)))
  | .aggregated masterId ratingAvg =>
      if (db.findMaster masterId).isNone then some (k.goto (db.unlock me) (.threw .infrastructure))
      else if (db.profileLock masterId).isSome then none
      else some (k.goto (db.lockProfile masterId me) (.updated masterId ratingAvg))
  | .updated masterId ratingAvg =>
      some (k.goto (commitReview db me k.op masterId ratingAvg)
        (.after (reviewFollowups k.op masterId)))
  | .after (f :: todo) =>
      match f.run db.toDb x.now with
      | .error e => some (k.goto db (.threw e))
      | .ok shared => some (k.goto { db with toDb := shared } (.after todo))
  | .after [] => some (k.goto db .returned)
  | .returned | .threw _ => none

/-- The next awaited operation of a call. -/
def step (me : ℕ) (x : Input) (k : Call) (db : Db) : Option (Outcome Db Call) :=
  if k.isFinished then none
  else if x.fail then some (k.goto (db.unlock me) (.threw .infrastructure))
  else proceed me x k db

/-- The machine of the review service. -/
def reviewing : Machine Db Call Input where
  entry := Call.isStart
  step := step

end Handly.Reviews
