import Handly.Trust
import Handly.Lib.Table

/-!
# DispatchService

The guards and the writes of `dispatch.service.ts`, one definition for each block
of code between two awaits.
-/

namespace Handly

/-- The first read of `acceptOffer` and of `declineOffer`. -/
def findOwnOffer (db : Db) (dispatchId : DispatchId) (masterId : UserId) :
    Except ApiError OrderDispatch :=
  match db.dispatches[dispatchId]? with
  | none => .error (.notFound "Taklif topilmadi")
  | some dispatch =>
      if dispatch.masterId ≠ masterId then .error (.forbidden "Ruxsat yo'q") else .ok dispatch

/-! ### acceptOffer -/

/-- The checks on the fresh dispatch and the locked order. -/
def acceptCheck (now : Time) (order : Order) (fresh : OrderDispatch) : Except ApiError Unit :=
  if fresh.status ≠ .offered ∨ fresh.expiresAt < now then
    .error (.conflict "Taklif muddati tugagan")
  else if !canTransition order.status .assigned then
    .error (.conflict "Bu buyurtma allaqachon band qilingan yoki bekor qilingan")
  else .ok ()

/-- The row that `acceptOffer` writes over the dispatch. -/
def OrderDispatch.accept (now : Time) (d : OrderDispatch) : OrderDispatch :=
  { d with status := .accepted, countedAsLead := true, respondedAt := some now }

/-- The writes of the transaction of `acceptOffer`, and its commit. The update of
the dispatch is conditioned on its id alone. `order` is the row that was read
under the lock. -/
def acceptWrite (db : Db) (me : ℕ) (now : Time) (dispatchId : DispatchId) (masterId : UserId)
    (dispatch : OrderDispatch) (order : Order) : Db :=
  (((((db.updateDispatch dispatchId (OrderDispatch.accept now)).withdrawOthers
      dispatch.orderId dispatchId now).setStatus me dispatch.orderId .assigned fun row =>
        { row with masterId := some masterId }).createHistory
      { orderId := dispatch.orderId, fromStatus := some order.status, toStatus := .assigned,
        actorId := some masterId, note := none, createdAt := now }).createNotification
      { userId := order.customerId, type := .orderAssigned, title := "Usta tayinlandi"
        body := "Sizga mos usta topildi va buyurtmangizni qabul qildi."
        orderId := some dispatch.orderId }).unlock me

/-! ### Claiming a dispatch -/

/-- `updateMany({ where: { id, status: 'OFFERED' } })`: the guarded update by which
`handleOfferExpiry` and `declineOffer` claim a dispatch. `none` is `count === 0`. -/
def claim (db : Db) (dispatchId : DispatchId) (status : DispatchStatus) (now : Time) :
    Option (OrderDispatch × Db) :=
  match db.dispatches[dispatchId]? with
  | none => none
  | some row =>
      if row.status = .offered then
        some (row, db.updateDispatch dispatchId fun d =>
          { d with status, respondedAt := some now })
      else none

/-- What `handleOfferExpiry` awaits before it cascades. -/
def expiryFollowups (full : OrderDispatch) : List Followup :=
  .notify { userId := full.masterId, type := .offerExpired, title := "Taklif muddati tugadi"
            body := "Javob berish vaqti tugadi.", orderId := some full.orderId } ::
    recordEvent full.masterId .lateResponse full.orderId none

/-! ### cascadeNext -/

/-- `offerTtlSeconds` -/
def offerTtlSeconds (env : Env) : ServiceTier → ℤ
  | .emergency => env.dispatchOfferTtlEmergencySeconds
  | .priority => env.dispatchOfferTtlPrioritySeconds
  | .scheduled => env.dispatchOfferTtlScheduledSeconds

/-- The eligibility query of one attempt. -/
def cascadeCandidates (env : Env) (db : Db) (now : Time) (orderId : OrderId) (attempt : Attempt)
    (order : Order) (categoryId : CategoryId) : List EligibleCandidate :=
  findEligibleCandidates env db now
    { orderId, categoryId
      requiredTier := requiredTierForComplexity order.complexity
      today := tashkentDay now
      radiusMultiplier :=
        match attempt with
        | .one => 1
        | .two => env.dispatchRadiusExpansionFactor
      limit := env.dispatchTopN }

/-- The row that `cascadeNext` inserts. -/
def offerOf (env : Env) (now : Time) (orderId : OrderId) (order : Order) (rankSoFar : ℕ)
    (picked : EligibleCandidate) : OrderDispatch :=
  { orderId, masterId := picked.masterId, rankInCascade := rankSoFar + 1
    distanceM := picked.distanceM, score := scoreCandidate picked
    expiresAt := now + offerTtlSeconds env order.serviceTier * 1000 }

/-- The unique constraint `(orderId, masterId)`. -/
def alreadyOffered (db : Db) (orderId : OrderId) (masterId : UserId) : Bool :=
  db.dispatches.any fun d => d.orderId = orderId ∧ d.masterId = masterId

/-- What `cascadeNext` awaits once the expiry job is in the queue. -/
def offerFollowups (orderId : OrderId) (order : Order) (picked : EligibleCandidate)
    (dispatchId : DispatchId) : List Followup :=
  [ .toOfferDto dispatchId,
    .notify { userId := picked.masterId, type := .offerReceived
              title := "Yangi buyurtma taklifi"
              body := String.ofList (order.description.toList.take 120)
              orderId := some orderId, dispatchId := some dispatchId } ]

/-! ### failSearch -/

/-- The guarded update of `failSearch`, once it has matched the row. -/
def failSearchUpdate (db : Db) (me : ℕ) (orderId : OrderId) : Db :=
  db.setStatus me orderId .expired id

/-- The history row of `failSearch`: a statement of its own. -/
def failSearchRecord (db : Db) (now : Time) (orderId : OrderId) (reason : String)
    (order : Order) : Db :=
  db.createHistory
    { orderId, fromStatus := some order.status, toStatus := .expired, actorId := none,
      note := some reason, createdAt := now }

def failSearchFollowups (orderId : OrderId) (order : Order) : List Followup :=
  [ .notify { userId := order.customerId, type := .orderSearchFailed, title := "Usta topilmadi"
              body := "Hozircha mos usta topilmadi. Qayta urinib ko'ring yoki qo'llab-quvvatlash xizmatiga murojaat qiling."
              orderId := some orderId } ]

/-! ### Reading offers -/

/-- `getCurrentOffer`: of the dispatches of the master that are OFFERED and not past their
expiry, the newest. The rows stand in the order of their creation, which `offeredAt`
records. -/
def getCurrentOffer (db : Db) (now : Time) (masterId : UserId) : Option DispatchId :=
  (Table.findLastRow
    (fun d => d.masterId = masterId ∧ d.status = .offered ∧ now < d.expiresAt)
    db.dispatches).map Prod.fst

end Handly
