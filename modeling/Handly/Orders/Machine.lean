import Handly.Lib.Interleaving
import Handly.Orders.OrdersService
import Handly.Dispatch.DispatchService

/-!
# The order and dispatch services as one machine

`step` runs the next awaited statement of a call. Between two statements of one
call any other call may run: this is READ COMMITTED, where every statement sees
what was committed before it.

A transaction that writes rows under their locks takes effect at its commit, so
the transactions of the guarded transitions are one step each. The transaction of
`acceptOffer` is several, because it reads between taking the lock of the order
row and writing. A write of a locked order row waits. An insert never waits here,
although Postgres makes some of them wait for the row they refer to; the machine
has those interleavings on top.

An awaited operation may fail (`Input.fail`): the statement or the open
transaction has no effect, the locks are released, and the call throws.
-/

namespace Handly

open Interleaving

namespace Call

/-- The call stands at `pc` next. -/
def goto (k : Call) (db : Db) (pc : Pc) : Outcome Db Call := ⟨db, { k with pc }, []⟩

/-- A check passes or throws. -/
def check (k : Call) (db : Db) {α : Type} (pc : α → Pc) : Except ApiError α → Outcome Db Call
  | .error e => k.goto db (.threw e)
  | .ok a => k.goto db (pc a)

end Call

/-- `order.update({ where: { id } })`: throws when there is no row, and waits while
a transaction holds it. -/
def updateById (k : Call) (db : Db) (orderId : OrderId) (write : Outcome Db Call) :
    Option (Outcome Db Call) :=
  match db.orders[orderId]? with
  | none => some (k.goto db (.threw .infrastructure))
  | some _ => if (db.orderLock orderId).isSome then none else some write

/-- `order.updateMany({ where: { id, status } })`: `lost` when it matches no row;
when it matches, it waits while a transaction holds the row. -/
def updateIfStatus (db : Db) (orderId : OrderId) (status : OrderStatus)
    (lost won : Outcome Db Call) : Option (Outcome Db Call) :=
  if db.statusOf orderId = some status then
    if (db.orderLock orderId).isSome then none else some won
  else some lost

/-- The read and the checks that an editing or lifecycle call makes first. -/
def Op.guard (db : Db) (now : Time) : Op → Option (Except ApiError Order)
  | .updateDraft customerId orderId dto => some (updateDraftGuard db now customerId orderId dto)
  | .diagnose customerId orderId => some (diagnoseGuard db customerId orderId)
  | .submit customerId orderId => some (submitGuard db now customerId orderId)
  | .lifecycle l => some (l.spec.guard db)
  | _ => none

/-- The first read of `cascadeNext`. -/
def enterCascade (k : Call) (db : Db) (orderId : OrderId) (attempt : Attempt) :
    Outcome Db Call :=
  match db.orders[orderId]? with
  | none => k.goto db .returned
  | some order =>
      if order.status ≠ .searching then k.goto db .returned
      else
        match order.categoryId, order.location with
        | some categoryId, some _ => k.goto db (.cascadeCount orderId attempt order categoryId)
        | _, _ => k.goto db (.failSearch orderId "missing category or location")

/-- The first read of `failSearch`. -/
def enterFailSearch (k : Call) (db : Db) (orderId : OrderId) (reason : String) :
    Outcome Db Call :=
  match db.orders[orderId]? with
  | none => k.goto db .returned
  | some order =>
      if canTransition order.status .expired then
        k.goto db (.failSearchWrite orderId reason order)
      else k.goto db .returned

/-- The first statement of a call. -/
def begin (k : Call) (x : Input) (db : Db) : Option (Outcome Db Call) :=
  match k.op with
  | .createDraft customerId dto =>
      match dto.categoryId.elim (.ok ()) (assertCategory db) with
      | .error e => some (k.goto db (.threw e))
      | .ok () => some (k.goto (createDraftWrite db x.now customerId dto) .returned)
  | .acceptOffer dispatchId masterId | .declineOffer dispatchId masterId =>
      some (k.check db .ownOffer (findOwnOffer db dispatchId masterId))
  | .handleOfferExpiry dispatchId =>
      match claim db dispatchId .expired x.now with
      | none => some (k.goto db .returned)
      | some (row, db') => some (k.goto db' (.claimed row.orderId))
  | .startDispatch orderId => some (enterCascade k db orderId .one)
  | .cascadeNext orderId attempt => some (enterCascade k db orderId attempt)
  | .failSearch orderId reason => some (enterFailSearch k db orderId reason)
  | op => (op.guard db x.now).map (k.check db .guarded)

/-- The statement after the guard of an editing or lifecycle call. -/
def afterGuard (k : Call) (me : ℕ) (x : Input) (db : Db) (order : Order) :
    Option (Outcome Db Call) :=
  match k.op with
  | .updateDraft customerId orderId dto =>
      updateById k db orderId
        (k.goto (updateDraftWrite db me x.now customerId orderId dto order) .returned)
  | .diagnose _ _ => some (k.goto db (.diagnosing order db.categories))
  | .submit customerId orderId =>
      updateById k db orderId
        ⟨submitWrite db me x.now customerId orderId order, { k with pc := .returned },
          [{ op := .startDispatch orderId, pc := .start }]⟩
  | .lifecycle l =>
      updateIfStatus db l.spec.orderId order.status
        (k.goto db (.threw (.conflict l.spec.lost)))
        (k.goto (l.spec.write db me x.now order) (.after (l.spec.followups order) none))
  | _ => none

/-- The next statement of a call that has not finished and does not fail. -/
def proceed (env : Env) (me : ℕ) (x : Input) (k : Call) (db : Db) : Option (Outcome Db Call) :=
  match k.pc, k.op with
  | .start, _ => begin k x db
  | .guarded order, _ => afterGuard k me x db order
  -- diagnose
  | .diagnosing order categories, .diagnose _ _ =>
      some (k.check db (fun p => .quoted order x.diagnosis p.1 p.2)
        (quoteFor categories order x.diagnosis))
  | .quoted order diagnosis categoryId quote, .diagnose customerId orderId =>
      updateById k db orderId
        (k.goto (diagnoseWrite db me x.now customerId orderId order diagnosis categoryId quote)
          .returned)
  -- acceptOffer
  | .ownOffer dispatch, .acceptOffer _ _ =>
      if (db.orderLock dispatch.orderId).isSome then none
      else some (k.goto (db.lockOrder dispatch.orderId me) (.locked dispatch))
  | .locked dispatch, .acceptOffer _ _ =>
      match db.orders[dispatch.orderId]? with
      | none => some (k.goto (db.unlock me) (.threw .infrastructure))
      | some order => some (k.goto db (.lockedOrder dispatch order))
  | .lockedOrder dispatch order, .acceptOffer dispatchId _ =>
      match db.dispatches[dispatchId]? with
      | none => some (k.goto (db.unlock me) (.threw .infrastructure))
      | some fresh =>
          match acceptCheck x.now order fresh with
          | .error e => some (k.goto (db.unlock me) (.threw e))
          | .ok () => some (k.goto db (.accepting dispatch order))
  | .accepting dispatch order, .acceptOffer dispatchId masterId =>
      some (k.goto (acceptWrite db me x.now dispatchId masterId dispatch order) .returned)
  -- declineOffer
  | .ownOffer dispatch, .declineOffer dispatchId _ =>
      match claim db dispatchId .declined x.now with
      | none => some (k.goto db .returned)
      | some (_, db') => some (k.goto db' (.cascade dispatch.orderId .one))
  -- handleOfferExpiry
  | .claimed _, .handleOfferExpiry dispatchId =>
      match db.dispatches[dispatchId]? with
      | none => some (k.goto db .returned)
      | some full => some (k.goto db (.after (expiryFollowups full) (some full.orderId)))
  | .after (f :: todo) next, _ =>
      match f.run db x.now with
      | .error e => some (k.goto db (.threw e))
      | .ok db' => some (k.goto db' (.after todo next))
  | .after [] none, _ => some (k.goto db .returned)
  | .after [] (some orderId), _ => some (k.goto db (.cascade orderId .one))
  -- cascadeNext
  | .cascade orderId attempt, _ => some (enterCascade k db orderId attempt)
  | .cascadeCount orderId attempt order categoryId, _ =>
      some (k.goto db
        (.cascadeQuery orderId attempt order categoryId (db.countDispatches orderId)))
  | .cascadeQuery orderId attempt order categoryId rankSoFar, _ =>
      match weightedRandomPick x.random
          (cascadeCandidates env db x.now orderId attempt order categoryId) scoreCandidate with
      | some picked => some (k.goto db (.cascadeCreate orderId attempt order rankSoFar picked))
      | none =>
          match attempt with
          | .one => some (k.goto db (.cascade orderId .two))
          | .two =>
              some (k.goto db (.failSearch orderId "pool exhausted after radius expansion"))
  | .cascadeCreate orderId attempt order rankSoFar picked, _ =>
      if alreadyOffered db orderId picked.masterId then
        some (k.goto db (.cascade orderId attempt))
      else
        some (k.goto (db.createDispatch (offerOf env x.now orderId order rankSoFar picked))
          (.cascadeEnqueue orderId order picked db.dispatches.length))
  | .cascadeEnqueue orderId order picked dispatchId, _ =>
      some (k.goto
        (db.enqueue { dispatchId, runAt := x.now + offerTtlSeconds env order.serviceTier * 1000 })
        (.after (offerFollowups orderId order picked dispatchId) none))
  -- failSearch
  | .failSearch orderId reason, _ => some (enterFailSearch k db orderId reason)
  | .failSearchWrite orderId reason order, _ =>
      updateIfStatus db orderId order.status (k.goto db .returned)
        (k.goto (failSearchUpdate db me orderId) (.failSearchHistory orderId reason order))
  | .failSearchHistory orderId reason order, _ =>
      some (k.goto (failSearchRecord db x.now orderId reason order)
        (.after (failSearchFollowups orderId order) none))
  | _, _ => none

/-- The next awaited statement of a call. -/
def step (env : Env) (me : ℕ) (x : Input) (k : Call) (db : Db) : Option (Outcome Db Call) :=
  if k.Finished then none
  else if x.fail then some (k.goto (db.unlock me) (.threw .infrastructure))
  else proceed env me x k db

/-- The machine of the order and dispatch services. -/
def orders (env : Env) : Machine Db Call Input where
  entry := Call.isStart
  step := step env

end Handly
