import Handly.Lib.Interleaving
import Handly.Trust

/-!
# Penalties on their own

`PenaltiesService.recordEvent` and `TrustService.recomputeTrustTier` as calls of their own: the
first for an event that no order transition raises, the second when a master asks for his trust
tier. What they await is in `Handly.Trust`.
-/

namespace Handly.Penalties

open Interleaving

/-- A method call with its arguments. -/
inductive Op
  | recordEvent (masterId : UserId) (eventType : PenaltyEventType) (orderId : OrderId)
      (note : Option String)
  | recomputeTrustTier (masterId : UserId)

/-- What the method awaits. -/
def Op.todo : Op → List Followup
  | .recordEvent masterId eventType orderId note =>
      Handly.recordEvent masterId eventType orderId note
  | .recomputeTrustTier masterId => [.recomputeTrustTier masterId]

/-- Where a call stands between two awaited statements. -/
inductive Pc
  /-- Nothing has run yet. -/
  | start
  | after (todo : List Followup)
  /-- The promise is resolved. -/
  | returned
  /-- The promise is rejected. -/
  | threw (e : ApiError)

/-- A call in flight, or a finished one. -/
structure Call where
  op : Op
  pc : Pc

namespace Call

def isStart (k : Call) : Bool := k.pc matches .start

/-- What the call still awaits, unless it has finished. -/
def todo (k : Call) : Option (List Followup) :=
  match k.pc with
  | .start => some k.op.todo
  | .after todo => some todo
  | .returned | .threw _ => none

/-- The call stands at `pc` next. -/
def goto (k : Call) (db : Db) (pc : Pc) : Outcome Db Call := ⟨db, { k with pc }, []⟩

end Call

/-- What the world outside the database supplies to one statement. -/
structure Input where
  now : Time := 0
  /-- The awaited operation fails and has no effect. -/
  fail : Bool := false

/-- The next awaited statement of a call. -/
def step (_me : ℕ) (x : Input) (k : Call) (db : Db) : Option (Outcome Db Call) :=
  match k.todo with
  | none => none
  | some [] => some (k.goto db .returned)
  | some (f :: todo) =>
      if x.fail then some (k.goto db (.threw .infrastructure))
      else
        match f.run db x.now with
        | .error e => some (k.goto db (.threw e))
        | .ok db' => some (k.goto db' (.after todo))

/-- The machine of the two methods. -/
def penalties : Machine Db Call Input where
  entry := Call.isStart
  step := step

/-- A penalty touches no order, dispatch or lock, and starts no call. -/
theorem step_frame (me : ℕ) {x : Input} {k : Call} {db : Db} {o : Outcome Db Call}
    (h : step me x k db = some o) :
    o.store.orders = db.orders ∧ o.store.dispatches = db.dispatches ∧
      o.store.orderLock = db.orderLock ∧ o.spawned = [] := by
  have hkeeps : ∀ pc, o = k.goto db pc → o.store.orders = db.orders ∧
      o.store.dispatches = db.dispatches ∧ o.store.orderLock = db.orderLock ∧ o.spawned = [] := by
    intro pc ho
    subst ho
    exact ⟨rfl, rfl, rfl, rfl⟩
  unfold step at h
  split at h
  · simp at h
  · exact hkeeps _ (Option.some.inj h).symm
  · split at h
    · exact hkeeps _ (Option.some.inj h).symm
    · split at h
      · exact hkeeps _ (Option.some.inj h).symm
      · rename_i db' hf
        obtain ⟨horders, hdispatches, -, -, hlock⟩ := Followup.run_frame hf
        rw [← Option.some.inj h]
        exact ⟨horders, hdispatches, hlock, rfl⟩

end Handly.Penalties
