import Handly.Lib.Interleaving
import Handly.Schema

/-!
# SubscriptionsService

`subscriptions.service.ts`. Free is the plan of a master without a row, and an expired
trial is written back when it is read: `getStatus` reads the row, compares it with the
clock, and updates it in a statement of its own. `upgradeToPremium` runs `getStatus`
first. The dashboard and the analytics call `getStatus`, too.

Time passes between statements and never goes back. The clock is part of the store, and
the input of a statement says how much time has passed since the one before.
-/

namespace Handly.Subscriptions

open Interleaving

/-- The tables, and the instant of the last statement. -/
structure Db extends Handly.Db where
  clock : Time := 0

/-- `MasterSubscriptionDto` -/
structure MasterSubscriptionDto where
  plan : SubscriptionPlan
  status : SubscriptionStatus
  trialEndsAt : Option Time
  currentPeriodEnd : Option Time
  isPremiumActive : Bool
  deriving DecidableEq

/-! ### Calls -/

/-- A method call with its argument. -/
inductive Op
  | getStatus (masterId : UserId)
  | upgradeToPremium (masterId : UserId)
  deriving DecidableEq

def Op.masterId : Op → UserId
  | .getStatus masterId | .upgradeToPremium masterId => masterId

/-- Where a call stands between two awaited operations. -/
inductive Pc
  /-- Nothing has run yet. -/
  | start
  /-- `getStatus` has found, at the given instant, that the trial it read is over; the
  update to EXPIRED is next. -/
  | expiring (readAt : Time)
  /-- `upgradeToPremium`: the upsert is next. -/
  | upserting (trialEndsAt : Time)
  /-- The promise is resolved. The instant at which the row was read is a ghost. -/
  | returned (dto : MasterSubscriptionDto) (readAt : Time)
  /-- The promise is rejected. -/
  | threw (e : ApiError)

/-- A call in flight, or a finished one. -/
structure Call where
  op : Op
  pc : Pc

namespace Call

def isStart (k : Call) : Bool := k.pc matches .start

/-- The call has returned or thrown. -/
def isFinished (k : Call) : Bool :=
  match k.pc with
  | .returned .. | .threw _ => true
  | _ => false

/-- The call stands at `pc` next. -/
def goto (k : Call) (db : Db) (pc : Pc) : Outcome Db Call := ⟨db, { k with pc }, []⟩

end Call

/-- What the world outside the database supplies to one statement. -/
structure Input where
  /-- Milliseconds since the last statement of any call. -/
  elapsed : ℕ := 0
  /-- The awaited operation fails without effect. -/
  fail : Bool := false

/-! ### Statements -/

namespace Db

/-- `masterSubscription.findUnique` -/
def findSubscription (db : Db) (masterId : UserId) : Option MasterSubscription :=
  db.subscriptions.find? fun s => s.masterId = masterId

/-- Time passes. -/
def tick (db : Db) (elapsed : ℕ) : Db := { db with clock := db.clock + elapsed }

/-- `masterSubscription.update` of one row by `masterId`. -/
def updateSubscription (db : Db) (masterId : UserId)
    (data : MasterSubscription → MasterSubscription) : Db :=
  { db with
    subscriptions := db.subscriptions.map fun s => if s.masterId = masterId then data s else s }

/-- `masterSubscription.create` -/
def createSubscription (db : Db) (row : MasterSubscription) : Db :=
  { db with subscriptions := db.subscriptions ++ [row] }

end Db

/-! ### Values -/

/-- `TRIAL_DAYS` -/
def trialDays : ℤ := 14

/-- The condition under which `getStatus` writes a row back: its trial is over. -/
def lapsed (row : MasterSubscription) (now : Time) : Bool :=
  row.status = .trial ∧ row.trialEndsAt.any fun endsAt => endsAt < now

/-- `freeDto` -/
def freeDto : MasterSubscriptionDto :=
  { plan := .free, status := .active, trialEndsAt := none, currentPeriodEnd := none
    isPremiumActive := false }

/-- `toDto` -/
def toDto (row : MasterSubscription) : MasterSubscriptionDto :=
  { plan := row.plan, status := row.status, trialEndsAt := row.trialEndsAt
    currentPeriodEnd := row.currentPeriodEnd
    isPremiumActive := row.plan = .premium ∧ (row.status = .active ∨ row.status = .trial) }

/-- The data of the update in `getStatus`. -/
def expire (row : MasterSubscription) : MasterSubscription := { row with status := .expired }

/-- The `update` data of the upsert. -/
def startTrial (trialEndsAt : Time) (row : MasterSubscription) : MasterSubscription :=
  { row with plan := .premium, status := .trial, trialEndsAt := some trialEndsAt
             currentPeriodEnd := none }

/-- The `create` data of the upsert. -/
def newTrial (masterId : UserId) (trialEndsAt : Time) : MasterSubscription :=
  { masterId, plan := .premium, status := .trial, trialEndsAt := some trialEndsAt }

/-! ### Steps -/

/-- What a call does once `getStatus` has its result. -/
def settle (k : Call) (db : Db) (status : MasterSubscriptionDto) (readAt : Time) :
    Outcome Db Call :=
  match k.op with
  | .getStatus _ => k.goto db (.returned status readAt)
  | .upgradeToPremium _ =>
      if status.isPremiumActive then
        k.goto db (.threw (.conflict "Siz allaqachon Premium obunachisiz"))
      else k.goto db (.upserting (db.clock + trialDays * msPerDay))

/-- The next operation of a call that has not finished and does not fail. -/
def proceed (k : Call) (db : Db) : Option (Outcome Db Call) :=
  match k.pc with
  | .start =>
      match db.findSubscription k.op.masterId with
      | none => some (settle k db freeDto db.clock)
      | some row =>
          if lapsed row db.clock then some (k.goto db (.expiring db.clock))
          else some (settle k db (toDto row) db.clock)
  | .expiring readAt =>
      match db.findSubscription k.op.masterId with
      | none => some (k.goto db (.threw .infrastructure))
      | some row =>
          some (settle k (db.updateSubscription k.op.masterId expire) (toDto (expire row)) readAt)
  | .upserting trialEndsAt =>
      match db.findSubscription k.op.masterId with
      | some row =>
          some (k.goto (db.updateSubscription k.op.masterId (startTrial trialEndsAt))
            (.returned (toDto (startTrial trialEndsAt row)) db.clock))
      | none =>
          -- The row references the master's profile.
          if (db.findMaster k.op.masterId).isNone then some (k.goto db (.threw .infrastructure))
          else some (k.goto (db.createSubscription (newTrial k.op.masterId trialEndsAt))
            (.returned (toDto (newTrial k.op.masterId trialEndsAt)) db.clock))
  | .returned .. | .threw _ => none

/-- The next awaited operation of a call. -/
def step (_me : ℕ) (x : Input) (k : Call) (db : Db) : Option (Outcome Db Call) :=
  if k.isFinished then none
  else if x.fail then some (k.goto (db.tick x.elapsed) (.threw .infrastructure))
  else proceed k (db.tick x.elapsed)

/-- The machine of the subscription service. -/
def subscribing : Machine Db Call Input where
  entry := Call.isStart
  step := step

/-! ### Inversion of a step -/

/-- Everything the next statement of a call can be, at the instant at which it runs. -/
inductive Stmt (db : Db) : Call → Outcome Db Call → Prop
  | throws {op pc e} : Stmt db ⟨op, pc⟩ ⟨db, ⟨op, .threw e⟩, []⟩
  | free {m} : db.findSubscription m = none →
      Stmt db ⟨.getStatus m, .start⟩ ⟨db, ⟨.getStatus m, .returned freeDto db.clock⟩, []⟩
  | reports {m row} : db.findSubscription m = some row → lapsed row db.clock = false →
      Stmt db ⟨.getStatus m, .start⟩ ⟨db, ⟨.getStatus m, .returned (toDto row) db.clock⟩, []⟩
  | findsLapsed {op row} : db.findSubscription op.masterId = some row →
      lapsed row db.clock = true →
      Stmt db ⟨op, .start⟩ ⟨db, ⟨op, .expiring db.clock⟩, []⟩
  | admits {m} :
      Stmt db ⟨.upgradeToPremium m, .start⟩
        ⟨db, ⟨.upgradeToPremium m, .upserting (db.clock + trialDays * msPerDay)⟩, []⟩
  | expires {m readAt row} : db.findSubscription m = some row →
      Stmt db ⟨.getStatus m, .expiring readAt⟩
        ⟨db.updateSubscription m expire,
          ⟨.getStatus m, .returned (toDto (expire row)) readAt⟩, []⟩
  | expiresFirst {m readAt row} : db.findSubscription m = some row →
      Stmt db ⟨.upgradeToPremium m, .expiring readAt⟩
        ⟨db.updateSubscription m expire,
          ⟨.upgradeToPremium m, .upserting (db.clock + trialDays * msPerDay)⟩, []⟩
  | restarts {op endsAt row} : db.findSubscription op.masterId = some row →
      Stmt db ⟨op, .upserting endsAt⟩
        ⟨db.updateSubscription op.masterId (startTrial endsAt),
          ⟨op, .returned (toDto (startTrial endsAt row)) db.clock⟩, []⟩
  | starts {op endsAt} : db.findSubscription op.masterId = none →
      Stmt db ⟨op, .upserting endsAt⟩
        ⟨db.createSubscription (newTrial op.masterId endsAt),
          ⟨op, .returned (toDto (newTrial op.masterId endsAt)) db.clock⟩, []⟩

section Cases

variable {me : ℕ} {x : Input} {k : Call} {db : Db} {o : Outcome Db Call}

/-- An expired trial is not Premium. -/
theorem toDto_expire (row : MasterSubscription) : (toDto (expire row)).isPremiumActive = false := by
  simp [toDto, expire]

theorem proceed_cases (h : proceed k db = some o) : Stmt db k o := by
  obtain ⟨op, pc⟩ := k
  cases pc with
  | start =>
      simp only [proceed] at h
      split at h
      · rename_i hnone
        rw [← Option.some.inj h]
        cases op with
        | getStatus m => exact .free hnone
        | upgradeToPremium m => exact .admits
      · rename_i row hrow
        split at h
        · rename_i hlapsed
          rw [← Option.some.inj h]
          exact .findsLapsed hrow hlapsed
        · rename_i hlapsed
          rw [← Option.some.inj h]
          cases op with
          | getStatus m => exact .reports hrow (by simpa using hlapsed)
          | upgradeToPremium m =>
              simp only [settle]
              split
              · exact .throws
              · exact .admits
  | expiring readAt =>
      simp only [proceed] at h
      split at h
      · rw [← Option.some.inj h]
        exact .throws
      · rename_i row hrow
        rw [← Option.some.inj h]
        cases op with
        | getStatus m => exact .expires hrow
        | upgradeToPremium m =>
            simp only [settle, toDto_expire]
            exact .expiresFirst hrow
  | upserting endsAt =>
      simp only [proceed] at h
      split at h
      · rename_i row hrow
        rw [← Option.some.inj h]
        exact .restarts hrow
      · rename_i hnone
        split at h
        · rw [← Option.some.inj h]
          exact .throws
        · rw [← Option.some.inj h]
          exact .starts hnone
  | returned dto readAt => simp [proceed] at h
  | threw e => simp [proceed] at h

/-- **Inversion of a step.** -/
theorem step_cases (h : step me x k db = some o) :
    Stmt (db.tick x.elapsed) k o ∧ (x.fail = true → o.store = db.tick x.elapsed) := by
  unfold step at h
  split at h
  · simp at h
  · split at h
    · rw [← Option.some.inj h]
      exact ⟨.throws, fun _ => rfl⟩
    · rename_i hfail
      exact ⟨proceed_cases h, fun hx => absurd hx hfail⟩

/-- Reading and starting trials sets no calls going. -/
theorem Stmt.spawned_eq_nil (h : Stmt db k o) : o.spawned = [] := by
  cases h <;> rfl

end Cases

end Handly.Subscriptions
