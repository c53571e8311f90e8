import Handly.Lib.Interleaving
import Handly.Lib.Table
import Handly.Schema

/-!
# VerificationService

`verification.service.ts`: a master's requests, and the decisions of the admins on them.

Both methods run a transaction over several statements, at READ COMMITTED. What a transaction
has written stays in the local state of its call until the commit, the tables hold what is
committed. `submit` takes the lock of the profile row first. `decide` locks the row of the
request with its `updateMany` and the profile row with the update that follows. A statement
that needs a locked row waits.
-/

namespace Handly.Verifications

open Interleaving

/-- A row of `Verification`; the rows stand in the order of their `createdAt`. -/
structure Verification where
  masterId : UserId
  provider : VerificationProvider := .manual
  status : VerificationStatus := .pending
  note : Option String := none
  decidedBy : Option UserId := none
  decidedAt : Option Time := none

structure Db where
  masters : List MasterProfile := []
  verifications : List Verification := []
  notifications : List Notification := []
  /-- The transaction that holds a profile row. -/
  profileLock : UserId → Option ℕ := fun _ => none
  /-- The transaction that holds the row of a request. -/
  verificationLock : VerificationId → Option ℕ := fun _ => none

namespace Db

/-- `masterProfile.findUnique` -/
def findMaster (db : Db) (id : UserId) : Option MasterProfile :=
  db.masters.find? fun m => m.userId = id

/-- `verification.create`: the new row's id is its position. -/
@[simps]
def createVerification (db : Db) (row : Verification) : Db :=
  { db with verifications := db.verifications ++ [row] }

/-- `verification.update` of one row by id. -/
@[simps]
def updateVerification (db : Db) (id : VerificationId) (data : Verification → Verification) :
    Db :=
  { db with verifications := db.verifications.modify id data }

/-- `masterProfile.update` of the column `verificationStatus`. -/
@[simps]
def setVerificationStatus (db : Db) (id : UserId) (status : VerificationStatus) : Db :=
  { db with
    masters := db.masters.map fun m =>
      if m.userId = id then { m with verificationStatus := status } else m }

/-- `notification.create` -/
@[simps]
def createNotification (db : Db) (n : Notification) : Db :=
  { db with notifications := db.notifications ++ [n] }

/-- The transaction `me` locks the profile row, if there is one. -/
@[simps]
def lockProfile (db : Db) (id : UserId) (me : ℕ) : Db :=
  { db with
    profileLock :=
      if (db.findMaster id).isSome then Function.update db.profileLock id (some me)
      else db.profileLock }

/-- The transaction `me` locks the row of a request. -/
@[simps]
def lockVerification (db : Db) (id : VerificationId) (me : ℕ) : Db :=
  { db with verificationLock := Function.update db.verificationLock id (some me) }

/-- A transaction ends: the row locks it holds are released. -/
@[simps]
def unlock (db : Db) (me : ℕ) : Db :=
  { db with
    profileLock := fun id => if db.profileLock id = some me then none else db.profileLock id
    verificationLock := fun id =>
      if db.verificationLock id = some me then none else db.verificationLock id }

end Db

/-- The query of `getMyLatest`: the request of the master that was created last. -/
def getMyLatest (db : Db) (masterId : UserId) : Option (VerificationId × Verification) :=
  Table.findLastRow (fun v => v.masterId = masterId) db.verifications

/-! ### Calls -/

/-- A method call with its arguments. -/
inductive Op
  | submit (masterId : UserId) (note : Option String)
  | decide (verificationId : VerificationId) (adminId : UserId) (approve : Bool)
      (note : Option String)

/-- Where a call stands between two awaited statements. -/
inductive Pc
  /-- Nothing has run yet. -/
  | start
  /-- `submit`: the transaction has locked the profile. -/
  | locked
  /-- `submit`: the profile was read and is not VERIFIED. -/
  | unverified
  /-- `submit`: there is no pending request. -/
  | vacant
  /-- `decide`: the request was read and passed the checks. -/
  | checked (record : Verification)
  /-- `decide`: the `updateMany` of the transaction has matched. -/
  | claimed (record : Verification) (decidedAt : Time)
  /-- `decide`: the transaction has updated the profile; it commits next. -/
  | synced (record : Verification) (decidedAt : Time)
  /-- `decide`: the transaction is committed; the master is notified next. -/
  | notifying (record : Verification)
  /-- The promise is resolved. -/
  | returned
  /-- The promise is rejected. -/
  | threw (e : ApiError)

/-- A call in flight, or a finished one. -/
structure Call where
  op : Op
  pc : Pc

namespace Call

def isStart (k : Call) : Bool := k.pc matches .start

/-- The call has returned or thrown. -/
def isFinished (k : Call) : Bool :=
  match k.pc with
  | .returned | .threw _ => true
  | _ => false

/-- The call stands at `pc` next. -/
def goto (k : Call) (db : Db) (pc : Pc) : Outcome Db Call := ⟨db, { k with pc }, []⟩

end Call

/-- What the world outside the database supplies to one statement. -/
structure Input where
  now : Time := 0
  /-- The awaited operation fails, and its transaction is rolled back. -/
  fail : Bool := false

/-! ### Values -/

def alreadyDecided : ApiError := .conflict "Bu soʻrov allaqachon koʻrib chiqilgan"

/-- The row that `submit` inserts. -/
def verificationOf (masterId : UserId) (note : Option String) : Verification := { masterId, note }

/-- `newStatus` -/
def newStatus (approve : Bool) : VerificationStatus := if approve then .verified else .rejected

/-- The columns that `decide` sets. `record` is the row that it read. -/
def decideData (adminId : UserId) (approve : Bool) (note : Option String) (record : Verification)
    (now : Time) (row : Verification) : Verification :=
  { row with
    status := newStatus approve, decidedBy := some adminId, decidedAt := some now
    note := note <|> record.note }

def decidedNotice (verificationId : VerificationId) (record : Verification) (approve : Bool)
    (note : Option String) : Notification :=
  { userId := record.masterId
    type := if approve then .verificationApproved else .verificationRejected
    title := if approve then "Tasdiqlandingiz" else "So'rov rad etildi"
    body := if approve then "Tabriklaymiz! Profilingiz tasdiqlandi."
      else note.getD "So'rovingiz rad etildi."
    verificationId := some verificationId }

/-- The read and the checks of `decide`. -/
def decideGuard (db : Db) (verificationId : VerificationId) (approve : Bool)
    (note : Option String) : Except ApiError Verification :=
  match db.verifications[verificationId]? with
  | none => .error (.notFound "So'rov topilmadi")
  | some record => do
      if record.status ≠ .pending then throw alreadyDecided
      if !approve ∧ (note.getD "").isEmpty then
        throw (.badRequest "Rad etish sababini kiriting")
      return record

/-! ### Steps -/

/-- The next statement of a call that has not finished and does not fail. -/
def proceed (me : ℕ) (x : Input) (k : Call) (db : Db) : Option (Outcome Db Call) :=
  match k.pc, k.op with
  -- submit
  | .start, .submit masterId _ =>
      if (db.profileLock masterId).isSome then none
      else some (k.goto (db.lockProfile masterId me) .locked)
  | .locked, .submit masterId _ =>
      match db.findMaster masterId with
      | none => some (k.goto (db.unlock me) (.threw (.notFound "Usta profili topilmadi")))
      | some master =>
          if master.verificationStatus = .verified then
            some (k.goto (db.unlock me) (.threw (.conflict "Siz allaqachon tasdiqlangansiz")))
          else some (k.goto db .unverified)
  | .unverified, .submit masterId _ =>
      if db.verifications.any fun v => v.masterId = masterId ∧ v.status = .pending then
        some (k.goto (db.unlock me) (.threw (.conflict "Ko'rib chiqilayotgan so'rovingiz bor")))
      else some (k.goto db .vacant)
  | .vacant, .submit masterId note =>
      some (k.goto
        (((db.createVerification (verificationOf masterId note)).setVerificationStatus masterId
          .pending).unlock me) .returned)
  -- decide
  | .start, .decide verificationId _ approve note =>
      match decideGuard db verificationId approve note with
      | .error e => some (k.goto db (.threw e))
      | .ok record => some (k.goto db (.checked record))
  | .checked record, .decide verificationId _ _ _ =>
      if db.verifications[verificationId]?.any fun v => v.status = .pending then
        if (db.verificationLock verificationId).isSome then none
        else some (k.goto (db.lockVerification verificationId me) (.claimed record x.now))
      else some (k.goto db (.threw alreadyDecided))
  | .claimed record decidedAt, .decide _ _ _ _ =>
      if (db.profileLock record.masterId).isSome then none
      else if (db.findMaster record.masterId).isNone then
        some (k.goto (db.unlock me) (.threw .infrastructure))
      else some (k.goto (db.lockProfile record.masterId me) (.synced record decidedAt))
  | .synced record decidedAt, .decide verificationId adminId approve note =>
      some (k.goto
        (((db.updateVerification verificationId (decideData adminId approve note record decidedAt)
          ).setVerificationStatus record.masterId (newStatus approve)).unlock me)
        (.notifying record))
  | .notifying record, .decide verificationId _ approve note =>
      some (k.goto (db.createNotification (decidedNotice verificationId record approve note))
        .returned)
  | _, _ => none

/-- The next awaited statement of a call. -/
def step (me : ℕ) (x : Input) (k : Call) (db : Db) : Option (Outcome Db Call) :=
  if k.isFinished then none
  else if x.fail then some (k.goto (db.unlock me) (.threw .infrastructure))
  else proceed me x k db

/-- The machine of the verification service. -/
def verification : Machine Db Call Input where
  entry := Call.isStart
  step := step

end Handly.Verifications
