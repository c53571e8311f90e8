import Handly.Lib.Table
import Handly.Schema

/-!
# The account tables

Users, one-time codes, sessions and referrals, the Redis keys of the rate limits, and the
audit log, as the auth services and the admin's `suspend` and `restore` use them.

Users, sessions and referrals are never deleted, so a row's position is its id. One-time
codes are deleted when a new one is issued: a deleted row stays in the list, marked, so
that the others keep their position. Ghost fields record which call wrote what.
-/

namespace Handly.Auth

abbrev Phone := String
abbrev CodeId := ℕ
abbrev SessionId := ℕ

inductive OtpPurpose
  | signup | login | reset
  deriving DecidableEq

inductive Locale
  | uz | ru
  deriving DecidableEq

structure User where
  phone : Phone
  passwordHash : String
  role : Role
  status : UserStatus := .pending
  referralCode : String
  locale : Locale
  /-- Ghost: the call that last wrote `passwordHash`, if one did. -/
  credentialsBy : Option ℕ := none

structure OtpCode where
  phone : Phone
  purpose : OtpPurpose
  codeHash : String
  attempts : ℕ := 0
  expiresAt : Time
  usedAt : Option Time := none
  /-- The row is no longer in the table. -/
  deleted : Bool := false
  /-- Ghost: the call that issued the code. -/
  issuedBy : ℕ

structure Session where
  userId : UserId
  refreshTokenHash : String
  expiresAt : Time
  revokedAt : Option Time := none
  /-- Ghost: the token that was hashed. -/
  refreshToken : String

inductive AuditAction
  | userSuspend | userRestore
  deriving DecidableEq

structure AuditEntry where
  actorId : UserId
  action : AuditAction
  entityId : UserId
  /-- `before.status` -/
  before : UserStatus
  /-- `after.status` -/
  after : UserStatus
  reason : Option String
  /-- `alreadySuspended`, `wasAlreadyActive` -/
  noop : Bool

/-- A Redis key whose value is a number. -/
structure Key where
  value : ℕ
  /-- `none` when the key never expires. -/
  expiresAt : Option Time

structure Db where
  users : List User := []
  otpCodes : List OtpCode := []
  sessions : List Session := []
  referrals : List Referral := []
  /-- The profiles that `ensureProfile` has created. -/
  profiles : List (UserId × Role) := []
  auditLog : List AuditEntry := []
  /-- `otp:cooldown:<purpose>:<phone>` -/
  cooldown : OtpPurpose → Phone → Option Key := fun _ _ => none
  /-- `otp:daily:<phone>` -/
  daily : Phone → Option Key := fun _ => none
  /-- `login:fail:<phone>` -/
  loginFail : Phone → Option Key := fun _ => none
  /-- The transaction that holds a session row `FOR UPDATE`. -/
  sessionLock : SessionId → Option ℕ := fun _ => none

/-! ### Redis -/

namespace Key

/-- The key as Redis shows it at an instant: gone once it has expired. -/
def live (key : Option Key) (now : Time) : Option Key :=
  key.filter fun k => k.expiresAt.all fun t => now < t

/-- `GET`, read as a number: 0 when the key is missing. -/
def get (key : Option Key) (now : Time) : ℕ := ((live key now).map value).getD 0

/-- `TTL` -/
def ttl (key : Option Key) (now : Time) : ℤ :=
  match live key now with
  | none => -2
  | some { expiresAt := none, .. } => -1
  | some { expiresAt := some t, .. } => (t - now + 500) / 1000

/-- `INCR` -/
def incr (key : Option Key) (now : Time) : Key :=
  match live key now with
  | none => { value := 1, expiresAt := none }
  | some k => { k with value := k.value + 1 }

/-- `EXPIRE` -/
def expire (key : Option Key) (now : Time) (seconds : ℤ) : Option Key :=
  (live key now).map fun k => { k with expiresAt := some (now + seconds * 1000) }

end Key

namespace Db

/-! ### Statements -/

/-- `user.findUnique({ where: { phone } })`, with the row's id. -/
def findUser (db : Db) (phone : Phone) : Option (UserId × User) :=
  Table.findRow (fun u => u.phone = phone) db.users

/-- `user.update` of one row by id. -/
@[simps users otpCodes sessions referrals sessionLock auditLog]
def updateUser (db : Db) (id : UserId) (data : User → User) : Db :=
  { db with users := db.users.modify id data }

/-- `user.create`: the new row's id is its position. -/
@[simps users otpCodes sessions referrals sessionLock auditLog]
def createUser (db : Db) (row : User) : Db := { db with users := db.users ++ [row] }

/-- The upsert of `ensureProfile`. -/
@[simps users otpCodes sessions referrals sessionLock auditLog]
def ensureProfile (db : Db) (id : UserId) (role : Role) : Db :=
  { db with
    profiles := if (id, role) ∈ db.profiles then db.profiles else db.profiles ++ [(id, role)] }

/-- The `referral.create` of `recordSignup`. A violation of the unique `refereeId` is
caught there and changes nothing. -/
@[simps users otpCodes sessions sessionLock auditLog]
def createReferral (db : Db) (row : Referral) : Db :=
  { db with
    referrals :=
      if db.referrals.any fun r => r.refereeId = row.refereeId then db.referrals
      else db.referrals ++ [row] }

/-- The `referral.updateMany` of `activateOnVerify`. -/
@[simps users otpCodes sessions referrals sessionLock auditLog]
def activateReferrals (db : Db) (refereeId : UserId) : Db :=
  { db with
    referrals := db.referrals.map fun r =>
      if r.refereeId = refereeId ∧ r.status = .pending then { r with status := .active } else r }

/-- The newest code that `OtpService.verify` may compare with. -/
def findCode (db : Db) (phone : Phone) (purpose : OtpPurpose) (now : Time) :
    Option (CodeId × OtpCode) :=
  Table.findLastRow
    (fun c => !c.deleted && c.phone = phone && c.purpose = purpose && c.usedAt.isNone &&
      now < c.expiresAt)
    db.otpCodes

/-- `otpCode.deleteMany({ where: { phone, purpose, usedAt: null } })` -/
@[simps users otpCodes sessions referrals sessionLock auditLog]
def deleteCodes (db : Db) (phone : Phone) (purpose : OtpPurpose) : Db :=
  { db with
    otpCodes := db.otpCodes.map fun c =>
      if c.phone = phone ∧ c.purpose = purpose ∧ c.usedAt = none then { c with deleted := true }
      else c }

/-- `otpCode.create`: the new row's id is its position. -/
@[simps users otpCodes sessions referrals sessionLock auditLog]
def createCode (db : Db) (row : OtpCode) : Db := { db with otpCodes := db.otpCodes ++ [row] }

/-- `otpCode.update` of one row by id. -/
@[simps users otpCodes sessions referrals sessionLock auditLog]
def updateCode (db : Db) (id : CodeId) (data : OtpCode → OtpCode) : Db :=
  { db with otpCodes := db.otpCodes.modify id data }

/-- The row is in the table. -/
def hasCode (db : Db) (id : CodeId) : Bool := db.otpCodes[id]?.any fun c => !c.deleted

/-- `session.findFirst({ where: { refreshTokenHash } })`, with the row's id. -/
def findSession (db : Db) (hash : String) : Option (SessionId × Session) :=
  Table.findRow (fun s => s.refreshTokenHash = hash) db.sessions

/-- `session.create`: the new row's id is its position. -/
@[simps users otpCodes sessions referrals sessionLock auditLog]
def createSession (db : Db) (row : Session) : Db := { db with sessions := db.sessions ++ [row] }

/-- `session.update` of one row by id: it is revoked. -/
@[simps users otpCodes sessions referrals sessionLock auditLog]
def revokeSession (db : Db) (id : SessionId) (now : Time) : Db :=
  { db with sessions := db.sessions.modify id fun s => { s with revokedAt := some now } }

/-- The snapshot that `session.updateMany` takes when it starts: the unrevoked sessions with
the property. -/
def unrevokedWhere (db : Db) (p : Session → Bool) : List SessionId :=
  (List.range db.sessions.length).filter fun id =>
    db.sessions[id]?.any fun s => p s && s.revokedAt.isNone

/-- A transaction holds a row of the snapshot that `session.updateMany` is still to write. -/
def revokeWaits (db : Db) (ids : List SessionId) : Bool :=
  ids.any fun id =>
    (db.sessions[id]?.any fun s => s.revokedAt.isNone) && (db.sessionLock id).isSome

/-- `session.updateMany` writes the rows of its snapshot, but for those that another
transaction has revoked in the meantime. -/
@[simps users otpCodes sessions referrals sessionLock auditLog]
def revokeRows (db : Db) (ids : List SessionId) (revokedAt : Time) : Db :=
  { db with
    sessions := db.sessions.mapIdx fun id s =>
      if id ∈ ids ∧ s.revokedAt = none then { s with revokedAt := some revokedAt } else s }

/-- `SELECT id FROM sessions WHERE id = … FOR UPDATE` by the transaction `me`. -/
@[simps users otpCodes sessions referrals sessionLock auditLog]
def lockSession (db : Db) (id : SessionId) (me : ℕ) : Db :=
  { db with sessionLock := Function.update db.sessionLock id (some me) }

/-- A transaction ends: the row locks it holds are released. -/
@[simps users otpCodes sessions referrals sessionLock auditLog]
def unlock (db : Db) (me : ℕ) : Db :=
  { db with
    sessionLock := fun id => if db.sessionLock id = some me then none else db.sessionLock id }

/-- `audit.record` -/
@[simps users otpCodes sessions referrals sessionLock auditLog]
def record (db : Db) (entry : AuditEntry) : Db := { db with auditLog := db.auditLog ++ [entry] }

@[simps users otpCodes sessions referrals sessionLock auditLog]
def setCooldown (db : Db) (purpose : OtpPurpose) (phone : Phone) (key : Option Key) : Db :=
  { db with
    cooldown := fun p q => if p = purpose ∧ q = phone then key else db.cooldown p q }

@[simps users otpCodes sessions referrals sessionLock auditLog]
def setDaily (db : Db) (phone : Phone) (key : Option Key) : Db :=
  { db with daily := Function.update db.daily phone key }

@[simps users otpCodes sessions referrals sessionLock auditLog]
def setLoginFail (db : Db) (phone : Phone) (key : Option Key) : Db :=
  { db with loginFail := Function.update db.loginFail phone key }

end Db

end Handly.Auth
