import Handly.Lib.Interleaving
import Handly.Auth.Tables
import Mathlib.Data.Nat.Digits.Defs

/-!
# AuthService

`auth.service.ts` with what it awaits of `otp.service.ts`, `token.service.ts` and
`referrals.service.ts`, and `suspend` and `restore` of `admin-users.service.ts`.

Each awaited operation is one step: a statement on the database, a Redis command, a hash.
The transaction of `consumeSession` is three, because it reads between taking the lock of
the session row and revoking it. A `session.updateMany` is two, because it may have to wait
for such a lock: what it writes are the rows that matched when it started. Codes, salts and
tokens that the code draws at random are inputs of the step that draws them. An awaited
operation may fail (`Input.fail`): it has no effect, and the call throws unless the source
catches the error there.
-/

namespace Handly.Auth

open Interleaving

/-- The environment of `env.ts` and the hash functions of `argon2` and `node:crypto`. -/
structure Env where
  otpTtlSeconds : ℤ := 180
  otpResendCooldownSeconds : ℤ := 45
  otpMaxAttempts : ℕ := 5
  otpDailyCapPerPhone : ℕ := 10
  loginMaxAttempts : ℕ := 10
  loginLockoutSeconds : ℤ := 900
  jwtRefreshTtlDays : ℤ := 30
  /-- `argon2.hash` with the salt it draws. -/
  argon2Hash : String → ℕ → String
  /-- `argon2.verify` of a hash and a plain text. -/
  argon2Verify : String → String → Bool
  /-- `hashRefresh` -/
  hashRefresh : String → String

/-! ### Calls -/

/-- `signupRoleSchema` -/
inductive SignupRole
  | customer | master
  deriving DecidableEq

def SignupRole.toRole : SignupRole → Role
  | .customer => .customer
  | .master => .master

structure RegisterInput where
  phone : Phone
  password : String
  role : SignupRole := .customer
  locale : Locale := .uz
  referredByCode : Option String := none
  deriving DecidableEq

/-- A method call with its arguments. -/
inductive Op
  | register (dto : RegisterInput)
  | verifyOtp (phone : Phone) (code : String) (purpose : OtpPurpose)
  | login (phone : Phone) (password : String)
  | requestOtp (phone : Phone) (purpose : OtpPurpose)
  | refresh (rawRefresh : String)
  | logout (rawRefresh : Option String)
  | resetPassword (phone : Phone) (code newPassword : String)
  | suspend (targetId adminId : UserId) (reason : String)
  | restore (targetId adminId : UserId)
  deriving DecidableEq

/-- Where a call stands between two awaited operations. -/
inductive Pc
  /-- Nothing has run yet. -/
  | start
  -- register
  | hashing (existing : Option UserId)
  | reRegistering (id : UserId) (passwordHash : String)
  | drawingCode (attempt : ℕ) (passwordHash : String)
  | creating (passwordHash referralCode : String)
  | profiling (id : UserId) (created : Bool)
  | signingUp (id : UserId) (referredByCode : String)
  | recordingSignup (id referrerId : UserId)
  -- OtpService.issue
  | issuing (phone : Phone) (purpose : OtpPurpose)
  | coolingDown (phone : Phone) (purpose : OtpPurpose)
  | counting (phone : Phone) (purpose : OtpPurpose)
  | expiringCount (phone : Phone) (purpose : OtpPurpose)
  | hashingCode (phone : Phone) (purpose : OtpPurpose)
  | deletingCodes (phone : Phone) (purpose : OtpPurpose) (codeHash : String)
  | creatingCode (phone : Phone) (purpose : OtpPurpose) (codeHash : String)
  | sending
  -- OtpService.verify
  | comparing (id : CodeId) (otp : OtpCode)
  | mismatched (id : CodeId)
  | matched (id : CodeId) (otp : OtpCode)
  | verified (id : CodeId)
  -- verifyOtp
  | activating (codeId : CodeId) (id : UserId)
  | activated (codeId : CodeId) (id : UserId)
  /-- `TokenService.issue` for this user. -/
  | issuingTokens (id : UserId)
  -- resetPassword
  | resetting (id : UserId)
  | rehashed (id : UserId) (passwordHash : String)
  | revokingAll (id : UserId)
  /-- The `updateMany` of `revokeByToken` or `revokeAllForUser` has started on these rows. -/
  | revoking (ids : List SessionId) (revokedAt : Time)
  -- login
  | lockedOut
  | readingUser
  | comparingPassword (id : UserId) (user : User)
  | failedLogin
  | expiringFailures
  | clearingFailures (id : UserId) (user : User)
  /-- `ensureChallenge`: the cooldown is read next. -/
  | challenging (phone : Phone)
  -- refresh
  | foundSession (id : SessionId)
  | lockedSession (id : SessionId)
  | validSession (id : SessionId) (session : Session)
  | consumed (userId : UserId)
  -- suspend and restore
  | writingStatus (target : User)
  | auditing (entry : AuditEntry)
  | detailing
  /-- The promise is resolved. -/
  | returned
  /-- The promise is rejected. -/
  | threw (e : ApiError)

/-- A call in flight, or a finished one. -/
structure Call where
  op : Op
  pc : Pc

namespace Call

def isStart (k : Call) : Bool := k.pc matches .start

/-- The call has returned or thrown. -/
def isFinished (k : Call) : Bool :=
  match k.pc with
  | .returned | .threw _ => true
  | _ => false

/-- The call stands at `pc` next. -/
def goto (k : Call) (db : Db) (pc : Pc) : Outcome Db Call := ⟨db, { k with pc }, []⟩

end Call

/-- What the world outside the database supplies to one operation. -/
structure Input where
  now : Time := 0
  /-- The salt of an `argon2.hash`. -/
  salt : ℕ := 0
  /-- The six-digit code that `issue` draws. -/
  code : String := ""
  /-- The code that `uniqueReferralCode` draws. -/
  referralCode : String := ""
  /-- The token that `TokenService.issue` draws. -/
  refreshToken : String := ""
  /-- The awaited operation fails. -/
  fail : Bool := false

/-! ### Messages and values -/

def wrongCredentials : ApiError := .unauthorized "Telefon raqami yoki parol noto'g'ri"
def userNotFound : String := "Foydalanuvchi topilmadi"
def invalidSession : ApiError := .unauthorized "Sessiya yaroqsiz yoki muddati tugagan"
def accountBlocked : ApiError := .forbidden "Hisob bloklangan"

/-- The message of a resend that comes too early. -/
def cooldownMessage (seconds : ℤ) : String := s!"Kodni {seconds} soniyadan so'ng qayta yuboring"

/-- The message of a login that is locked out. -/
def lockoutMessage (minutes : ℤ) : String :=
  s!"Juda ko'p urinish. {minutes} daqiqadan so'ng qayta urinib ko'ring"

/-- `Math.ceil(seconds / 60)` -/
def ceilMinutes (seconds : ℤ) : ℤ := -(-seconds / 60)

/-- `assertNotBlocked` throws. -/
def isBlocked (status : UserStatus) : Bool :=
  status = .banned ∨ status = .suspended

/-- A digit of `toString(36).toUpperCase()`. -/
def base36Digit (d : ℕ) : Char :=
  if d < 10 then Char.ofNat (48 + d) else Char.ofNat (55 + d)

/-- The last resort of `uniqueReferralCode`. -/
def fallbackReferralCode (now : Time) : String :=
  "H" ++ String.ofList (((Nat.digits 36 now.toNat).map base36Digit).reverse)

/-- The row that `register` inserts. -/
def newUser (me : ℕ) (dto : RegisterInput) (passwordHash referralCode : String) : User :=
  { phone := dto.phone, passwordHash, role := dto.role.toRole, locale := dto.locale, referralCode
    status := .pending, credentialsBy := some me }

/-- The columns that a re-registration sets. -/
def refreshedCredentials (me : ℕ) (dto : RegisterInput) (passwordHash : String) (row : User) :
    User :=
  { row with
    passwordHash, role := dto.role.toRole, locale := dto.locale, credentialsBy := some me }

/-- The row that `OtpService.issue` inserts. -/
def newCode (env : Env) (me : ℕ) (now : Time) (phone : Phone) (purpose : OtpPurpose)
    (codeHash : String) : OtpCode :=
  { phone, purpose, codeHash, expiresAt := now + env.otpTtlSeconds * 1000, issuedBy := me }

/-- The row that `TokenService.issue` inserts. -/
def newSession (env : Env) (x : Input) (userId : UserId) : Session :=
  { userId, refreshTokenHash := env.hashRefresh x.refreshToken
    expiresAt := x.now + env.jwtRefreshTtlDays * 86400 * 1000, refreshToken := x.refreshToken }

/-- What `suspend` reports about the user it read as `target`. -/
def suspendEntry (targetId adminId : UserId) (reason : String) (target : User) (noop : Bool) :
    AuditEntry :=
  { actorId := adminId, action := .userSuspend, entityId := targetId, before := target.status
    after := .suspended, reason := some reason, noop }

/-- What `restore` reports about the user it read as `target`. -/
def restoreEntry (targetId adminId : UserId) (target : User) (noop : Bool) : AuditEntry :=
  { actorId := adminId, action := .userRestore, entityId := targetId, before := target.status
    after := .active, reason := none, noop }

/-! ### Steps of one service method -/

/-- A limit of `enforceRateLimits` throws: `ensureChallenge` catches it. -/
def limited (k : Call) (db : Db) (message : String) : Outcome Db Call :=
  match k.op with
  | .login _ _ => k.goto db .returned
  | _ => k.goto db (.threw (.badRequest message))

/-- The `setNx` of `enforceRateLimits`. Redis refuses an expiry of 0 seconds. -/
def issue (env : Env) (k : Call) (x : Input) (db : Db) (phone : Phone) (purpose : OtpPurpose) :
    Outcome Db Call :=
  if env.otpResendCooldownSeconds ≤ 0 then k.goto db (.hashingCode phone purpose)
  else if (Key.live (db.cooldown purpose phone) x.now).isSome then
    k.goto db (.coolingDown phone purpose)
  else
    k.goto
      (db.setCooldown purpose phone
        (some { value := 1, expiresAt := some (x.now + env.otpResendCooldownSeconds * 1000) }))
      (.counting phone purpose)

/-- The check of `enforceRateLimits` on the daily counter. -/
def checkDaily (env : Env) (k : Call) (db : Db) (phone : Phone) (purpose : OtpPurpose)
    (count : ℕ) : Outcome Db Call :=
  if env.otpDailyCapPerPhone < count then
    limited k db "Kunlik SMS chegarasi tugadi. Ertaga urinib ko'ring"
  else k.goto db (.hashingCode phone purpose)

/-- The read and the checks of `OtpService.verify`. -/
def verify (env : Env) (k : Call) (x : Input) (db : Db) (phone : Phone) (purpose : OtpPurpose) :
    Outcome Db Call :=
  match db.findCode phone purpose x.now with
  | none => k.goto db (.threw (.badRequest "Kod topilmadi yoki muddati tugagan"))
  | some (id, otp) =>
      if env.otpMaxAttempts ≤ otp.attempts then
        k.goto db (.threw (.badRequest "Urinishlar soni tugadi. Yangi kod so'rang"))
      else k.goto db (.comparing id otp)

/-- The `updateMany` of `revokeByToken` and of `revokeAllForUser` starts. -/
def revokeMany (k : Call) (x : Input) (db : Db) (p : Session → Bool) : Outcome Db Call :=
  k.goto db (.revoking (db.unrevokedWhere p) x.now)

/-- `login` after the failed attempts are cleared. -/
def admitted (k : Call) (db : Db) (phone : Phone) (id : UserId) (user : User) :
    Outcome Db Call :=
  if isBlocked user.status then k.goto db (.threw accountBlocked)
  else if user.status = .pending then k.goto db (.challenging phone)
  else k.goto db (.issuingTokens id)

/-- The read and the checks of `suspend` and `restore` on the target. -/
def statusGuard (db : Db) : Op → Except ApiError User
  | .suspend targetId adminId _ =>
      if targetId = adminId then .error (.forbidden "O'zingizni bloklay olmaysiz")
      else
        match db.users[targetId]? with
        | none => .error (.notFound userNotFound)
        | some target =>
            if target.role = .admin then
              .error (.forbidden "Administrator hisobini bloklab bo'lmaydi")
            else .ok target
  | .restore targetId _ =>
      match db.users[targetId]? with
      | none => .error (.notFound userNotFound)
      | some target => .ok target
  | _ => .error .infrastructure

/-! ### Steps -/

/-- The first operation of a call. -/
def begin (env : Env) (x : Input) (k : Call) (db : Db) : Option (Outcome Db Call) :=
  match k.op with
  | .register dto =>
      match db.findUser dto.phone with
      | none => some (k.goto db (.hashing none))
      | some (id, existing) =>
          if existing.status ≠ .pending then
            some (k.goto db
              (.threw (.conflict "Bu telefon raqami allaqachon ro'yxatdan o'tgan")))
          else some (k.goto db (.hashing (some id)))
  | .verifyOtp phone _ purpose => some (verify env k x db phone purpose)
  | .resetPassword phone _ _ => some (verify env k x db phone .reset)
  | .login phone _ =>
      if env.loginMaxAttempts ≤ Key.get (db.loginFail phone) x.now then
        some (k.goto db .lockedOut)
      else some (k.goto db .readingUser)
  | .requestOtp phone purpose =>
      match db.findUser phone with
      | none => some (k.goto db .returned)
      | some _ => some (k.goto db (.issuing phone purpose))
  | .refresh rawRefresh =>
      match db.findSession (env.hashRefresh rawRefresh) with
      | none => some (k.goto db (.threw invalidSession))
      | some (id, _) => some (k.goto db (.foundSession id))
  | .logout rawRefresh =>
      match rawRefresh.filter fun raw => raw ≠ "" with
      | none => some (k.goto db .returned)
      | some raw => some (revokeMany k x db fun s => s.refreshTokenHash = env.hashRefresh raw)
  | .suspend _ _ _ | .restore _ _ =>
      match statusGuard db k.op with
      | .error e => some (k.goto db (.threw e))
      | .ok target => some (k.goto db (.writingStatus target))

/-- `OtpService` is left after the code was verified. -/
def afterVerify (k : Call) (db : Db) (codeId : CodeId) : Outcome Db Call :=
  match k.op with
  | .verifyOtp phone _ _ =>
      match db.findUser phone with
      | none => k.goto db (.threw (.badRequest userNotFound))
      | some (id, user) =>
          if isBlocked user.status then k.goto db (.threw accountBlocked)
          else if user.status = .pending then k.goto db (.activating codeId id)
          else k.goto db (.issuingTokens id)
  | .resetPassword phone _ _ =>
      match db.findUser phone with
      | none => k.goto db (.threw (.badRequest userNotFound))
      | some (id, _) => k.goto db (.resetting id)
  | _ => k.goto db (.threw .infrastructure)

/-- The code that a call presents to `OtpService.verify`. -/
def Op.presentedCode : Op → Option String
  | .verifyOtp _ code _ | .resetPassword _ code _ => some code
  | _ => none

/-- The `updateMany` of `suspend` and `restore`. -/
def writeStatus (k : Call) (db : Db) (target : User) : Option (Outcome Db Call) :=
  match k.op with
  | .suspend targetId adminId reason =>
      if db.users[targetId]?.any fun u => u.status ≠ .suspended then
        some (k.goto (db.updateUser targetId fun u => { u with status := .suspended })
          (.auditing (suspendEntry targetId adminId reason target false)))
      else some (k.goto db (.auditing (suspendEntry targetId adminId reason target true)))
  | .restore targetId adminId =>
      if db.users[targetId]?.any fun u => u.status = .suspended then
        some (k.goto (db.updateUser targetId fun u => { u with status := .active })
          (.auditing (restoreEntry targetId adminId target false)))
      else some (k.goto db (.auditing (restoreEntry targetId adminId target true)))
  | _ => none

/-- The next operation of a call that has not finished and does not fail. -/
def proceed (env : Env) (me : ℕ) (x : Input) (k : Call) (db : Db) : Option (Outcome Db Call) :=
  match k.pc, k.op with
  | .start, _ => begin env x k db
  -- register
  | .hashing existing, .register dto =>
      let passwordHash := env.argon2Hash dto.password x.salt
      match existing with
      | some id => some (k.goto db (.reRegistering id passwordHash))
      | none => some (k.goto db (.drawingCode 0 passwordHash))
  | .reRegistering id passwordHash, .register dto =>
      if db.users[id]?.isNone then some (k.goto db (.threw .infrastructure))
      else some (k.goto (db.updateUser id (refreshedCredentials me dto passwordHash))
        (.profiling id false))
  | .drawingCode attempt passwordHash, _ =>
      if db.users.any fun u => u.referralCode = x.referralCode then
        if attempt + 1 < 5 then some (k.goto db (.drawingCode (attempt + 1) passwordHash))
        else some (k.goto db (.creating passwordHash (fallbackReferralCode x.now)))
      else some (k.goto db (.creating passwordHash x.referralCode))
  | .creating passwordHash referralCode, .register dto =>
      if db.users.any fun u => u.phone = dto.phone ∨ u.referralCode = referralCode then
        some (k.goto db (.threw .infrastructure))
      else some (k.goto (db.createUser (newUser me dto passwordHash referralCode))
        (.profiling db.users.length true))
  | .profiling id created, .register dto =>
      let db' := db.ensureProfile id dto.role.toRole
      match created, dto.referredByCode.filter fun code => code ≠ "" with
      | true, some code => some (k.goto db' (.signingUp id code))
      | _, _ => some (k.goto db' (.issuing dto.phone .signup))
  | .signingUp id referredByCode, .register dto =>
      match Table.findRow (fun u => u.referralCode = referredByCode) db.users with
      | none => some (k.goto db (.issuing dto.phone .signup))
      | some (referrerId, _) =>
          if referrerId = id then some (k.goto db (.issuing dto.phone .signup))
          else some (k.goto db (.recordingSignup id referrerId))
  | .recordingSignup id referrerId, .register dto =>
      some (k.goto (db.createReferral { referrerId, refereeId := id, status := .pending })
        (.issuing dto.phone .signup))
  -- OtpService.issue
  | .issuing phone purpose, _ => some (issue env k x db phone purpose)
  | .coolingDown phone purpose, _ =>
      let remaining := Key.ttl (db.cooldown purpose phone) x.now
      some (limited k db
        (cooldownMessage (if 0 < remaining then remaining else env.otpResendCooldownSeconds)))
  | .counting phone purpose, _ =>
      let key := Key.incr (db.daily phone) x.now
      let db' := db.setDaily phone (some key)
      if key.value = 1 then some (k.goto db' (.expiringCount phone purpose))
      else some (checkDaily env k db' phone purpose key.value)
  | .expiringCount phone purpose, _ =>
      some (checkDaily env k
        (db.setDaily phone (Key.expire (db.daily phone) x.now 86400)) phone purpose 1)
  | .hashingCode phone purpose, _ =>
      some (k.goto db (.deletingCodes phone purpose (env.argon2Hash x.code x.salt)))
  | .deletingCodes phone purpose codeHash, _ =>
      some (k.goto (db.deleteCodes phone purpose) (.creatingCode phone purpose codeHash))
  | .creatingCode phone purpose codeHash, _ =>
      some (k.goto (db.createCode (newCode env me x.now phone purpose codeHash)) .sending)
  | .sending, _ => some (k.goto db .returned)
  -- OtpService.verify
  | .comparing id otp, op =>
      if op.presentedCode.any fun code => env.argon2Verify otp.codeHash code then
        some (k.goto db (.matched id otp))
      else some (k.goto db (.mismatched id))
  | .mismatched id, _ =>
      if db.hasCode id then
        some (k.goto (db.updateCode id fun c => { c with attempts := c.attempts + 1 })
          (.threw (.badRequest "Kod noto'g'ri")))
      else some (k.goto db (.threw .infrastructure))
  | .matched id _, _ =>
      if db.hasCode id then
        some (k.goto (db.updateCode id fun c => { c with usedAt := some x.now }) (.verified id))
      else some (k.goto db (.threw .infrastructure))
  | .verified id, _ => some (afterVerify k db id)
  -- verifyOtp
  | .activating codeId id, _ =>
      if db.users[id]?.isNone then some (k.goto db (.threw .infrastructure))
      else some (k.goto (db.updateUser id fun u => { u with status := .active })
        (.activated codeId id))
  | .activated _ id, _ => some (k.goto (db.activateReferrals id) (.issuingTokens id))
  | .issuingTokens id, _ => some (k.goto (db.createSession (newSession env x id)) .returned)
  -- resetPassword
  | .resetting id, .resetPassword _ _ newPassword =>
      some (k.goto db (.rehashed id (env.argon2Hash newPassword x.salt)))
  | .rehashed id passwordHash, _ =>
      if db.users[id]?.isNone then some (k.goto db (.threw .infrastructure))
      else some (k.goto
        (db.updateUser id fun u => { u with passwordHash, credentialsBy := some me })
        (.revokingAll id))
  | .revokingAll id, _ => some (revokeMany k x db fun s => s.userId = id)
  -- revokeByToken and revokeAllForUser
  | .revoking ids revokedAt, _ =>
      if db.revokeWaits ids then none
      else some (k.goto (db.revokeRows ids revokedAt) .returned)
  -- login
  | .lockedOut, .login phone _ =>
      let remaining := Key.ttl (db.loginFail phone) x.now
      let seconds := if 0 < remaining then remaining else env.loginLockoutSeconds
      some (k.goto db (.threw (.unauthorized (lockoutMessage (ceilMinutes seconds)))))
  | .readingUser, .login phone _ =>
      match db.findUser phone with
      | none => some (k.goto db .failedLogin)
      | some (id, user) => some (k.goto db (.comparingPassword id user))
  | .comparingPassword id user, .login _ password =>
      if env.argon2Verify user.passwordHash password then
        some (k.goto db (.clearingFailures id user))
      else some (k.goto db .failedLogin)
  | .failedLogin, .login phone _ =>
      let key := Key.incr (db.loginFail phone) x.now
      some (k.goto (db.setLoginFail phone (some key))
        (if key.value = 1 then .expiringFailures else .threw wrongCredentials))
  | .expiringFailures, .login phone _ =>
      some (k.goto
        (db.setLoginFail phone (Key.expire (db.loginFail phone) x.now env.loginLockoutSeconds))
        (.threw wrongCredentials))
  | .clearingFailures id user, .login phone _ =>
      some (admitted k (db.setLoginFail phone none) phone id user)
  | .challenging phone, _ =>
      if 0 < Key.ttl (db.cooldown .signup phone) x.now then some (k.goto db .returned)
      else some (k.goto db (.issuing phone .signup))
  -- refresh
  | .foundSession id, _ =>
      if (db.sessionLock id).isSome then none
      else some (k.goto (db.lockSession id me) (.lockedSession id))
  | .lockedSession id, _ =>
      match db.sessions[id]?.filter fun s => s.revokedAt.isNone ∧ x.now < s.expiresAt with
      | none => some (k.goto (db.unlock me) (.threw invalidSession))
      | some session => some (k.goto db (.validSession id session))
  | .validSession id session, _ =>
      some (k.goto ((db.revokeSession id x.now).unlock me) (.consumed session.userId))
  | .consumed userId, _ =>
      match db.users[userId]? with
      | none => some (k.goto db (.threw (.unauthorized userNotFound)))
      | some user =>
          if isBlocked user.status then some (k.goto db (.threw accountBlocked))
          else some (k.goto db (.issuingTokens userId))
  -- suspend and restore
  | .writingStatus target, _ => writeStatus k db target
  | .auditing entry, _ => some (k.goto (db.record entry) .detailing)
  | .detailing, _ => some (k.goto db .returned)
  | _, _ => none

/-- The awaited operation fails. Redis errors are caught where the source fails open, and
so is an error of `referral.create`. -/
def failed (me : ℕ) (k : Call) (db : Db) : Outcome Db Call :=
  match k.pc, k.op with
  | .start, .login _ _ | .lockedOut, .login _ _ => k.goto db .readingUser
  | .failedLogin, _ | .expiringFailures, _ => k.goto db (.threw wrongCredentials)
  | .clearingFailures id user, .login phone _ => admitted k db phone id user
  | .challenging phone, _ => k.goto db (.issuing phone .signup)
  | .issuing phone purpose, _ | .coolingDown phone purpose, _ | .counting phone purpose, _
  | .expiringCount phone purpose, _ => k.goto db (.hashingCode phone purpose)
  | .recordingSignup _ _, .register dto => k.goto db (.issuing dto.phone .signup)
  | _, _ => k.goto (db.unlock me) (.threw .infrastructure)

/-- The next awaited operation of a call. -/
def step (env : Env) (me : ℕ) (x : Input) (k : Call) (db : Db) : Option (Outcome Db Call) :=
  if k.isFinished then none
  else if x.fail then some (failed me k db)
  else proceed env me x k db

/-- The machine of the account services. -/
def accounts (env : Env) : Machine Db Call Input where
  entry := Call.isStart
  step := step env

end Handly.Auth
