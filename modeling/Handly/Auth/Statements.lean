import Handly.Lib.Checks
import Handly.Auth.AuthService

/-!
# What one operation of the account services can do

`step_cases` inverts a step once. A `Reads` only moves the call on, an `Aside` writes
nothing but rate limits, profiles, referrals or the audit log; every other operation has a
constructor in `Stmt`. The invariants of accounts, codes and sessions go by cases on these.
-/

namespace Handly.Auth

open Interleaving

/-- `OtpService.verify` is the first that the call awaits. -/
inductive Op.Verifies : Op → Phone → OtpPurpose → Prop
  | verifyOtp {phone code purpose} : Verifies (.verifyOtp phone code purpose) phone purpose
  | resetPassword {phone code newPassword} :
      Verifies (.resetPassword phone code newPassword) phone .reset

/-- What a limit of `enforceRateLimits` leads to. -/
inductive Limited : Op → Pc → Prop
  | challenged {phone password} : Limited (.login phone password) .returned
  | refused {op message} : (∀ phone password, op ≠ .login phone password) →
      Limited op (.threw (.badRequest message))

/-- What `login` goes on with for an admitted user. -/
inductive Admitted (phone : Phone) (id : UserId) (user : User) : Pc → Prop
  | blocked : isBlocked user.status = true → Admitted phone id user (.threw accountBlocked)
  | pending : user.status = .pending → Admitted phone id user (.challenging phone)
  | active : user.status = .active → Admitted phone id user (.issuingTokens id)

/-- The operations that leave the store as it is. -/
inductive Reads (env : Env) (x : Input) (db : Db) : Op → Pc → Pc → Prop
  | refused {op e} : Reads env x db op .start (.threw e)
  | nothingToDo {op} : Reads env x db op .start .returned
  -- register
  | unregistered {dto} : Reads env x db (.register dto) .start (.hashing none)
  | registered {dto id row} : db.users[id]? = some row → row.phone = dto.phone →
      row.status = .pending → Reads env x db (.register dto) .start (.hashing (some id))
  | hashed {dto id} : Reads env x db (.register dto) (.hashing (some id))
      (.reRegistering id (env.argon2Hash dto.password x.salt))
  | hashedNew {dto} : Reads env x db (.register dto) (.hashing none)
      (.drawingCode 0 (env.argon2Hash dto.password x.salt))
  | clash {op attempt passwordHash} : attempt + 1 < 5 →
      Reads env x db op (.drawingCode attempt passwordHash)
        (.drawingCode (attempt + 1) passwordHash)
  | drawn {op attempt passwordHash referralCode} :
      Reads env x db op (.drawingCode attempt passwordHash) (.creating passwordHash referralCode)
  | notCreated {op passwordHash referralCode} :
      Reads env x db op (.creating passwordHash referralCode) (.threw .infrastructure)
  | missing {op id passwordHash} : db.users[id]? = none →
      Reads env x db op (.reRegistering id passwordHash) (.threw .infrastructure)
  | noReferrer {dto id referredByCode} :
      Reads env x db (.register dto) (.signingUp id referredByCode) (.issuing dto.phone .signup)
  | referrer {dto id referredByCode referrerId row} : db.users[referrerId]? = some row →
      row.referralCode = referredByCode → referrerId ≠ id →
      Reads env x db (.register dto) (.signingUp id referredByCode) (.recordingSignup id referrerId)
  | notRecorded {dto id referrerId} :
      Reads env x db (.register dto) (.recordingSignup id referrerId) (.issuing dto.phone .signup)
  -- OtpService.issue
  | sendable {phone purpose} {id : UserId} {row : User} : db.users[id]? = some row →
      row.phone = phone →
      Reads env x db (.requestOtp phone purpose) .start (.issuing phone purpose)
  | setFails {op phone purpose} :
      Reads env x db op (.issuing phone purpose) (.hashingCode phone purpose)
  | ttlFails {op phone purpose} :
      Reads env x db op (.coolingDown phone purpose) (.hashingCode phone purpose)
  | incrFails {op phone purpose} :
      Reads env x db op (.counting phone purpose) (.hashingCode phone purpose)
  | expireFails {op phone purpose} :
      Reads env x db op (.expiringCount phone purpose) (.hashingCode phone purpose)
  | cooldown {op phone purpose} : (Key.live (db.cooldown purpose phone) x.now).isSome = true →
      x.fail = false →
      Reads env x db op (.issuing phone purpose) (.coolingDown phone purpose)
  | limited {op phone purpose pc} : Limited op pc →
      Reads env x db op (.coolingDown phone purpose) pc
  | codeHashed {op phone purpose} : Reads env x db op (.hashingCode phone purpose)
      (.deletingCodes phone purpose (env.argon2Hash x.code x.salt))
  | sent {op} : Reads env x db op .sending .returned
  -- OtpService.verify
  | codeRead {op phone purpose id otp} : op.Verifies phone purpose →
      db.findCode phone purpose x.now = some (id, otp) → otp.attempts < env.otpMaxAttempts →
      Reads env x db op .start (.comparing id otp)
  | codeMatches {op id otp code} : op.presentedCode = some code →
      env.argon2Verify otp.codeHash code = true →
      Reads env x db op (.comparing id otp) (.matched id otp)
  | codeDiffers {op id otp} : Reads env x db op (.comparing id otp) (.mismatched id)
  | codeGone {op id} : db.hasCode id = false →
      Reads env x db op (.mismatched id) (.threw .infrastructure)
  | matchedGone {op id otp} : db.hasCode id = false →
      Reads env x db op (.matched id otp) (.threw .infrastructure)
  -- verifyOtp
  | notAdmitted {op id e} : Reads env x db op (.verified id) (.threw e)
  | activates {phone code purpose codeId id row} : db.users[id]? = some row → row.phone = phone →
      row.status = .pending →
      Reads env x db (.verifyOtp phone code purpose) (.verified codeId) (.activating codeId id)
  | issues {phone code purpose codeId id row} : db.users[id]? = some row → row.phone = phone →
      row.status = .active →
      Reads env x db (.verifyOtp phone code purpose) (.verified codeId) (.issuingTokens id)
  | notActivated {op codeId id} : db.users[id]? = none →
      Reads env x db op (.activating codeId id) (.threw .infrastructure)
  -- resetPassword
  | resets {phone code newPassword codeId id row} : db.users[id]? = some row →
      row.phone = phone →
      Reads env x db (.resetPassword phone code newPassword) (.verified codeId) (.resetting id)
  | newHashed {phone code newPassword id} :
      Reads env x db (.resetPassword phone code newPassword) (.resetting id)
        (.rehashed id (env.argon2Hash newPassword x.salt))
  | notReset {op id passwordHash} : db.users[id]? = none →
      Reads env x db op (.rehashed id passwordHash) (.threw .infrastructure)
  -- login
  | locked {phone password} : Reads env x db (.login phone password) .start .lockedOut
  | attempts {phone password} : Reads env x db (.login phone password) .start .readingUser
  | lockoutFails {phone password} :
      Reads env x db (.login phone password) .lockedOut .readingUser
  | lockout {op e} : Reads env x db op .lockedOut (.threw e)
  | userRead {phone password id row} : db.users[id]? = some row → row.phone = phone →
      Reads env x db (.login phone password) .readingUser (.comparingPassword id row)
  | userUnknown {op} : Reads env x db op .readingUser .failedLogin
  | passwordMatches {phone password id user} : env.argon2Verify user.passwordHash password = true →
      Reads env x db (.login phone password) (.comparingPassword id user)
        (.clearingFailures id user)
  | passwordDiffers {op id user} :
      Reads env x db op (.comparingPassword id user) .failedLogin
  | uncounted {op} : Reads env x db op .failedLogin (.threw wrongCredentials)
  | unexpired {op} : Reads env x db op .expiringFailures (.threw wrongCredentials)
  | uncleared {phone password id user pc} : Admitted phone id user pc →
      Reads env x db (.login phone password) (.clearingFailures id user) pc
  | challenged {op phone} : Reads env x db op (.challenging phone) .returned
  | challenges {op phone} : Reads env x db op (.challenging phone) (.issuing phone .signup)
  -- refresh
  | sessionFound {raw id row} : db.sessions[id]? = some row →
      row.refreshTokenHash = env.hashRefresh raw →
      Reads env x db (.refresh raw) .start (.foundSession id)
  | sessionValid {op id row} : db.sessions[id]? = some row → row.revokedAt = none →
      x.now < row.expiresAt → Reads env x db op (.lockedSession id) (.validSession id row)
  | notRefreshed {op userId e} : Reads env x db op (.consumed userId) (.threw e)
  | refreshes {op userId row} : db.users[userId]? = some row → isBlocked row.status = false →
      Reads env x db op (.consumed userId) (.issuingTokens userId)
  -- revokeByToken and revokeAllForUser
  | logoutStarts {raw} : Reads env x db (.logout (some raw)) .start
      (.revoking (db.unrevokedWhere fun s => s.refreshTokenHash = env.hashRefresh raw) x.now)
  | revocationStarts {op id} : Reads env x db op (.revokingAll id)
      (.revoking (db.unrevokedWhere fun s => s.userId = id) x.now)
  -- suspend and restore
  | targetRead {op target} : statusGuard db op = .ok target →
      Reads env x db op .start (.writingStatus target)
  | detailed {op} : Reads env x db op .detailing .returned

/-- The writes that concern neither users, codes nor sessions. -/
inductive Aside (env : Env) (x : Input) (db : Db) : Op → Pc → Db → Pc → Prop
  | profileNew {dto id referredByCode} :
      Aside env x db (.register dto) (.profiling id true) (db.ensureProfile id dto.role.toRole)
        (.signingUp id referredByCode)
  | profile {dto id created} :
      Aside env x db (.register dto) (.profiling id created)
        (db.ensureProfile id dto.role.toRole) (.issuing dto.phone .signup)
  | recordSignup {dto id referrerId} :
      Aside env x db (.register dto) (.recordingSignup id referrerId)
        (db.createReferral { referrerId, refereeId := id, status := .pending })
        (.issuing dto.phone .signup)
  | setCooldown {op phone purpose} :
      Key.live (db.cooldown purpose phone) x.now = none → 0 < env.otpResendCooldownSeconds →
      Aside env x db op (.issuing phone purpose)
        (db.setCooldown purpose phone
          (some { value := 1, expiresAt := some (x.now + env.otpResendCooldownSeconds * 1000) }))
        (.counting phone purpose)
  | countFirst {op phone purpose} :
      Aside env x db op (.counting phone purpose)
        (db.setDaily phone (some (Key.incr (db.daily phone) x.now))) (.expiringCount phone purpose)
  | countOver {op phone purpose pc} :
      env.otpDailyCapPerPhone < (Key.incr (db.daily phone) x.now).value → Limited op pc →
      x.fail = false →
      Aside env x db op (.counting phone purpose)
        (db.setDaily phone (some (Key.incr (db.daily phone) x.now))) pc
  | count {op phone purpose} :
      Aside env x db op (.counting phone purpose)
        (db.setDaily phone (some (Key.incr (db.daily phone) x.now))) (.hashingCode phone purpose)
  | expireOver {op phone purpose pc} : env.otpDailyCapPerPhone < 1 → Limited op pc →
      x.fail = false →
      Aside env x db op (.expiringCount phone purpose)
        (db.setDaily phone (Key.expire (db.daily phone) x.now 86400)) pc
  | expireCount {op phone purpose} :
      Aside env x db op (.expiringCount phone purpose)
        (db.setDaily phone (Key.expire (db.daily phone) x.now 86400)) (.hashingCode phone purpose)
  | activateReferrals {op codeId id} :
      Aside env x db op (.activated codeId id) (db.activateReferrals id) (.issuingTokens id)
  | countFailure {op phone key pc} : pc = .expiringFailures ∨ pc = .threw wrongCredentials →
      Aside env x db op .failedLogin (db.setLoginFail phone key) pc
  | expireFailures {op phone key} :
      Aside env x db op .expiringFailures (db.setLoginFail phone key) (.threw wrongCredentials)
  | clearFailures {phone password id user pc} : Admitted phone id user pc →
      Aside env x db (.login phone password) (.clearingFailures id user)
        (db.setLoginFail phone none) pc
  | audit {op entry} : Aside env x db op (.auditing entry) (db.record entry) .detailing

/-- The source catches a failure of the call's next operation. -/
def Call.catches (k : Call) : Bool :=
  match k.pc, k.op with
  | .start, .login _ _ | .lockedOut, .login _ _ | .clearingFailures _ _, .login _ _
  | .recordingSignup _ _, .register _ => true
  | .failedLogin, _ | .expiringFailures, _ | .challenging _, _ | .issuing _ _, _
  | .coolingDown _ _, _ | .counting _ _, _ | .expiringCount _ _, _ => true
  | _, _ => false

/-- Everything the next operation of a call can be. -/
inductive Stmt (env : Env) (me : ℕ) (x : Input) (db : Db) : Call → Outcome Db Call → Prop
  | fails {op pc} : x.fail = true → Call.catches ⟨op, pc⟩ = false →
      Stmt env me x db ⟨op, pc⟩ ⟨db.unlock me, ⟨op, .threw .infrastructure⟩, []⟩
  | reads {op pc pc'} : Reads env x db op pc pc' →
      Stmt env me x db ⟨op, pc⟩ ⟨db, ⟨op, pc'⟩, []⟩
  | aside {op pc db' pc'} : Aside env x db op pc db' pc' →
      Stmt env me x db ⟨op, pc⟩ ⟨db', ⟨op, pc'⟩, []⟩
  -- users
  | reRegister {dto id passwordHash row} : x.fail = false → db.users[id]? = some row →
      Stmt env me x db ⟨.register dto, .reRegistering id passwordHash⟩
        ⟨db.updateUser id (refreshedCredentials me dto passwordHash),
          ⟨.register dto, .profiling id false⟩, []⟩
  | create {dto passwordHash referralCode} : x.fail = false →
      (∀ row ∈ db.users, row.phone ≠ dto.phone ∧ row.referralCode ≠ referralCode) →
      Stmt env me x db ⟨.register dto, .creating passwordHash referralCode⟩
        ⟨db.createUser (newUser me dto passwordHash referralCode),
          ⟨.register dto, .profiling db.users.length true⟩, []⟩
  | activate {op codeId id row} : x.fail = false → db.users[id]? = some row →
      Stmt env me x db ⟨op, .activating codeId id⟩
        ⟨db.updateUser id fun u => { u with status := .active },
          ⟨op, .activated codeId id⟩, []⟩
  | resetPassword {op id passwordHash row} : x.fail = false → db.users[id]? = some row →
      Stmt env me x db ⟨op, .rehashed id passwordHash⟩
        ⟨db.updateUser id fun u => { u with passwordHash, credentialsBy := some me },
          ⟨op, .revokingAll id⟩, []⟩
  | suspend {targetId adminId reason target row} : x.fail = false →
      db.users[targetId]? = some row → row.status ≠ .suspended →
      Stmt env me x db ⟨.suspend targetId adminId reason, .writingStatus target⟩
        ⟨db.updateUser targetId fun u => { u with status := .suspended },
          ⟨.suspend targetId adminId reason,
            .auditing (suspendEntry targetId adminId reason target false)⟩, []⟩
  | restore {targetId adminId target row} : x.fail = false →
      db.users[targetId]? = some row → row.status = .suspended →
      Stmt env me x db ⟨.restore targetId adminId, .writingStatus target⟩
        ⟨db.updateUser targetId fun u => { u with status := .active },
          ⟨.restore targetId adminId,
            .auditing (restoreEntry targetId adminId target false)⟩, []⟩
  | suspendNoop {targetId adminId reason target} :
      (∀ row, db.users[targetId]? = some row → row.status = .suspended) →
      Stmt env me x db ⟨.suspend targetId adminId reason, .writingStatus target⟩
        ⟨db, ⟨.suspend targetId adminId reason,
          .auditing (suspendEntry targetId adminId reason target true)⟩, []⟩
  | restoreNoop {targetId adminId target} :
      (∀ row, db.users[targetId]? = some row → row.status ≠ .suspended) →
      Stmt env me x db ⟨.restore targetId adminId, .writingStatus target⟩
        ⟨db, ⟨.restore targetId adminId,
          .auditing (restoreEntry targetId adminId target true)⟩, []⟩
  -- codes
  | deleteCodes {op phone purpose codeHash} : x.fail = false →
      Stmt env me x db ⟨op, .deletingCodes phone purpose codeHash⟩
        ⟨db.deleteCodes phone purpose, ⟨op, .creatingCode phone purpose codeHash⟩, []⟩
  | createCode {op phone purpose codeHash} : x.fail = false →
      Stmt env me x db ⟨op, .creatingCode phone purpose codeHash⟩
        ⟨db.createCode (newCode env me x.now phone purpose codeHash), ⟨op, .sending⟩, []⟩
  | countAttempt {op id} : x.fail = false → db.hasCode id = true →
      Stmt env me x db ⟨op, .mismatched id⟩
        ⟨db.updateCode id fun c => { c with attempts := c.attempts + 1 },
          ⟨op, .threw (.badRequest "Kod noto'g'ri")⟩, []⟩
  | consumeCode {op id otp} : x.fail = false → db.hasCode id = true →
      Stmt env me x db ⟨op, .matched id otp⟩
        ⟨db.updateCode id fun c => { c with usedAt := some x.now }, ⟨op, .verified id⟩, []⟩
  -- sessions
  | createSession {op id} : x.fail = false →
      Stmt env me x db ⟨op, .issuingTokens id⟩
        ⟨db.createSession (newSession env x id), ⟨op, .returned⟩, []⟩
  | revoke {op ids revokedAt} : x.fail = false → db.revokeWaits ids = false →
      Stmt env me x db ⟨op, .revoking ids revokedAt⟩
        ⟨db.revokeRows ids revokedAt, ⟨op, .returned⟩, []⟩
  | lockSession {op id} : x.fail = false → db.sessionLock id = none →
      Stmt env me x db ⟨op, .foundSession id⟩
        ⟨db.lockSession id me, ⟨op, .lockedSession id⟩, []⟩
  | sessionInvalid {op id} : x.fail = false →
      Stmt env me x db ⟨op, .lockedSession id⟩ ⟨db.unlock me, ⟨op, .threw invalidSession⟩, []⟩
  | consumeSession {op id session} : x.fail = false →
      Stmt env me x db ⟨op, .validSession id session⟩
        ⟨(db.revokeSession id x.now).unlock me, ⟨op, .consumed session.userId⟩, []⟩

section Cases

variable {env : Env} {me : ℕ} {x : Input} {op : Op} {pc : Pc} {k : Call} {db : Db}
  {o : Outcome Db Call}

theorem exists_of_not_isNone {α : Type} {a : Option α} (h : ¬ a.isNone = true) :
    ∃ b, a = some b :=
  Option.ne_none_iff_exists'.mp (mt Option.isNone_iff_eq_none.mpr h)

theorem findUser_eq_some {phone : Phone} {id : UserId} {row : User}
    (h : db.findUser phone = some (id, row)) : db.users[id]? = some row ∧ row.phone = phone := by
  obtain ⟨hrow, hphone⟩ := Table.findRow_eq_some h
  exact ⟨hrow, of_decide_eq_true hphone⟩

theorem findCode_eq_some {phone : Phone} {purpose : OtpPurpose} {now : Time} {id : CodeId}
    {otp : OtpCode} (h : db.findCode phone purpose now = some (id, otp)) :
    db.otpCodes[id]? = some otp ∧ otp.phone = phone ∧ otp.purpose = purpose ∧
      otp.deleted = false ∧ otp.usedAt = none ∧ now < otp.expiresAt := by
  obtain ⟨hrow, hotp⟩ := Table.findLastRow_eq_some h
  simp only [Bool.and_eq_true, Bool.not_eq_true', decide_eq_true_eq,
    Option.isNone_iff_eq_none] at hotp
  obtain ⟨⟨⟨⟨hdel, hphone⟩, hpurpose⟩, hused⟩, hexp⟩ := hotp
  exact ⟨hrow, hphone, hpurpose, hdel, hused, hexp⟩

theorem verify_cases {phone : Phone} {purpose : OtpPurpose} (hop : op.Verifies phone purpose) :
    Stmt env me x db ⟨op, .start⟩ (verify env ⟨op, .start⟩ x db phone purpose) := by
  unfold verify
  split
  · exact .reads .refused
  · rename_i id otp hfound
    split
    · exact .reads .refused
    · rename_i hmax
      exact .reads (.codeRead hop hfound (by omega))

/-- The first operation of a call. -/
theorem begin_cases (h : begin env x ⟨op, .start⟩ db = some o) :
    Stmt env me x db ⟨op, .start⟩ o := by
  cases op with
  | register dto =>
      simp only [begin] at h
      split at h
      · rw [← Option.some.inj h]
        exact .reads .unregistered
      · rename_i id existing hfound
        obtain ⟨hrow, hphone⟩ := findUser_eq_some hfound
        split at h
        · rw [← Option.some.inj h]
          exact .reads .refused
        · rename_i hst
          rw [← Option.some.inj h]
          exact .reads (.registered hrow hphone (of_not_not hst))
  | verifyOtp phone code purpose =>
      rw [← Option.some.inj h]
      exact verify_cases .verifyOtp
  | resetPassword phone code newPassword =>
      rw [← Option.some.inj h]
      exact verify_cases .resetPassword
  | login phone password =>
      simp only [begin] at h
      split at h
      · rw [← Option.some.inj h]
        exact .reads .locked
      · rw [← Option.some.inj h]
        exact .reads .attempts
  | requestOtp phone purpose =>
      simp only [begin] at h
      split at h
      · rw [← Option.some.inj h]
        exact .reads .nothingToDo
      · rename_i found hfound
        obtain ⟨hrow, hphone⟩ := findUser_eq_some hfound
        rw [← Option.some.inj h]
        exact .reads (.sendable hrow hphone)
  | refresh raw =>
      simp only [begin] at h
      split at h
      · rw [← Option.some.inj h]
        exact .reads .refused
      · rename_i id row hfound
        obtain ⟨hrow, hhash⟩ := Table.findRow_eq_some hfound
        rw [← Option.some.inj h]
        exact .reads (.sessionFound hrow (of_decide_eq_true hhash))
  | logout raw =>
      simp only [begin] at h
      split at h
      · rw [← Option.some.inj h]
        exact .reads .nothingToDo
      · rename_i raw' hraw
        obtain ⟨rfl, -⟩ := Option.filter_eq_some_iff.mp hraw
        rw [← Option.some.inj h]
        exact .reads .logoutStarts
  | suspend targetId adminId reason =>
      simp only [begin] at h
      split at h
      · rw [← Option.some.inj h]
        exact .reads .refused
      · rename_i target hok
        rw [← Option.some.inj h]
        exact .reads (.targetRead hok)
  | restore targetId adminId =>
      simp only [begin] at h
      split at h
      · rw [← Option.some.inj h]
        exact .reads .refused
      · rename_i target hok
        rw [← Option.some.inj h]
        exact .reads (.targetRead hok)

/-- What `limited` leads to. -/
theorem limited_eq (k : Call) (db : Db) (message : String) :
    ∃ pc, Limited k.op pc ∧ limited k db message = k.goto db pc := by
  obtain ⟨op, pc⟩ := k
  cases op with
  | login phone password => exact ⟨.returned, .challenged, rfl⟩
  | _ => exact ⟨.threw (.badRequest message), .refused (by simp), rfl⟩

theorem issue_cases {phone : Phone} {purpose : OtpPurpose} (hx : x.fail = false) :
    Stmt env me x db ⟨op, .issuing phone purpose⟩
      (issue env ⟨op, .issuing phone purpose⟩ x db phone purpose) := by
  unfold issue
  split
  · exact .reads .setFails
  · rename_i hsec
    split
    · rename_i hlive
      exact .reads (.cooldown hlive hx)
    · rename_i hlive
      exact .aside (.setCooldown (by simpa using hlive) (by omega))

theorem admitted_eq (k : Call) (db : Db) (phone : Phone) (id : UserId) (user : User) :
    ∃ pc, Admitted phone id user pc ∧ admitted k db phone id user = k.goto db pc := by
  unfold admitted
  by_cases hblocked : isBlocked user.status = true
  · exact ⟨_, .blocked hblocked, by rw [if_pos hblocked]⟩
  · rw [if_neg hblocked]
    by_cases hpending : user.status = .pending
    · exact ⟨_, .pending hpending, by rw [if_pos hpending]⟩
    · refine ⟨_, .active ?_, by rw [if_neg hpending]⟩
      cases hst : user.status <;> simp_all [isBlocked]

theorem afterVerify_cases {codeId : CodeId} :
    Stmt env me x db ⟨op, .verified codeId⟩ (afterVerify ⟨op, .verified codeId⟩ db codeId) := by
  unfold afterVerify
  cases op with
  | verifyOtp phone code purpose =>
      dsimp only
      split
      · exact .reads .notAdmitted
      · rename_i id user hfound
        obtain ⟨hrow, hphone⟩ := findUser_eq_some hfound
        split
        · exact .reads .notAdmitted
        · rename_i hblocked
          split
          · rename_i hpending
            exact .reads (.activates hrow hphone hpending)
          · rename_i hpending
            refine .reads (.issues hrow hphone ?_)
            cases hst : user.status <;> simp_all [isBlocked]
  | resetPassword phone code newPassword =>
      dsimp only
      split
      · exact .reads .notAdmitted
      · rename_i id user hfound
        obtain ⟨hrow, hphone⟩ := findUser_eq_some hfound
        exact .reads (.resets hrow hphone)
  | _ => exact .reads .notAdmitted

theorem writeStatus_cases {target : User} (hx : x.fail = false)
    (h : writeStatus ⟨op, .writingStatus target⟩ db target = some o) :
    Stmt env me x db ⟨op, .writingStatus target⟩ o := by
  cases op with
  | suspend targetId adminId reason =>
      simp only [writeStatus] at h
      cases hrow : db.users[targetId]? with
      | none =>
          simp only [hrow, Option.any_none, Bool.false_eq_true, if_false] at h
          rw [← Option.some.inj h]
          exact .suspendNoop (by simp [hrow])
      | some row =>
          rw [hrow, Option.any_some] at h
          by_cases hst : row.status = .suspended
          · rw [if_neg (by simp [hst])] at h
            rw [← Option.some.inj h]
            exact .suspendNoop (by simp [hrow, hst])
          · rw [if_pos (by simp [hst])] at h
            rw [← Option.some.inj h]
            exact .suspend hx hrow hst
  | restore targetId adminId =>
      simp only [writeStatus] at h
      cases hrow : db.users[targetId]? with
      | none =>
          simp only [hrow, Option.any_none, Bool.false_eq_true, if_false] at h
          rw [← Option.some.inj h]
          exact .restoreNoop (by simp [hrow])
      | some row =>
          rw [hrow, Option.any_some] at h
          by_cases hst : row.status = .suspended
          · rw [if_pos (by simp [hst])] at h
            rw [← Option.some.inj h]
            exact .restore hx hrow hst
          · rw [if_neg (by simp [hst])] at h
            rw [← Option.some.inj h]
            exact .restoreNoop (by simp [hrow, hst])
  | _ => simp [writeStatus] at h

/-- The next operation of a call that does not fail. -/
theorem proceed_cases (hx : x.fail = false) (h : proceed env me x ⟨op, pc⟩ db = some o) :
    Stmt env me x db ⟨op, pc⟩ o := by
  cases pc with
  | start => exact begin_cases h
  -- register
  | hashing existing =>
      cases op with
      | register dto =>
          cases existing with
          | none =>
              rw [← Option.some.inj h]
              exact .reads .hashedNew
          | some id =>
              rw [← Option.some.inj h]
              exact .reads .hashed
      | _ => simp [proceed] at h
  | reRegistering id passwordHash =>
      cases op with
      | register dto =>
          simp only [proceed] at h
          split at h
          · rename_i hnone
            rw [← Option.some.inj h]
            exact .reads (.missing (Option.isNone_iff_eq_none.mp hnone))
          · rename_i hsome
            obtain ⟨row, hrow⟩ := exists_of_not_isNone hsome
            rw [← Option.some.inj h]
            exact .reRegister hx hrow
      | _ => simp [proceed] at h
  | drawingCode attempt passwordHash =>
      simp only [proceed] at h
      split at h
      · split at h
        · rename_i hlt
          rw [← Option.some.inj h]
          exact .reads (.clash hlt)
        · rw [← Option.some.inj h]
          exact .reads .drawn
      · rw [← Option.some.inj h]
        exact .reads .drawn
  | creating passwordHash referralCode =>
      cases op with
      | register dto =>
          simp only [proceed] at h
          split at h
          · rw [← Option.some.inj h]
            exact .reads .notCreated
          · rename_i hunique
            rw [← Option.some.inj h]
            refine .create hx fun row hrow => ?_
            simp only [List.any_eq_true, decide_eq_true_eq, not_exists, not_and, not_or] at hunique
            exact hunique row hrow
      | _ => simp [proceed] at h
  | profiling id created =>
      cases op with
      | register dto =>
          simp only [proceed] at h
          split at h
          · rw [← Option.some.inj h]
            exact .aside .profileNew
          · rw [← Option.some.inj h]
            exact .aside .profile
      | _ => simp [proceed] at h
  | signingUp id referredByCode =>
      cases op with
      | register dto =>
          simp only [proceed] at h
          split at h
          · rw [← Option.some.inj h]
            exact .reads .noReferrer
          · rename_i referrerId row hfound
            obtain ⟨hrow, hcode⟩ := Table.findRow_eq_some hfound
            split at h
            · rw [← Option.some.inj h]
              exact .reads .noReferrer
            · rename_i hne
              rw [← Option.some.inj h]
              exact .reads (.referrer hrow (of_decide_eq_true hcode) hne)
      | _ => simp [proceed] at h
  | recordingSignup id referrerId =>
      cases op with
      | register dto =>
          rw [← Option.some.inj h]
          exact .aside .recordSignup
      | _ => simp [proceed] at h
  -- OtpService.issue
  | issuing phone purpose =>
      rw [← Option.some.inj h]
      exact issue_cases hx
  | coolingDown phone purpose =>
      obtain ⟨pc', hlimited, heq⟩ := limited_eq ⟨op, .coolingDown phone purpose⟩ db
        (cooldownMessage (if 0 < Key.ttl (db.cooldown purpose phone) x.now then
          Key.ttl (db.cooldown purpose phone) x.now else env.otpResendCooldownSeconds))
      rw [← Option.some.inj (h.symm.trans (congrArg some heq)).symm]
      exact .reads (.limited hlimited)
  | counting phone purpose =>
      simp only [proceed] at h
      split at h
      · rw [← Option.some.inj h]
        exact .aside .countFirst
      · rw [← Option.some.inj h]
        unfold checkDaily
        split
        · rename_i hover
          obtain ⟨pc', hlimited, heq⟩ := limited_eq ⟨op, .counting phone purpose⟩
            (db.setDaily phone (some (Key.incr (db.daily phone) x.now)))
            "Kunlik SMS chegarasi tugadi. Ertaga urinib ko'ring"
          rw [heq]
          exact .aside (.countOver hover hlimited hx)
        · exact .aside .count
  | expiringCount phone purpose =>
      rw [← Option.some.inj h]
      unfold checkDaily
      split
      · rename_i hover
        obtain ⟨pc', hlimited, heq⟩ := limited_eq ⟨op, .expiringCount phone purpose⟩
          (db.setDaily phone (Key.expire (db.daily phone) x.now 86400))
          "Kunlik SMS chegarasi tugadi. Ertaga urinib ko'ring"
        rw [heq]
        exact .aside (.expireOver hover hlimited hx)
      · exact .aside .expireCount
  | hashingCode phone purpose =>
      rw [← Option.some.inj h]
      exact .reads .codeHashed
  | deletingCodes phone purpose codeHash =>
      rw [← Option.some.inj h]
      exact .deleteCodes hx
  | creatingCode phone purpose codeHash =>
      rw [← Option.some.inj h]
      exact .createCode hx
  | sending =>
      rw [← Option.some.inj h]
      exact .reads .sent
  -- OtpService.verify
  | comparing id otp =>
      simp only [proceed] at h
      split at h
      · rename_i hmatch
        rw [← Option.some.inj h]
        cases hcode : op.presentedCode with
        | none => simp [hcode] at hmatch
        | some code => exact .reads (.codeMatches hcode (by simpa [hcode] using hmatch))
      · rw [← Option.some.inj h]
        exact .reads .codeDiffers
  | mismatched id =>
      simp only [proceed] at h
      split at h
      · rename_i hcode
        rw [← Option.some.inj h]
        exact .countAttempt hx hcode
      · rename_i hcode
        rw [← Option.some.inj h]
        exact .reads (.codeGone (by simpa using hcode))
  | matched id otp =>
      simp only [proceed] at h
      split at h
      · rename_i hcode
        rw [← Option.some.inj h]
        exact .consumeCode hx hcode
      · rename_i hcode
        rw [← Option.some.inj h]
        exact .reads (.matchedGone (by simpa using hcode))
  | verified id =>
      rw [← Option.some.inj h]
      exact afterVerify_cases
  -- verifyOtp
  | activating codeId id =>
      simp only [proceed] at h
      split at h
      · rename_i hnone
        rw [← Option.some.inj h]
        exact .reads (.notActivated (Option.isNone_iff_eq_none.mp hnone))
      · rename_i hsome
        obtain ⟨row, hrow⟩ := exists_of_not_isNone hsome
        rw [← Option.some.inj h]
        exact .activate hx hrow
  | activated codeId id =>
      rw [← Option.some.inj h]
      exact .aside .activateReferrals
  | issuingTokens id =>
      rw [← Option.some.inj h]
      exact .createSession hx
  -- resetPassword
  | resetting id =>
      cases op with
      | resetPassword phone code newPassword =>
          rw [← Option.some.inj h]
          exact .reads .newHashed
      | _ => simp [proceed] at h
  | rehashed id passwordHash =>
      simp only [proceed] at h
      split at h
      · rename_i hnone
        rw [← Option.some.inj h]
        exact .reads (.notReset (Option.isNone_iff_eq_none.mp hnone))
      · rename_i hsome
        obtain ⟨row, hrow⟩ := exists_of_not_isNone hsome
        rw [← Option.some.inj h]
        exact .resetPassword hx hrow
  | revokingAll id =>
      rw [← Option.some.inj h]
      exact .reads .revocationStarts
  -- revokeByToken and revokeAllForUser
  | revoking ids revokedAt =>
      simp only [proceed] at h
      split at h
      · simp at h
      · rename_i hwait
        rw [← Option.some.inj h]
        exact .revoke hx (by simpa using hwait)
  -- login
  | lockedOut =>
      cases op with
      | login phone password =>
          rw [← Option.some.inj h]
          exact .reads .lockout
      | _ => simp [proceed] at h
  | readingUser =>
      cases op with
      | login phone password =>
          simp only [proceed] at h
          split at h
          · rw [← Option.some.inj h]
            exact .reads .userUnknown
          · rename_i id user hfound
            obtain ⟨hrow, hphone⟩ := findUser_eq_some hfound
            rw [← Option.some.inj h]
            exact .reads (.userRead hrow hphone)
      | _ => simp [proceed] at h
  | comparingPassword id user =>
      cases op with
      | login phone password =>
          simp only [proceed] at h
          split at h
          · rename_i hmatch
            rw [← Option.some.inj h]
            exact .reads (.passwordMatches hmatch)
          · rw [← Option.some.inj h]
            exact .reads .passwordDiffers
      | _ => simp [proceed] at h
  | failedLogin =>
      cases op with
      | login phone password =>
          rw [← Option.some.inj h]
          refine .aside (.countFailure ?_)
          split
          · exact Or.inl rfl
          · exact Or.inr rfl
      | _ => simp [proceed] at h
  | expiringFailures =>
      cases op with
      | login phone password =>
          rw [← Option.some.inj h]
          exact .aside .expireFailures
      | _ => simp [proceed] at h
  | clearingFailures id user =>
      cases op with
      | login phone password =>
          obtain ⟨pc', hadmitted, heq⟩ := admitted_eq
            ⟨.login phone password, .clearingFailures id user⟩ (db.setLoginFail phone none)
            phone id user
          rw [← Option.some.inj (h.symm.trans (congrArg some heq)).symm]
          exact .aside (.clearFailures hadmitted)
      | _ => simp [proceed] at h
  | challenging phone =>
      simp only [proceed] at h
      split at h
      · rw [← Option.some.inj h]
        exact .reads .challenged
      · rw [← Option.some.inj h]
        exact .reads .challenges
  -- refresh
  | foundSession id =>
      simp only [proceed] at h
      split at h
      · simp at h
      · rename_i hlock
        rw [← Option.some.inj h]
        exact .lockSession hx (by simpa using hlock)
  | lockedSession id =>
      simp only [proceed] at h
      split at h
      · rw [← Option.some.inj h]
        exact .sessionInvalid hx
      · rename_i session hfound
        obtain ⟨hrow, hvalid⟩ := Option.filter_eq_some_iff.mp hfound
        simp only [Option.isNone_iff_eq_none, decide_eq_true_eq] at hvalid
        rw [← Option.some.inj h]
        exact .reads (.sessionValid hrow hvalid.1 hvalid.2)
  | validSession id session =>
      rw [← Option.some.inj h]
      exact .consumeSession hx
  | consumed userId =>
      simp only [proceed] at h
      split at h
      · rw [← Option.some.inj h]
        exact .reads .notRefreshed
      · rename_i user hrow
        split at h
        · rw [← Option.some.inj h]
          exact .reads .notRefreshed
        · rename_i hblocked
          rw [← Option.some.inj h]
          exact .reads (.refreshes hrow (by simpa using hblocked))
  -- suspend and restore
  | writingStatus target => exact writeStatus_cases hx h
  | auditing entry =>
      rw [← Option.some.inj h]
      exact .aside .audit
  | detailing =>
      rw [← Option.some.inj h]
      exact .reads .detailed
  | returned => simp [proceed] at h
  | threw e => simp [proceed] at h

/-- The operation fails: the call throws, or goes on where the error is caught. -/
theorem failed_cases (hx : x.fail = true) :
    Stmt env me x db ⟨op, pc⟩ (failed me ⟨op, pc⟩ db) := by
  cases pc with
  | start =>
      cases op with
      | login phone password => exact .reads .attempts
      | _ => exact .fails hx rfl
  | lockedOut =>
      cases op with
      | login phone password => exact .reads .lockoutFails
      | _ => exact .fails hx rfl
  | failedLogin => exact .reads .uncounted
  | expiringFailures => exact .reads .unexpired
  | clearingFailures id user =>
      cases op with
      | login phone password =>
          obtain ⟨pc', hadmitted, heq⟩ := admitted_eq
            ⟨.login phone password, .clearingFailures id user⟩ db phone id user
          show Stmt env me x db ⟨.login phone password, .clearingFailures id user⟩
            (admitted ⟨.login phone password, .clearingFailures id user⟩ db phone id user)
          rw [heq]
          exact .reads (.uncleared hadmitted)
      | _ => exact .fails hx rfl
  | challenging phone => exact .reads .challenges
  | issuing phone purpose => exact .reads .setFails
  | coolingDown phone purpose => exact .reads .ttlFails
  | counting phone purpose => exact .reads .incrFails
  | expiringCount phone purpose => exact .reads .expireFails
  | recordingSignup id referrerId =>
      cases op with
      | register dto => exact .reads .notRecorded
      | _ => exact .fails hx rfl
  | _ => exact .fails hx rfl

/-- Everything a step can be. -/
theorem step_cases (h : step env me x k db = some o) : Stmt env me x db k o := by
  obtain ⟨op, pc⟩ := k
  unfold step at h
  split at h
  · simp at h
  · split at h
    · rename_i hx
      rw [← Option.some.inj h]
      exact failed_cases hx
    · rename_i hx
      exact proceed_cases (by simpa using hx) h

end Cases

end Handly.Auth
