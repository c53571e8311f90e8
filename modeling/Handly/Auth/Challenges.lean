import Handly.Auth.Effects

/-!
# OtpService, one call at a time

`issue`, `verify` and `ensureChallenge` as whole calls that take no time, over the tables and
keys of the account services. `ensureChallenge` takes a limit that is in force for a sign that
a code is there. The limits and the codes have lifetimes of their own, so a code may be used
up, guessed away or expired while the limit still holds back the next one.
-/

namespace Handly.Auth

open Interleaving

/-- An operation that a method of `OtpService` awaits. -/
inductive Awaited
  | cooldownTtl | setNx | remainingTtl | incr | expire | hash | deleteMany | create | sendOtp
  | findFirst | compare | update
  deriving DecidableEq

/-- When a method is called, what it draws, and which operations fail. -/
structure Moment where
  now : Time
  /-- The code that `issue` draws. -/
  code : String := ""
  /-- The salt of its hash. -/
  salt : ℕ := 0
  fails : Awaited → Bool := fun _ => false

/-- What the moment gives to one operation. -/
@[simps]
def Moment.at (x : Moment) (a : Awaited) : Input :=
  { now := x.now, salt := x.salt, code := x.code, fail := x.fails a }

/-- The limits that `envSchema` allows. -/
structure Env.Allowed (env : Env) : Prop where
  ttl : 0 < env.otpTtlSeconds
  cooldown : 0 ≤ env.otpResendCooldownSeconds
  maxAttempts : 0 < env.otpMaxAttempts
  dailyCap : 0 < env.otpDailyCapPerPhone

namespace OtpService

/-! ### The methods -/

/-- `enforceRateLimits`: errors of Redis are caught, and let the code be sent. Redis refuses
an expiry of 0 seconds. -/
def enforceRateLimits (env : Env) (x : Moment) (phone : Phone) (purpose : OtpPurpose) (db : Db) :
    Except ApiError Unit × Db :=
  if x.fails .setNx ∨ env.otpResendCooldownSeconds ≤ 0 then (.ok (), db)
  else if (Key.live (db.cooldown purpose phone) x.now).isSome then
    if x.fails .remainingTtl then (.ok (), db)
    else
      let remaining := Key.ttl (db.cooldown purpose phone) x.now
      (.error (.badRequest
        (cooldownMessage (if 0 < remaining then remaining else env.otpResendCooldownSeconds))), db)
  else
    let fresh := db.setCooldown purpose phone
      (some { value := 1, expiresAt := some (x.now + env.otpResendCooldownSeconds * 1000) })
    if x.fails .incr then (.ok (), fresh)
    else
      let count := Key.incr (db.daily phone) x.now
      let counted := fresh.setDaily phone (some count)
      if count.value = 1 ∧ x.fails .expire then (.ok (), counted)
      else
        let expiring :=
          if count.value = 1 then
            counted.setDaily phone (Key.expire (counted.daily phone) x.now 86400)
          else counted
        if env.otpDailyCapPerPhone < count.value then
          (.error (.badRequest "Kunlik SMS chegarasi tugadi. Ertaga urinib ko'ring"), expiring)
        else (.ok (), expiring)

/-- `issue` after the limits. -/
def send (env : Env) (x : Moment) (phone : Phone) (purpose : OtpPurpose) (db : Db) :
    Except ApiError ℤ × Db :=
  if x.fails .hash then (.error .infrastructure, db)
  else if x.fails .deleteMany then (.error .infrastructure, db)
  else if x.fails .create then (.error .infrastructure, db.deleteCodes phone purpose)
  else
    let db' := (db.deleteCodes phone purpose).createCode
      (newCode env 0 x.now phone purpose (env.argon2Hash x.code x.salt))
    if x.fails .sendOtp then (.error .infrastructure, db')
    else (.ok env.otpResendCooldownSeconds, db')

/-- `issue` -/
def issue (env : Env) (x : Moment) (phone : Phone) (purpose : OtpPurpose) (db : Db) :
    Except ApiError ℤ × Db :=
  match enforceRateLimits env x phone purpose db with
  | (.error e, db') => (.error e, db')
  | (.ok (), db') => send env x phone purpose db'

/-- `ensureChallenge`: an error of Redis is caught, and so is a `BadRequestException` of
`issue`. -/
def ensureChallenge (env : Env) (x : Moment) (phone : Phone) (purpose : OtpPurpose) (db : Db) :
    Except ApiError ℤ × Db :=
  let remaining := if x.fails .cooldownTtl then 0 else Key.ttl (db.cooldown purpose phone) x.now
  if 0 < remaining then (.ok remaining, db)
  else
    match issue env x phone purpose db with
    | (.error (.badRequest _), db') => (.ok env.otpResendCooldownSeconds, db')
    | result => result

/-- `verify` -/
def verify (env : Env) (x : Moment) (phone : Phone) (code : String) (purpose : OtpPurpose)
    (db : Db) : Except ApiError Unit × Db :=
  if x.fails .findFirst then (.error .infrastructure, db)
  else
    match db.findCode phone purpose x.now with
    | none => (.error (.badRequest "Kod topilmadi yoki muddati tugagan"), db)
    | some (id, otp) =>
        if env.otpMaxAttempts ≤ otp.attempts then
          (.error (.badRequest "Urinishlar soni tugadi. Yangi kod so'rang"), db)
        else if x.fails .compare then (.error .infrastructure, db)
        else if x.fails .update then (.error .infrastructure, db)
        else if env.argon2Verify otp.codeHash code then
          (.ok (), db.updateCode id fun c => { c with usedAt := some x.now })
        else
          (.error (.badRequest "Kod noto'g'ri"),
            db.updateCode id fun c => { c with attempts := c.attempts + 1 })

/-- The states that calls of `issue` and `verify` lead to as time passes. -/
inductive Reachable (env : Env) : Time → Db → Prop
  | init (now : Time) : Reachable env now {}
  | wait {now now' : Time} {db : Db} : Reachable env now db → now ≤ now' → Reachable env now' db
  | issue {db : Db} (x : Moment) (phone : Phone) (purpose : OtpPurpose) :
      Reachable env x.now db → Reachable env x.now (issue env x phone purpose db).2
  | verify {db : Db} (x : Moment) (phone : Phone) (code : String) (purpose : OtpPurpose) :
      Reachable env x.now db → Reachable env x.now (verify env x phone code purpose db).2

/-! ### The promise -/

/-- The phone has a code that can still be accepted. -/
def LiveCode (env : Env) (now : Time) (phone : Phone) (purpose : OtpPurpose) (db : Db) : Prop :=
  ∃ c ∈ db.otpCodes, c.deleted = false ∧ c.phone = phone ∧ c.purpose = purpose ∧
    c.usedAt = none ∧ now < c.expiresAt ∧ c.attempts < env.otpMaxAttempts

/-- A limit of `enforceRateLimits` is in force: the cooldown since the last code, or the daily
cap. -/
def Limited (env : Env) (x : Moment) (phone : Phone) (purpose : OtpPurpose) (db : Db) : Prop :=
  x.fails .setNx = false ∧ 0 < env.otpResendCooldownSeconds ∧
    if (Key.live (db.cooldown purpose phone) x.now).isSome then x.fails .remainingTtl = false
    else x.fails .incr = false ∧
      ¬((Key.incr (db.daily phone) x.now).value = 1 ∧ x.fails .expire = true) ∧
      env.otpDailyCapPerPhone < (Key.incr (db.daily phone) x.now).value

/-- `ensureChallenge` reads a cooldown. -/
def Cooling (x : Moment) (phone : Phone) (purpose : OtpPurpose) (db : Db) : Prop :=
  x.fails .cooldownTtl = false ∧ 0 < Key.ttl (db.cooldown purpose phone) x.now

/-- The next code is held back. -/
def HeldBack (env : Env) (x : Moment) (phone : Phone) (purpose : OtpPurpose) (db : Db) : Prop :=
  Cooling x phone purpose db ∨ Limited env x phone purpose db

section Promise

variable {env : Env} {x : Moment} {phone : Phone} {purpose : OtpPurpose} {db db' : Db}

theorem LiveCode.congr (h : db'.otpCodes = db.otpCodes) :
    LiveCode env x.now phone purpose db' ↔ LiveCode env x.now phone purpose db := by
  unfold LiveCode
  rw [h]

/-- The limits write no code. -/
theorem enforceRateLimits_otpCodes :
    (enforceRateLimits env x phone purpose db).2.otpCodes = db.otpCodes := by
  unfold enforceRateLimits
  split
  · rfl
  · split
    · split <;> rfl
    · dsimp only
      split
      · rfl
      · split
        · rfl
        · split <;> split <;> rfl

/-- The limits throw exactly when one of them is in force. -/
theorem enforceRateLimits_cases :
    (Limited env x phone purpose db ∧
      ∃ message, (enforceRateLimits env x phone purpose db).1 = .error (.badRequest message)) ∨
    (¬Limited env x phone purpose db ∧ (enforceRateLimits env x phone purpose db).1 = .ok ()) := by
  unfold enforceRateLimits
  split
  · exact .inr ⟨by unfold Limited; grind, rfl⟩
  · split
    · split
      · exact .inr ⟨by unfold Limited; grind, rfl⟩
      · exact .inl ⟨by unfold Limited; grind, _, rfl⟩
    · dsimp only
      split
      · exact .inr ⟨by unfold Limited; grind, rfl⟩
      · split
        · exact .inr ⟨by unfold Limited; grind, rfl⟩
        · split
          · exact .inl ⟨by unfold Limited; grind, _, rfl⟩
          · exact .inr ⟨by unfold Limited; grind, rfl⟩

/-- A code that was sent can be accepted. -/
theorem send_cases (henv : env.Allowed) :
    (send env x phone purpose db).1 = .error .infrastructure ∨
    ((send env x phone purpose db).1 = .ok env.otpResendCooldownSeconds ∧
      LiveCode env x.now phone purpose (send env x phone purpose db).2) := by
  unfold send
  have hlater : x.now < x.now + env.otpTtlSeconds * 1000 :=
    lt_add_of_pos_right x.now (mul_pos henv.ttl (by decide))
  split_ifs
  · exact .inl rfl
  · exact .inl rfl
  · exact .inl rfl
  · exact .inl rfl
  · exact .inr ⟨rfl, newCode env 0 x.now phone purpose (env.argon2Hash x.code x.salt), by simp,
      rfl, rfl, rfl, rfl, hlater, henv.maxAttempts⟩

/-- The three ways of `ensureChallenge`: it reads a cooldown, it meets a limit, or it sends. -/
theorem ensureChallenge_cases (henv : env.Allowed) {result : Except ApiError ℤ × Db}
    (hresult : ensureChallenge env x phone purpose db = result) :
    (Cooling x phone purpose db ∧
      result = (.ok (Key.ttl (db.cooldown purpose phone) x.now), db)) ∨
    (¬Cooling x phone purpose db ∧ Limited env x phone purpose db ∧
      (enforceRateLimits env x phone purpose db).1.isOk = false ∧
      result = (.ok env.otpResendCooldownSeconds, (enforceRateLimits env x phone purpose db).2)) ∨
    (¬Cooling x phone purpose db ∧ ¬Limited env x phone purpose db ∧
      (enforceRateLimits env x phone purpose db).1.isOk = true ∧
      result = send env x phone purpose (enforceRateLimits env x phone purpose db).2) := by
  unfold ensureChallenge at hresult
  by_cases hcool : Cooling x phone purpose db
  · left
    simp only [hcool.1, hcool.2, Bool.false_eq_true, if_false, if_true] at hresult
    exact ⟨hcool, hresult.symm⟩
  · right
    have hread : ¬0 < if x.fails .cooldownTtl then 0
        else Key.ttl (db.cooldown purpose phone) x.now := by
      intro hread
      cases hf : x.fails .cooldownTtl
      · exact hcool ⟨hf, by simpa [hf] using hread⟩
      · simp [hf] at hread
    simp only [if_neg hread, issue] at hresult
    obtain ⟨hlim, message, hthrew⟩ | ⟨hfree, hpassed⟩ :=
      @enforceRateLimits_cases env x phone purpose db
    · left
      refine ⟨hcool, hlim, by rw [hthrew]; rfl, ?_⟩
      generalize enforceRateLimits env x phone purpose db = limits at hthrew hresult
      obtain ⟨thrown, db'⟩ := limits
      obtain rfl := hthrew
      exact hresult.symm
    · right
      refine ⟨hcool, hfree, by rw [hpassed]; rfl, ?_⟩
      generalize enforceRateLimits env x phone purpose db = limits at hpassed hresult
      obtain ⟨passed, db'⟩ := limits
      obtain rfl := hpassed
      have hsent := @send_cases env x phone purpose db' henv
      dsimp only at hresult hsent ⊢
      generalize send env x phone purpose db' = sent at hsent hresult
      obtain ⟨r, db''⟩ := sent
      obtain rfl | ⟨rfl, -⟩ := hsent
      · exact hresult.symm
      · exact hresult.symm

/-- After `ensureChallenge` the phone has a code that can be accepted exactly when no code is
held back, or one is there already. -/
theorem ensureChallenge_liveCode_iff (henv : env.Allowed) {seconds : ℤ}
    (hok : (ensureChallenge env x phone purpose db).1 = .ok seconds) :
    LiveCode env x.now phone purpose (ensureChallenge env x phone purpose db).2 ↔
      (HeldBack env x phone purpose db → LiveCode env x.now phone purpose db) := by
  unfold HeldBack
  obtain ⟨hcool, hresult⟩ | ⟨hcool, hlim, -, hresult⟩ | ⟨hcool, hfree, -, hresult⟩ :=
    @ensureChallenge_cases env x phone purpose db henv _ rfl
  · simp [hresult, hcool]
  · simp only [hresult, hlim, or_true, true_implies]
    exact LiveCode.congr enforceRateLimits_otpCodes
  · rw [hresult] at hok ⊢
    simp only [hcool, hfree, or_self, false_implies, iff_true]
    obtain hfailed | ⟨-, hlive⟩ :=
      @send_cases env x phone purpose (enforceRateLimits env x phone purpose db).2 henv
    · simp [hfailed] at hok
    · exact hlive

end Promise

/-- The limits are those of `envSchema`. -/
theorem plainHashes_allowed : plainHashes.Allowed :=
  ⟨by decide, by decide, by decide, by decide⟩

/-- A code is sent and guessed at five times. -/
def guessedAway : Db :=
  let guess (db : Db) : Db :=
    (verify plainHashes { now := 0 } "+998901234567" "000000" .signup db).2
  guess (guess (guess (guess (guess
    (issue plainHashes { now := 0, code := "123456" } "+998901234567" .signup {}).2))))

theorem guessedAway_reachable : Reachable plainHashes 10000 guessedAway := by
  have hinit : Reachable plainHashes 0 {} := .init 0
  have issued := hinit.issue { now := 0, code := "123456" } "+998901234567" .signup
  have guess {db : Db} (h : Reachable plainHashes 0 db) :=
    h.verify { now := 0 } "+998901234567" "000000" .signup
  exact .wait (guess (guess (guess (guess (guess issued))))) (by decide)

/-- Ten seconds later the user is sent to verification for the rest of the cooldown, with no
code left to accept. -/
theorem ensureChallenge_guessedAway :
    Reachable plainHashes 10000 guessedAway ∧ plainHashes.Allowed ∧
      (ensureChallenge plainHashes { now := 10000 } "+998901234567" .signup guessedAway).1 =
        .ok 35 ∧
      ¬LiveCode plainHashes 10000 "+998901234567" .signup
        (ensureChallenge plainHashes { now := 10000 } "+998901234567" .signup guessedAway).2 := by
  refine ⟨guessedAway_reachable, plainHashes_allowed, by decide +kernel, ?_⟩
  unfold LiveCode
  decide +kernel

/-- With no limit in force a new code is sent. -/
theorem ensureChallenge_fresh :
    LiveCode plainHashes 0 "+998901234567" .signup
      (ensureChallenge plainHashes { now := 0 } "+998901234567" .signup {}).2 :=
  (@ensureChallenge_liveCode_iff plainHashes { now := 0 } _ _ _ plainHashes_allowed 45
    (by decide +kernel)).2 fun hheld =>
      absurd hheld (by unfold HeldBack Cooling Limited; decide +kernel)

/-! ### The same calls, one operation after another -/

section Alone

variable {env : Env} {x : Moment}

/-- A call that runs alone comes from one point to another. -/
def Alone (env : Env) (x : Moment) (db : Db) (k : Call) (db' : Db) (k' : Call) : Prop :=
  ∃ awaited : List Awaited,
    (accounts env).after ⟨db, [k]⟩ (awaited.map fun a => .run 0 (x.at a)) = ⟨db', [k']⟩

variable {db db' db₁ : Db} {k k' k₁ : Call}

/-- The daily counter does not depend on the cooldown. -/
theorem daily_setCooldown {purpose : OtpPurpose} {phone : Phone} {key : Option Key} :
    (db.setCooldown purpose phone key).daily = db.daily := rfl

theorem Alone.refl : Alone env x db k db k := ⟨[], rfl⟩

theorem Alone.step {pc : Pc} (a : Awaited)
    (h : Auth.step env 0 (x.at a) k db = some (k.goto db₁ pc))
    (hrest : Alone env x db₁ { k with pc } db' k') : Alone env x db k db' k' := by
  obtain ⟨awaited, hafter⟩ := hrest
  refine ⟨a :: awaited, ?_⟩
  have hfire : (accounts env).fire ⟨db, [k]⟩ (.run 0 (x.at a)) = some ⟨db₁, [{ k with pc }]⟩ := by
    show ((Auth.step env 0 (x.at a) k db).map _) = _
    simp [h, Call.goto]
  rw [List.map_cons, Machine.after, hfire]
  exact hafter

/-- The next operation succeeds. -/
theorem Alone.proceeds {pc : Pc} (a : Awaited) (hk : k.isFinished = false)
    (hx : x.fails a = false) (h : proceed env 0 (x.at a) k db = some (k.goto db₁ pc))
    (hrest : Alone env x db₁ { k with pc } db' k') : Alone env x db k db' k' := by
  refine .step a ?_ hrest
  simp [Auth.step, hk, hx]
  exact h

/-- The next operation fails, and the call goes on without it. -/
theorem Alone.fails {pc : Pc} (a : Awaited) (hk : k.isFinished = false)
    (hx : x.fails a = true) (h : failed 0 k db = k.goto db₁ pc)
    (hrest : Alone env x db₁ { k with pc } db' k') : Alone env x db k db' k' := by
  refine .step a ?_ hrest
  simp [Auth.step, hk, hx]
  exact h

/-- A code that is sent ends the call. -/
theorem send_alone {op : Op} {phone : Phone} {purpose : OtpPurpose} {seconds : ℤ}
    (hsent : (send env x phone purpose db).1 = .ok seconds) :
    Alone env x db ⟨op, .hashingCode phone purpose⟩ (send env x phone purpose db).2
      ⟨op, .returned⟩ := by
  unfold send at hsent ⊢
  split_ifs at hsent ⊢ with hhash hdelete hcreate hsend
  refine .proceeds .hash rfl (by simpa using hhash) rfl ?_
  refine .proceeds .deleteMany rfl (by simpa using hdelete) rfl ?_
  refine .proceeds .create rfl (by simpa using hcreate) rfl ?_
  exact .proceeds .sendOtp rfl (by simpa using hsend) rfl .refl

/-- The limits let the call go on, or end it: `ensureChallenge` catches what they throw. -/
theorem enforceRateLimits_alone {phone₀ phone : Phone} {password : String} {purpose : OtpPurpose}
    (hrest : Alone env x (enforceRateLimits env x phone purpose db).2
      ⟨.login phone₀ password,
        if (enforceRateLimits env x phone purpose db).1.isOk then .hashingCode phone purpose
        else .returned⟩ db' k') :
    Alone env x db ⟨.login phone₀ password, .issuing phone purpose⟩ db' k' := by
  unfold enforceRateLimits at hrest
  by_cases hset : x.fails .setNx = true
  · rw [if_pos (Or.inl hset)] at hrest
    exact .fails .setNx rfl hset rfl hrest
  have hset : x.fails .setNx = false := Bool.eq_false_of_not_eq_true hset
  by_cases hzero : env.otpResendCooldownSeconds ≤ 0
  · rw [if_pos (Or.inr hzero)] at hrest
    exact .proceeds .setNx rfl hset (by simp [proceed, Auth.issue, hzero]; rfl) hrest
  rw [if_neg (by simp [hset, hzero])] at hrest
  by_cases hlive : (Key.live (db.cooldown purpose phone) x.now).isSome = true
  · rw [if_pos hlive] at hrest
    refine .proceeds .setNx rfl hset (by simp [proceed, Auth.issue, hzero, hlive]; rfl) ?_
    by_cases httl : x.fails .remainingTtl = true
    · rw [if_pos httl] at hrest
      exact .fails .remainingTtl rfl httl rfl hrest
    · rw [if_neg httl] at hrest
      exact .proceeds .remainingTtl rfl (Bool.eq_false_of_not_eq_true httl) rfl hrest
  rw [if_neg hlive] at hrest
  refine .proceeds .setNx rfl hset (by simp [proceed, Auth.issue, hzero, hlive]; rfl) ?_
  dsimp only at hrest
  by_cases hincr : x.fails .incr = true
  · rw [if_pos hincr] at hrest
    exact .fails .incr rfl hincr rfl hrest
  rw [if_neg hincr] at hrest
  have hincr : x.fails .incr = false := Bool.eq_false_of_not_eq_true hincr
  by_cases hfirst : (Key.incr (db.daily phone) x.now).value = 1
  · refine .proceeds .incr rfl hincr (by simp [proceed, daily_setCooldown, hfirst]; rfl) ?_
    by_cases hexpire : x.fails .expire = true
    · rw [if_pos ⟨hfirst, hexpire⟩] at hrest
      exact .fails .expire rfl hexpire rfl hrest
    rw [if_neg (fun h => hexpire h.2), if_pos hfirst, hfirst] at hrest
    have hexpire : x.fails .expire = false := Bool.eq_false_of_not_eq_true hexpire
    by_cases hcap : env.otpDailyCapPerPhone < 1
    · rw [if_pos hcap] at hrest
      exact .proceeds .expire rfl hexpire (by simp [proceed, checkDaily, hcap]; rfl) hrest
    · rw [if_neg hcap] at hrest
      exact .proceeds .expire rfl hexpire (by simp [proceed, checkDaily, hcap]; rfl) hrest
  · rw [if_neg (fun h => hfirst h.1), if_neg hfirst] at hrest
    by_cases hcap : env.otpDailyCapPerPhone < (Key.incr (db.daily phone) x.now).value
    · rw [if_pos hcap] at hrest
      exact .proceeds .incr rfl hincr
        (by simp [proceed, checkDaily, daily_setCooldown, hfirst, hcap]; rfl) hrest
    · rw [if_neg hcap] at hrest
      exact .proceeds .incr rfl hincr
        (by simp [proceed, checkDaily, daily_setCooldown, hfirst, hcap]; rfl) hrest

/-- With no cooldown to read, or none that could be read, a code is issued. -/
theorem issuing_alone {phone : Phone} {password : String} (hcool : ¬Cooling x phone .signup db)
    (hrest : Alone env x db ⟨.login phone password, .issuing phone .signup⟩ db' k') :
    Alone env x db ⟨.login phone password, .challenging phone⟩ db' k' := by
  by_cases hread : x.fails .cooldownTtl = true
  · exact .fails .cooldownTtl rfl hread rfl hrest
  · have hread : x.fails .cooldownTtl = false := Bool.eq_false_of_not_eq_true hread
    have hnone : ¬0 < Key.ttl (db.cooldown .signup phone) x.now := fun h => hcool ⟨hread, h⟩
    exact .proceeds .cooldownTtl rfl hread (by simp [proceed, hnone]) hrest

/-- A login of a pending user that runs alone leaves what `ensureChallenge` leaves. -/
theorem ensureChallenge_alone (henv : env.Allowed) {phone : Phone} {password : String} {seconds : ℤ}
    (hok : (ensureChallenge env x phone .signup db).1 = .ok seconds) :
    Alone env x db ⟨.login phone password, .challenging phone⟩
      (ensureChallenge env x phone .signup db).2 ⟨.login phone password, .returned⟩ := by
  obtain ⟨hcool, hresult⟩ | ⟨hcool, -, hthrew, hresult⟩ | ⟨hcool, -, hpassed, hresult⟩ :=
    @ensureChallenge_cases env x phone .signup db henv _ rfl
  · rw [hresult]
    exact .proceeds .cooldownTtl rfl hcool.1 (by simp [proceed, hcool.2]) .refl
  · rw [hresult]
    refine issuing_alone hcool (enforceRateLimits_alone ?_)
    rw [if_neg (by simp [hthrew])]
    exact .refl
  · rw [hresult] at hok ⊢
    refine issuing_alone hcool (enforceRateLimits_alone ?_)
    rw [if_pos hpassed]
    exact send_alone hok

end Alone

end OtpService

end Handly.Auth
