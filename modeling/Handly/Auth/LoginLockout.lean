import Handly.Auth.RateLimits

/-!
# The lockout of `login`

`enforceLoginRateLimit` reads the counter of wrong passwords before the password is compared, and
`registerFailedLogin` raises it after. Any number of logins for one phone can be past the check
before one of them counts, so the counter can pass the limit, by as many as run at the same time.
Once a login is admitted, the counter and the attempts that are not counted yet stay together below
the limit and the number of logins in flight (`Capped`), as a key that expires only lowers the
counter. Before that, only the logins that are already past the check can count (`slack`).

So every stretch of every run counts at most that many wrong passwords for each lockout that the
stretch reaches into, as many again for each login that succeeds and clears the counter, and one
for each login that is past the check at its beginning.
-/

namespace Handly.Auth

open Interleaving

/-! ### The attempts on a phone -/

/-- The call has passed the check with a password for this phone, and has not counted it. -/
def Call.tries (phone : Phone) (k : Call) : Bool :=
  match k.op, k.pc with
  | .login p _, .readingUser | .login p _, .comparingPassword _ _ | .login p _, .failedLogin =>
      p = phone
  | _, _ => false

/-- The call counts a wrong password for this phone next. -/
def Call.isWrong (phone : Phone) (k : Call) : Bool :=
  match k.op, k.pc with
  | .login p _, .failedLogin => p = phone
  | _, _ => false

/-- The call clears the counter of this phone next. -/
def Call.isRight (phone : Phone) (k : Call) : Bool :=
  match k.op, k.pc with
  | .login p _, .clearingFailures _ _ => p = phone
  | _, _ => false

/-- The next operation of the call is a Redis command on the counter of this phone. -/
def Call.usesCounter (phone : Phone) (k : Call) : Bool :=
  match k.op, k.pc with
  | .login p _, .start | .login p _, .lockedOut | .login p _, .failedLogin
  | .login p _, .expiringFailures | .login p _, .clearingFailures _ _ => p = phone
  | _, _ => false

/-- A wrong password is counted in this transition. -/
def countsWrong (phone : Phone) (t : Transition Db Call Input) : Bool :=
  t.caller.any (Call.isWrong phone)

/-- A right password clears the counter in this transition. -/
def clearsCounter (phone : Phone) (t : Transition Db Call Input) : Bool :=
  t.caller.any (Call.isRight phone)

/-- Redis does not fail for the logins of this phone. -/
def RedisAnswers (phone : Phone) (t : Transition Db Call Input) : Prop :=
  ∀ i x k, t.event = .run i x → t.pre.calls[i]? = some k → k.usesCounter phone = true →
    x.fail = false

/-! ### One operation -/

/-- What an operation does to the counter of a phone. -/
inductive Attempt (env : Env) (phone : Phone) (now : Time) (k : Call) (key : Option Key) :
    Call → Option Key → Prop
  | admitted {k' : Call} : k.tries phone = false → k.isWrong phone = false →
      k.isRight phone = false → Key.get key now < env.loginMaxAttempts →
      Attempt env phone now k key k' key
  | counted {k' : Call} : k.isWrong phone = true → k.isRight phone = false →
      k.tries phone = true → k'.tries phone = false →
      Attempt env phone now k key k' (some (Key.incr key now))
  | expires {k' : Call} : k.isWrong phone = false → k.isRight phone = false →
      k'.tries phone = false →
      Attempt env phone now k key k' (Key.expire key now env.loginLockoutSeconds)
  | cleared {k' : Call} : k.isWrong phone = false → k.isRight phone = true →
      k'.tries phone = false → Attempt env phone now k key k' none
  | other {k' : Call} : k.isWrong phone = false → k.isRight phone = false →
      (k'.tries phone = true → k.tries phone = true) → Attempt env phone now k key k' key

section Steps

variable {env : Env} {me : ℕ} {x : Input} {db : Db} {k : Call} {o : Outcome Db Call}
  {phone : Phone}

theorem tries_eq_true {op : Op} {pc : Pc} : Call.tries phone ⟨op, pc⟩ = true ↔
    (∃ password, op = .login phone password) ∧
      (pc = .readingUser ∨ (∃ id user, pc = .comparingPassword id user) ∨ pc = .failedLogin) := by
  cases op with
  | login p password => cases pc <;> simp [Call.tries]
  | _ => simp [Call.tries]

/-- The call stands at a command on the counter of some phone. -/
inductive Call.AtCounter : Call → Prop
  | start {p : Phone} {password : String} : Call.AtCounter ⟨.login p password, .start⟩
  | lockedOut {op : Op} : Call.AtCounter ⟨op, .lockedOut⟩
  | failedLogin {op : Op} : Call.AtCounter ⟨op, .failedLogin⟩
  | expiringFailures {op : Op} : Call.AtCounter ⟨op, .expiringFailures⟩
  | clearingFailures {op : Op} {id : UserId} {user : User} :
      Call.AtCounter ⟨op, .clearingFailures id user⟩

/-- A login of another phone leaves this one's attempts alone. -/
theorem tries_of_ne {p : Phone} (hne : p ≠ phone) (password : String) (pc : Pc) :
    Call.tries phone ⟨.login p password, pc⟩ = false ∧
      Call.isWrong phone ⟨.login p password, pc⟩ = false ∧
        Call.isRight phone ⟨.login p password, pc⟩ = false := by
  refine ⟨?_, ?_, ?_⟩
  · cases pc <;> simp [Call.tries, hne]
  · cases pc <;> simp [Call.isWrong, hne]
  · cases pc <;> simp [Call.isRight, hne]

theorem Admitted.tries_eq {id : UserId} {user : User} {pc : Pc} {p q : Phone} {password : String}
    (h : Admitted q id user pc) : Call.tries phone ⟨.login p password, pc⟩ = false := by
  cases h <;> rfl

/-- A login at a Redis command, when Redis answers. -/
theorem attempt_of_login {password : String} {pc : Pc}
    (hk : Call.AtCounter ⟨.login phone password, pc⟩) (hfail : x.fail = false)
    (h : step env me x ⟨.login phone password, pc⟩ db = some o) :
    Attempt env phone x.now ⟨.login phone password, pc⟩ (db.loginFail phone) o.call
      (o.store.loginFail phone) := by
  cases hk with
  | start =>
      simp only [step, Call.isFinished, hfail, proceed, begin, Bool.false_eq_true, if_false] at h
      split at h
      · rw [← Option.some.inj h]
        exact .other rfl rfl id
      · rename_i hlow
        rw [← Option.some.inj h]
        exact .admitted rfl rfl rfl (Nat.lt_of_not_le hlow)
  | lockedOut =>
      simp only [step, Call.isFinished, hfail, proceed, Bool.false_eq_true, if_false] at h
      rw [← Option.some.inj h]
      exact .other rfl rfl id
  | failedLogin =>
      simp only [step, Call.isFinished, hfail, proceed, Bool.false_eq_true, if_false] at h
      rw [← Option.some.inj h]
      simp only [Call.goto, Db.setLoginFail, Function.update_self]
      refine .counted (by simp [Call.isWrong]) rfl (by simp [Call.tries]) ?_
      split <;> rfl
  | expiringFailures =>
      simp only [step, Call.isFinished, hfail, proceed, Bool.false_eq_true, if_false] at h
      rw [← Option.some.inj h]
      simp only [Call.goto, Db.setLoginFail, Function.update_self]
      exact .expires rfl rfl rfl
  | @clearingFailures _ id user =>
      simp only [step, Call.isFinished, hfail, proceed, Bool.false_eq_true, if_false] at h
      obtain ⟨pc', hadm, heq⟩ := admitted_eq ⟨.login phone password, .clearingFailures id user⟩
        (db.setLoginFail phone none) phone id user
      rw [heq] at h
      rw [← Option.some.inj h]
      simp only [Call.goto, Db.setLoginFail, Function.update_self]
      exact .cleared rfl (by simp [Call.isRight]) hadm.tries_eq

/-- A login of another phone at a Redis command. -/
theorem loginFail_of_ne {p : Phone} {password : String} {pc : Pc} (hne : phone ≠ p)
    (hk : Call.AtCounter ⟨.login p password, pc⟩)
    (h : step env me x ⟨.login p password, pc⟩ db = some o) :
    o.store.loginFail phone = db.loginFail phone := by
  have hset : ∀ key, (db.setLoginFail p key).loginFail phone = db.loginFail phone := by
    intro key
    simp only [Db.setLoginFail]
    exact Function.update_of_ne hne key db.loginFail
  unfold step at h
  rw [if_neg (by cases hk <;> simp [Call.isFinished])] at h
  split at h
  · rw [← Option.some.inj h]
    cases hk with
    | clearingFailures =>
        obtain ⟨pc', -, heq⟩ := admitted_eq _ db p _ _
        simp only [failed]
        rw [heq]
        rfl
    | _ => rfl
  · cases hk with
    | start =>
        simp only [proceed, begin] at h
        split at h <;> (rw [← Option.some.inj h]; rfl)
    | lockedOut =>
        simp only [proceed] at h
        rw [← Option.some.inj h]
        rfl
    | failedLogin | expiringFailures =>
        simp only [proceed] at h
        rw [← Option.some.inj h]
        exact hset _
    | clearingFailures =>
        simp only [proceed] at h
        obtain ⟨pc', -, heq⟩ := admitted_eq _ (db.setLoginFail p none) p _ _
        rw [heq] at h
        rw [← Option.some.inj h]
        exact hset none

/-- A call that is no login does not go on from a Redis command, unless it fails. -/
theorem loginFail_of_not_login {op : Op} {pc : Pc} (hop : ∀ p password, op ≠ .login p password)
    (hk : Call.AtCounter ⟨op, pc⟩) (h : step env me x ⟨op, pc⟩ db = some o) :
    o.store.loginFail phone = db.loginFail phone := by
  unfold step at h
  rw [if_neg (by cases hk <;> simp [Call.isFinished])] at h
  split at h
  · rw [← Option.some.inj h]
    cases op with
    | login p password => exact absurd rfl (hop p password)
    | _ => cases hk <;> rfl
  · cases op with
    | login p password => exact absurd rfl (hop p password)
    | _ => cases hk <;> simp [proceed] at h

/-- The operations that are no commands on a counter. -/
theorem Stmt.attempt (h : Stmt env me x db k o) (hk : ¬ k.AtCounter) (phone : Phone) :
    o.store.loginFail = db.loginFail ∧ k.isWrong phone = false ∧ k.isRight phone = false ∧
      (o.call.tries phone = true → k.tries phone = true) := by
  have hwrong : k.isWrong phone = false := by
    obtain ⟨op, pc⟩ := k
    cases pc with
    | failedLogin => exact absurd .failedLogin hk
    | _ => cases op <;> rfl
  have hright : k.isRight phone = false := by
    obtain ⟨op, pc⟩ := k
    cases pc with
    | clearingFailures => exact absurd .clearingFailures hk
    | _ => cases op <;> rfl
  cases h with
  | reads hr =>
      refine ⟨rfl, hwrong, hright, ?_⟩
      cases hr with
      | locked | attempts => exact absurd .start hk
      | lockout | lockoutFails => exact absurd .lockedOut hk
      | uncounted => exact absurd .failedLogin hk
      | unexpired => exact absurd .expiringFailures hk
      | uncleared => exact absurd .clearingFailures hk
      | userRead | userUnknown | passwordDiffers => simp [tries_eq_true]
      | limited hlim => cases hlim <;> simp [tries_eq_true]
      | _ => simp [tries_eq_true]
  | aside ha =>
      refine ⟨?_, hwrong, hright, ?_⟩
      · cases ha with
        | countFailure => exact absurd .failedLogin hk
        | expireFailures => exact absurd .expiringFailures hk
        | clearFailures => exact absurd .clearingFailures hk
        | _ => rfl
      · cases ha with
        | countOver _ hlim | expireOver _ hlim => cases hlim <;> simp [tries_eq_true]
        | countFailure => exact absurd .failedLogin hk
        | expireFailures => exact absurd .expiringFailures hk
        | clearFailures => exact absurd .clearingFailures hk
        | _ => simp [tries_eq_true]
  | _ => exact ⟨rfl, hwrong, hright, by simp [tries_eq_true]⟩

theorem attempt_of_step (phone : Phone) (h : step env me x k db = some o)
    (hredis : k.usesCounter phone = true → x.fail = false) :
    Attempt env phone x.now k (db.loginFail phone) o.call (o.store.loginFail phone) := by
  have hstmt := step_cases h
  by_cases hk : k.AtCounter
  · obtain ⟨op, pc⟩ := k
    obtain ⟨db', ⟨op', pc'⟩, spawned⟩ := o
    obtain rfl : op' = op := hstmt.op_eq
    by_cases hlogin : ∃ p password, op' = .login p password
    · obtain ⟨p, password, rfl⟩ := hlogin
      by_cases hp : p = phone
      · subst hp
        exact attempt_of_login hk (hredis (by cases hk <;> simp [Call.usesCounter])) h
      · rw [loginFail_of_ne (Ne.symm hp) hk h]
        obtain ⟨-, hwrong, hright⟩ := tries_of_ne hp password pc
        refine .other hwrong hright fun htries => ?_
        simp [(tries_of_ne hp password pc').1] at htries
    · push Not at hlogin
      rw [loginFail_of_not_login hlogin hk h]
      refine .other ?_ ?_ fun htries => ?_
      · cases op' with
        | login p password => exact absurd rfl (hlogin p password)
        | _ => rfl
      · cases op' with
        | login p password => exact absurd rfl (hlogin p password)
        | _ => rfl
      · obtain ⟨⟨password, rfl⟩, -⟩ := tries_eq_true.mp htries
        exact absurd rfl (hlogin phone password)
  · obtain ⟨hsame, hwrong, hright, htries⟩ := hstmt.attempt hk phone
    rw [hsame]
    exact .other hwrong hright htries

end Steps

/-! ### Runs -/

/-- The counter and the attempts that are not counted yet, if there are any, are together within
a cap. -/
def Capped (phone : Phone) (cap : ℕ) (c : Config Db Call) (now : Time) : Prop :=
  c.calls.countP (Call.tries phone) = 0 ∨
    Key.get (c.store.loginFail phone) now + c.calls.countP (Call.tries phone) ≤ cap

instance (phone : Phone) (cap : ℕ) (c : Config Db Call) (now : Time) :
    Decidable (Capped phone cap c now) :=
  inferInstanceAs (Decidable (_ ∨ _))

section Runs

variable {env : Env} {phone : Phone} {cap n : ℕ} {start stop : Time} {c c' : Config Db Call}
  {t : Transition Db Call Input} {ts : List (Transition Db Call Input)} {key : Option Key}
  {now now' : Time}

theorem get_le_of_le (hle : now ≤ now') : Key.get key now' ≤ Key.get key now := by
  unfold Key.get
  cases hlater : Key.live key now' with
  | none => exact Nat.zero_le _
  | some k =>
      obtain ⟨rfl, hexp⟩ := live_eq_some.mp hlater
      have hlive : Key.live (some k) now = some k :=
        live_eq_some.mpr ⟨rfl, fun t ht => lt_of_le_of_lt hle (hexp t ht)⟩
      rw [hlive]

theorem incr_value : (Key.incr key now).value = Key.get key now + 1 := by
  unfold Key.incr Key.get
  cases Key.live key now <;> rfl

theorem get_incr_le : Key.get (some (Key.incr key now)) now ≤ Key.get key now + 1 := by
  rw [← incr_value]
  unfold Key.get
  cases hlive : Key.live (some (Key.incr key now)) now with
  | none => exact Nat.zero_le _
  | some k =>
      obtain ⟨hk, -⟩ := live_eq_some.mp hlive
      rw [Option.some.inj hk]
      exact Nat.le_refl _

theorem get_expire_le {seconds : ℤ} :
    Key.get (Key.expire key now seconds) now ≤ Key.get key now := by
  unfold Key.get Key.expire
  cases hlive : Key.live key now with
  | none => exact Nat.zero_le _
  | some k =>
      rw [Option.map_some]
      cases hlater : Key.live (some { k with expiresAt := some (now + seconds * 1000) }) now with
      | none => exact Nat.zero_le _
      | some k' =>
          obtain ⟨hk, -⟩ := live_eq_some.mp hlater
          rw [← Option.some.inj hk]
          exact Nat.le_refl _

/-- An attempt of a call keeps the cap, as long as there are not too many. -/
theorem Capped.of_attempt {i : ℕ} {k k' : Call} {store : Db}
    (h : Capped phone (env.loginMaxAttempts - 1 + n) c now) (hk : c.calls[i]? = some k)
    (hattempt : Attempt env phone now k (c.store.loginFail phone) k' (store.loginFail phone))
    (hfew : (c.calls.set i k').countP (Call.tries phone) ≤ n) :
    Capped phone (env.loginMaxAttempts - 1 + n) ⟨store, c.calls.set i k'⟩ now := by
  have hset := @Table.countP_set _ (Call.tries phone) _ _ _ k' hk
  generalize hkey : store.loginFail phone = key' at hattempt
  unfold Capped at h ⊢
  dsimp only at hfew ⊢
  rw [hkey]
  cases hattempt with
  | admitted htries _ _ hlow =>
      refine Or.inr ?_
      omega
  | counted _ _ htries htries' =>
      have hincr := @get_incr_le (c.store.loginFail phone) now
      simp only [htries, htries', if_true, Bool.false_eq_true, if_false] at hset
      omega
  | expires _ _ htries' =>
      have hexp := @get_expire_le (c.store.loginFail phone) now env.loginLockoutSeconds
      simp only [htries', Bool.false_eq_true, if_false] at hset
      omega
  | cleared _ _ htries' =>
      refine Or.inr ?_
      have hzero : Key.get none now = 0 := rfl
      omega
  | other _ _ htries =>
      have hle : (if k'.tries phone = true then 1 else 0) ≤
          if k.tries phone = true then 1 else 0 := by
        split
        · rename_i htrue
          rw [if_pos (htries htrue)]
        · exact Nat.zero_le _
      omega

/-- The attempts in flight that may still be counted above the cap. There are none once a login
has been admitted. -/
def slack (phone : Phone) (cap : ℕ) (c : Config Db Call) (now : Time) : ℕ :=
  if Capped phone cap c now then 0 else c.calls.countP (Call.tries phone)

theorem slack_le_tries : slack phone cap c now ≤ c.calls.countP (Call.tries phone) := by
  unfold slack
  split
  · exact Nat.zero_le _
  · exact Nat.le_refl _

theorem slack_passes (hle : now ≤ now') : slack phone cap c now' ≤ slack phone cap c now := by
  by_cases hcapped : Capped phone cap c now
  · have hlater : Capped phone cap c now' := by
      have hget := @get_le_of_le (c.store.loginFail phone) now now' hle
      unfold Capped at hcapped ⊢
      omega
    rw [slack, if_pos hlater]
    exact Nat.zero_le _
  · rw [slack, slack, if_neg hcapped]
    exact slack_le_tries

theorem tries_of_isWrong {k : Call} (h : k.isWrong phone = true) : k.tries phone = true := by
  obtain ⟨op, pc⟩ := k
  cases op with
  | login p password => cases pc <;> simp_all [Call.isWrong, Call.tries]
  | _ => simp [Call.isWrong] at h

/-- An attempt that is counted above the cap is one of those. -/
theorem slack_of_attempt {i : ℕ} {k k' : Call} {store : Db} (hk : c.calls[i]? = some k)
    (hattempt : Attempt env phone now k (c.store.loginFail phone) k' (store.loginFail phone))
    (hfew : (c.calls.set i k').countP (Call.tries phone) ≤ n) :
    (if k.isWrong phone && !decide (Key.get (c.store.loginFail phone) now <
        env.loginMaxAttempts - 1 + n) then 1 else 0) +
        slack phone (env.loginMaxAttempts - 1 + n) ⟨store, c.calls.set i k'⟩ now ≤
      slack phone (env.loginMaxAttempts - 1 + n) c now := by
  by_cases hcapped : Capped phone (env.loginMaxAttempts - 1 + n) c now
  · have hcapped' := hcapped.of_attempt hk hattempt hfew
    have hwithin : k.isWrong phone = true → Key.get (c.store.loginFail phone) now <
        env.loginMaxAttempts - 1 + n := by
      intro hwrong
      have hpos : 0 < c.calls.countP (Call.tries phone) :=
        List.countP_pos_iff.mpr ⟨k, List.mem_of_getElem? hk, tries_of_isWrong hwrong⟩
      unfold Capped at hcapped
      omega
    rw [slack, slack, if_pos hcapped, if_pos hcapped']
    cases hwrong : k.isWrong phone with
    | false => simp
    | true => simp [hwithin hwrong]
  · have hset := @Table.countP_set _ (Call.tries phone) _ _ _ k' hk
    have hless := @slack_le_tries phone (env.loginMaxAttempts - 1 + n)
      ⟨store, c.calls.set i k'⟩ now
    rw [slack, slack, if_neg hcapped]
    rw [slack] at hless
    generalize hkey : store.loginFail phone = key' at hattempt
    cases hattempt with
    | admitted htries hwrong _ hlow =>
        -- The counter is below the limit: from here on the cap holds.
        have hcapped' : Capped phone (env.loginMaxAttempts - 1 + n)
            ⟨store, c.calls.set i k'⟩ now := by
          unfold Capped
          dsimp only
          rw [hkey]
          omega
        simp [hwrong, if_pos hcapped']
    | counted hwrong _ htries htries' =>
        simp only [htries, htries', if_true, Bool.false_eq_true, if_false] at hset hless
        dsimp only at hless ⊢
        split <;> omega
    | expires hwrong _ htries' | cleared hwrong _ htries' =>
        simp only [hwrong, htries', Bool.false_and, Bool.false_eq_true, if_false] at hset ⊢
        dsimp only at hless ⊢
        omega
    | other hwrong _ htries =>
        have hle : (if k'.tries phone = true then 1 else 0) ≤
            if k.tries phone = true then 1 else 0 := by
          split
          · rename_i htrue
            rw [if_pos (htries htrue)]
          · exact Nat.zero_le _
        simp only [hwrong, Bool.false_and, Bool.false_eq_true, if_false]
        dsimp only at hless ⊢
        omega

/-- What an attempt takes from the counter. -/
theorem Attempt.budget_le (cap : ℕ) {k k' : Call} {key key' : Option Key}
    (h : Attempt env phone now k key k' key') (hlockout : 0 < env.loginLockoutSeconds)
    (hstop : now ≤ stop) :
    (if k.isWrong phone && decide (Key.get key now < cap) then 1 else 0) +
        counterBudget env.loginLockoutSeconds cap stop key' now ≤
      counterBudget env.loginLockoutSeconds cap stop key now +
        if k.isRight phone then cap else 0 := by
  cases h with
  | counted hwrong hright =>
      have hone := counterBudget_incr cap key hlockout hstop
      rw [incr_value] at hone
      simpa only [hwrong, hright, Bool.true_and, decide_eq_true_eq, Nat.lt_iff_add_one_le,
        Bool.false_eq_true, if_false, Nat.add_zero] using hone
  | expires hwrong hright =>
      simpa [hwrong, hright] using counterBudget_expire_le hlockout
  | cleared hwrong hright =>
      simpa [hwrong, hright] using counterBudget_none_le hlockout hstop
  | admitted _ hwrong hright | other hwrong hright => simp [hwrong, hright]

/-- The operation that a transition runs, and what it means for the counter. -/
theorem attempt_of_fires (ht : (accounts env).Fires t) (hredis : RedisAnswers phone t) {i : ℕ}
    {x : Input} (he : t.event = .run i x) :
    ∃ (k : Call) (o : Outcome Db Call), t.pre.calls[i]? = some k ∧
      t.post = ⟨o.store, t.pre.calls.set i o.call⟩ ∧
      Attempt env phone x.now k (t.pre.store.loginFail phone) o.call (o.store.loginFail phone) ∧
      countsWrong phone t = k.isWrong phone ∧ clearsCounter phone t = k.isRight phone := by
  obtain ⟨k, o, hk, ho, hpost, -⟩ := ht.of_event he
  rw [(step_cases ho).spawned_eq_nil, List.append_nil] at hpost
  refine ⟨k, o, hk, hpost, attempt_of_step phone ho (hredis i x k he hk), ?_, ?_⟩
  · rw [countsWrong, Transition.caller_eq he hk, Option.any_some]
  · rw [clearsCounter, Transition.caller_eq he hk, Option.any_some]

/-- **The lockout bounds the guesses.** In any stretch of a run in which Redis answers, however
the logins for a phone overlap, the wrong passwords that are counted for it are at most as many as
the limit and the logins that run at the same time allow, in each lockout window that the stretch
reaches into and after each right password that clears the counter, and as many more as there were
logins past the check when the stretch began. -/
theorem guesses_within_lockout (hlockout : 0 < env.loginLockoutSeconds)
    (hrun : (accounts env).Run c ts c') (hclock : Clocked Input.now start stop ts)
    (hredis : ∀ t ∈ ts, RedisAnswers phone t)
    (hfew : ∀ t ∈ ts, t.post.calls.countP (Call.tries phone) ≤ n) :
    ts.countP (countsWrong phone) ≤
      (env.loginMaxAttempts - 1 + n) *
        (windows (env.loginLockoutSeconds * 1000) start stop +
          (if (Key.live (c.store.loginFail phone) start).isSome then 1 else 0) +
          ts.countP (clearsCounter phone)) + c.calls.countP (Call.tries phone) := by
  have hlimit := hrun.countP_add_budget_le
    (fun d τ => counterBudget env.loginLockoutSeconds (env.loginMaxAttempts - 1 + n) stop
      (d.store.loginFail phone) τ + slack phone (env.loginMaxAttempts - 1 + n) d τ)
    (countsWrong phone) (clearsCounter phone) (env.loginMaxAttempts - 1 + n)
    (fun d τ τ' hle => Nat.add_le_add (counterBudget_passes hlockout hle) (slack_passes hle))
    ?_ ?_ hclock (max start stop)
    (le_max_left _ _) fun τ hτ => (hclock.within τ hτ).2.trans (le_max_right _ _)
  · have hbudget := @counterBudget_le (c.store.loginFail phone) start stop
      env.loginLockoutSeconds (env.loginMaxAttempts - 1 + n) hlockout
    have hslack := @slack_le_tries phone (env.loginMaxAttempts - 1 + n) c start
    rw [Nat.mul_add]
    omega
  · intro t ht htime
    rcases (hrun.fires t ht).cases with ⟨k, he, hk, hpost⟩ | ⟨i, x, k, o, he, -⟩
    · refine ⟨by simp [countsWrong, Transition.caller, he], fun τ => ?_⟩
      have hidle : k.tries phone = false := by
        obtain ⟨op, pc⟩ := k
        cases pc with
        | start => cases op <;> rfl
        | _ => simp [accounts, Call.isStart] at hk
      rw [hpost]
      simp [slack, Capped, List.countP_append, hidle]
    · simp [Transition.time, he] at htime
  · intro t ht τ htime hstop
    rcases (hrun.fires t ht).cases with ⟨k, he, -⟩ | ⟨i, x, k, o, he, -⟩
    · simp [Transition.time, he] at htime
    · obtain rfl : x.now = τ := by simpa [Transition.time, he] using htime
      obtain ⟨k, o, hk, hpost, hattempt, hwrong, hright⟩ :=
        attempt_of_fires (hrun.fires t ht) (hredis t ht) he
      have hless := hfew t ht
      rw [hpost] at hless
      have hbudget := hattempt.budget_le (env.loginMaxAttempts - 1 + n) hlockout hstop
      have hslack := slack_of_attempt hk hattempt hless
      rw [hwrong, hright, hpost]
      dsimp only
      cases hcounts : k.isWrong phone with
      | false =>
          simp only [hcounts, Bool.false_and, Bool.false_eq_true, if_false] at hbudget hslack ⊢
          omega
      | true =>
          by_cases hlow : Key.get (t.pre.store.loginFail phone) x.now <
              env.loginMaxAttempts - 1 + n <;>
            simp [hcounts, hlow] at hbudget hslack ⊢ <;> omega

end Runs

/-- Two attempts for a phone are allowed. -/
def twoAttempts : Env := { plainHashes with loginMaxAttempts := 2 }

/-- Three logins pass the check before one of them counts its wrong password; a fourth one is
locked out. -/
def guessedAtOnce : List (Event Call Input) :=
  play 0 1 (.login "+998901234567" "first") { now := 0 } ++
    play 1 1 (.login "+998901234567" "second") { now := 0 } ++
    play 2 1 (.login "+998901234567" "third") { now := 0 } ++
    [.run 0 { now := 1 }, .run 1 { now := 1 }, .run 2 { now := 1 }, .run 0 { now := 2 },
      .run 1 { now := 2 }, .run 2 { now := 2 }, .run 0 { now := 3 }, .run 0 { now := 3 },
      .run 1 { now := 3 }, .run 2 { now := 3 }] ++
    play 3 2 (.login "+998901234567" "fourth") { now := 4 }

/-- A wrong password more than allowed is counted, which is within the bound. -/
theorem guesses_within_lockout_guessedAtOnce :
    ((accounts twoAttempts).trace ⟨registered, []⟩ guessedAtOnce).countP
        (countsWrong "+998901234567") = 3 ∧
      ((accounts twoAttempts).trace ⟨registered, []⟩ guessedAtOnce).countP
          (countsWrong "+998901234567") ≤
        (2 - 1 + 3) * (windows 900000 0 4 + 0 +
          ((accounts twoAttempts).trace ⟨registered, []⟩ guessedAtOnce).countP
            (clearsCounter "+998901234567")) + 0 :=
  ⟨by decide +kernel,
    guesses_within_lockout (by decide)
      ((accounts twoAttempts).run_trace ⟨registered, []⟩ guessedAtOnce)
      ⟨by decide +kernel, by decide +kernel⟩
      (fun t ht i x k he _ _ => by
        have hmem := (accounts twoAttempts).event_mem_of_mem_trace ht
        rw [he] at hmem
        have hall : ∀ e ∈ guessedAtOnce, ∀ i x, e = Event.run i x → x.fail = false := by
          simp [guessedAtOnce, play]
        exact hall _ hmem i x rfl)
      (by decide +kernel)⟩

end Handly.Auth
