import Handly.Auth.Effects
import Handly.Auth.KeyBudgets

/-!
# The limits of `OtpService`

A code is sent when `enforceRateLimits` lets its call through. Two Redis keys decide on it: the
cooldown of the phone and the purpose, and the daily counter of the phone. `INCR` and `EXPIRE`
of the counter are two commands, and any number of calls run between them and before the code is
written.

Each key is a budget against the clock (`cooldownBudget`, `counterBudget`): how many codes it can
still let through up to an instant. A code that is let through takes one from it, unless a Redis
command of `enforceRateLimits` has failed for its call. So every stretch of every run sends at most
as many codes as the limits allow, as there were calls let through before it, and as commands of
`enforceRateLimits` have failed in it. With a cooldown of 0 seconds that is every one that would
set it, as Redis takes no such expiry.
-/

namespace Handly.Auth

open Interleaving

/-! ### The codes of a phone -/

/-- How far a call has come with a code that it is sending. -/
inductive Progress
  /-- In `enforceRateLimits`, before the cooldown is set. -/
  | asking
  /-- The cooldown is set. -/
  | cooled
  /-- The daily counter is raised and within the cap. -/
  | admitted
  deriving DecidableEq

/-- A code that is being sent. -/
structure Sending where
  phone : Phone
  purpose : OtpPurpose
  progress : Progress
  deriving DecidableEq

/-- The code that a call is sending. -/
def Pc.sends : Pc → Option Sending
  | .issuing phone purpose | .coolingDown phone purpose => some ⟨phone, purpose, .asking⟩
  | .counting phone purpose => some ⟨phone, purpose, .cooled⟩
  | .expiringCount phone purpose | .hashingCode phone purpose | .deletingCodes phone purpose _
  | .creatingCode phone purpose _ => some ⟨phone, purpose, .admitted⟩
  | _ => none

/-- The codes that are counted: all of a phone, or those for one purpose. -/
structure Codes where
  phone : Phone
  purpose : Option OtpPurpose := none
  deriving DecidableEq

/-- The code of this phone and purpose is one of them. -/
def Codes.has (codes : Codes) (phone : Phone) (purpose : OtpPurpose) : Bool :=
  codes.phone = phone ∧ codes.purpose.all fun p => p = purpose

/-- How often such a code has been written, with those that were deleted since. -/
def Codes.written (codes : Codes) (db : Db) : ℕ :=
  db.otpCodes.countP fun c => codes.has c.phone c.purpose

/-- The call may write such a code: the limit of all codes of a phone, or the cooldown of those
for one purpose, has let it through. -/
def Codes.permits (codes : Codes) (k : Call) : Bool :=
  k.pc.sends.any fun s => codes.has s.phone s.purpose &&
    (s.progress = .admitted || s.progress = .cooled && codes.purpose.isSome)

/-- The limit lets a call through in this transition. -/
def Codes.letsThrough (codes : Codes) (t : Transition Db Call Input) : Bool :=
  t.callerAfter.any codes.permits && !t.caller.any codes.permits

/-- The next operation is a Redis command of `enforceRateLimits`, and it fails: Redis does not
answer, or it refuses a cooldown of 0 seconds. -/
def Pc.limitFails (env : Env) (x : Input) : Pc → Bool
  | .issuing _ _ => x.fail || env.otpResendCooldownSeconds ≤ 0
  | .coolingDown _ _ | .counting _ _ | .expiringCount _ _ => x.fail
  | _ => false

/-- A Redis command of `enforceRateLimits` fails for a call that sends such a code. -/
def Codes.failsOpen (codes : Codes) (env : Env) (t : Transition Db Call Input) : Bool :=
  match t.event with
  | .start _ => false
  | .run i x =>
      t.pre.calls[i]?.any fun k =>
        k.pc.limitFails env x && k.pc.sends.any fun s => codes.has s.phone s.purpose

/-- A day in milliseconds, the expiry of the daily counter. -/
def day : ℤ := 86400 * 1000

section Steps

variable {env : Env} {me : ℕ} {x : Input} {db : Db} {op : Op} {pc : Pc} {o : Outcome Db Call}
  {phone : Phone} {purpose : OtpPurpose} {codes : Codes}

/-! ### One operation -/

/-- The call is in `enforceRateLimits`. -/
inductive Pc.Enforces (phone : Phone) (purpose : OtpPurpose) : Pc → Prop
  | issuing : Pc.Enforces phone purpose (.issuing phone purpose)
  | coolingDown : Pc.Enforces phone purpose (.coolingDown phone purpose)
  | counting : Pc.Enforces phone purpose (.counting phone purpose)
  | expiringCount : Pc.Enforces phone purpose (.expiringCount phone purpose)

/-- What an operation of `enforceRateLimits` does to its keys, and where it leads. -/
inductive Enforced (env : Env) (x : Input) (db : Db) (op : Op) (phone : Phone)
    (purpose : OtpPurpose) : Pc → Db → Pc → Prop
  | unlimited {pc : Pc} : pc.limitFails env x = true →
      Enforced env x db op phone purpose pc db (.hashingCode phone purpose)
  | cools : 0 < env.otpResendCooldownSeconds →
      Key.live (db.cooldown purpose phone) x.now = none →
      Enforced env x db op phone purpose (.issuing phone purpose)
        (db.setCooldown purpose phone
          (some { value := 1, expiresAt := some (x.now + env.otpResendCooldownSeconds * 1000) }))
        (.counting phone purpose)
  | tooEarly : Enforced env x db op phone purpose (.issuing phone purpose) db
      (.coolingDown phone purpose)
  | refused {pc : Pc} : Limited op pc →
      Enforced env x db op phone purpose (.coolingDown phone purpose) db pc
  | counts {pc : Pc} : (Key.incr (db.daily phone) x.now).value ≤ env.otpDailyCapPerPhone →
      pc = .expiringCount phone purpose ∨ pc = .hashingCode phone purpose →
      Enforced env x db op phone purpose (.counting phone purpose)
        (db.setDaily phone (some (Key.incr (db.daily phone) x.now))) pc
  | exceeded {pc : Pc} : Limited op pc →
      Enforced env x db op phone purpose (.counting phone purpose)
        (db.setDaily phone (some (Key.incr (db.daily phone) x.now))) pc
  | expires : Enforced env x db op phone purpose (.expiringCount phone purpose)
      (db.setDaily phone (Key.expire (db.daily phone) x.now 86400)) (.hashingCode phone purpose)

/-- The check on the daily counter. -/
theorem checkDaily_cases (env : Env) (phone : Phone) (purpose : OtpPurpose) (k : Call) (db : Db)
    (count : ℕ) :
    (env.otpDailyCapPerPhone < count ∧ ∃ pc, Limited k.op pc ∧
        checkDaily env k db phone purpose count = k.goto db pc) ∨
      (count ≤ env.otpDailyCapPerPhone ∧
        checkDaily env k db phone purpose count = k.goto db (.hashingCode phone purpose)) := by
  unfold checkDaily
  split
  · rename_i hover
    obtain ⟨pc, hpc, heq⟩ := limited_eq k db "Kunlik SMS chegarasi tugadi. Ertaga urinib ko'ring"
    exact Or.inl ⟨hover, pc, hpc, heq⟩
  · rename_i hcap
    exact Or.inr ⟨Nat.le_of_not_lt hcap, rfl⟩

theorem enforced_of_step (hcap : 0 < env.otpDailyCapPerPhone)
    (hpc : Pc.Enforces phone purpose pc) (h : step env me x ⟨op, pc⟩ db = some o) :
    Enforced env x db op phone purpose pc o.store o.call.pc := by
  by_cases hfail : x.fail = true
  · cases hpc <;>
      (simp only [step, Call.isFinished, hfail, failed, Bool.false_eq_true, if_false, if_true,
        Option.some.injEq] at h
       subst h
       exact .unlimited (by simp [Pc.limitFails, hfail]))
  · rw [Bool.not_eq_true] at hfail
    cases hpc with
    | issuing =>
        simp only [step, Call.isFinished, hfail, proceed, issue, Bool.false_eq_true,
          if_false] at h
        split at h
        · rename_i hzero
          rw [← Option.some.inj h]
          exact .unlimited (by simp [Pc.limitFails, hzero])
        · rename_i hcool
          split at h
          · rw [← Option.some.inj h]
            exact .tooEarly
          · rename_i hlive
            rw [← Option.some.inj h]
            exact .cools (not_le.mp hcool) (by simpa using hlive)
    | coolingDown =>
        simp only [step, Call.isFinished, hfail, proceed, Bool.false_eq_true, if_false] at h
        rw [← Option.some.inj h]
        obtain ⟨pc, hpc, heq⟩ := limited_eq ⟨op, .coolingDown phone purpose⟩ db _
        rw [heq]
        exact .refused hpc
    | counting =>
        simp only [step, Call.isFinished, hfail, proceed, Bool.false_eq_true, if_false] at h
        split at h
        · rename_i hone
          rw [← Option.some.inj h]
          exact .counts (by omega) (Or.inl rfl)
        · rw [← Option.some.inj h]
          rcases checkDaily_cases env phone purpose
              ⟨op, .counting phone purpose⟩
              (db.setDaily phone (some (Key.incr (db.daily phone) x.now)))
              (Key.incr (db.daily phone) x.now).value with ⟨-, pc, hpc, heq⟩ | ⟨hle, heq⟩
          · rw [heq]
            exact .exceeded hpc
          · rw [heq]
            exact .counts hle (Or.inr rfl)
    | expiringCount =>
        have hone : ¬ env.otpDailyCapPerPhone < 1 := by omega
        simp only [step, Call.isFinished, hfail, proceed, checkDaily, Bool.false_eq_true, if_false,
          if_neg hone] at h
        rw [← Option.some.inj h]
        exact .expires

/-! ### What an operation takes from a budget -/

/-- How many codes the limit can let through from an instant up to `stop`. A cooldown of 0 seconds
is never set: it lets nothing through that Redis has not failed for. -/
def Codes.budget (codes : Codes) (env : Env) (stop : Time) (db : Db) (now : Time) : ℕ :=
  match codes.purpose with
  | none => counterBudget 86400 env.otpDailyCapPerPhone stop (db.daily codes.phone) now
  | some p =>
      if 0 < env.otpResendCooldownSeconds then
        cooldownBudget env.otpResendCooldownSeconds stop (db.cooldown p codes.phone) now
      else 0

theorem Codes.budget_passes {now now' stop : Time} (hle : now ≤ now') :
    codes.budget env stop db now' ≤ codes.budget env stop db now := by
  unfold Codes.budget
  cases codes.purpose with
  | none => exact counterBudget_passes (by decide) hle
  | some p =>
      dsimp only
      split
      · exact cooldownBudget_passes ‹_› hle
      · exact Nat.le_refl _

/-- The budget does not look at more than the two keys. -/
theorem Codes.budget_congr {db' : Db} {now stop : Time}
    (hdaily : db'.daily codes.phone = db.daily codes.phone)
    (hcooldown : ∀ p, db'.cooldown p codes.phone = db.cooldown p codes.phone) :
    codes.budget env stop db' now = codes.budget env stop db now := by
  unfold Codes.budget
  cases codes.purpose with
  | none =>
      exact congrArg (fun key => counterBudget 86400 env.otpDailyCapPerPhone stop key now) hdaily
  | some p =>
      dsimp only
      rw [hcooldown p]

theorem Limited.sends_eq {pc : Pc} (h : Limited op pc) : pc.sends = none := by
  cases h <;> rfl

/-- A call that is let through takes one from the budget. -/
theorem Enforced.budget_le {pc' : Pc} {db' : Db} {stop : Time}
    (h : Enforced env x db op phone purpose pc db' pc') (hstop : x.now ≤ stop) :
    (if codes.permits ⟨op, pc'⟩ && !codes.permits ⟨op, pc⟩ && !pc.limitFails env x then 1
        else 0) +
      codes.budget env stop db' x.now ≤ codes.budget env stop db x.now := by
  obtain ⟨of, what⟩ := codes
  cases h with
  | unlimited hfail => simp [hfail]
  | tooEarly => simp [Codes.permits, Pc.sends]
  | refused hlim => simp [Codes.permits, hlim.sends_eq]
  | cools hcool hlive =>
      cases what with
      | none => simp [Codes.permits, Pc.sends, Codes.budget, Db.setCooldown]
      | some p =>
          simp only [Codes.budget, Db.setCooldown, if_pos hcool]
          by_cases hhas : p = purpose ∧ of = phone
          · rw [if_pos hhas]
            obtain ⟨rfl, rfl⟩ := hhas
            have hone := cooldownBudget_set hcool hlive hstop
            split <;> omega
          · rw [if_neg hhas]
            have hnot : Codes.has ⟨of, some p⟩ phone purpose = false := by
              simpa [Codes.has, and_comm] using hhas
            simp [Codes.permits, Pc.sends, hnot]
  | counts hle hpc =>
      cases what with
      | some p =>
          have hsame : ∀ pc', pc' = Pc.expiringCount phone purpose ∨
              pc' = Pc.hashingCode phone purpose →
              Codes.permits ⟨of, some p⟩ ⟨op, pc'⟩ =
                Codes.permits ⟨of, some p⟩ ⟨op, .counting phone purpose⟩ := by
            rintro - (rfl | rfl) <;> simp [Codes.permits, Pc.sends]
          rw [hsame _ hpc]
          simp [Codes.budget, Db.setDaily]
      | none =>
          simp only [Codes.budget, Db.setDaily]
          by_cases hof : of = phone
          · subst hof
            rw [Function.update_self]
            have hone := counterBudget_incr env.otpDailyCapPerPhone (db.daily of)
              (by decide : (0 : ℤ) < 86400) hstop
            rw [if_pos hle] at hone
            split <;> omega
          · rw [Function.update_of_ne hof]
            have hnot : Codes.has ⟨of, none⟩ phone purpose = false := by
              simp [Codes.has, hof]
            rcases hpc with rfl | rfl <;> simp [Codes.permits, Pc.sends, hnot]
  | exceeded hlim =>
      simp only [Codes.permits, hlim.sends_eq, Option.any_none, Bool.false_and, Bool.false_eq_true,
        if_false, Nat.zero_add]
      cases what with
      | some p => exact Nat.le_refl _
      | none =>
          simp only [Codes.budget, Db.setDaily]
          by_cases hof : of = phone
          · subst hof
            rw [Function.update_self]
            have hone := counterBudget_incr env.otpDailyCapPerPhone (db.daily of)
              (by decide : (0 : ℤ) < 86400) hstop
            omega
          · rw [Function.update_of_ne hof]
  | expires =>
      simp only [Codes.permits, Pc.sends, Bool.and_not_self, Bool.false_and, Bool.false_eq_true,
        if_false, Nat.zero_add]
      cases what with
      | some p => exact Nat.le_refl _
      | none =>
          simp only [Codes.budget, Db.setDaily]
          by_cases hof : of = phone
          · subst hof
            rw [Function.update_self]
            exact counterBudget_expire_le (by decide)
          · rw [Function.update_of_ne hof]

/-! ### The other operations -/

/-- For whom and for what a code is. -/
def OtpCode.target (c : OtpCode) : Phone × OtpPurpose := (c.phone, c.purpose)

theorem Codes.written_congr {db' : Db}
    (h : db'.otpCodes.map OtpCode.target = db.otpCodes.map OtpCode.target) :
    codes.written db' = codes.written db := by
  have hview : ∀ d : Db, codes.written d =
      (d.otpCodes.map OtpCode.target).countP fun target => codes.has target.1 target.2 := by
    intro d
    rw [List.countP_map]
    rfl
  rw [hview, hview, h]

theorem Codes.written_deleteCodes :
    codes.written (db.deleteCodes phone purpose) = codes.written db := by
  refine Codes.written_congr ?_
  rw [Db.deleteCodes_otpCodes, List.map_map]
  refine List.map_congr_left fun c _ => ?_
  show OtpCode.target (if _ then _ else _) = _
  split <;> rfl

theorem Codes.written_updateCode {id : CodeId} {f : OtpCode → OtpCode}
    (h : ∀ c, (f c).target = c.target) :
    codes.written (db.updateCode id f) = codes.written db :=
  Codes.written_congr (Table.map_modify_eq h db.otpCodes id)

theorem Codes.written_createCode {row : OtpCode} :
    codes.written (db.createCode row) =
      codes.written db + (codes.has row.phone row.purpose).toNat := by
  rw [Codes.written, Db.createCode_otpCodes, List.countP_append, List.countP_singleton]
  cases codes.has row.phone row.purpose <;> rfl

theorem Admitted.sends_eq {id : UserId} {user : User} {pc : Pc} (h : Admitted phone id user pc) :
    pc.sends = none := by
  cases h <;> rfl

/-- What the operations outside `enforceRateLimits` do for the codes of a limit: they do not touch
its key, let no call through, and write a code only for a call that was let through. -/
structure Keeps (codes : Codes) (db : Db) (k : Call) (o : Outcome Db Call) : Prop where
  daily : o.store.daily = db.daily
  cooldown : o.store.cooldown = db.cooldown
  permits : codes.permits o.call = true → codes.permits k = true
  written : codes.written o.store + (codes.permits o.call).toNat ≤
    codes.written db + (codes.permits k).toNat

theorem Keeps.of_none {k : Call} (hstore : codes.written o.store = codes.written db)
    (hdaily : o.store.daily = db.daily) (hcooldown : o.store.cooldown = db.cooldown)
    (hpermits : codes.permits o.call = false) : Keeps codes db k o where
  daily := hdaily
  cooldown := hcooldown
  permits h := by simp [hpermits] at h
  written := by
    rw [hstore, hpermits]
    exact Nat.le_add_right _ _

theorem Stmt.keeps (codes : Codes) {k : Call} (h : Stmt env me x db k o)
    (hk : ∀ phone purpose, ¬ Pc.Enforces phone purpose k.pc) : Keeps codes db k o := by
  cases h with
  | fails => exact .of_none rfl rfl rfl rfl
  | reads hr =>
      cases hr with
      | setFails | cooldown => exact absurd .issuing (hk _ _)
      | ttlFails | limited => exact absurd .coolingDown (hk _ _)
      | incrFails => exact absurd .counting (hk _ _)
      | expireFails => exact absurd .expiringCount (hk _ _)
      | codeHashed => exact ⟨rfl, rfl, id, Nat.le_refl _⟩
      | uncleared hadm => exact .of_none rfl rfl rfl (by simp [Codes.permits, hadm.sends_eq])
      | _ => exact .of_none rfl rfl rfl (by simp [Codes.permits, Pc.sends])
  | aside ha =>
      cases ha with
      | setCooldown => exact absurd .issuing (hk _ _)
      | countFirst | countOver | count => exact absurd .counting (hk _ _)
      | expireOver | expireCount => exact absurd .expiringCount (hk _ _)
      | countFailure hpc =>
          refine .of_none rfl rfl rfl ?_
          rcases hpc with rfl | rfl <;> rfl
      | clearFailures hadm => exact .of_none rfl rfl rfl (by simp [Codes.permits, hadm.sends_eq])
      | _ => exact .of_none rfl rfl rfl (by simp [Codes.permits, Pc.sends])
  | deleteCodes =>
      exact ⟨rfl, rfl, id, Nat.add_le_add_right Codes.written_deleteCodes.le _⟩
  | @createCode op phone purpose codeHash =>
      refine ⟨rfl, rfl, fun h => ?_, ?_⟩
      · simp [Codes.permits, Pc.sends] at h
      · rw [Codes.written_createCode]
        simp [Codes.permits, Pc.sends, newCode]
  | countAttempt | consumeCode =>
      exact .of_none (Codes.written_updateCode fun _ => rfl) rfl rfl rfl
  | _ => exact .of_none rfl rfl rfl rfl

/-! ### Any operation -/

theorem Enforced.sends_any {pc' : Pc} {db' : Db} (hpc : Pc.Enforces phone purpose pc)
    (h : Enforced env x db op phone purpose pc db' pc')
    (hpermits : codes.permits ⟨op, pc'⟩ = true) :
    (pc.sends.any fun s => codes.has s.phone s.purpose) = true := by
  have hhas : codes.has phone purpose = true := by
    by_contra hnot
    rw [Bool.not_eq_true] at hnot
    cases h with
    | refused hlim | exceeded hlim => simp [Codes.permits, hlim.sends_eq] at hpermits
    | counts hle hpc' =>
        rcases hpc' with rfl | rfl <;> simp [Codes.permits, Pc.sends, hnot] at hpermits
    | _ => simp [Codes.permits, Pc.sends, hnot] at hpermits
  cases hpc <;> simpa [Pc.sends] using hhas

theorem Enforced.written_eq {pc' : Pc} {db' : Db}
    (h : Enforced env x db op phone purpose pc db' pc') : codes.written db' = codes.written db := by
  cases h <;> rfl

/-- What an operation of a call does for the codes of a limit. -/
structure Books (codes : Codes) (env : Env) (x : Input) (db : Db) (k : Call)
    (o : Outcome Db Call) : Prop where
  /-- A call that is let through takes one from the budget, unless Redis has failed. -/
  budget : ∀ stop, x.now ≤ stop →
    (if codes.permits o.call && !codes.permits k && !k.pc.limitFails env x then 1 else 0) +
      codes.budget env stop o.store x.now ≤ codes.budget env stop db x.now
  /-- A call that is let through was going to send such a code. -/
  asked : codes.permits o.call = true → codes.permits k = false →
    (k.pc.sends.any fun s => codes.has s.phone s.purpose) = true
  /-- Only a call that was let through writes a code. -/
  written : codes.written o.store + (codes.permits o.call).toNat ≤
    codes.written db + (codes.permits k).toNat + (codes.permits o.call && !codes.permits k).toNat

theorem books_of_step (codes : Codes) {k : Call} (hcap : 0 < env.otpDailyCapPerPhone)
    (h : step env me x k db = some o) : Books codes env x db k o := by
  obtain ⟨op, pc⟩ := k
  have hstmt := step_cases h
  by_cases henforces : ∃ phone purpose, Pc.Enforces phone purpose pc
  · obtain ⟨phone, purpose, hpc⟩ := henforces
    have henforced := enforced_of_step hcap hpc h
    have hcall : o.call = ⟨op, o.call.pc⟩ := by
      obtain ⟨store, ⟨op', pc'⟩, spawned⟩ := o
      obtain rfl : op' = op := hstmt.op_eq
      rfl
    refine ⟨fun stop hstop => ?_, fun hpermits _ => ?_, ?_⟩
    · rw [hcall]
      exact henforced.budget_le hstop
    · rw [hcall] at hpermits
      exact henforced.sends_any hpc hpermits
    · rw [henforced.written_eq]
      cases codes.permits o.call <;> cases codes.permits ⟨op, pc⟩ <;> simp
  · push Not at henforces
    obtain ⟨hdaily, hcooldown, hpermits, hwritten⟩ := hstmt.keeps codes henforces
    have hnone : (codes.permits o.call && !codes.permits ⟨op, pc⟩) = false := by
      cases hafter : codes.permits o.call with
      | false => rfl
      | true => simp [hpermits hafter]
    refine ⟨fun stop _ => ?_, fun hafter hbefore => ?_, ?_⟩
    · rw [hnone, Codes.budget_congr (congrFun hdaily codes.phone)
        fun p => congrFun (congrFun hcooldown p) codes.phone]
      simp
    · simp [hpermits hafter] at hbefore
    · omega

end Steps

/-! ### Runs -/

section Runs

variable {env : Env} {codes : Codes} {start stop : Time} {c c' : Config Db Call}
  {ts : List (Transition Db Call Input)}

theorem sum_toNat (p : Call → Bool) (calls : List Call) :
    (calls.map fun k => (p k).toNat).sum = calls.countP p := by
  induction calls with
  | nil => rfl
  | cons k calls ih =>
      rw [List.map_cons, List.sum_cons, ih, List.countP_cons]
      cases p k <;> simp [add_comm]

/-- The operation that a transition runs, and what it means for a limit. -/
theorem limit_of_fires (codes : Codes) {t : Transition Db Call Input}
    (ht : (accounts env).Fires t) {i : ℕ} {x : Input} (he : t.event = .run i x) :
    ∃ k o, t.pre.calls[i]? = some k ∧ step env i x k t.pre.store = some o ∧
      t.post.store = o.store ∧
      codes.letsThrough t = (codes.permits o.call && !codes.permits k) ∧
      codes.failsOpen env t =
        (k.pc.limitFails env x && k.pc.sends.any fun s => codes.has s.phone s.purpose) := by
  obtain ⟨k, o, hk, ho, hpost, hself⟩ := ht.of_event he
  refine ⟨k, o, hk, ho, by rw [hpost], ?_, ?_⟩
  · have hafter : t.callerAfter = some o.call := by
      simp [Transition.callerAfter, he, hself]
    rw [Codes.letsThrough, hafter, Transition.caller_eq he hk]
    rfl
  · simp [Codes.failsOpen, he, hk]

/-- The calls that are let through are within the budget, but for the failures of Redis. -/
theorem countP_letsThrough_le (codes : Codes) (hcap : 0 < env.otpDailyCapPerPhone)
    (hrun : (accounts env).Run c ts c') (hclock : Clocked Input.now start stop ts) :
    ts.countP codes.letsThrough ≤
      codes.budget env stop c.store start + ts.countP (codes.failsOpen env) := by
  have hlimit := hrun.countP_add_budget_le (fun d τ => codes.budget env stop d.store τ)
    codes.letsThrough (codes.failsOpen env) 1 (fun d τ τ' hle => Codes.budget_passes hle) ?_ ?_
    hclock (max start stop) (le_max_left _ _)
    fun τ hτ => (hclock.within τ hτ).2.trans (le_max_right _ _)
  · omega
  · intro t ht htime
    rcases (hrun.fires t ht).cases with ⟨k, he, -, hpost⟩ | ⟨i, x, k, o, he, -⟩
    · refine ⟨by simp [Codes.letsThrough, Transition.callerAfter, he], fun τ => ?_⟩
      rw [hpost]
    · simp [Transition.time, he] at htime
  · intro t ht τ htime hstop
    rcases (hrun.fires t ht).cases with ⟨k, he, -⟩ | ⟨i, x, k, o, he, -⟩
    · simp [Transition.time, he] at htime
    · obtain rfl : x.now = τ := by simpa [Transition.time, he] using htime
      obtain ⟨k, o, -, ho, hstore, hlets, hfails⟩ := limit_of_fires codes (hrun.fires t ht) he
      have hbooks := books_of_step codes hcap ho
      have hbudget := hbooks.budget stop hstop
      rw [hlets, hfails, hstore]
      cases hafter : codes.permits o.call with
      | false =>
          simp only [hafter, Bool.false_and, Bool.false_eq_true, if_false] at hbudget ⊢
          exact hbudget.trans (Nat.le_add_right _ _)
      | true =>
          cases hbefore : codes.permits k with
          | true =>
              simp only [hafter, hbefore, Bool.not_true, Bool.and_false, Bool.false_and,
                Bool.false_eq_true, if_false] at hbudget ⊢
              exact hbudget.trans (Nat.le_add_right _ _)
          | false =>
              rw [hbooks.asked hafter hbefore]
              cases hfail : k.pc.limitFails env x <;>
                simp [hafter, hbefore, hfail] at hbudget ⊢ <;> omega

/-- Every code that is written was let through, in the run or before it. -/
theorem written_le (codes : Codes) (hcap : 0 < env.otpDailyCapPerPhone)
    (hrun : (accounts env).Run c ts c') :
    codes.written c'.store ≤
      codes.written c.store + c.calls.countP codes.permits + ts.countP codes.letsThrough := by
  have hbooks := hrun.le_add_countP
    (potential codes.written fun k => (codes.permits k).toNat) codes.letsThrough ?_
  · simp only [potential, sum_toNat] at hbooks
    omega
  · intro t ht hfires
    rcases potential_fires hfires codes.written fun k => (codes.permits k).toNat with
      ⟨k, he, hentry, hpot⟩ | ⟨i, x, k, o, he, hk, ho, hstore, hpot⟩
    · have hzero : codes.permits k = false := by
        obtain ⟨op, pc⟩ := k
        cases pc with
        | start => rfl
        | _ => simp [accounts, Call.isStart] at hentry
      rw [hpot, hzero]
      exact Nat.le_add_right _ _
    · have hwritten := (books_of_step codes hcap ho).written
      obtain ⟨k₀, o₀, hk₀, ho₀, -, hlets, -⟩ := limit_of_fires codes hfires he
      obtain rfl := Option.some.inj (hk.symm.trans hk₀)
      obtain rfl := Option.some.inj (ho.symm.trans ho₀)
      rw [hlets]
      rw [(step_cases ho).spawned_eq_nil] at hpot
      simp only [List.map_nil, List.sum_nil, Nat.add_zero] at hpot
      cases hboth : codes.permits o.call && !codes.permits k <;>
        simp [hboth] at hwritten ⊢ <;> omega

/-- **The limits bound the codes that are sent.** In any stretch of a run, however the calls for
a phone overlap, the codes written for it are within the daily cap of every day that the stretch
reaches into, and those for one purpose are a cooldown apart, save for the calls that were let
through before and the commands of `enforceRateLimits` that failed. -/
theorem codes_within_limits (hcap : 0 < env.otpDailyCapPerPhone)
    (hrun : (accounts env).Run c ts c') (hclock : Clocked Input.now start stop ts)
    (phone : Phone) :
    Codes.written ⟨phone, none⟩ c'.store ≤
        Codes.written ⟨phone, none⟩ c.store + c.calls.countP (Codes.permits ⟨phone, none⟩) +
          env.otpDailyCapPerPhone *
            (windows day start stop +
              if (Key.live (c.store.daily phone) start).isSome then 1 else 0) +
          ts.countP (Codes.failsOpen ⟨phone, none⟩ env) ∧
      ∀ purpose, Codes.written ⟨phone, some purpose⟩ c'.store ≤
        Codes.written ⟨phone, some purpose⟩ c.store +
          c.calls.countP (Codes.permits ⟨phone, some purpose⟩) +
          windows (env.otpResendCooldownSeconds * 1000) start stop +
          ts.countP (Codes.failsOpen ⟨phone, some purpose⟩ env) := by
  constructor
  · have hwritten := written_le ⟨phone, none⟩ hcap hrun
    have hlets := countP_letsThrough_le ⟨phone, none⟩ hcap hrun hclock
    have hbudget : Codes.budget ⟨phone, none⟩ env stop c.store start ≤
        env.otpDailyCapPerPhone * (windows day start stop +
          if (Key.live (c.store.daily phone) start).isSome then 1 else 0) :=
      counterBudget_le (by decide)
    omega
  · intro purpose
    have hwritten := written_le ⟨phone, some purpose⟩ hcap hrun
    have hlets := countP_letsThrough_le ⟨phone, some purpose⟩ hcap hrun hclock
    have hbudget : Codes.budget ⟨phone, some purpose⟩ env stop c.store start ≤
        windows (env.otpResendCooldownSeconds * 1000) start stop := by
      unfold Codes.budget
      dsimp only
      split
      · exact cooldownBudget_le ‹_›
      · exact Nat.zero_le _
    omega

end Runs

/-- A user who asks for a code, again after ten seconds, and again after a minute. -/
def askedAgain : List (Event Call Input) :=
  play 0 8 (.requestOtp "+998901234567" .reset) { now := 0, code := "111111" } ++
    play 1 3 (.requestOtp "+998901234567" .reset) { now := 10000, code := "222222" } ++
    play 2 7 (.requestOtp "+998901234567" .reset) { now := 60000, code := "333333" }

/-- A store with one user. -/
def registered : Db :=
  { users := [{ phone := "+998901234567", passwordHash := "secret", role := .customer
                referralCode := "HANDLY1", locale := .uz, status := .active }] }

/-- Two of the three requests are answered with a code, which is what the cooldown allows. -/
theorem codes_within_limits_askedAgain :
    Codes.written ⟨"+998901234567", none⟩ ((accounts plainHashes).after ⟨registered, []⟩
        askedAgain).store = 2 ∧
      Codes.written ⟨"+998901234567", some .reset⟩ ((accounts plainHashes).after
          ⟨registered, []⟩ askedAgain).store ≤
        0 + 0 + windows 45000 0 60000 +
          ((accounts plainHashes).trace ⟨registered, []⟩ askedAgain).countP
            (Codes.failsOpen ⟨"+998901234567", some .reset⟩ plainHashes) :=
  ⟨by decide +kernel,
    (codes_within_limits (by decide) ((accounts plainHashes).run_trace _ _)
      ⟨by decide +kernel, by decide +kernel⟩ "+998901234567").2 .reset⟩

end Handly.Auth
