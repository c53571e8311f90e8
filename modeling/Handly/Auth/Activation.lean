import Handly.Auth.Effects

/-!
# Activation through the phone

`verifyOtp` activates a PENDING account after it has consumed a code sent to its phone.
The admin's `suspend` writes SUSPENDED over any other status and `restore` turns that into
ACTIVE, so the two together activate an account that was never verified, and lift a ban.
Where every suspension finds the account ACTIVE (or already SUSPENDED), ACTIVE is reached
through the phone alone.
-/

namespace Handly.Auth

open Interleaving

/-- In this transition the call `i` reads a code it may compare with: sent to the phone for
the purpose, unused, unexpired and below the cap of attempts. -/
structure FindsCode (env : Env) (t : Transition Db Call Input) (i : ℕ) (phone : Phone)
    (purpose : OtpPurpose) (id : CodeId) (otp : OtpCode) : Prop where
  unexpired : ∃ x, t.event = .run i x ∧ x.now < otp.expiresAt
  found : t.pre.store.otpCodes[id]? = some otp
  phone : otp.phone = phone
  purpose : otp.purpose = purpose
  unused : otp.deleted = false ∧ otp.usedAt = none
  attempts : otp.attempts < env.otpMaxAttempts

/-- In this transition the call `i`, an `op`, marks the code used that it has compared
with. -/
def ConsumesCode (t : Transition Db Call Input) (i : ℕ) (op : Op) (id : CodeId) (otp : OtpCode) :
    Prop :=
  t.IsBy i ∧ t.pre.calls[i]? = some ⟨op, .matched id otp⟩ ∧
    t.post.calls[i]? = some ⟨op, .verified id⟩

/-- A `verifyOtp` call for the phone has consumed a valid code in one of these transitions. -/
def VerifiedIn (env : Env) (ts : List (Transition Db Call Input)) (phone : Phone) : Prop :=
  ∃ i code purpose id otp, (∃ t ∈ ts, FindsCode env t i phone purpose id otp) ∧
    env.argon2Verify otp.codeHash code = true ∧
    ∃ t ∈ ts, ConsumesCode t i (.verifyOtp phone code purpose) id otp

/-- In a run from `db` an account is ACTIVE only through its phone, unless it was more than
PENDING before, and an account that is BANNED does not become ACTIVE. -/
structure ActivatedByPhone (env : Env) (db : Db) (ts : List (Transition Db Call Input))
    (c' : Config Db Call) : Prop where
  verified : ∀ (id : UserId) (row : User), c'.store.users[id]? = some row →
    row.status = .active →
    (∀ row₀, db.users[id]? = some row₀ → row₀.status = .pending) → VerifiedIn env ts row.phone
  banned : ∀ t ∈ ts, ∀ (id : UserId) (row₀ row : User), t.pre.store.users[id]? = some row₀ →
    row₀.status = .banned → c'.store.users[id]? = some row → row.status ≠ .active

/-- The update of `suspend` finds the account ACTIVE, or SUSPENDED already. -/
def SuspendsVerified (_me : ℕ) (x : Input) (k : Call) (db : Db) : Prop :=
  match k.op, k.pc with
  | .suspend targetId _ _, .writingStatus _ => x.fail = false →
      db.users[targetId]?.all fun u => u.status = .active ∨ u.status = .suspended
  | _, _ => True

instance (me : ℕ) (x : Input) (k : Call) (db : Db) : Decidable (SuspendsVerified me x k db) :=
  decidable_of_bool
    (match k.op, k.pc with
      | .suspend targetId _ _, .writingStatus _ => x.fail ||
          db.users[targetId]?.all fun u => u.status = .active ∨ u.status = .suspended
      | _, _ => true)
    (by unfold SuspendsVerified; split <;> cases x.fail <;> simp)

/-! ### The invariant -/

/-- What holds of the users in a run from `db` with these transitions. -/
structure PhonesVerified (env : Env) (db : Db) (ts : List (Transition Db Call Input)) (s : Db) :
    Prop where
  stays : ∀ (id : ℕ) (row₀ : User), db.users[id]? = some row₀ → ∃ row, s.users[id]? = some row
  verified : ∀ (id : ℕ) (row : User), s.users[id]? = some row → row.status ≠ .pending →
    (∀ row₀, db.users[id]? = some row₀ → row₀.status = .pending) → VerifiedIn env ts row.phone
  banned : ∀ (id : ℕ) (row₀ row : User), db.users[id]? = some row₀ → row₀.status = .banned →
    s.users[id]? = some row → row.status = .banned
  bannedBefore : ∀ (id : ℕ) (row : User), s.users[id]? = some row → row.status = .banned →
    ∃ row₀, db.users[id]? = some row₀ ∧ row₀.status = .banned

/-- What a call between the read of a code and the activation knows. -/
def Call.Verifying (env : Env) (ts : List (Transition Db Call Input)) (s : Db) (i : ℕ)
    (k : Call) : Prop :=
  match k.pc with
  | .comparing id otp => ∃ phone purpose, k.op.Verifies phone purpose ∧
      ∃ t ∈ ts, FindsCode env t i phone purpose id otp
  | .matched id otp => ∃ phone purpose, k.op.Verifies phone purpose ∧
      (∃ t ∈ ts, FindsCode env t i phone purpose id otp) ∧
      ∃ code, k.op.presentedCode = some code ∧ env.argon2Verify otp.codeHash code = true
  | .verified _ => ∀ phone code purpose, k.op = .verifyOtp phone code purpose →
      VerifiedIn env ts phone
  | .activating _ id => ∃ row, s.users[id]? = some row ∧ row.status ≠ .banned ∧
      VerifiedIn env ts row.phone
  | _ => True

section Statements

variable {env : Env} {ts : List (Transition Db Call Input)} {t : Transition Db Call Input}
  {i : ℕ} {x : Input} {k : Call} {db s : Db} {o : Outcome Db Call}

/-- A user that is not banned is not banned by an operation, and keeps its phone. -/
theorem Stmt.user_notBanned (h : Stmt env i x s k o) {id : ℕ} {row : User}
    (hrow : s.users[id]? = some row) (hst : row.status ≠ .banned) :
    ∃ row', o.store.users[id]? = some row' ∧ row'.status ≠ .banned ∧ row'.phone = row.phone := by
  obtain ⟨row', hrow', hphone⟩ := h.user_stays hrow
  refine ⟨row', hrow', fun hban => hst ?_, hphone⟩
  rcases (h.userEffect hrow').banned hban with hsame | ⟨row₁, hrow₁, hban₁⟩
  · obtain rfl := Option.some.inj (hrow.symm.trans hsame)
    exact hban
  · obtain rfl := Option.some.inj (hrow.symm.trans hrow₁)
    exact hban₁

theorem Stmt.phonesVerified (h : Stmt env i x s k o) (hC : SuspendsVerified i x k s)
    (hG : PhonesVerified env db ts s) (hL : k.Verifying env ts s i) :
    PhonesVerified env db ts o.store := by
  refine ⟨fun id row₀ hrow₀ => ?_, fun id row' hrow' hst hstart => ?_,
    fun id row₀ row' hrow₀ hban hrow' => ?_, fun id row' hrow' hban => ?_⟩
  · obtain ⟨row, hrow⟩ := hG.stays id row₀ hrow₀
    obtain ⟨row', hrow', -⟩ := h.user_stays hrow
    exact ⟨row', hrow'⟩
  · cases h.userEffect hrow' with
    | same hrow => exact hG.verified id row' hrow hst hstart
    | created => exact absurd rfl hst
    | @reRegistered _ _ _ row hx hrow => exact hG.verified id row hrow hst hstart
    | @reset _ _ _ row hx hrow => exact hG.verified id row hrow hst hstart
    | activated hx hrow =>
        obtain ⟨row, hfound, -, hverified⟩ := hL
        obtain rfl := Option.some.inj (hrow.symm.trans hfound)
        exact hverified
    | @suspended _ _ _ _ row hx hrow =>
        have hactive := hC hx
        rw [hrow] at hactive
        refine hG.verified id row hrow (fun hpending => ?_) hstart
        simp [hpending] at hactive
    | @restored _ _ _ row hx hrow hsus => exact hG.verified id row hrow (by simp [hsus]) hstart
  · cases h.userEffect hrow' with
    | same hrow => exact hG.banned id row₀ row' hrow₀ hban hrow
    | created =>
        obtain ⟨row, hrow⟩ := hG.stays _ row₀ hrow₀
        simp at hrow
    | @reRegistered _ _ _ row hx hrow => exact hG.banned id row₀ row hrow₀ hban hrow
    | @reset _ _ _ row hx hrow => exact hG.banned id row₀ row hrow₀ hban hrow
    | activated =>
        obtain ⟨row, hrow, hne, -⟩ := hL
        exact absurd (hG.banned id row₀ row hrow₀ hban hrow) hne
    | @suspended _ _ _ _ row hx hrow =>
        have hactive := hC hx
        rw [hrow] at hactive
        simp [hG.banned id row₀ row hrow₀ hban hrow] at hactive
    | @restored _ _ _ row hx hrow hsus =>
        have hstill := hG.banned id row₀ row hrow₀ hban hrow
        simp [hsus] at hstill
  · rcases (h.userEffect hrow').banned hban with hrow | ⟨row, hrow, hban₁⟩
    · exact hG.bannedBefore id row' hrow hban
    · exact hG.bannedBefore id row hrow hban₁

/-- What the running call knows after its operation. -/
theorem Stmt.verifying (h : Stmt env i x t.pre.store k o) (ht : t ∈ ts) (he : t.event = .run i x)
    (hk : t.pre.calls[i]? = some k) (hself : t.post.calls[i]? = some o.call)
    (hL : k.Verifying env ts t.pre.store i) :
    o.call.Verifying env ts o.store i := by
  cases h with
  | reads hr =>
      cases hr with
      | codeRead hop hfound hmax =>
          obtain ⟨hrow, hphone, hpurpose, hdel, hused, hexp⟩ := findCode_eq_some hfound
          exact ⟨_, _, hop, t, ht, ⟨x, he, hexp⟩, hrow, hphone, hpurpose, ⟨hdel, hused⟩, hmax⟩
      | codeMatches hcode hmatch =>
          obtain ⟨phone, purpose, hop, hfound⟩ := hL
          exact ⟨phone, purpose, hop, hfound, _, hcode, hmatch⟩
      | @activates phone code purpose codeId id row hrow hphone hpending =>
          refine ⟨row, hrow, by simp [hpending], ?_⟩
          rw [hphone]
          exact hL phone code purpose rfl
      | limited hlimited | uncleared hlimited => cases hlimited <;> trivial
      | _ => trivial
  | aside ha =>
      cases ha with
      | countOver _ hlimited | expireOver _ hlimited | clearFailures hlimited =>
          cases hlimited <;> trivial
      | countFailure hpc => rcases hpc with rfl | rfl <;> trivial
      | _ => trivial
  | @consumeCode op id otp hx =>
      obtain ⟨phone, purpose, hop, hfound, code, hcode, hmatch⟩ := hL
      intro phone' code' purpose' hop'
      obtain rfl : op = .verifyOtp phone' code' purpose' := hop'
      cases hop
      obtain rfl := Option.some.inj hcode
      exact ⟨i, _, _, id, otp, hfound, hmatch, t, ht, ⟨x, he⟩, hk, hself⟩
  | _ => trivial

/-- An operation keeps what another call knows. -/
theorem Stmt.verifying_other (h : Stmt env i x s k o) {j : ℕ} {k' : Call}
    (hL : k'.Verifying env ts s j) : k'.Verifying env ts o.store j := by
  obtain ⟨op, pc⟩ := k'
  cases pc with
  | activating codeId id =>
      obtain ⟨row, hrow, hne, hverified⟩ := hL
      obtain ⟨row', hrow', hne', hphone⟩ := h.user_notBanned hrow hne
      exact ⟨row', hrow', hne', by rwa [hphone]⟩
  | _ => exact hL

end Statements

section Run

variable {env : Env} {db : Db} {c' : Config Db Call} {ts : List (Transition Db Call Input)}

/-- The outline of the runs in which `suspend` finds verified accounts alone. -/
def verifying (env : Env) (db : Db) (ts : List (Transition Db Call Input)) :
    Outline (accounts env) fun t => t ∈ ts ∧ t.Satisfies SuspendsVerified :=
  outline env _ (PhonesVerified env db ts) (fun s i k => k.Verifying env ts s i)
    (fun _ _ _ _ => trivial)
    (fun _ i x k _ ht he hk h hself hG hL =>
      ⟨h.phonesVerified (ht.2 i x k he hk) hG hL, h.verifying ht.1 he hk hself hL⟩)
    (fun _ _ _ _ _ _ _ _ _ _ h _ _ _ hL' => h.verifying_other hL')

theorem phonesVerified_start (env : Env) (db : Db) (ts : List (Transition Db Call Input)) :
    (verifying env db ts).Holds ⟨db, []⟩ := by
  refine ⟨⟨fun id row₀ hrow₀ => ⟨row₀, hrow₀⟩, fun id row hrow hst hstart => ?_,
    fun id row₀ row hrow₀ hban hrow => ?_, fun id row hrow hban => ⟨row, hrow, hban⟩⟩, by simp⟩
  · exact absurd (hstart row hrow) hst
  · obtain rfl := Option.some.inj (hrow₀.symm.trans hrow)
    exact hban

/-- **Activation goes through the phone** where every suspension finds the account ACTIVE or
SUSPENDED. -/
theorem activatedByPhone_of_run (hrun : (accounts env).Run ⟨db, []⟩ ts c')
    (hC : ∀ t ∈ ts, t.Satisfies SuspendsVerified) : ActivatedByPhone env db ts c' := by
  obtain ⟨⟨hend, -⟩, hall⟩ := (verifying env db ts).holds_run hrun (fun t ht => ⟨ht, hC t ht⟩)
    (phonesVerified_start env db ts)
  refine ⟨fun id row hrow hst hstart => hend.verified id row hrow (by simp [hst]) hstart,
    fun t ht id row₁ row hrow₁ hban hrow hst => ?_⟩
  -- Nothing bans an account in the run, so this one was BANNED from the start.
  obtain ⟨row₀, hrow₀, hban₀⟩ := (hall t ht).1.1.bannedBefore id row₁ hrow₁ hban
  have hstill := hend.banned id row₀ row hrow₀ hban₀ hrow
  simp [hst] at hstill

end Run

/-- An account is registered, verified, suspended and restored. -/
def verifyThenSuspend : List (Event Call Input) :=
  List.flatten
    [play 0 12 (.register { phone := "p", password := "a" }) { code := "1" },
      play 1 7 (.verifyOtp "p" "1" .signup) {}, play 2 2 (.suspend 0 9 "") {},
      play 3 2 (.restore 0 9) {}]

theorem activatedByPhone_verifyThenSuspend :
    ActivatedByPhone plainHashes {}
      ((accounts plainHashes).trace ⟨{}, []⟩ verifyThenSuspend)
      ((accounts plainHashes).after ⟨{}, []⟩ verifyThenSuspend) :=
  activatedByPhone_of_run ((accounts plainHashes).run_trace _ _) (by decide +kernel)

/-- An account that was never verified is suspended and restored. -/
def suspendUnverified : List (Event Call Input) :=
  List.flatten
    [play 0 4 (.register { phone := "p", password := "a" }) {}, play 1 2 (.suspend 0 9 "") {},
      play 2 2 (.restore 0 9) {}]

/-- `restore` activates an account whose phone nobody has verified. -/
theorem not_activatedByPhone_always :
    ¬ ∀ (env : Env) (db : Db) (ts : List (Transition Db Call Input)) (c' : Config Db Call),
      (accounts env).Run ⟨db, []⟩ ts c' → ActivatedByPhone env db ts c' := by
  intro h
  have hactivated := h plainHashes {} _ _ ((accounts plainHashes).run_trace _ suspendUnverified)
  have hactive : (((accounts plainHashes).after ⟨{}, []⟩ suspendUnverified).store.users[0]?.map
      User.status) = some .active := by
    decide +kernel
  obtain ⟨row, hrow, hst⟩ := Option.map_eq_some_iff.mp hactive
  obtain ⟨i, code, purpose, id, otp, -, -, t, ht, -, hk, -⟩ :=
    hactivated.verified 0 row hrow hst (by simp)
  have hnone : ∀ t ∈ (accounts plainHashes).trace ⟨{}, []⟩ suspendUnverified,
      ∀ k ∈ t.pre.calls, (k.pc matches .matched _ _) = false := by
    decide +kernel
  exact absurd (hnone t ht _ (List.mem_of_getElem? hk)) (by simp)

end Handly.Auth
