import Handly.Auth.Effects

/-!
# Whose credentials an account has

`register` writes the credentials before it issues the code. The rate limits throw between
the two, and another registration of the same phone overwrites what the first one wrote, so
the code that its owner types in activates an account with somebody else's password. The
registration that checked the status may also write after the activation.

A ghost column of the user names the call that last wrote its credentials, a ghost column of
the code the call that issued it. The invariant ties both to the arguments of these calls.
-/

namespace Handly.Auth

open Interleaving

/-- The call may send codes. -/
def Op.issuesCodes (op : Op) : Bool :=
  match op with
  | .register _ | .login _ _ | .requestOtp _ _ => true
  | _ => false

/-- In this transition the call `r` creates the code `q`. -/
def IssuesCode (r : ℕ) (q : CodeId) (t : Transition Db Call Input) : Prop :=
  t.IsBy r ∧ t.pre.store.otpCodes.length = q ∧ q < t.post.store.otpCodes.length

/-- In this transition the call consumes the code `q` to activate the user. -/
def ActivatesWith (q : CodeId) (id : UserId) (t : Transition Db Call Input) : Prop :=
  ∃ k, t.caller = some k ∧ k.pc = .activating q id

/-- The user's row has the credentials that a `register` call submitted. -/
def SubmittedBy (env : Env) (dto : RegisterInput) (row : User) : Prop :=
  (∃ salt, row.passwordHash = env.argon2Hash dto.password salt) ∧ row.role = dto.role.toRole

/-- In a run to `c'` the credentials of an account are those of the registration whose code
activated it. -/
structure CredentialsKept (env : Env) (ts : List (Transition Db Call Input))
    (c' : Config Db Call) : Prop where
  /-- An account that becomes ACTIVE other than through the admin's `restore` is activated
  with a code, which a `register` call issued that submitted the account's credentials. -/
  activation : ∀ t ∈ ts, ∀ (id : UserId) (row row' : User),
    t.pre.store.users[id]? = some row → row.status ≠ .active →
    t.post.store.users[id]? = some row' → row'.status = .active →
    (∃ k target admin, t.caller = some k ∧ k.op = .restore target admin) ∨
    ∃ q r k dto, ActivatesWith q id t ∧ (∃ t₀ ∈ ts, IssuesCode r q t₀) ∧
      t.pre.calls[r]? = some k ∧ k.op = .register dto ∧ SubmittedBy env dto row'
  /-- The password of an account that is no longer PENDING is changed by `resetPassword`
  alone. -/
  password : ∀ t ∈ ts, ∀ (id : UserId) (row row' : User),
    t.pre.store.users[id]? = some row → row.status ≠ .pending →
    t.post.store.users[id]? = some row' → row'.passwordHash ≠ row.passwordHash →
    ∃ k phone code newPassword, t.caller = some k ∧
      k.op = .resetPassword phone code newPassword
  /-- A `register` call that throws has changed no password and no role. -/
  thrown : ∀ (i : ℕ) (dto : RegisterInput) (e : ApiError),
    c'.calls[i]? = some ⟨.register dto, .threw e⟩ → ∀ t ∈ ts, t.IsBy i →
    t.post.store.users.map (fun u => (u.passwordHash, u.role)) =
      t.pre.store.users.map fun u => (u.passwordHash, u.role)

/-- The call is a `register` that has written credentials and not finished. -/
def Call.HasWritten (k : Call) : Bool :=
  match k.op, k.pc with
  | .register _, .profiling _ _ | .register _, .signingUp _ _
  | .register _, .recordingSignup _ _ | .register _, .issuing _ _ | .register _, .counting _ _
  | .register _, .expiringCount _ _ | .register _, .hashingCode _ _
  | .register _, .deletingCodes _ _ _ | .register _, .creatingCode _ _ _
  | .register _, .sending => true
  | _, _ => false

/-- The operation of a `register` that has written credentials does not throw: none fails
where that is not caught, the cooldown is over and the daily cap is not exceeded. -/
def PassesLimits (env : Env) (_me : ℕ) (x : Input) (k : Call) (db : Db) : Prop :=
  k.HasWritten = true →
    match k.pc with
    | .issuing phone purpose =>
        x.fail = true ∨ (Key.live (db.cooldown purpose phone) x.now).isNone
    | .counting phone _ =>
        x.fail = true ∨ (Key.incr (db.daily phone) x.now).value ≤ env.otpDailyCapPerPhone
    | .expiringCount _ _ => x.fail = true ∨ 1 ≤ env.otpDailyCapPerPhone
    | .recordingSignup _ _ => True
    | _ => x.fail = false

/-- The update of a re-registration finds the account PENDING. -/
def OverwritesPending (_me : ℕ) (x : Input) (k : Call) (db : Db) : Prop :=
  match k.pc with
  | .reRegistering id _ => x.fail = false → db.users[id]?.all fun u => u.status = .pending
  | _ => True

/-- The update that activates an account consumes a code issued by the call that last wrote
the account's credentials. It does not after a re-registration that has overwritten them while
the code of another call was outstanding. -/
def ActivatesOwn (_me : ℕ) (x : Input) (k : Call) (db : Db) : Prop :=
  match k.pc with
  | .activating q id => x.fail = false →
      db.otpCodes[q]?.any fun otp =>
        db.users[id]?.any fun u => u.credentialsBy = some otp.issuedBy
  | _ => True

/-- The three conditions together. -/
def Undisturbed (env : Env) (me : ℕ) (x : Input) (k : Call) (db : Db) : Prop :=
  PassesLimits env me x k db ∧ OverwritesPending me x k db ∧ ActivatesOwn me x k db

instance (env : Env) (me : ℕ) (x : Input) (k : Call) (db : Db) :
    Decidable (Undisturbed env me x k db) := by
  unfold Undisturbed PassesLimits OverwritesPending ActivatesOwn
  refine @instDecidableAnd _ _ ?_ (@instDecidableAnd _ _ ?_ ?_)
  · have : Decidable (match k.pc with
        | .issuing phone purpose =>
            x.fail = true ∨ (Key.live (db.cooldown purpose phone) x.now).isNone
        | .counting phone _ =>
            x.fail = true ∨ (Key.incr (db.daily phone) x.now).value ≤ env.otpDailyCapPerPhone
        | .expiringCount _ _ => x.fail = true ∨ 1 ≤ env.otpDailyCapPerPhone
        | .recordingSignup _ _ => True
        | _ => x.fail = false : Prop) := by
      split <;> infer_instance
    infer_instance
  · split <;> infer_instance
  · split <;> infer_instance

/-! ### The invariant -/

/-- What a call knows of the credentials it is about to write, and who sends codes. -/
def Call.Prepared (env : Env) (k : Call) : Prop :=
  match k.pc with
  | .drawingCode _ passwordHash | .creating passwordHash _ | .reRegistering _ passwordHash =>
      ∃ dto salt, k.op = .register dto ∧ passwordHash = env.argon2Hash dto.password salt
  | .rehashed _ _ => ∃ phone code newPassword, k.op = .resetPassword phone code newPassword
  | .activating _ _ => ∃ phone code purpose, k.op = .verifyOtp phone code purpose
  | .challenging _ | .issuing _ _ | .coolingDown _ _ | .counting _ _ | .expiringCount _ _
  | .hashingCode _ _ | .deletingCodes _ _ _ | .creatingCode _ _ _ => k.op.issuesCodes = true
  | _ => True

/-- The call can have written the row's credentials. -/
def Op.Wrote (env : Env) (op : Op) (row : User) : Prop :=
  match op with
  | .register dto => SubmittedBy env dto row
  | .resetPassword _ _ _ => True
  | _ => False

/-- Credentials and codes come from the calls that the ghost columns name. -/
structure Traced (env : Env) (ts : List (Transition Db Call Input)) (c : Config Db Call) :
    Prop where
  prepared : ∀ (i : ℕ) (k : Call), c.calls[i]? = some k → k.Prepared env
  written : ∀ (id : ℕ) (row : User) (r : ℕ), c.store.users[id]? = some row →
    row.credentialsBy = some r → ∃ k, c.calls[r]? = some k ∧ k.op.Wrote env row
  issued : ∀ (q : ℕ) (otp : OtpCode), c.store.otpCodes[q]? = some otp →
    (∃ t ∈ ts, IssuesCode otp.issuedBy q t) ∧
      ∃ k, c.calls[otp.issuedBy]? = some k ∧ k.op.issuesCodes = true

section Statements

variable {env : Env} {i : ℕ} {x : Input} {k : Call} {s : Db} {o : Outcome Db Call}

theorem Stmt.prepared (h : Stmt env i x s k o) (hk : k.Prepared env) : o.call.Prepared env := by
  cases h with
  | reads hr =>
      cases hr with
      | hashed | hashedNew => exact ⟨_, x.salt, rfl, rfl⟩
      | clash | drawn => exact hk
      | activates => exact ⟨_, _, _, rfl⟩
      | newHashed => exact ⟨_, _, _, rfl⟩
      | noReferrer | notRecorded | sendable => exact rfl
      | setFails | ttlFails | incrFails | expireFails | cooldown | codeHashed | challenges =>
          exact hk
      | uncleared hadmitted =>
          cases hadmitted with
          | pending => exact rfl
          | _ => trivial
      | limited hlimited => cases hlimited <;> trivial
      | _ => trivial
  | aside ha =>
      cases ha with
      | profile | recordSignup => exact rfl
      | setCooldown | countFirst | count | expireCount => exact hk
      | clearFailures hadmitted =>
          cases hadmitted with
          | pending => exact rfl
          | _ => trivial
      | countOver _ hlimited | expireOver _ hlimited => cases hlimited <;> trivial
      | countFailure hpc => rcases hpc with rfl | rfl <;> trivial
      | _ => trivial
  | deleteCodes => exact hk
  | _ => trivial

/-- Every call keeps its arguments. -/
theorem ops_stay {calls : List Call} {k' : Call} (hk : calls[i]? = some k) (hop : k'.op = k.op)
    {r : ℕ} {k₁ : Call} (hr : calls[r]? = some k₁) :
    ∃ k₂, (calls.set i k')[r]? = some k₂ ∧ k₂.op = k₁.op := by
  by_cases hir : i = r
  · subst hir
    obtain rfl := Option.some.inj (hk.symm.trans hr)
    exact ⟨k', List.getElem?_set_self (List.getElem?_eq_some_iff.mp hk).1, hop⟩
  · exact ⟨k₁, (List.getElem?_set_ne hir).trans hr, rfl⟩

end Statements

section Run

variable {env : Env} {db : Db} {c' : Config Db Call} {ts : List (Transition Db Call Input)}
  {t : Transition Db Call Input}

theorem traced_step (ht : (accounts env).Fires t) (hts : t ∈ ts) (hI : Traced env ts t.pre) :
    Traced env ts t.post := by
  rcases stmt_of_fires ht with ⟨k, he, hstart, hpost⟩ | ⟨i, x, k, o, he, hk, h, hpost⟩
  · rw [hpost]
    refine ⟨fun j k' hj => ?_, fun id row r hrow hr => ?_, fun q otp hotp => ?_⟩
    · rcases Table.of_append hj with hold | ⟨-, rfl⟩
      · exact hI.prepared j k' hold
      · simp [Call.Prepared, hstart]
    · obtain ⟨k', hk', hwrote⟩ := hI.written id row r hrow hr
      exact ⟨k', Table.append_of_row hk' k, hwrote⟩
    · obtain ⟨hissued, k', hk', hop⟩ := hI.issued q otp hotp
      exact ⟨hissued, k', Table.append_of_row hk' k, hop⟩
  · have hself : t.post.calls[i]? = some o.call := by
      rw [hpost]
      exact List.getElem?_set_self (List.getElem?_eq_some_iff.mp hk).1
    have hprepared := hI.prepared i k hk
    refine ⟨fun j k' hj => ?_, fun id row' r hrow' hr => ?_, fun q otp' hotp' => ?_⟩
    · rw [hpost] at hj
      by_cases hij : i = j
      · subst hij
        rw [List.getElem?_set_self (List.getElem?_eq_some_iff.mp hk).1] at hj
        rw [← Option.some.inj hj]
        exact h.prepared hprepared
      · rw [List.getElem?_set_ne hij] at hj
        exact hI.prepared j k' hj
    · -- The credentials were written before, by a call that is still there, or just now.
      have hold : ∀ row : User, t.pre.store.users[id]? = some row →
          row.credentialsBy = some r →
          ∃ k', t.post.calls[r]? = some k' ∧ k'.op.Wrote env row := by
        intro row hrow hby
        obtain ⟨k₁, hk₁, hwrote⟩ := hI.written id row r hrow hby
        obtain ⟨k₂, hk₂, hop⟩ := ops_stay hk h.op_eq hk₁
        rw [hpost]
        exact ⟨k₂, hk₂, by rwa [hop]⟩
      rw [hpost] at hrow'
      cases h.userEffect hrow' with
      | same hrow => exact hold row' hrow hr
      | created =>
          obtain rfl := Option.some.inj hr
          obtain ⟨dto', salt, hop, hhash⟩ := hprepared
          obtain rfl := Op.register.inj hop
          refine ⟨o.call, hself, ?_⟩
          rw [h.op_eq]
          exact ⟨⟨salt, hhash⟩, rfl⟩
      | reRegistered =>
          obtain rfl := Option.some.inj hr
          obtain ⟨dto', salt, hop, hhash⟩ := hprepared
          obtain rfl := Op.register.inj hop
          refine ⟨o.call, hself, ?_⟩
          rw [h.op_eq]
          exact ⟨⟨salt, hhash⟩, rfl⟩
      | reset =>
          obtain rfl := Option.some.inj hr
          obtain ⟨phone, code, newPassword, rfl⟩ := hprepared
          refine ⟨o.call, hself, ?_⟩
          rw [h.op_eq]
          trivial
      | activated hx hrow | suspended hx hrow | restored hx hrow =>
          obtain ⟨k', hk', hwrote⟩ := hold _ hrow hr
          exact ⟨k', hk', hwrote⟩
    · have hold : ∀ otp : OtpCode, t.pre.store.otpCodes[q]? = some otp →
          otp'.issuedBy = otp.issuedBy → (∃ t ∈ ts, IssuesCode otp'.issuedBy q t) ∧
            ∃ k', t.post.calls[otp'.issuedBy]? = some k' ∧ k'.op.issuesCodes = true := by
        intro otp hotp hby
        obtain ⟨hissued, k₁, hk₁, hop₁⟩ := hI.issued q otp hotp
        obtain ⟨k₂, hk₂, hop⟩ := ops_stay hk h.op_eq hk₁
        rw [hby, hpost]
        exact ⟨hissued, k₂, hk₂, by rwa [hop]⟩
      have hotp : o.store.otpCodes[q]? = some otp' := by
        rwa [hpost] at hotp'
      cases h.codeEffect hotp with
      | same hrow => exact hold otp' hrow rfl
      | deleted hrow | attempted hrow | consumed hrow => exact hold _ hrow rfl
      | created =>
          refine ⟨⟨t, hts, ⟨x, he⟩, rfl, ?_⟩, o.call, hself, ?_⟩
          · exact (List.getElem?_eq_some_iff.mp hotp').1
          · rw [h.op_eq]
            exact hprepared

theorem traced_of_run (hrun : (accounts env).Run ⟨db, []⟩ ts c')
    (husers : ∀ u ∈ db.users, u.credentialsBy = none) (hcodes : db.otpCodes = []) :
    Traced env ts c' ∧ ∀ t ∈ ts, Traced env ts t.pre ∧ Traced env ts t.post := by
  refine hrun.invariant (Traced env ts) (fun t => t ∈ ts) (fun _ ht => ht)
    ⟨by simp, fun id row r hrow hr => ?_, by simp [hcodes]⟩
    (fun t ht hts hI => traced_step ht hts hI)
  simp [husers row (List.mem_of_getElem? hrow)] at hr

/-- A `register` that has written credentials goes on until it returns. -/
theorem Stmt.hasWritten {i : ℕ} {x : Input} {k : Call} {s : Db} {o : Outcome Db Call}
    (h : Stmt env i x s k o) (hC : PassesLimits env i x k s) (hk : k.HasWritten = true) :
    o.call.HasWritten = true ∨ o.call.pc = .returned := by
  have hC := hC hk
  obtain ⟨op, pc⟩ := k
  cases op with
  | register dto =>
      cases pc with
      | profiling id created =>
          cases h with
          | fails hx => simp [hx] at hC
          | reads hr => cases hr
          | aside ha => cases ha <;> exact Or.inl rfl
      | signingUp id referredByCode =>
          cases h with
          | fails hx => simp [hx] at hC
          | reads hr => cases hr <;> exact Or.inl rfl
          | aside ha => cases ha
      | recordingSignup id referrerId =>
          cases h with
          | fails hx hcatch => simp [Call.catches] at hcatch
          | reads hr => cases hr; exact Or.inl rfl
          | aside ha => cases ha; exact Or.inl rfl
      | issuing phone purpose =>
          cases h with
          | fails hx hcatch => simp [Call.catches] at hcatch
          | reads hr =>
              cases hr with
              | setFails => exact Or.inl rfl
              | cooldown hlive hx =>
                  simp only [hx, Bool.false_eq_true, false_or, Option.isNone_iff_eq_none] at hC
                  simp [hC] at hlive
          | aside ha => cases ha; exact Or.inl rfl
      | counting phone purpose =>
          cases h with
          | fails hx hcatch => simp [Call.catches] at hcatch
          | reads hr => cases hr; exact Or.inl rfl
          | aside ha =>
              cases ha with
              | countOver hover hlimited hx =>
                  simp only [hx, Bool.false_eq_true, false_or] at hC
                  omega
              | _ => exact Or.inl rfl
      | expiringCount phone purpose =>
          cases h with
          | fails hx hcatch => simp [Call.catches] at hcatch
          | reads hr => cases hr; exact Or.inl rfl
          | aside ha =>
              cases ha with
              | expireOver hover hlimited hx =>
                  simp only [hx, Bool.false_eq_true, false_or] at hC
                  omega
              | _ => exact Or.inl rfl
      | hashingCode phone purpose =>
          cases h with
          | fails hx => simp [hx] at hC
          | reads hr => cases hr; exact Or.inl rfl
          | aside ha => cases ha
      | deletingCodes phone purpose codeHash =>
          cases h with
          | fails hx => simp [hx] at hC
          | reads hr => cases hr
          | aside ha => cases ha
          | deleteCodes => exact Or.inl rfl
      | creatingCode phone purpose codeHash =>
          cases h with
          | fails hx => simp [hx] at hC
          | reads hr => cases hr
          | aside ha => cases ha
          | createCode => exact Or.inl rfl
      | sending =>
          cases h with
          | fails hx => simp [hx] at hC
          | reads hr => cases hr; exact Or.inr rfl
          | aside ha => cases ha
      | _ => simp [Call.HasWritten] at hk
  | _ => simp [Call.HasWritten] at hk

/-! ### The three properties -/

theorem activation_of_fires (ht : (accounts env).Fires t) (hC : t.Satisfies (Undisturbed env))
    (hI : Traced env ts t.pre) {id : UserId} {row row' : User}
    (hrow : t.pre.store.users[id]? = some row) (hst : row.status ≠ .active)
    (hrow' : t.post.store.users[id]? = some row') (hst' : row'.status = .active) :
    (∃ k target admin, t.caller = some k ∧ k.op = .restore target admin) ∨
    ∃ q r k dto, ActivatesWith q id t ∧ (∃ t₀ ∈ ts, IssuesCode r q t₀) ∧
      t.pre.calls[r]? = some k ∧ k.op = .register dto ∧ SubmittedBy env dto row' := by
  have hsame : ∀ {row₁ : User}, t.pre.store.users[id]? = some row₁ → row₁ = row :=
    fun h => Option.some.inj (h.symm.trans hrow)
  rcases stmt_of_fires ht with ⟨k, he, -, hpost⟩ | ⟨i, x, k, o, he, hk, h, hpost⟩
  · rw [hpost, hrow] at hrow'
    obtain rfl := Option.some.inj hrow'
    exact absurd hst' hst
  · rw [hpost] at hrow'
    have hcaller := t.caller_eq he hk
    cases h.userEffect hrow' with
    | same hrow₁ => exact absurd (hsame hrow₁ ▸ hst') hst
    | created => simp at hrow
    | reRegistered hx hrow₁ | reset hx hrow₁ => exact absurd (hsame hrow₁ ▸ hst') hst
    | suspended => nomatch hst'
    | restored => exact Or.inl ⟨_, _, _, hcaller, rfl⟩
    | @activated op q id row₁ hx hrow₁ =>
        obtain rfl := hsame hrow₁
        have hown := (hC i x _ he hk).2.2 hx
        obtain ⟨otp, hotp, hby⟩ := (Option.any_eq_true _ _).mp hown
        rw [hrow] at hby
        obtain ⟨⟨t₀, ht₀, hissued⟩, k₁, hk₁, hissues⟩ := hI.issued q otp hotp
        obtain ⟨k₂, hk₂, hwrote⟩ := hI.written id row₁ otp.issuedBy hrow (by simpa using hby)
        obtain rfl := Option.some.inj (hk₁.symm.trans hk₂)
        -- Of the calls that write credentials only `register` sends codes.
        obtain ⟨op₁, pc₁⟩ := k₁
        cases op₁ with
        | register dto =>
            exact Or.inr ⟨q, otp.issuedBy, _, dto, ⟨_, hcaller, rfl⟩, ⟨t₀, ht₀, hissued⟩, hk₁, rfl,
              hwrote⟩
        | resetPassword => nomatch hissues
        | _ => nomatch hwrote

theorem password_of_fires (ht : (accounts env).Fires t) (hC : t.Satisfies (Undisturbed env))
    (hI : Traced env ts t.pre) {id : UserId} {row row' : User}
    (hrow : t.pre.store.users[id]? = some row) (hst : row.status ≠ .pending)
    (hrow' : t.post.store.users[id]? = some row') (hne : row'.passwordHash ≠ row.passwordHash) :
    ∃ k phone code newPassword, t.caller = some k ∧
      k.op = .resetPassword phone code newPassword := by
  have hsame : ∀ {row₁ : User}, t.pre.store.users[id]? = some row₁ → row₁ = row :=
    fun h => Option.some.inj (h.symm.trans hrow)
  rcases stmt_of_fires ht with ⟨k, he, -, hpost⟩ | ⟨i, x, k, o, he, hk, h, hpost⟩
  · rw [hpost, hrow] at hrow'
    obtain rfl := Option.some.inj hrow'
    exact absurd rfl hne
  · rw [hpost] at hrow'
    have hprepared := hI.prepared i k hk
    have hcaller := t.caller_eq he hk
    cases h.userEffect hrow' with
    | same hrow₁ | activated hx hrow₁ | suspended hx hrow₁ | restored hx hrow₁ =>
        exact absurd (hsame hrow₁ ▸ rfl) hne
    | created => simp at hrow
    | reRegistered hx hrow₁ =>
        have hpending := (hC i x _ he hk).2.1 hx
        rw [hrow] at hpending
        exact absurd (by simpa using hpending) hst
    | reset =>
        obtain ⟨phone, code, newPassword, rfl⟩ := hprepared
        exact ⟨_, phone, code, newPassword, hcaller, rfl⟩

/-- Passwords and roles of all accounts. -/
theorem Stmt.credentials_eq {i : ℕ} {x : Input} {k : Call} {s : Db} {o : Outcome Db Call}
    (h : Stmt env i x s k o) {dto : RegisterInput} (hop : k.op = .register dto)
    (hk : k.Prepared env) : o.call.HasWritten = true ∨ o.store.users = s.users := by
  cases h with
  | aside ha => exact Or.inr ha.frame.1
  | reRegister | create => exact Or.inl rfl
  | activate =>
      obtain ⟨phone, code, purpose, rfl⟩ := hk
      nomatch hop
  | resetPassword =>
      obtain ⟨phone, code, newPassword, rfl⟩ := hk
      nomatch hop
  | suspend | restore => nomatch hop
  | _ => exact Or.inr rfl

/-- A `register` that has written credentials never throws. -/
theorem not_threw_of_hasWritten {c : Config Db Call} {i : ℕ} {k : Call}
    (hrun : (accounts env).Run c ts c') (hC : ∀ t ∈ ts, t.Satisfies (Undisturbed env))
    (hk : c.calls[i]? = some k) (hwritten : k.HasWritten = true) :
    ∃ k', c'.calls[i]? = some k' ∧ (k'.HasWritten = true ∨ k'.pc = .returned) := by
  refine (hrun.invariant (fun c => ∃ k', c.calls[i]? = some k' ∧
    (k'.HasWritten = true ∨ k'.pc = .returned)) _ hC ⟨k, hk, Or.inl hwritten⟩ ?_).1
  intro t ht hCt hI
  obtain ⟨k', hk', hstage⟩ := hI
  rcases ht.calls_getElem? hk' with hsame | ⟨x, o, he, ho, -, hnext⟩
  · exact ⟨k', hsame, hstage⟩
  · have h := step_cases ho
    refine ⟨o.call, hnext, ?_⟩
    rcases hstage with hwritten | hreturned
    · exact h.hasWritten (hCt i x k' he hk').1 hwritten
    · simp [accounts, step, Call.isFinished, hreturned] at ho

theorem credentialsKept_of_run (hrun : (accounts env).Run ⟨db, []⟩ ts c')
    (husers : ∀ u ∈ db.users, u.credentialsBy = none) (hcodes : db.otpCodes = [])
    (hC : ∀ t ∈ ts, t.Satisfies (Undisturbed env)) : CredentialsKept env ts c' := by
  have htraced := (traced_of_run hrun husers hcodes).2
  refine ⟨fun t ht id row row' hrow hst hrow' hst' => ?_,
    fun t ht id row row' hrow hst hrow' hne => ?_, fun i dto e hthrew t ht hby => ?_⟩
  · exact activation_of_fires (hrun.fires t ht) (hC t ht) (htraced t ht).1 hrow hst hrow' hst'
  · exact password_of_fires (hrun.fires t ht) (hC t ht) (htraced t ht).1 hrow hst hrow' hne
  · obtain ⟨before, after, rfl, -, hafter⟩ := hrun.split t ht
    obtain ⟨x, hby⟩ := hby
    obtain ⟨k, o, hk, h, hpost, hself⟩ := stmt_of_event (hrun.fires t ht) hby
    obtain ⟨k₁, hk₁, hop⟩ := hafter.call_stable (fun k' => k'.op = k.op)
      (fun _ _ _ _ _ hop hstep => (step_cases hstep).op_eq.trans hop) hself h.op_eq
    obtain rfl := Option.some.inj (hk₁.symm.trans hthrew)
    rw [hpost]
    rcases h.credentials_eq hop.symm ((htraced t ht).1.prepared i k hk) with hwritten | hsame
    · obtain ⟨k₂, hk₂, hstage⟩ := not_threw_of_hasWritten hafter
        (fun t' ht' => hC t' (by simp [ht'])) hself hwritten
      obtain rfl := Option.some.inj (hk₂.symm.trans hthrew)
      simp [Call.HasWritten] at hstage
    · rw [hsame]

end Run

/-- An account is registered and verified, and its password is reset. -/
def registerThenReset : List (Event Call Input) :=
  List.flatten
    [play 0 12 (.register { phone := "p", password := "a" }) { code := "1" },
      play 1 7 (.verifyOtp "p" "1" .signup) {}, play 2 7 (.requestOtp "p" .reset) { code := "2" },
      play 3 8 (.resetPassword "p" "2" "b") {}]

theorem credentialsKept_registerThenReset :
    CredentialsKept plainHashes ((accounts plainHashes).trace ⟨{}, []⟩ registerThenReset)
      ((accounts plainHashes).after ⟨{}, []⟩ registerThenReset) :=
  credentialsKept_of_run ((accounts plainHashes).run_trace _ _) (by simp) rfl (by decide +kernel)

/-- Somebody else registers the phone before its owner types in the code. -/
def registerOver : List (Event Call Input) :=
  List.flatten
    [play 0 12 (.register { phone := "p", password := "a" }) { code := "1" },
      play 1 6 (.register { phone := "p", password := "b" }) { code := "2" },
      play 2 7 (.verifyOtp "p" "1" .signup) {}]

/-- The second registration throws, and the first one's code activates its password. -/
theorem not_credentialsKept_always :
    ¬ ∀ (env : Env) (db : Db) (ts : List (Transition Db Call Input)) (c' : Config Db Call),
      (accounts env).Run ⟨db, []⟩ ts c' → (∀ u ∈ db.users, u.credentialsBy = none) →
        db.otpCodes = [] → CredentialsKept env ts c' := by
  intro h
  have hkept := h plainHashes {} _ _ ((accounts plainHashes).run_trace _ registerOver)
    (by simp) rfl
  have hactivates : ∃ t ∈ (accounts plainHashes).trace ⟨{}, []⟩ registerOver,
      t.pre.store.users.map (fun u => u.status) = [.pending] ∧
      t.post.store.users.map (fun u => (u.status, u.passwordHash)) = [(.active, "b")] ∧
      t.caller.all (fun k => !(k.op matches .restore _ _)) := by
    decide +kernel
  have hissues : ∀ t ∈ (accounts plainHashes).trace ⟨{}, []⟩ registerOver,
      t.pre.store.otpCodes.length < t.post.store.otpCodes.length →
        (t.event matches .run 0 _) := by
    decide +kernel
  have hfirst : ∀ t ∈ (accounts plainHashes).trace ⟨{}, []⟩ registerOver,
      t.pre.calls[0]?.all fun k => k.op = .register { phone := "p", password := "a" } := by
    decide +kernel
  obtain ⟨t, ht, hpre, hpost, hcaller⟩ := hactivates
  obtain ⟨row, hrow, hst⟩ := List.map_eq_singleton_iff.mp hpre
  obtain ⟨row', hrow', hst'⟩ := List.map_eq_singleton_iff.mp hpost
  obtain ⟨hactive, hpassword⟩ := Prod.mk.inj hst'
  rcases hkept.activation t ht 0 row row' (by simp [hrow]) (by simp [hst]) (by simp [hrow'])
      hactive with ⟨k, target, admin, hk, hop⟩ | ⟨q, r, k, dto, -, ⟨t₀, ht₀, hby⟩, hk, hop, hown⟩
  · simp [hk, hop] at hcaller
  · -- The code came from the first registration, the password from the second.
    obtain ⟨⟨x, he⟩, hlen, hlt⟩ := hby
    have hzero := hissues t₀ ht₀ (by rw [hlen]; exact hlt)
    obtain rfl : r = 0 := by
      cases r with
      | zero => rfl
      | succ r => simp [he] at hzero
    have hown₁ := hfirst t ht
    obtain ⟨⟨salt, hhash⟩, -⟩ := hown
    rw [hk, Option.all_some, hop, decide_eq_true_eq, Op.register.injEq] at hown₁
    rw [hpassword, hown₁] at hhash
    simp [plainHashes] at hhash

end Handly.Auth
