import Handly.Auth.Statements

/-!
# What an operation does to users, codes and sessions

Where a row of each of the three tables after an operation comes from. Every invariant of
a table goes by cases on this.
-/

namespace Handly.Auth

open Interleaving

/-- Where a user row after an operation comes from. -/
inductive UserEffect (me : ℕ) (x : Input) (db : Db) : Call → UserId → User → Prop
  | same {k id row} : db.users[id]? = some row → UserEffect me x db k id row
  | created {dto passwordHash referralCode} : x.fail = false →
      (∀ row ∈ db.users, row.phone ≠ dto.phone ∧ row.referralCode ≠ referralCode) →
      UserEffect me x db ⟨.register dto, .creating passwordHash referralCode⟩ db.users.length
        (newUser me dto passwordHash referralCode)
  | reRegistered {dto id passwordHash row} : x.fail = false → db.users[id]? = some row →
      UserEffect me x db ⟨.register dto, .reRegistering id passwordHash⟩ id
        (refreshedCredentials me dto passwordHash row)
  | activated {op codeId id row} : x.fail = false → db.users[id]? = some row →
      UserEffect me x db ⟨op, .activating codeId id⟩ id { row with status := .active }
  | reset {op id passwordHash row} : x.fail = false → db.users[id]? = some row →
      UserEffect me x db ⟨op, .rehashed id passwordHash⟩ id
        { row with passwordHash, credentialsBy := some me }
  | suspended {id adminId reason target row} : x.fail = false → db.users[id]? = some row →
      row.status ≠ .suspended →
      UserEffect me x db ⟨.suspend id adminId reason, .writingStatus target⟩ id
        { row with status := .suspended }
  | restored {id adminId target row} : x.fail = false → db.users[id]? = some row →
      row.status = .suspended →
      UserEffect me x db ⟨.restore id adminId, .writingStatus target⟩ id
        { row with status := .active }

/-- Where a code row after an operation comes from. -/
inductive CodeEffect (env : Env) (me : ℕ) (x : Input) (db : Db) : Call → CodeId → OtpCode → Prop
  | same {k id row} : db.otpCodes[id]? = some row → CodeEffect env me x db k id row
  | created {op phone purpose codeHash} :
      CodeEffect env me x db ⟨op, .creatingCode phone purpose codeHash⟩ db.otpCodes.length
        (newCode env me x.now phone purpose codeHash)
  | deleted {op phone purpose codeHash id row} : db.otpCodes[id]? = some row →
      row.usedAt = none →
      CodeEffect env me x db ⟨op, .deletingCodes phone purpose codeHash⟩ id
        { row with deleted := true }
  | attempted {op id row} : db.otpCodes[id]? = some row → row.deleted = false →
      CodeEffect env me x db ⟨op, .mismatched id⟩ id { row with attempts := row.attempts + 1 }
  | consumed {op id otp row} : db.otpCodes[id]? = some row → row.deleted = false →
      CodeEffect env me x db ⟨op, .matched id otp⟩ id { row with usedAt := some x.now }

/-- Where a session row after an operation comes from. -/
inductive SessionEffect (env : Env) (x : Input) (db : Db) : Call → SessionId → Session → Prop
  | same {k id row} : db.sessions[id]? = some row → SessionEffect env x db k id row
  | created {op userId} :
      SessionEffect env x db ⟨op, .issuingTokens userId⟩ db.sessions.length
        (newSession env x userId)
  | consumed {op id session row} : db.sessions[id]? = some row →
      SessionEffect env x db ⟨op, .validSession id session⟩ id
        { row with revokedAt := some x.now }
  /-- By `logout` or `resetPassword`, whose updates wait for the locks of the rows. -/
  | revoked {op ids revokedAt id row} : db.sessions[id]? = some row → id ∈ ids →
      row.revokedAt = none → db.sessionLock id = none →
      SessionEffect env x db ⟨op, .revoking ids revokedAt⟩ id
        { row with revokedAt := some revokedAt }

section Effects

variable {env : Env} {me : ℕ} {x : Input} {k : Call} {db : Db} {o : Outcome Db Call}

theorem Stmt.op_eq (h : Stmt env me x db k o) : o.call.op = k.op := by
  cases h <;> rfl

theorem Stmt.spawned_eq_nil (h : Stmt env me x db k o) : o.spawned = [] := by
  cases h <;> rfl

theorem Aside.frame {op : Op} {pc pc' : Pc} {db' : Db} (h : Aside env x db op pc db' pc') :
    db'.users = db.users ∧ db'.otpCodes = db.otpCodes ∧ db'.sessions = db.sessions ∧
      db'.sessionLock = db.sessionLock := by
  cases h <;> exact ⟨rfl, rfl, rfl, rfl⟩

/-! ### Users -/

theorem Stmt.userEffect (h : Stmt env me x db k o) {id : ℕ} {row' : User}
    (hrow' : o.store.users[id]? = some row') : UserEffect me x db k id row' := by
  cases h with
  | aside ha =>
      rw [ha.frame.1] at hrow'
      exact .same hrow'
  | create hx hunique =>
      rcases Table.of_append hrow' with hrow | ⟨rfl, rfl⟩
      · exact .same hrow
      · exact .created hx hunique
  | reRegister hx =>
      obtain ⟨row, hrow, ⟨rfl, rfl⟩ | ⟨-, rfl⟩⟩ := Table.of_modify hrow'
      · exact .reRegistered hx hrow
      · exact .same hrow
  | activate hx =>
      obtain ⟨row, hrow, ⟨rfl, rfl⟩ | ⟨-, rfl⟩⟩ := Table.of_modify hrow'
      · exact .activated hx hrow
      · exact .same hrow
  | resetPassword hx =>
      obtain ⟨row, hrow, ⟨rfl, rfl⟩ | ⟨-, rfl⟩⟩ := Table.of_modify hrow'
      · exact .reset hx hrow
      · exact .same hrow
  | suspend hx hfound hst =>
      obtain ⟨row, hrow, ⟨rfl, rfl⟩ | ⟨-, rfl⟩⟩ := Table.of_modify hrow'
      · obtain rfl := Option.some.inj (hfound.symm.trans hrow)
        exact .suspended hx hrow hst
      · exact .same hrow
  | restore hx hfound hst =>
      obtain ⟨row, hrow, ⟨rfl, rfl⟩ | ⟨-, rfl⟩⟩ := Table.of_modify hrow'
      · obtain rfl := Option.some.inj (hfound.symm.trans hrow)
        exact .restored hx hrow hst
      · exact .same hrow
  | _ => exact .same hrow'

/-- No operation removes a user, and its phone stays. -/
theorem Stmt.user_stays (h : Stmt env me x db k o) {id : ℕ} {row : User}
    (hrow : db.users[id]? = some row) :
    ∃ row', o.store.users[id]? = some row' ∧ row'.phone = row.phone := by
  have hupdate : ∀ {i : ℕ} {f : User → User}, (∀ u, (f u).phone = u.phone) →
      ∃ row', (db.updateUser i f).users[id]? = some row' ∧ row'.phone = row.phone := by
    intro i f hf
    refine ⟨_, Table.modify_of_row hrow i, ?_⟩
    split
    · exact hf row
    · rfl
  cases h with
  | aside ha => exact ⟨row, by rw [ha.frame.1]; exact hrow, rfl⟩
  | create => exact ⟨row, Table.append_of_row hrow _, rfl⟩
  | reRegister | activate | resetPassword | suspend | restore => exact hupdate fun _ => rfl
  | _ => exact ⟨row, hrow, rfl⟩

/-! ### Codes -/

theorem hasCode_eq_true {id : CodeId} :
    db.hasCode id = true ↔ ∃ row, db.otpCodes[id]? = some row ∧ row.deleted = false := by
  simp [Db.hasCode, Option.any_eq_true]

theorem Stmt.codeEffect (h : Stmt env me x db k o) {id : ℕ} {row' : OtpCode}
    (hrow' : o.store.otpCodes[id]? = some row') : CodeEffect env me x db k id row' := by
  cases h with
  | aside ha =>
      rw [ha.frame.2.1] at hrow'
      exact .same hrow'
  | createCode =>
      rcases Table.of_append hrow' with hrow | ⟨rfl, rfl⟩
      · exact .same hrow
      · exact .created
  | deleteCodes =>
      rw [Db.deleteCodes_otpCodes, List.getElem?_map] at hrow'
      obtain ⟨row, hrow, rfl⟩ := Option.map_eq_some_iff.mp hrow'
      split
      · rename_i hlive
        exact .deleted hrow hlive.2.2
      · exact .same hrow
  | countAttempt hx hcode =>
      obtain ⟨row, hrow, ⟨rfl, rfl⟩ | ⟨-, rfl⟩⟩ := Table.of_modify hrow'
      · obtain ⟨row₀, hrow₀, hdel⟩ := hasCode_eq_true.mp hcode
        obtain rfl := Option.some.inj (hrow₀.symm.trans hrow)
        exact .attempted hrow hdel
      · exact .same hrow
  | consumeCode hx hcode =>
      obtain ⟨row, hrow, ⟨rfl, rfl⟩ | ⟨-, rfl⟩⟩ := Table.of_modify hrow'
      · obtain ⟨row₀, hrow₀, hdel⟩ := hasCode_eq_true.mp hcode
        obtain rfl := Option.some.inj (hrow₀.symm.trans hrow)
        exact .consumed hrow hdel
      · exact .same hrow
  | _ => exact .same hrow'

/-- What an operation leaves of a code: who issued it for what, and that it is used or
deleted if it was. -/
structure OtpCode.Follows (row' row : OtpCode) : Prop where
  phone : row'.phone = row.phone
  purpose : row'.purpose = row.purpose
  codeHash : row'.codeHash = row.codeHash
  issuedBy : row'.issuedBy = row.issuedBy
  used : row.usedAt ≠ none → row'.usedAt ≠ none
  deleted : row.deleted = true → row'.deleted = true
  attempts : row.attempts ≤ row'.attempts

theorem OtpCode.Follows.self (row : OtpCode) : row.Follows row :=
  ⟨rfl, rfl, rfl, rfl, id, id, Nat.le_refl _⟩

/-- No operation removes a code: it is marked. -/
theorem Stmt.code_stays (h : Stmt env me x db k o) {id : ℕ} {row : OtpCode}
    (hrow : db.otpCodes[id]? = some row) :
    ∃ row', o.store.otpCodes[id]? = some row' ∧ row'.Follows row := by
  have hupdate : ∀ {i : ℕ} {f : OtpCode → OtpCode}, (∀ c, (f c).Follows c) →
      ∃ row', (db.updateCode i f).otpCodes[id]? = some row' ∧ row'.Follows row := by
    intro i f hf
    refine ⟨_, Table.modify_of_row hrow i, ?_⟩
    split
    · exact hf row
    · exact .self row
  cases h with
  | aside ha => exact ⟨row, by rw [ha.frame.2.1]; exact hrow, .self row⟩
  | createCode => exact ⟨row, Table.append_of_row hrow _, .self row⟩
  | deleteCodes =>
      refine ⟨_, by rw [Db.deleteCodes_otpCodes, List.getElem?_map, hrow]; rfl, ?_⟩
      dsimp only
      split
      · exact ⟨rfl, rfl, rfl, rfl, fun h => h, fun _ => rfl, Nat.le_refl _⟩
      · exact .self row
  | countAttempt =>
      exact hupdate fun c => ⟨rfl, rfl, rfl, rfl, fun h => h, fun h => h, Nat.le_succ _⟩
  | consumeCode =>
      exact hupdate fun c => ⟨rfl, rfl, rfl, rfl, fun _ => by simp, fun h => h, Nat.le_refl _⟩
  | _ => exact ⟨row, hrow, .self row⟩

/-- No operation bans a user. -/
theorem UserEffect.banned {id : UserId} {row' : User} (h : UserEffect me x db k id row')
    (hst : row'.status = .banned) : db.users[id]? = some row' ∨
      ∃ row, db.users[id]? = some row ∧ row.status = .banned := by
  cases h with
  | same hrow => exact Or.inl hrow
  | reRegistered hx hrow | reset hx hrow => exact Or.inr ⟨_, hrow, hst⟩
  | created | activated | suspended | restored => nomatch hst

/-! ### Sessions -/

theorem mem_unrevokedWhere {p : Session → Bool} {id : SessionId} :
    id ∈ db.unrevokedWhere p ↔
      ∃ row, db.sessions[id]? = some row ∧ p row = true ∧ row.revokedAt = none := by
  simp only [Db.unrevokedWhere, List.mem_filter, List.mem_range, Option.any_eq_true,
    Bool.and_eq_true, Option.isNone_iff_eq_none]
  constructor
  · rintro ⟨-, row, hrow, hp, hlive⟩
    exact ⟨row, hrow, hp, hlive⟩
  · rintro ⟨row, hrow, hp, hlive⟩
    exact ⟨(List.getElem?_eq_some_iff.mp hrow).1, row, hrow, hp, hlive⟩

theorem sessionLock_eq_none {ids : List SessionId} {id : SessionId} {row : Session}
    (h : db.revokeWaits ids = false) (hid : id ∈ ids) (hrow : db.sessions[id]? = some row)
    (hlive : row.revokedAt = none) : db.sessionLock id = none := by
  simp only [Db.revokeWaits, List.any_eq_false] at h
  simpa [hrow, hlive] using h id hid

/-- What a row is after the rows of a snapshot are revoked. -/
theorem revokeRows_of_row {ids : List SessionId} {revokedAt : Time} {id : ℕ} {row : Session}
    (hrow : db.sessions[id]? = some row) :
    (db.revokeRows ids revokedAt).sessions[id]? =
      some (if id ∈ ids ∧ row.revokedAt = none then { row with revokedAt := some revokedAt }
        else row) := by
  rw [Db.revokeRows_sessions, List.getElem?_mapIdx, hrow]
  rfl

theorem Stmt.sessionEffect (h : Stmt env me x db k o) {id : ℕ} {row' : Session}
    (hrow' : o.store.sessions[id]? = some row') : SessionEffect env x db k id row' := by
  cases h with
  | aside ha =>
      rw [ha.frame.2.2.1] at hrow'
      exact .same hrow'
  | createSession =>
      rcases Table.of_append hrow' with hrow | ⟨rfl, rfl⟩
      · exact .same hrow
      · exact .created
  | consumeSession =>
      obtain ⟨row, hrow, ⟨rfl, rfl⟩ | ⟨-, rfl⟩⟩ := Table.of_modify hrow'
      · exact .consumed hrow
      · exact .same hrow
  | revoke hx hwait =>
      rw [Db.revokeRows_sessions, List.getElem?_mapIdx] at hrow'
      obtain ⟨row, hrow, rfl⟩ := Option.map_eq_some_iff.mp hrow'
      split
      · rename_i hrevoked
        obtain ⟨hid, hlive⟩ := hrevoked
        exact .revoked hrow hid hlive (sessionLock_eq_none hwait hid hrow hlive)
      · exact .same hrow
  | _ => exact .same hrow'

/-- No operation removes a session, gives it to another user or token, or takes a revocation
back. -/
theorem Stmt.session_stays (h : Stmt env me x db k o) {id : ℕ} {row : Session}
    (hrow : db.sessions[id]? = some row) :
    ∃ row', o.store.sessions[id]? = some row' ∧ row'.userId = row.userId ∧
      row'.refreshTokenHash = row.refreshTokenHash ∧
      (row.revokedAt ≠ none → row'.revokedAt ≠ none) := by
  cases h with
  | aside ha => exact ⟨row, by rw [ha.frame.2.2.1]; exact hrow, rfl, rfl, fun h => h⟩
  | createSession => exact ⟨row, Table.append_of_row hrow _, rfl, rfl, fun h => h⟩
  | @consumeSession op i session =>
      refine ⟨_, Table.modify_of_row hrow i, ?_⟩
      split
      · exact ⟨rfl, rfl, fun _ => by simp⟩
      · exact ⟨rfl, rfl, fun h => h⟩
  | revoke =>
      refine ⟨_, revokeRows_of_row hrow, ?_⟩
      split
      · exact ⟨rfl, rfl, fun _ => by simp⟩
      · exact ⟨rfl, rfl, fun h => h⟩
  | _ => exact ⟨row, hrow, rfl, rfl, fun h => h⟩

/-- An operation leaves the locks of the other transactions. -/
theorem Stmt.sessionLock_other (h : Stmt env me x db k o) {id : ℕ} {other : ℕ} (hne : other ≠ me)
    (hlock : db.sessionLock id = some other) : o.store.sessionLock id = some other := by
  have hunlock : (db.unlock me).sessionLock id = some other := by
    simp [hlock, hne]
  cases h with
  | aside ha => rw [ha.frame.2.2.2]; exact hlock
  | @lockSession op i hx hfree =>
      have hid : id ≠ i := by
        intro hid
        simp [hid, hfree] at hlock
      simpa [Function.update_of_ne hid] using hlock
  | fails | sessionInvalid | consumeSession => exact hunlock
  | _ => exact hlock

/-! ### Transitions -/

/-- The call that a transition runs, and its operation. -/
theorem stmt_of_fires {t : Transition Db Call Input} (ht : (accounts env).Fires t) :
    (∃ k, t.event = .start k ∧ k.pc = .start ∧ t.post = ⟨t.pre.store, t.pre.calls ++ [k]⟩) ∨
    (∃ i x k o, t.event = .run i x ∧ t.pre.calls[i]? = some k ∧
        Stmt env i x t.pre.store k o ∧ t.post = ⟨o.store, t.pre.calls.set i o.call⟩) := by
  rcases ht.cases with ⟨k, he, hk, hpost⟩ | ⟨i, x, k, o, he, hi, ho, hpost⟩
  · refine Or.inl ⟨k, he, ?_, hpost⟩
    obtain ⟨op, pc⟩ := k
    cases pc <;> trivial
  · have h := step_cases ho
    rw [h.spawned_eq_nil, List.append_nil] at hpost
    exact Or.inr ⟨i, x, k, o, he, hi, h, hpost⟩

/-- The operation of call number `i` that a transition runs. -/
theorem stmt_of_event {t : Transition Db Call Input} (ht : (accounts env).Fires t) {i : ℕ}
    {x : Input} (he : t.event = .run i x) :
    ∃ k o, t.pre.calls[i]? = some k ∧ Stmt env i x t.pre.store k o ∧
      t.post = ⟨o.store, t.pre.calls.set i o.call⟩ ∧ t.post.calls[i]? = some o.call := by
  obtain ⟨k, o, hk, ho, hpost, hself⟩ := ht.of_event he
  have h := step_cases ho
  rw [h.spawned_eq_nil, List.append_nil] at hpost
  exact ⟨k, o, hk, h, hpost, hself⟩

/-- The outline given by facts about operations. -/
def outline (env : Env) (C : Transition Db Call Input → Prop) (G : Db → Prop)
    (L : Db → ℕ → Call → Prop) (start : ∀ db i op, G db → L db i ⟨op, .start⟩)
    (own : ∀ t i x k o, C t → t.event = .run i x → t.pre.calls[i]? = some k →
      Stmt env i x t.pre.store k o → t.post.calls[i]? = some o.call →
      G t.pre.store → L t.pre.store i k → G o.store ∧ L o.store i o.call)
    (others : ∀ t i x k o j k', C t → t.event = .run i x → t.pre.calls[i]? = some k →
      Stmt env i x t.pre.store k o → i ≠ j → G t.pre.store → L t.pre.store i k →
      L t.pre.store j k' → L o.store j k') : Outline (accounts env) C where
  G := G
  L := L
  start t i k _ _ hentry hG := by
    obtain ⟨op, pc⟩ := k
    cases pc with
    | start => exact start t.pre.store i op hG
    | _ => simp [accounts, Call.isStart] at hentry
  own t i x k o hC he hk hstep hpost hG hL := by
    have h := step_cases hstep
    have hself : t.post.calls[i]? = some o.call := Machine.getElem?_of_post hk hpost
    obtain ⟨hG', hL'⟩ := own t i x k o hC he hk h hself hG hL
    refine ⟨hG', hL', fun j k' hk' => ?_⟩
    simp [h.spawned_eq_nil] at hk'
  others t i x k o j k' hC he hk hstep _ hne hG hL hL' :=
    others t i x k o j k' hC he hk (step_cases hstep) hne hG hL hL'

end Effects

/-- An environment with the default settings, whose hashes are the plain texts. -/
def plainHashes : Env where
  argon2Hash password _ := password
  argon2Verify hash password := hash = password
  hashRefresh raw := raw

/-- Call number `i` is started and runs its first `n` operations. -/
def play (i n : ℕ) (op : Op) (x : Input) : List (Event Call Input) :=
  .start ⟨op, .start⟩ :: List.replicate n (.run i x)

end Handly.Auth
