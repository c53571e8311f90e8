import Handly.Auth.Effects

/-!
# Refresh rotation

`consumeSession` validates and revokes a session under the lock of its row, and only then
does `refresh` create the next one. A refresh in between holds the right to one session:
the sessions of a user that are not revoked, together with these rights, are never more
than the logins and verifications that have issued tokens.
-/

namespace Handly.Auth

open Interleaving

/-- In this transition the call `i` checks the session under its lock: it is not revoked,
and not expired at the instant that the check reads. -/
def ChecksSession (i : ℕ) (id : SessionId) (t : Transition Db Call Input) : Prop :=
  ∃ x op row, t.event = .run i x ∧ t.pre.calls[i]? = some ⟨op, .lockedSession id⟩ ∧
    t.pre.store.sessions[id]? = some row ∧ row.revokedAt = none ∧ x.now < row.expiresAt

/-- In this transition the `consumeSession` of the call `i` succeeds on the session. -/
def ConsumesSession (i : ℕ) (id : SessionId) (t : Transition Db Call Input) : Prop :=
  ∃ op session, t.IsBy i ∧ t.pre.calls[i]? = some ⟨op, .validSession id session⟩ ∧
    t.post.calls[i]? = some ⟨op, .consumed session.userId⟩

/-- In this transition a `consumeSession` of the raw token succeeds. -/
def consumesToken (raw : String) (t : Transition Db Call Input) : Bool :=
  (t.caller.any fun k => k.op matches .refresh _ && k.pc matches .validSession _ _) &&
    t.callerAfter.any fun k =>
      match k.op, k.pc with
      | .refresh r, .consumed _ => r = raw
      | _, _ => false

/-- The call is a `login` or a `verifyOtp`. -/
def Op.signsIn (op : Op) : Bool :=
  match op with
  | .login _ _ | .verifyOtp _ _ _ => true
  | _ => false

/-- In this transition a `login` or `verifyOtp` of the user succeeds: its tokens are issued. -/
def signsIn (u : UserId) (t : Transition Db Call Input) : Bool :=
  (t.caller.any fun k => k.op.signsIn &&
    match k.pc with
    | .issuingTokens id => id = u
    | _ => false) &&
    t.callerAfter.any fun k => k.pc matches .returned

/-- The sessions of a user that are not revoked. -/
def Db.liveSessions (db : Db) (u : UserId) : ℕ :=
  db.sessions.countP fun s => s.userId = u && s.revokedAt.isNone

/-- In a run to `c'` from a store without sessions: a token is consumed once, never after its
session was revoked and only if it was found unexpired, and the sessions of a user do not
outnumber the calls that signed it in. -/
structure Rotates (ts : List (Transition Db Call Input)) (c' : Config Db Call) : Prop where
  once : ∀ raw, ts.countP (consumesToken raw) ≤ 1
  unrevoked : ∀ before t after, ts = before ++ t :: after → ∀ (id : SessionId) (row : Session),
    t.post.store.sessions[id]? = some row → row.revokedAt ≠ none →
    ∀ t' ∈ after, ∀ i, ¬ ConsumesSession i id t'
  unexpired : ∀ t ∈ ts, ∀ i id, ConsumesSession i id t → ∃ t₀ ∈ ts, ChecksSession i id t₀
  live : ∀ u, c'.store.liveSessions u ≤ ts.countP (signsIn u)

/-- The token drawn for a new session was drawn for no other. -/
def DrawsFreshToken (_me : ℕ) (x : Input) (k : Call) (db : Db) : Prop :=
  match k.pc with
  | .issuingTokens _ => ∀ s ∈ db.sessions, s.refreshToken ≠ x.refreshToken
  | _ => True

instance (me : ℕ) (x : Input) (k : Call) (db : Db) : Decidable (DrawsFreshToken me x k db) :=
  decidable_of_bool
    (match k.pc with
      | .issuingTokens _ => db.sessions.all fun s => s.refreshToken ≠ x.refreshToken
      | _ => true)
    (by unfold DrawsFreshToken; split <;> simp)

/-! ### The invariant -/

/-- Every session keeps the hash of its own token. -/
structure TokensDistinct (env : Env) (s : Db) : Prop where
  hashed : ∀ (id : ℕ) (row : Session), s.sessions[id]? = some row →
    row.refreshTokenHash = env.hashRefresh row.refreshToken
  distinct : ∀ (i j : ℕ) (row row' : Session), s.sessions[i]? = some row →
    s.sessions[j]? = some row' → row.refreshToken = row'.refreshToken → i = j

/-- The session row belongs to the token that the call presents. -/
def Call.Presents (env : Env) (k : Call) (row : Session) : Prop :=
  ∃ raw, k.op = .refresh raw ∧ row.refreshTokenHash = env.hashRefresh raw

/-- What a call inside `consumeSession` knows. -/
def Call.Rotating (env : Env) (ts : List (Transition Db Call Input)) (s : Db) (i : ℕ)
    (k : Call) : Prop :=
  match k.pc with
  | .foundSession id => ∃ row, s.sessions[id]? = some row ∧ k.Presents env row
  | .lockedSession id => s.sessionLock id = some i ∧
      ∃ row, s.sessions[id]? = some row ∧ k.Presents env row
  | .validSession id session => s.sessionLock id = some i ∧
      (∃ t ∈ ts, ChecksSession i id t) ∧
      ∃ row, s.sessions[id]? = some row ∧ k.Presents env row ∧ row.revokedAt = none ∧
        row.userId = session.userId
  | .consumed _ => ∃ raw, k.op = .refresh raw
  | .activating _ _ | .activated _ _ => k.op.signsIn = true
  | .issuingTokens _ => k.op.signsIn = true ∨ ∃ raw, k.op = .refresh raw
  | _ => True

section Statements

variable {env : Env} {ts : List (Transition Db Call Input)} {t : Transition Db Call Input}
  {i : ℕ} {x : Input} {k : Call} {s : Db} {o : Outcome Db Call}

/-- A session after an operation keeps its token, or its token was drawn by it. -/
theorem SessionEffect.token {id : ℕ} {row' : Session} (h : SessionEffect env x s k id row') :
    (∃ row, s.sessions[id]? = some row ∧ row'.refreshToken = row.refreshToken ∧
      row'.refreshTokenHash = row.refreshTokenHash) ∨
    (id = s.sessions.length ∧ row'.refreshToken = x.refreshToken ∧
      row'.refreshTokenHash = env.hashRefresh x.refreshToken ∧
      ∃ userId, k.pc = .issuingTokens userId) := by
  cases h with
  | same hrow => exact Or.inl ⟨row', hrow, rfl, rfl⟩
  | created => exact Or.inr ⟨rfl, rfl, rfl, _, rfl⟩
  | consumed hrow => exact Or.inl ⟨_, hrow, rfl, rfl⟩
  | revoked hrow => exact Or.inl ⟨_, hrow, rfl, rfl⟩

theorem Stmt.tokensDistinct (h : Stmt env i x s k o) (hC : DrawsFreshToken i x k s)
    (hG : TokensDistinct env s) : TokensDistinct env o.store := by
  -- No session there before has the token that the operation draws.
  have hfresh : ∀ {id : ℕ} {row : Session} {userId : UserId}, k.pc = .issuingTokens userId →
      s.sessions[id]? = some row → row.refreshToken ≠ x.refreshToken := by
    intro id row userId hpc hrow
    rw [DrawsFreshToken, hpc] at hC
    exact hC row (List.mem_of_getElem? hrow)
  refine ⟨fun id row' hrow' => ?_, fun a b row₁' row₂' h₁ h₂ htoken => ?_⟩
  · rcases (h.sessionEffect hrow').token with ⟨row, hrow, htoken, hhash⟩ | ⟨-, htoken, hhash, -⟩
    · rw [hhash, htoken]
      exact hG.hashed id row hrow
    · rw [hhash, htoken]
  · rcases (h.sessionEffect h₁).token with ⟨row₁, hrow₁, htoken₁, -⟩ | ⟨ha, htoken₁, -, u, hpc⟩
    · rcases (h.sessionEffect h₂).token with ⟨row₂, hrow₂, htoken₂, -⟩ | ⟨-, htoken₂, -, u, hpc⟩
      · exact hG.distinct a b row₁ row₂ hrow₁ hrow₂ (by rw [← htoken₁, htoken, htoken₂])
      · exact absurd (by rw [← htoken₁, htoken, htoken₂]) (hfresh hpc hrow₁)
    · rcases (h.sessionEffect h₂).token with ⟨row₂, hrow₂, htoken₂, -⟩ | ⟨hb, -⟩
      · exact absurd (by rw [← htoken₂, ← htoken, htoken₁]) (hfresh hpc hrow₂)
      · rw [ha, hb]

/-- What the running call knows after its operation. -/
theorem Stmt.rotating (h : Stmt env i x t.pre.store k o) (ht : t ∈ ts) (he : t.event = .run i x)
    (hk : t.pre.calls[i]? = some k) (hL : k.Rotating env ts t.pre.store i) :
    o.call.Rotating env ts o.store i := by
  cases h with
  | reads hr =>
      cases hr with
      | sessionFound hrow hhash => exact ⟨_, hrow, _, rfl, hhash⟩
      | @sessionValid _ id row hrow hlive hexp =>
          obtain ⟨hlock, row', hrow', hpresents⟩ := hL
          obtain rfl := Option.some.inj (hrow.symm.trans hrow')
          exact ⟨hlock, ⟨t, ht, x, _, row, he, hk, hrow, hlive, hexp⟩, row, hrow, hpresents,
            hlive, rfl⟩
      | activates => exact rfl
      | issues => exact Or.inl rfl
      | refreshes => exact Or.inr hL
      | uncleared hadmitted =>
          cases hadmitted with
          | active => exact Or.inl rfl
          | _ => trivial
      | limited hlimited => cases hlimited <;> trivial
      | _ => trivial
  | aside ha =>
      cases ha with
      | activateReferrals => exact Or.inl hL
      | clearFailures hadmitted =>
          cases hadmitted with
          | active => exact Or.inl rfl
          | _ => trivial
      | countOver _ hlimited | expireOver _ hlimited => cases hlimited <;> trivial
      | countFailure hpc => rcases hpc with rfl | rfl <;> trivial
      | _ => trivial
  | activate => exact hL
  | lockSession =>
      obtain ⟨row, hrow, hpresents⟩ := hL
      exact ⟨by simp, row, hrow, hpresents⟩
  | consumeSession =>
      obtain ⟨-, -, row, -, ⟨raw, hop, -⟩, -⟩ := hL
      exact ⟨raw, hop⟩
  | _ => trivial

/-- An operation of another call keeps what a call knows: it waits for the lock. -/
theorem Stmt.rotating_other (h : Stmt env i x s k o) {j : ℕ} {k' : Call} (hne : i ≠ j)
    (hL : k.Rotating env ts s i) (hL' : k'.Rotating env ts s j) :
    k'.Rotating env ts o.store j := by
  have hpresented : ∀ {id : ℕ}, (∃ row, s.sessions[id]? = some row ∧ k'.Presents env row) →
      ∃ row, o.store.sessions[id]? = some row ∧ k'.Presents env row := by
    intro id hrow
    obtain ⟨row, hrow, raw, hop, hhash⟩ := hrow
    obtain ⟨row', hrow', -, hhash', -⟩ := h.session_stays hrow
    exact ⟨row', hrow', raw, hop, hhash'.trans hhash⟩
  obtain ⟨op, pc⟩ := k'
  cases pc with
  | foundSession id => exact hpresented hL'
  | lockedSession id => exact ⟨h.sessionLock_other hne.symm hL'.1, hpresented hL'.2⟩
  | validSession id session =>
      obtain ⟨hlock, hchecked, row, hrow, hpresents, hlive, huser⟩ := hL'
      obtain ⟨row', hrow', -⟩ := h.session_stays hrow
      refine ⟨h.sessionLock_other hne.symm hlock, hchecked, ?_⟩
      cases h.sessionEffect hrow' with
      | same hsame =>
          obtain rfl := Option.some.inj (hrow.symm.trans hsame)
          exact ⟨row, hrow', hpresents, hlive, huser⟩
      | created => simp at hrow
      | consumed =>
          -- The other call would hold the lock of the same row.
          have hmine := hlock.symm.trans hL.1
          exact absurd (Option.some.inj hmine).symm hne
      | revoked _ _ _ hfree => simp [hlock] at hfree
  | _ => exact hL'

/-! ### Live sessions -/

/-- The right to one session of the user that a refresh holds after it consumed another. -/
def Call.owedSession (u : UserId) (k : Call) : ℕ :=
  match k.op, k.pc with
  | .refresh _, .consumed id | .refresh _, .issuingTokens id => if id = u then 1 else 0
  | _, _ => 0

theorem createSession_liveSessions (db : Db) (u : UserId) (row : Session)
    (h : row.revokedAt = none) :
    (db.createSession row).liveSessions u =
      db.liveSessions u + if row.userId = u then 1 else 0 := by
  simp [Db.liveSessions, List.countP_append, List.countP_singleton, h]

theorem revokeSession_liveSessions {db : Db} (u : UserId) (now : Time) {id : SessionId}
    {row : Session} (hrow : db.sessions[id]? = some row) (h : row.revokedAt = none) :
    (db.revokeSession id now).liveSessions u + (if row.userId = u then 1 else 0) =
      db.liveSessions u := by
  have hcount := Table.countP_modify
    (p := fun s : Session => s.userId = u && s.revokedAt.isNone)
    (f := fun s => { s with revokedAt := some now }) hrow
  simpa [Db.liveSessions, h] using hcount

theorem revokeRows_liveSessions (db : Db) (u : UserId) (ids : List SessionId)
    (revokedAt : Time) : (db.revokeRows ids revokedAt).liveSessions u ≤ db.liveSessions u := by
  refine Table.countP_mapIdx_le (fun id s hs => ?_) db.sessions
  split at hs
  · simp at hs
  · exact hs

/-- A `login` or `verifyOtp` of the user issues its tokens. -/
def issuesFor (u : UserId) (k k' : Call) : Bool :=
  (k.op.signsIn &&
    match k.pc with
    | .issuingTokens id => id = u
    | _ => false) && k'.pc matches .returned

theorem Reads.owedSession_le {op : Op} {pc pc' : Pc} (h : Reads env x s op pc pc')
    (u : UserId) : Call.owedSession u ⟨op, pc'⟩ ≤ Call.owedSession u ⟨op, pc⟩ := by
  cases h with
  | limited hlimited | uncleared hlimited => cases hlimited <;> simp [Call.owedSession]
  | refreshes => cases op <;> simp [Call.owedSession]
  | _ => simp [Call.owedSession]

/-- The books of one operation: a new live session was owed to a refresh or signs its user
in. -/
theorem Stmt.live_le (h : Stmt env i x s k o) (hL : k.Rotating env ts s i) (u : UserId) :
    o.store.liveSessions u + o.call.owedSession u ≤
      s.liveSessions u + k.owedSession u + if issuesFor u k o.call then 1 else 0 := by
  -- An operation that leaves the sessions and after which its call is owed no more.
  have hidle : o.store.sessions = s.sessions → o.call.owedSession u ≤ k.owedSession u →
      o.store.liveSessions u + o.call.owedSession u ≤
        s.liveSessions u + k.owedSession u + if issuesFor u k o.call then 1 else 0 := by
    intro hsessions howed
    rw [Db.liveSessions, hsessions]
    show s.liveSessions u + _ ≤ _
    omega
  cases h with
  | reads hr => exact hidle rfl (hr.owedSession_le u)
  | @aside op pc db' pc' ha =>
      refine hidle ha.frame.2.2.1 ?_
      cases ha with
      | activateReferrals =>
          cases op with
          | refresh raw => simp [Call.Rotating, Op.signsIn] at hL
          | _ => simp [Call.owedSession]
      | countOver _ hlimited | expireOver _ hlimited | clearFailures hlimited =>
          cases hlimited <;> simp [Call.owedSession]
      | countFailure hpc => rcases hpc with rfl | rfl <;> simp [Call.owedSession]
      | _ => simp [Call.owedSession]
  | @createSession op id =>
      dsimp only
      rw [createSession_liveSessions s u _ rfl]
      rcases hL with hop | ⟨raw, rfl⟩
      · simp only [issuesFor, hop, newSession]
        have howed : Call.owedSession u ⟨op, .returned⟩ = 0 := by
          simp [Call.owedSession]
        rw [howed]
        by_cases hid : id = u <;> simp [hid]
      · simp only [Call.owedSession, newSession, add_zero]
        exact Nat.le_add_right _ _
  | @consumeSession op id session =>
      obtain ⟨-, -, row, hrow, ⟨raw, hop, -⟩, hlive, huser⟩ := hL
      obtain rfl : op = .refresh raw := hop
      have hless := revokeSession_liveSessions u x.now hrow hlive
      show (s.revokeSession id x.now).liveSessions u +
        Call.owedSession u ⟨.refresh raw, .consumed session.userId⟩ ≤ _
      simp only [Call.owedSession, ← huser]
      omega
  | @revoke op ids revokedAt =>
      have hless := revokeRows_liveSessions s u ids revokedAt
      have howed : Call.owedSession u ⟨op, .returned⟩ = 0 := by
        simp [Call.owedSession]
      dsimp only
      rw [howed]
      omega
  | _ => exact hidle rfl (by simp [Call.owedSession])

end Statements

section Run

variable {env : Env} {db : Db} {c' : Config Db Call} {ts : List (Transition Db Call Input)}

/-- The outline of the runs that draw distinct tokens. -/
def rotating (env : Env) (ts : List (Transition Db Call Input)) :
    Outline (accounts env) fun t => t ∈ ts ∧ t.Satisfies DrawsFreshToken :=
  outline env _ (TokensDistinct env) (fun s i k => k.Rotating env ts s i)
    (fun _ _ _ _ => trivial)
    (fun _ i x k _ ht he hk h _ hG hL =>
      ⟨h.tokensDistinct (ht.2 i x k he hk) hG, h.rotating ht.1 he hk hL⟩)
    (fun _ _ _ _ _ _ _ _ _ _ h hne _ hL hL' => h.rotating_other hne hL hL')

/-- The right to consume a token: no session of it has been revoked. -/
def Db.unspent (env : Env) (db : Db) (raw : String) : ℕ :=
  if db.sessions.any fun s => s.refreshTokenHash = env.hashRefresh raw && s.revokedAt.isSome then 0
  else 1

theorem unspent_le_one (env : Env) (db : Db) (raw : String) : db.unspent env raw ≤ 1 := by
  unfold Db.unspent
  split <;> omega

theorem unspent_eq_zero {db : Db} {raw : String} {id : ℕ} {row : Session}
    (hrow : db.sessions[id]? = some row) (hhash : row.refreshTokenHash = env.hashRefresh raw)
    (hrev : row.revokedAt ≠ none) : db.unspent env raw = 0 := by
  refine if_pos (List.any_eq_true.mpr ⟨row, List.mem_of_getElem? hrow, ?_⟩)
  simp [hhash, Option.isSome_iff_ne_none, hrev]

theorem unspent_eq_one {db : Db} {raw : String}
    (h : ∀ (id : ℕ) (row : Session), db.sessions[id]? = some row →
      row.refreshTokenHash = env.hashRefresh raw → row.revokedAt = none) :
    db.unspent env raw = 1 := by
  refine if_neg fun hany => ?_
  obtain ⟨row, hmem, hrow⟩ := List.any_eq_true.mp hany
  obtain ⟨id, hid⟩ := List.getElem?_of_mem hmem
  simp only [Bool.and_eq_true, decide_eq_true_eq] at hrow
  simp [h id row hid hrow.1] at hrow

/-- No operation gives the right to a token back. -/
theorem Stmt.unspent_le {i : ℕ} {x : Input} {k : Call} {o : Outcome Db Call}
    (h : Stmt env i x db k o) (raw : String) : o.store.unspent env raw ≤ db.unspent env raw := by
  by_cases hall : ∀ (id : ℕ) (row : Session), db.sessions[id]? = some row →
      row.refreshTokenHash = env.hashRefresh raw → row.revokedAt = none
  · rw [unspent_eq_one hall]
    exact unspent_le_one env _ raw
  · push Not at hall
    obtain ⟨id, row, hrow, hhash, hrev⟩ := hall
    obtain ⟨row', hrow', -, hhash', hrev'⟩ := h.session_stays hrow
    rw [unspent_eq_zero hrow' (hhash'.trans hhash) (hrev' hrev)]
    exact Nat.zero_le _

/-- The rights to tokens in one transition: the token consumed was unspent, and no longer
is. -/
theorem consumesToken_le (hinj : Function.Injective env.hashRefresh) {t : Transition Db Call Input}
    (ht : (accounts env).Fires t) (hholds : (rotating env ts).Holds t.pre) (raw : String) :
    (if consumesToken raw t then 1 else 0) + t.post.store.unspent env raw ≤
      t.pre.store.unspent env raw := by
  rcases stmt_of_fires ht with ⟨k, he, -, hpost⟩ | ⟨i, x, k, o, he, hk, h, hpost⟩
  · simp [consumesToken, Transition.caller, he, hpost]
  · have hle := h.unspent_le raw
    have hL := hholds.2 i k hk
    have hstore : t.post.store = o.store := by
      rw [hpost]
    simp only [consumesToken, Transition.caller_eq he hk, Transition.callerAfter_eq he hk hpost,
      Option.any_some, hstore]
    obtain ⟨op, pc⟩ := k
    cases pc with
    | validSession id session =>
        obtain ⟨-, -, row, hrow, ⟨raw', hop, hhash⟩, hlive, -⟩ := hL
        obtain rfl : op = .refresh raw' := hop
        cases h with
        | fails => simpa using hle
        | reads hr => cases hr
        | aside ha => cases ha
        | consumeSession =>
            by_cases hraw : raw' = raw
            · subst hraw
              have hpre : t.pre.store.unspent env raw' = 1 := by
                refine unspent_eq_one fun id' row' hrow' hhash' => ?_
                have htoken := hinj ((hholds.1.hashed id row hrow).symm.trans
                  (hhash.trans (hhash'.symm.trans (hholds.1.hashed id' row' hrow'))))
                obtain rfl := hholds.1.distinct id id' row row' hrow hrow' htoken
                obtain rfl := Option.some.inj (hrow.symm.trans hrow')
                exact hlive
              have hpost : ((t.pre.store.revokeSession id x.now).unlock i).unspent env raw' = 0 :=
                unspent_eq_zero (Table.modify_of_row hrow id) (by simpa using hhash) (by simp)
              simp [hpre, hpost]
            · simpa [hraw] using hle
    | _ => simpa using hle

/-- The live sessions of a user and those owed to its refreshes grow by signing in alone. -/
theorem liveSessions_step {t : Transition Db Call Input} (ht : (accounts env).Fires t)
    (hholds : (rotating env ts).Holds t.pre) (u : UserId) :
    potential (fun db : Db => db.liveSessions u) (Call.owedSession u) t.post ≤
      potential (fun db : Db => db.liveSessions u) (Call.owedSession u) t.pre +
        if signsIn u t then 1 else 0 := by
  rcases stmt_of_fires ht with ⟨k, he, hstart, hpost⟩ | ⟨i, x, k, o, he, hk, h, hpost⟩
  · have howed : k.owedSession u = 0 := by
      simp [Call.owedSession, hstart]
    simp [potential, hpost, howed]
  · have hle := h.live_le (hholds.2 i k hk) u
    have hsum := sum_map_set (g := Call.owedSession u) hk o.call
    have hsigns : signsIn u t = issuesFor u k o.call := by
      rw [signsIn, Transition.caller_eq he hk, Transition.callerAfter_eq he hk hpost]
      rfl
    rw [hsigns, hpost]
    simp only [potential]
    omega

/-- A revoked session stays revoked. -/
theorem revoked_of_run {c : Config Db Call} (hrun : (accounts env).Run c ts c') {id : ℕ}
    {row : Session} (hrow : c.store.sessions[id]? = some row) (hrev : row.revokedAt ≠ none) :
    ∀ t ∈ ts, ∃ row', t.pre.store.sessions[id]? = some row' ∧ row'.revokedAt ≠ none := by
  intro t ht
  refine ((hrun.always
    (fun c => ∃ row, c.store.sessions[id]? = some row ∧ row.revokedAt ≠ none)
    ⟨row, hrow, hrev⟩ ?_).2 t ht).1
  intro t ht hI
  obtain ⟨row, hrow, hrev⟩ := hI
  rcases stmt_of_fires ht with ⟨k, he, -, hpost⟩ | ⟨i, x, k, o, he, hk, h, hpost⟩
  · rw [hpost]
    exact ⟨row, hrow, hrev⟩
  · obtain ⟨row', hrow', -, -, hkept⟩ := h.session_stays hrow
    rw [hpost]
    exact ⟨row', hrow', hkept hrev⟩

/-- **Rotation conserves sessions**, when tokens are distinct and the hash is injective. -/
theorem rotates_of_run (hinj : Function.Injective env.hashRefresh) (hempty : db.sessions = [])
    (hrun : (accounts env).Run ⟨db, []⟩ ts c') (hC : ∀ t ∈ ts, t.Satisfies DrawsFreshToken) :
    Rotates ts c' := by
  have hstart : (rotating env ts).Holds ⟨db, []⟩ := by
    refine ⟨⟨fun id row hrow => ?_, fun i j row row' hrow => ?_⟩, by simp⟩
    · simp [hempty] at hrow
    · simp [hempty] at hrow
  have hholds := ((rotating env ts).holds_run hrun (fun t ht => ⟨ht, hC t ht⟩) hstart).2
  refine ⟨fun raw => ?_, fun before t after hts id row hrow hrev t' ht' i hconsumes => ?_,
    fun t ht i id hconsumes => ?_, fun u => ?_⟩
  · have hbound := hrun.countP_add_le (fun c => c.store.unspent env raw) (consumesToken raw)
      fun t ht hfire => consumesToken_le hinj hfire (hholds t ht).1 raw
    have hone := unspent_le_one env db raw
    dsimp only at hbound
    omega
  · have hmem : t' ∈ ts := by
      simp [hts, ht']
    obtain ⟨op, session, -, hk, -⟩ := hconsumes
    obtain ⟨-, -, row₁, hrow₁, -, hlive, -⟩ := (hholds t' hmem).1.2 i _ hk
    rw [hts] at hrun
    obtain ⟨row₂, hrow₂, hrev₂⟩ := revoked_of_run hrun.of_append_cons.2 hrow hrev t' ht'
    obtain rfl := Option.some.inj (hrow₁.symm.trans hrow₂)
    exact hrev₂ hlive
  · obtain ⟨op, session, -, hk, -⟩ := hconsumes
    exact ((hholds t ht).1.2 i _ hk).2.1
  · have hbound := hrun.le_add_countP
      (potential (fun db : Db => db.liveSessions u) (Call.owedSession u)) (signsIn u)
      fun t ht hfire => liveSessions_step hfire (hholds t ht).1 u
    have hzero : db.liveSessions u = 0 := by
      simp [Db.liveSessions, hempty]
    simp only [potential, List.map_nil, List.sum_nil, hzero] at hbound
    omega

end Run

/-- A verification, two refreshes of its token and a logout of the next. -/
def refreshTogether : List (Event Call Input) :=
  List.flatten
    [play 0 12 (.register { phone := "p", password := "a" }) { code := "1" },
      play 1 7 (.verifyOtp "p" "1" .signup) { refreshToken := "t" },
      play 2 1 (.refresh "t") {}, play 3 6 (.refresh "t") { refreshToken := "u" },
      [.run 2 {}, .run 2 {}], play 4 2 (.logout (some "u")) {}]

theorem rotates_refreshTogether :
    Rotates ((accounts plainHashes).trace ⟨{}, []⟩ refreshTogether)
      ((accounts plainHashes).after ⟨{}, []⟩ refreshTogether) :=
  rotates_of_run (fun _ _ h => h) rfl ((accounts plainHashes).run_trace _ _) (by decide +kernel)

end Handly.Auth
