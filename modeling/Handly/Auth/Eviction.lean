import Handly.Auth.RefreshRotation
import Handly.Auth.Suspension
import Mathlib.Logic.Relation

/-!
# What a password reset evicts

`resetPassword` writes the new password and then revokes the sessions that exist when the
`updateMany` of `revokeAllForUser` starts. A `login` that compared the old password, or a
`refresh` that consumed its token, may still be about to create its session: the revocation
misses it, and the session lives on through its rotations. It is missed too when the
`updateMany` waits for the lock of another session and the session is created meanwhile.
-/

namespace Handly.Auth

open Interleaving

/-- In this transition the call `r` writes the new password of the user. -/
def WritesPassword (r : ℕ) (u : UserId) (t : Transition Db Call Input) : Prop :=
  ∃ op passwordHash, t.IsBy r ∧ t.pre.calls[r]? = some ⟨op, .rehashed u passwordHash⟩ ∧
    t.post.calls[r]? = some ⟨op, .revokingAll u⟩

/-- In this transition the `updateMany` of `revokeAllForUser` of the call `r` starts. -/
def StartsRevoking (r : ℕ) (u : UserId) (t : Transition Db Call Input) : Prop :=
  ∃ op ids revokedAt, t.IsBy r ∧ t.pre.calls[r]? = some ⟨op, .revokingAll u⟩ ∧
    t.post.calls[r]? = some ⟨op, .revoking ids revokedAt⟩

/-- In this transition it writes, and the call returns. -/
def FinishesRevoking (r : ℕ) (t : Transition Db Call Input) : Prop :=
  ∃ op ids revokedAt, t.IsBy r ∧ t.pre.calls[r]? = some ⟨op, .revoking ids revokedAt⟩ ∧
    t.post.calls[r]? = some ⟨op, .returned⟩

/-- In this transition the `login` with number `i` reads the user, whose password it compares
next. -/
def ReadsAccount (i : ℕ) (u : UserId) (t : Transition Db Call Input) : Prop :=
  ∃ phone password user, t.IsBy i ∧
    t.post.calls[i]? = some ⟨.login phone password, .comparingPassword u user⟩

/-- In this transition the call `i` creates the session `id`. -/
def IssuesSession (i : ℕ) (id : SessionId) (t : Transition Db Call Input) : Prop :=
  t.IsBy i ∧ t.pre.store.sessions.length = id ∧ id < t.post.store.sessions.length

/-- A refresh consumes the session `id` and creates the session `id'`. -/
def Rotated (ts : List (Transition Db Call Input)) (id id' : SessionId) : Prop :=
  ∃ i, (∃ t ∈ ts, ConsumesSession i id t) ∧ ∃ t ∈ ts, IssuesSession i id' t

/-- The session `id'` descends from the session `id`. -/
def Descends (ts : List (Transition Db Call Input)) (id id' : SessionId) : Prop :=
  Relation.ReflTransGen (Rotated ts) id id'

/-- The transitions of a run, cut at three of them: a reset writes the password, its
revocation starts, and its revocation writes. -/
structure ResetRun where
  before : List (Transition Db Call Input)
  password : Transition Db Call Input
  mid : List (Transition Db Call Input)
  start : Transition Db Call Input
  wait : List (Transition Db Call Input)
  revocation : Transition Db Call Input
  after : List (Transition Db Call Input)

namespace ResetRun

/-- What comes before the revocation writes. -/
def earlier (p : ResetRun) : List (Transition Db Call Input) :=
  (p.before ++ p.password :: p.mid) ++ p.start :: p.wait

def transitions (p : ResetRun) : List (Transition Db Call Input) :=
  p.earlier ++ p.revocation :: p.after

/-- The three transitions are those of the `resetPassword` with number `i`. -/
structure IsReset (p : ResetRun) (i : ℕ) (u : UserId) : Prop where
  writes : WritesPassword i u p.password
  starts : StartsRevoking i u p.start
  finishes : FinishesRevoking i p.revocation

/-- The session descends from a token issued before the revocation starts, or from a login
that read the account before the new password was written. -/
def Old (p : ResetRun) (u : UserId) (id : SessionId) : Prop :=
  ∃ id₀, Descends p.transitions id₀ id ∧ (id₀ < p.start.pre.store.sessions.length ∨
    ∃ i, (∃ t ∈ p.before, ReadsAccount i u t) ∧ ∃ t ∈ p.transitions, IssuesSession i id₀ t)

/-- From the moment that the reset returns, no unrevoked session of the user is old. -/
def Evicts (p : ResetRun) (u : UserId) : Prop :=
  ∀ t ∈ p.revocation :: p.after, ∀ (id : SessionId) (row : Session),
    t.post.store.sessions[id]? = some row → row.userId = u → row.revokedAt = none → ¬ p.Old u id

/-- No call that issues tokens for the user once the revocation has started is a login that
read the account before the new password was written, or a refresh that consumed an old
session before the revocation wrote: unless that write finds the new session revoked
again. -/
def IssuesAnew (p : ResetRun) (u : UserId) : Prop :=
  ∀ t ∈ p.wait ++ p.after, ∀ i, IssuesTokens u i t →
    (∀ row ∈ p.revocation.pre.store.sessions[t.pre.store.sessions.length]?,
      row.revokedAt = none) →
    (∀ t₀ ∈ p.before, ¬ ReadsAccount i u t₀) ∧
      ∀ t₀ ∈ p.earlier, ∀ id, ConsumesSession i id t₀ → ¬ p.Old u id

end ResetRun

section Statements

variable {env : Env} {i : ℕ} {x : Input} {k : Call} {s : Db} {o : Outcome Db Call}

/-- Only `TokenService.issue` creates a session. -/
theorem Stmt.issues (h : Stmt env i x s k o) (hlen : s.sessions.length < o.store.sessions.length) :
    ∃ op u, x.fail = false ∧ k = ⟨op, .issuingTokens u⟩ ∧ o.call = ⟨op, .returned⟩ ∧
      o.store.sessions[s.sessions.length]? = some (newSession env x u) := by
  cases h with
  | aside ha => simp [ha.frame.2.2.1] at hlen
  | @createSession op u hx => exact ⟨op, u, hx, rfl, rfl, by simp⟩
  | consumeSession | revoke => simp at hlen
  | _ => exact absurd hlen (Nat.lt_irrefl _)

/-- A finished call stays finished. -/
theorem Stmt.stays_finished (h : Stmt env i x s k o) (hk : k.isFinished = true) :
    o.call.isFinished = true := by
  obtain ⟨op, pc⟩ := k
  cases pc with
  | returned | threw =>
      cases h with
      | fails => rfl
      | reads hr => cases hr
      | aside ha => cases ha
  | _ => simp [Call.isFinished] at hk

/-- What a refresh does once it has consumed a session of the user. -/
def Call.Succeeds (u : UserId) (k : Call) : Prop :=
  k.pc = .consumed u ∨ k.pc = .issuingTokens u ∨ k.isFinished = true

theorem Stmt.succeeds {u : UserId} (h : Stmt env i x s k o) (hk : k.Succeeds u) :
    o.call.Succeeds u := by
  obtain ⟨op, pc⟩ := k
  rcases hk with rfl | rfl | hfinished
  · cases h with
    | fails => exact Or.inr (Or.inr rfl)
    | reads hr =>
        cases hr with
        | notRefreshed => exact Or.inr (Or.inr rfl)
        | refreshes => exact Or.inr (Or.inl rfl)
    | aside ha => cases ha
  · cases h with
    | reads hr => cases hr
    | aside ha => cases ha
    | fails | createSession => exact Or.inr (Or.inr rfl)
  · exact Or.inr (Or.inr (h.stays_finished hfinished))

/-- What the reset does once its revocation has started. -/
def Call.Revoking (ids : List SessionId) (revokedAt : Time) (k : Call) : Prop :=
  k.pc = .revoking ids revokedAt ∨ k.isFinished = true

theorem Stmt.revoking {ids : List SessionId} {revokedAt : Time} (h : Stmt env i x s k o)
    (hk : k.Revoking ids revokedAt) : o.call.Revoking ids revokedAt := by
  obtain ⟨op, pc⟩ := k
  rcases hk with rfl | hfinished
  · cases h with
    | reads hr => cases hr
    | aside ha => cases ha
    | fails | revoke => exact Or.inr rfl
  · exact Or.inr (h.stays_finished hfinished)

end Statements

section Run

variable {env : Env} {db : Db} {c c' : Config Db Call} {ts : List (Transition Db Call Input)}
  {t : Transition Db Call Input} {u : UserId} {i : ℕ} {id : SessionId}

/-- The outline of any run: what a call inside `consumeSession` knows. -/
def consuming (env : Env) (ts : List (Transition Db Call Input)) :
    Outline (accounts env) fun t => t ∈ ts :=
  outline env _ (fun _ => True) (fun s i k => k.Rotating env ts s i) (fun _ _ _ _ => trivial)
    (fun _ _ _ _ _ ht he hk h _ _ hL => ⟨trivial, h.rotating ht he hk hL⟩)
    (fun _ _ _ _ _ _ _ _ _ _ h hne _ hL hL' => h.rotating_other hne hL hL')

/-- No session is lost, given to another user, or revived. -/
theorem session_of_run (hrun : (accounts env).Run c ts c') {row : Session}
    (hrow : c.store.sessions[id]? = some row) :
    ∃ row', c'.store.sessions[id]? = some row' ∧ row'.userId = row.userId ∧
      (row.revokedAt ≠ none → row'.revokedAt ≠ none) := by
  refine (hrun.always (fun d => ∃ row', d.store.sessions[id]? = some row' ∧
    row'.userId = row.userId ∧ (row.revokedAt ≠ none → row'.revokedAt ≠ none))
    ⟨row, hrow, rfl, fun h => h⟩ ?_).1
  intro t ht hI
  obtain ⟨row₁, hrow₁, huser₁, hrev₁⟩ := hI
  rcases stmt_of_fires ht with ⟨k, he, -, hpost⟩ | ⟨i, x, k, o, he, hk, h, hpost⟩
  · rw [hpost]
    exact ⟨row₁, hrow₁, huser₁, hrev₁⟩
  · obtain ⟨row₂, hrow₂, huser₂, -, hrev₂⟩ := h.session_stays hrow₁
    rw [hpost]
    exact ⟨row₂, hrow₂, huser₂.trans huser₁, fun hrev => hrev₂ (hrev₁ hrev)⟩

/-- The session that a transition creates. -/
theorem issued_of_fires (ht : (accounts env).Fires t) (hi : IssuesSession i id t) :
    ∃ u row, IssuesTokens u i t ∧ t.post.store.sessions[id]? = some row ∧ row.userId = u ∧
      row.revokedAt = none ∧ ∃ op, t.post.calls[i]? = some ⟨op, .returned⟩ := by
  obtain ⟨⟨y, hby⟩, rfl, hlen⟩ := hi
  obtain ⟨k, o, hk, h, hpost, hself⟩ := stmt_of_event ht hby
  have hstore : t.post.store = o.store := by rw [hpost]
  rw [hstore] at hlen ⊢
  obtain ⟨op, u, hx, rfl, hcall, hrow⟩ := h.issues hlen
  exact ⟨u, _, ⟨y, op, hby, hx, hk⟩, hrow, rfl, rfl, op, hcall ▸ hself⟩

/-- A call that issues tokens creates a session. -/
theorem issues_of_issuesTokens (ht : (accounts env).Fires t) (hi : IssuesTokens u i t) :
    ∃ row, IssuesSession i t.pre.store.sessions.length t ∧
      t.post.store.sessions[t.pre.store.sessions.length]? = some row ∧ row.userId = u ∧
      row.revokedAt = none := by
  obtain ⟨x, op, he, hx, hk⟩ := hi
  obtain ⟨k, o, hk', h, hpost, -⟩ := stmt_of_event ht he
  obtain rfl := Option.some.inj (hk.symm.trans hk')
  rw [hpost]
  cases h with
  | fails hfail => simp [hx] at hfail
  | reads hr => cases hr
  | aside ha => cases ha
  | createSession =>
      refine ⟨newSession env x u, ⟨⟨x, he⟩, rfl, ?_⟩, ?_, rfl, rfl⟩
      · simp [hpost]
      · simp

/-- The session that a refresh consumes is the user's, and is not revoked yet. -/
theorem consumed_of_run (hrun : (accounts env).Run ⟨db, []⟩ ts c') (ht : t ∈ ts)
    (hi : ConsumesSession i id t) :
    ∃ row op session, t.pre.store.sessions[id]? = some row ∧ row.revokedAt = none ∧
      t.pre.calls[i]? = some ⟨op, .validSession id session⟩ ∧
      t.post.calls[i]? = some ⟨op, .consumed row.userId⟩ := by
  have hholds := ((consuming env ts).holds_run hrun (fun _ ht => ht) ⟨trivial, by simp⟩).2
  obtain ⟨op, session, -, hpre, hpost⟩ := hi
  obtain ⟨-, -, row, hrow, -, hlive, huser⟩ := (hholds t ht).1.2 i _ hpre
  exact ⟨row, op, session, hrow, hlive, hpre, huser ▸ hpost⟩

/-- What a finished call has left behind it does not do again. -/
theorem finished_of_run (hrun : (accounts env).Run c ts c') {k k' : Call}
    (hk : c.calls[i]? = some k) (hfinished : k.isFinished = true)
    (hk' : c'.calls[i]? = some k') : k'.isFinished = true := by
  obtain ⟨k₁, hk₁, hfinished₁⟩ := hrun.call_stable (fun k => k.isFinished = true)
    (fun _ _ _ _ _ hfinished hstep => by simp [accounts, step, hfinished] at hstep) hk hfinished
  obtain rfl := Option.some.inj (hk₁.symm.trans hk')
  exact hfinished₁

/-- A rotation keeps the user. -/
theorem rotated_user (hrun : (accounts env).Run ⟨db, []⟩ ts c') {id' : SessionId}
    (hrot : Rotated ts id id') {row' : Session} (hrow' : c'.store.sessions[id']? = some row') :
    ∃ row, c'.store.sessions[id]? = some row ∧ row.userId = row'.userId := by
  obtain ⟨i, ⟨t₁, ht₁, hconsumes⟩, t₂, ht₂, hissues⟩ := hrot
  obtain ⟨row, op, session, hrow, -, hpre, hpost⟩ := consumed_of_run hrun ht₁ hconsumes
  obtain ⟨u, row₂, ⟨y, op₂, -, -, hk₂⟩, hrow₂, rfl, -, op₃, hk₃⟩ :=
    issued_of_fires (hrun.fires t₂ ht₂) hissues
  obtain ⟨before, after, rfl, hbefore, hafter⟩ := hrun.split t₁ ht₁
  -- The row of the new session.
  obtain ⟨_, _, _, _, hrest₂⟩ := hrun.split t₂ ht₂
  obtain ⟨row₂', hrow₂', huser₂, -⟩ := session_of_run hrest₂ hrow₂
  obtain rfl := Option.some.inj (hrow₂'.symm.trans hrow')
  -- The row of the old one.
  obtain ⟨row₁, hrow₁, huser₁, -⟩ := session_of_run
    ((hrun.fires t₁ ht₁).run.append hafter) hrow
  refine ⟨row₁, hrow₁, ?_⟩
  rw [huser₁, huser₂]
  rcases List.mem_append.mp ht₂ with hearlier | hlater
  · -- A call that has created its session consumes none.
    obtain ⟨_, _, _, _, hrest⟩ := hbefore.split t₂ hearlier
    have hfinished := finished_of_run hrest hk₃ rfl hpre
    simp [Call.isFinished] at hfinished
  · rcases List.mem_cons.mp hlater with rfl | hlater
    · simp [hpre] at hk₂
    · obtain ⟨_, _, _, hrest, _⟩ := hafter.split t₂ hlater
      obtain ⟨k, hk, hsucceeds⟩ := hrest.call_stable (Call.Succeeds row.userId)
        (fun _ _ _ _ _ hsucceeds hstep => (step_cases hstep).succeeds hsucceeds) hpost (Or.inl rfl)
      obtain rfl := Option.some.inj (hk.symm.trans hk₂)
      rcases hsucceeds with hpc | hpc | hpc
      · nomatch hpc
      · exact (Pc.issuingTokens.inj hpc).symm
      · simp [Call.isFinished] at hpc

/-- No session is lost. -/
theorem sessions_length_le (hrun : (accounts env).Run c ts c') :
    c.store.sessions.length ≤ c'.store.sessions.length := by
  by_contra hlt
  obtain ⟨row, hrow, -⟩ := session_of_run hrun
    (List.getElem?_eq_getElem (Nat.lt_of_not_le hlt))
  exact absurd (List.getElem?_eq_some_iff.mp hrow).1 (Nat.lt_irrefl _)

/-- The revocation starts on the unrevoked sessions of the user. -/
theorem startsRevoking_fires (ht : (accounts env).Fires t) (hs : StartsRevoking i u t) :
    t.post.store = t.pre.store ∧ ∃ op revokedAt, t.post.calls[i]? = some ⟨op,
      .revoking (t.pre.store.unrevokedWhere fun s => s.userId = u) revokedAt⟩ := by
  obtain ⟨op, ids, revokedAt, ⟨y, hby⟩, hpre, hpostcall⟩ := hs
  obtain ⟨k, o, hk, h, hpost, hself⟩ := stmt_of_event ht hby
  obtain rfl := Option.some.inj (hpre.symm.trans hk)
  have hstore : t.post.store = o.store := by rw [hpost]
  rw [hstore]
  cases h with
  | fails => simp [hself] at hpostcall
  | aside ha => cases ha
  | reads hread =>
      cases hread with
      | revocationStarts => exact ⟨rfl, _, _, hself⟩

/-- The write of the revocation revokes the sessions it started on, and no others. -/
theorem finishesRevoking_fires (ht : (accounts env).Fires t) {op : Op} {ids : List SessionId}
    {revokedAt : Time} (hf : FinishesRevoking i t)
    (hk : t.pre.calls[i]? = some ⟨op, .revoking ids revokedAt⟩) :
    t.post.store = t.pre.store.revokeRows ids revokedAt := by
  obtain ⟨op', ids', revokedAt', ⟨y, hby⟩, hpre, hpostcall⟩ := hf
  obtain ⟨k, o, hk', h, hpost, hself⟩ := stmt_of_event ht hby
  obtain rfl := Option.some.inj (hpre.symm.trans hk')
  obtain ⟨rfl, hpc⟩ := Call.mk.inj (Option.some.inj (hpre.symm.trans hk))
  obtain ⟨rfl, rfl⟩ := Pc.revoking.inj hpc
  have hstore : t.post.store = o.store := by rw [hpost]
  rw [hstore]
  cases h with
  | fails => simp [hself] at hpostcall
  | reads hread => cases hread
  | aside ha => cases ha
  | revoke => rfl

variable {p : ResetRun}

/-- The write of the revocation, in terms of the store that its start found. -/
theorem revocation_post (hrun : (accounts env).Run ⟨db, []⟩ p.transitions c')
    (hreset : p.IsReset i u) :
    p.start.post.store = p.start.pre.store ∧ ∃ revokedAt, p.revocation.post.store =
      p.revocation.pre.store.revokeRows
        (p.start.pre.store.unrevokedWhere fun s => s.userId = u) revokedAt := by
  obtain ⟨hearlier, -⟩ := hrun.of_append_cons
  obtain ⟨-, hwait⟩ := hearlier.of_append_cons
  obtain ⟨hstore, op, revokedAt, hcall⟩ :=
    startsRevoking_fires (hearlier.fires p.start (by simp [ResetRun.earlier])) hreset.starts
  obtain ⟨k, hk, hrevoking⟩ := hwait.call_stable (Call.Revoking _ revokedAt)
    (fun _ _ _ _ _ hrevoking hstep => (step_cases hstep).revoking hrevoking) hcall (Or.inl rfl)
  have hfinishes := hreset.finishes
  obtain ⟨op', ids', revokedAt', -, hpre, -⟩ := hreset.finishes
  obtain rfl := Option.some.inj (hpre.symm.trans hk)
  obtain hpc | hfinished := hrevoking
  · obtain ⟨rfl, rfl⟩ := Pc.revoking.inj hpc
    exact ⟨hstore, _, finishesRevoking_fires
      (hrun.fires p.revocation (by simp [ResetRun.transitions])) hfinishes hpre⟩
  · simp [Call.isFinished] at hfinished

/-- What the revocation makes of a session that its write finds. -/
theorem revocation_row (hrun : (accounts env).Run ⟨db, []⟩ p.transitions c')
    (hreset : p.IsReset i u) {row : Session}
    (hrow : p.revocation.pre.store.sessions[id]? = some row) :
    ∃ row', p.revocation.post.store.sessions[id]? = some row' ∧ row'.userId = row.userId ∧
      (row'.revokedAt = none ↔ row.revokedAt = none ∧
        id ∉ p.start.pre.store.unrevokedWhere fun s => s.userId = u) := by
  obtain ⟨-, revokedAt, hpost⟩ := revocation_post hrun hreset
  rw [hpost]
  refine ⟨_, revokeRows_of_row hrow, ?_⟩
  split
  · rename_i hrevoked
    simp [hrevoked.1]
  · rename_i hkept
    refine ⟨rfl, fun hlive => ⟨hlive, fun hmem => hkept ⟨hmem, hlive⟩⟩, fun h => h.1⟩

/-- The sessions of the user that were there when the revocation started are revoked. -/
theorem revoked_of_lt (hrun : (accounts env).Run ⟨db, []⟩ p.transitions c')
    (hreset : p.IsReset i u) (hid : id < p.start.pre.store.sessions.length) {row' : Session}
    (hrow' : c'.store.sessions[id]? = some row') (huser : row'.userId = u) :
    ∃ row, p.revocation.post.store.sessions[id]? = some row ∧ row.revokedAt ≠ none := by
  obtain ⟨hearlier, hafter⟩ := hrun.of_append_cons
  obtain ⟨-, hwait⟩ := hearlier.of_append_cons
  have hrow₀ : p.start.post.store.sessions[id]? = some p.start.pre.store.sessions[id] := by
    rw [(revocation_post hrun hreset).1]
    exact List.getElem?_eq_getElem hid
  obtain ⟨row₁, hrow₁, huser₁, hrev₁⟩ := session_of_run hwait hrow₀
  obtain ⟨row₂, hrow₂, huser₂, hlive⟩ := revocation_row hrun hreset hrow₁
  obtain ⟨row₃, hrow₃, huser₃, -⟩ := session_of_run hafter hrow₂
  obtain rfl := Option.some.inj (hrow₃.symm.trans hrow')
  refine ⟨row₂, hrow₂, fun hnone => ?_⟩
  obtain ⟨hlive₁, hnot⟩ := hlive.mp hnone
  -- It was unrevoked from the start to the write: the revocation started on it.
  refine hnot (mem_unrevokedWhere.mpr ⟨_, List.getElem?_eq_getElem hid, ?_, ?_⟩)
  · have hsame : p.start.pre.store.sessions[id].userId = u := by
      rw [← huser₁, ← huser₂, ← huser₃, huser]
    simpa using hsame
  · by_contra hrev
    exact hrev₁ hrev hlive₁

/-- A session that is created once the revocation has started, and that its write finds
unrevoked, is missed by it. -/
theorem missed_of_issues (hrun : (accounts env).Run ⟨db, []⟩ p.transitions c')
    (hreset : p.IsReset i u) (ht : t ∈ p.wait ++ p.after) {j : ℕ} (hissues : IssuesTokens u j t)
    (hlive : ∀ row ∈ p.revocation.pre.store.sessions[t.pre.store.sessions.length]?,
      row.revokedAt = none) :
    IssuesSession j t.pre.store.sessions.length t ∧ ∃ t' ∈ p.revocation :: p.after, ∃ row,
      t'.post.store.sessions[t.pre.store.sessions.length]? = some row ∧ row.userId = u ∧
        row.revokedAt = none := by
  obtain ⟨hearlier, hafter⟩ := hrun.of_append_cons
  obtain ⟨-, hwait⟩ := hearlier.of_append_cons
  rcases List.mem_append.mp ht with hmem | hmem
  · obtain ⟨_, _, _, hpre, hrest⟩ := hwait.split t hmem
    obtain ⟨row, hsession, hrow, huser, -⟩ :=
      issues_of_issuesTokens (hwait.fires t hmem) hissues
    obtain ⟨row₁, hrow₁, huser₁, -⟩ := session_of_run hrest hrow
    obtain ⟨row₂, hrow₂, huser₂, hkept⟩ := revocation_row hrun hreset hrow₁
    refine ⟨hsession, _, List.mem_cons_self, row₂, hrow₂, huser₂.trans (huser₁.trans huser),
      hkept.mpr ⟨hlive row₁ hrow₁, fun hstarted => ?_⟩⟩
    -- The revocation started when the session was not there yet.
    obtain ⟨row₀, hrow₀, -⟩ := mem_unrevokedWhere.mp hstarted
    have hlt := (List.getElem?_eq_some_iff.mp hrow₀).1
    have hle := sessions_length_le hpre
    rw [(revocation_post hrun hreset).1] at hle
    omega
  · obtain ⟨row, hsession, hrow, huser, hnew⟩ :=
      issues_of_issuesTokens (hafter.fires t hmem) hissues
    exact ⟨hsession, t, List.mem_cons_of_mem _ hmem, row, hrow, huser, hnew⟩

/-- A session of the user is revoked when the reset returns, or it is created once the
revocation has started and its write does not find it revoked. -/
theorem revoked_or_issues (hrun : (accounts env).Run ⟨db, []⟩ p.transitions c')
    (hreset : p.IsReset i u) {j : ℕ} (ht : t ∈ p.transitions) (hissues : IssuesSession j id t)
    {row' : Session} (hrow' : c'.store.sessions[id]? = some row') (huser : row'.userId = u) :
    (∃ row, p.revocation.post.store.sessions[id]? = some row ∧ row.revokedAt ≠ none) ∨
    (t ∈ p.wait ++ p.after ∧ IssuesTokens u j t ∧
      ∀ row ∈ p.revocation.pre.store.sessions[t.pre.store.sessions.length]?,
        row.revokedAt = none) := by
  obtain ⟨hearlier, hafter⟩ := hrun.of_append_cons
  obtain ⟨hbefore, hwait⟩ := hearlier.of_append_cons
  obtain ⟨hstart, revokedAt, hrevocation⟩ := revocation_post hrun hreset
  obtain ⟨u₁, row₁, htokens, hrow₁, huser₁, -⟩ := issued_of_fires (hrun.fires t ht) hissues
  obtain ⟨_, _, _, _, hrest⟩ := hrun.split t ht
  obtain ⟨row₂, hrow₂, huser₂, -⟩ := session_of_run hrest hrow₁
  obtain rfl := Option.some.inj (hrow₂.symm.trans hrow')
  obtain rfl : u₁ = u := huser₁.symm.trans (huser₂.symm.trans huser)
  rcases List.mem_append.mp ht with hearly | hlate
  · rcases List.mem_append.mp hearly with hold | hnew
    · -- It was there when the revocation started.
      obtain ⟨_, _, _, _, hlater⟩ := hbefore.split t hold
      have hlt := Nat.lt_of_lt_of_le hissues.2.2 (sessions_length_le hlater)
      exact Or.inl (revoked_of_lt hrun hreset hlt hrow' huser)
    · rcases List.mem_cons.mp hnew with rfl | hmem
      · have hlt := hissues.2.1.trans_lt hissues.2.2
        rw [hstart] at hlt
        exact absurd hlt (Nat.lt_irrefl _)
      · by_cases hlive : ∀ row ∈ p.revocation.pre.store.sessions[t.pre.store.sessions.length]?,
            row.revokedAt = none
        · exact Or.inr ⟨List.mem_append_left _ hmem, htokens, hlive⟩
        · push Not at hlive
          obtain ⟨row, hrow, hrev⟩ := hlive
          obtain ⟨row', hrow', -, hkept⟩ := revocation_row hrun hreset hrow
          rw [hissues.2.1] at hrow'
          exact Or.inl ⟨row', hrow', fun hnone => hrev (hkept.mp hnone).1⟩
  · rcases List.mem_cons.mp hlate with rfl | hmem
    · have hlt := hissues.2.1.trans_lt hissues.2.2
      rw [hrevocation, Db.revokeRows_sessions, List.length_mapIdx] at hlt
      exact absurd hlt (Nat.lt_irrefl _)
    · refine Or.inr ⟨List.mem_append_right _ hmem, htokens, fun row hrow => ?_⟩
      obtain ⟨_, _, _, hpre, _⟩ := hafter.split t hmem
      have hlt := (List.getElem?_eq_some_iff.mp hrow).1
      have hle := sessions_length_le hpre
      rw [hrevocation, Db.revokeRows_sessions, List.length_mapIdx] at hle
      omega

/-- If tokens are issued anew, the old sessions of the user are revoked when the reset
returns. -/
theorem old_revoked (hrun : (accounts env).Run ⟨db, []⟩ p.transitions c')
    (hreset : p.IsReset i u) (hanew : p.IssuesAnew u) (hold : p.Old u id) {row' : Session}
    (hrow' : c'.store.sessions[id]? = some row') (huser : row'.userId = u) :
    ∃ row, p.revocation.post.store.sessions[id]? = some row ∧ row.revokedAt ≠ none := by
  obtain ⟨id₀, hdesc, hbase⟩ := hold
  induction hdesc generalizing row' with
  | refl =>
      rcases hbase with hid | ⟨j, ⟨t₀, ht₀, hreads⟩, t, ht, hissues⟩
      · exact revoked_of_lt hrun hreset hid hrow' huser
      · rcases revoked_or_issues hrun hreset ht hissues hrow' huser with
          hrevoked | ⟨hmem, htokens, hlive⟩
        · exact hrevoked
        · exact absurd hreads ((hanew t hmem j htokens hlive).1 t₀ ht₀)
  | @tail id₁ id₂ hdesc hrot ih =>
      obtain ⟨row₁, hrow₁, huser₁⟩ := rotated_user hrun hrot hrow'
      obtain ⟨row, hrow, hrev⟩ := ih hrow₁ (huser₁.trans huser)
      obtain ⟨j, ⟨t₁, ht₁, hconsumes⟩, t, ht, hissues⟩ := hrot
      rcases revoked_or_issues hrun hreset ht hissues hrow' huser with
        hrevoked | ⟨hmem, htokens, hlive⟩
      · exact hrevoked
      rcases List.mem_append.mp ht₁ with hearly | hlate
      · exact absurd ⟨id₀, hdesc, hbase⟩ ((hanew t hmem j htokens hlive).2 t₁ hearly id₁ hconsumes)
      obtain ⟨row₂, op, session, hrow₂, hlive₂, hpre, -⟩ := consumed_of_run hrun ht₁ hconsumes
      rcases List.mem_cons.mp hlate with rfl | hafter₁
      · -- The revocation consumes no session.
        obtain ⟨op', ids, revokedAt, ⟨y, hby⟩, hcaller, -⟩ := hreset.finishes
        obtain ⟨_, _, ⟨z, hby'⟩, -⟩ := hconsumes
        obtain ⟨rfl, -⟩ := Event.run.inj (hby.symm.trans hby')
        simp [hcaller] at hpre
      · -- The session was revoked when it was consumed.
        obtain ⟨_, _, _, hbefore₁, _⟩ := hrun.of_append_cons.2.split t₁ hafter₁
        obtain ⟨row₃, hrow₃, -, hkept⟩ := session_of_run hbefore₁ hrow
        obtain rfl := Option.some.inj (hrow₃.symm.trans hrow₂)
        exact absurd hlive₂ (hkept hrev)

/-- **A reset evicts everyone** exactly if no call that creates a session of the user once the
revocation has started, and whose session is not revoked again by the time that the
revocation writes, is a login that had read the account before the new password was written,
or a refresh that consumed an old session before the revocation wrote. -/
theorem evicted_iff (hrun : (accounts env).Run ⟨db, []⟩ p.transitions c')
    (hreset : p.IsReset i u) : p.Evicts u ↔ p.IssuesAnew u := by
  constructor
  · intro hevicts t ht j hissues hlive
    obtain ⟨hsession, t', ht', row, hrow, huser, hnone⟩ :=
      missed_of_issues hrun hreset ht hissues hlive
    have hnot := hevicts t' ht' _ row hrow huser hnone
    have hts : t ∈ p.transitions := by
      rcases List.mem_append.mp ht with hmem | hmem <;>
        simp [ResetRun.transitions, ResetRun.earlier, hmem]
    refine ⟨fun t₀ ht₀ hreads => ?_, fun t₀ ht₀ id hconsumes hold => ?_⟩
    · exact hnot ⟨_, .refl, Or.inr ⟨j, ⟨t₀, ht₀, hreads⟩, t, hts, hsession⟩⟩
    · obtain ⟨id₀, hdesc, hbase⟩ := hold
      exact hnot ⟨id₀, hdesc.tail ⟨j, ⟨t₀, List.mem_append_left _ ht₀, hconsumes⟩, t, hts,
        hsession⟩, hbase⟩
  · intro hanew t ht id row hrow huser hlive hold
    obtain ⟨_, _, _, _, hrest⟩ := hrun.split t (List.mem_append_right _ ht)
    obtain ⟨row', hrow', huser', -⟩ := session_of_run hrest hrow
    obtain ⟨row₀, hrow₀, hrev⟩ :=
      old_revoked hrun hreset hanew hold hrow' (huser'.trans huser)
    have hpost : ∃ ts', (accounts env).Run p.revocation.post ts' t.post := by
      rcases List.mem_cons.mp ht with rfl | hmem
      · exact ⟨[], .nil _⟩
      · obtain ⟨ts', _, _, hbefore, _⟩ := hrun.of_append_cons.2.split t hmem
        exact ⟨_, .snoc t hbefore rfl (hrun.fires t (List.mem_append_right _ ht))⟩
    obtain ⟨ts', hrun'⟩ := hpost
    obtain ⟨row₁, hrow₁, -, hkept⟩ := session_of_run hrun' hrow₀
    obtain rfl := Option.some.inj (hrow₁.symm.trans hrow)
    exact hkept hrev hlive

end Run

/-- A reset is about to write the password; a login with the old one has run `n`
operations. -/
def untilReset (n : ℕ) : List (Event Call Input) :=
  List.flatten
    [play 0 12 (.register { phone := "p", password := "a" }) { code := "1" },
      play 1 7 (.verifyOtp "p" "1" .signup) {}, play 2 7 (.requestOtp "p" .reset) { code := "2" },
      play 3 n (.login "p" "a") { refreshToken := "t" }, play 4 5 (.resetPassword "p" "2" "b") {}]

/-- The next operation of the reset. -/
def resetStep (c : Config Db Call) : Transition Db Call Input :=
  ⟨c, .run 4 {}, (accounts plainHashes).after c [.run 4 {}]⟩

/-- The reset runs to its end, with some events before it writes the password, some while its
revocation waits, and some after it. -/
def resetRun (before wait after : List (Event Call Input)) : ResetRun :=
  let password := resetStep ((accounts plainHashes).after ⟨{}, []⟩ before)
  let start := resetStep password.post
  let revocation := resetStep ((accounts plainHashes).after start.post wait)
  { before := (accounts plainHashes).trace ⟨{}, []⟩ before
    password
    mid := []
    start
    wait := (accounts plainHashes).trace start.post wait
    revocation
    after := (accounts plainHashes).trace revocation.post after }

theorem run_resetRun {before wait after : List (Event Call Input)}
    (hp : ((accounts plainHashes).fire (resetRun before wait after).password.pre
      (.run 4 {})).isSome)
    (hs : ((accounts plainHashes).fire (resetRun before wait after).start.pre (.run 4 {})).isSome)
    (hr : ((accounts plainHashes).fire (resetRun before wait after).revocation.pre
      (.run 4 {})).isSome) :
    (accounts plainHashes).Run ⟨{}, []⟩ (resetRun before wait after).transitions
      ((accounts plainHashes).after (resetRun before wait after).revocation.post after) := by
  have hpassword := Machine.fires_after _ hp
  have hstart := Machine.fires_after _ hs
  have hrevocation := Machine.fires_after _ hr
  have hbefore := ((accounts plainHashes).run_trace ⟨{}, []⟩ before).append hpassword.run
  have hwait := hstart.run.append ((accounts plainHashes).run_trace _ wait)
  have hafter := hrevocation.run.append ((accounts plainHashes).run_trace _ after)
  exact (hbefore.append hwait).append hafter

/-- A refresh holds the session of the old login when the revocation starts. -/
def refreshHolds : List (Event Call Input) := untilReset 5 ++ play 5 2 (.refresh "t") {}

/-- Afterwards the old token is presented again, and the user logs in with the new
password. -/
def afterReset : List (Event Call Input) :=
  play 6 3 (.refresh "t") {} ++ play 7 5 (.login "p" "b") { refreshToken := "u" }

/-- The call issues tokens next. -/
def Call.isIssuing (k : Call) : Bool := k.pc matches .issuingTokens _

/-- The call is a login that compares the password of this user next. -/
def Call.compares (u : UserId) (k : Call) : Bool :=
  match k.op, k.pc with
  | .login _ _, .comparingPassword id _ => id = u
  | _, _ => false

theorem Call.compares_eq_true {u : UserId} {k : Call} (h : k.compares u = true) :
    ∃ phone password user, k = ⟨.login phone password, .comparingPassword u user⟩ := by
  obtain ⟨op, pc⟩ := k
  unfold Call.compares at h
  split at h
  · rename_i phone password id user hop hpc
    obtain rfl : op = .login phone password := hop
    obtain rfl : pc = .comparingPassword id user := hpc
    obtain rfl : id = u := by simpa using h
    exact ⟨_, _, _, rfl⟩
  · simp at h

/-- The revocation waits until the refresh is rolled back. -/
theorem evicted_loginAnew :
    (resetRun refreshHolds [.run 5 { fail := true }] afterReset).Evicts 0 := by
  refine (evicted_iff (run_resetRun (by decide +kernel) (by decide +kernel) (by decide +kernel))
    ⟨⟨.resetPassword "p" "2" "b", "b", ⟨{}, rfl⟩, rfl, rfl⟩,
      ⟨.resetPassword "p" "2" "b", _, _, ⟨{}, rfl⟩, rfl, rfl⟩,
      ⟨.resetPassword "p" "2" "b", _, _, ⟨{}, rfl⟩, rfl, rfl⟩⟩).mpr ?_
  -- Only the second login issues tokens, and it starts after the revocation.
  have hissuer : ∀ t ∈ (resetRun refreshHolds [.run 5 { fail := true }] afterReset).wait ++
      (resetRun refreshHolds [.run 5 { fail := true }] afterReset).after,
      t.caller.any Call.isIssuing → t.IsBy 7 := by
    decide +kernel
  have hnotyet : ∀ t ∈ (resetRun refreshHolds [.run 5 { fail := true }] afterReset).earlier,
      ¬ t.IsBy 7 := by
    decide +kernel
  intro t ht i hissues _
  obtain ⟨x, op, he, -, hk⟩ := hissues
  obtain ⟨y, hby⟩ := hissuer t ht (by simp [Transition.caller_eq he hk, Call.isIssuing])
  obtain rfl : i = 7 := (Event.run.inj (he.symm.trans hby)).1
  refine ⟨fun t₀ ht₀ hreads => ?_, fun t₀ ht₀ id hconsumes => ?_⟩
  · obtain ⟨_, _, _, hby₀, -⟩ := hreads
    exact hnotyet t₀ (List.mem_append_left _ (List.mem_append_left _ ht₀)) hby₀
  · obtain ⟨_, _, hby₀, -⟩ := hconsumes
    exact absurd hby₀ (hnotyet t₀ ht₀)

/-- A login that compared the old password creates its session after the revocation. -/
theorem not_evicted_always :
    ¬ ∀ (env : Env) (db : Db) (i : ℕ) (u : UserId) (p : ResetRun) (c' : Config Db Call),
      (accounts env).Run ⟨db, []⟩ p.transitions c' → p.IsReset i u → p.Evicts u := by
  intro h
  have hevicts := h plainHashes {} 4 0
    (resetRun (untilReset 4) [] [.run 3 { refreshToken := "t" }]) _
    (run_resetRun (by decide +kernel) (by decide +kernel) (by decide +kernel))
    ⟨⟨.resetPassword "p" "2" "b", "b", ⟨{}, rfl⟩, rfl, rfl⟩,
      ⟨.resetPassword "p" "2" "b", _, _, ⟨{}, rfl⟩, rfl, rfl⟩,
      ⟨.resetPassword "p" "2" "b", _, _, ⟨{}, rfl⟩, rfl, rfl⟩⟩
  have hreads : ∃ t ∈ (resetRun (untilReset 4) [] [.run 3 { refreshToken := "t" }]).before,
      t.IsBy 3 ∧ t.callerAfter.any (Call.compares 0) := by
    decide +kernel
  have hissues : ∃ t ∈ (resetRun (untilReset 4) [] [.run 3 { refreshToken := "t" }]).after,
      t.IsBy 3 ∧ t.pre.store.sessions.length = 1 ∧
        t.post.store.sessions[1]?.any fun s => s.userId = 0 ∧ s.revokedAt = none := by
    decide +kernel
  obtain ⟨t₀, ht₀, hby₀, hcaller⟩ := hreads
  obtain ⟨t, ht, hby, hlen, hrow⟩ := hissues
  obtain ⟨row, hrow, hlive⟩ := (Option.any_eq_true _ _).mp hrow
  simp only [decide_eq_true_eq] at hlive
  obtain ⟨k, hk, hcompares⟩ := (Option.any_eq_true _ _).mp hcaller
  obtain ⟨phone, password, user, rfl⟩ := Call.compares_eq_true hcompares
  obtain ⟨x, hx⟩ := hby₀
  simp only [Transition.callerAfter, hx] at hk
  refine hevicts t (List.mem_cons_of_mem _ ht) 1 row hrow hlive.1 hlive.2 ⟨1, .refl, Or.inr ?_⟩
  exact ⟨3, ⟨t₀, ht₀, phone, password, user, ⟨x, hx⟩, hk⟩, t,
    List.mem_append_right _ (List.mem_cons_of_mem _ ht), hby, hlen,
    (List.getElem?_eq_some_iff.mp hrow).1⟩

end Handly.Auth
