import Handly.Auth.RefreshRotation
import Handly.Lib.Draining

/-!
# The account services come to rest

A refresh holds the row of its session while it decides, and a logout or a password reset that
would revoke the row waits for it. A registration draws codes until one is free, at most five
times. Every call ends all the same.
-/

namespace Handly.Auth

open Interleaving

/-- The call stands at a point of its own method. -/
def Call.Fits (k : Call) : Prop :=
  match k.pc, k.op with
  | .hashing _, .register _ | .reRegistering _ _, .register _ | .drawingCode _ _, .register _
  | .creating _ _, .register _ | .profiling _ _, .register _ | .signingUp _ _, .register _
  | .recordingSignup _ _, .register _ | .resetting _, .resetPassword _ _ _
  | .lockedOut, .login _ _ | .readingUser, .login _ _ | .comparingPassword _ _, .login _ _
  | .failedLogin, .login _ _ | .expiringFailures, .login _ _ | .clearingFailures _ _, .login _ _
  | .writingStatus _, .suspend _ _ _ | .writingStatus _, .restore _ _ => True
  | .hashing _, _ | .reRegistering _ _, _ | .drawingCode _ _, _ | .creating _ _, _
  | .profiling _ _, _ | .signingUp _ _, _ | .recordingSignup _ _, _ | .resetting _, _
  | .lockedOut, _ | .readingUser, _ | .comparingPassword _ _, _ | .failedLogin, _
  | .expiringFailures, _ | .clearingFailures _ _, _ | .writingStatus _, _ => False
  | _, _ => True

/-- The transaction of `consumeSession` has locked the session row. -/
def Call.Holding (k : Call) : Prop :=
  match k.pc with
  | .lockedSession _ | .validSession _ _ => True
  | _ => False

theorem isFinished_eq_false_of_step {env : Env} {me : ℕ} {x : Input} {k : Call} {db : Db}
    {o : Outcome Db Call} (h : step env me x k db = some o) : k.isFinished = false := by
  unfold step at h
  split at h
  · simp at h
  · exact Bool.eq_false_of_not_eq_true ‹_›

/-- A bound on the operations from here to the end. -/
def Pc.depth : Pc → ℕ
  | .start => 18
  | .hashing _ => 17
  | .drawingCode attempt _ => 12 + (4 - attempt)
  | .lockedOut => 12
  | .reRegistering _ _ | .creating _ _ | .readingUser => 11
  | .profiling _ _ | .comparingPassword _ _ => 10
  | .signingUp _ _ | .clearingFailures _ _ => 9
  | .recordingSignup _ _ | .challenging _ => 8
  | .issuing _ _ | .comparing _ _ => 7
  | .counting _ _ | .matched _ _ => 6
  | .coolingDown _ _ | .expiringCount _ _ | .verified _ | .foundSession _ => 5
  | .hashingCode _ _ | .resetting _ | .lockedSession _ => 4
  | .deletingCodes _ _ _ | .activating _ _ | .rehashed _ _ | .validSession _ _
  | .writingStatus _ => 3
  | .creatingCode _ _ _ | .activated _ _ | .revokingAll _ | .failedLogin | .consumed _
  | .auditing _ => 2
  | .sending | .mismatched _ | .issuingTokens _ | .revoking _ _ | .expiringFailures
  | .detailing => 1
  | .returned | .threw _ => 0

section Statements

variable {env : Env} {me : ℕ} {x : Input} {k : Call} {db : Db} {o : Outcome Db Call}

theorem depth_pos (hfin : k.isFinished = false) : 0 < k.pc.depth := by
  obtain ⟨op, pc⟩ := k
  cases pc with
  | returned | threw => simp [Call.isFinished] at hfin
  | _ => simp [Pc.depth]

theorem Limited.depth {op : Op} {pc : Pc} (h : Limited op pc) : pc.depth = 0 := by
  cases h <;> rfl

theorem Admitted.depth_le {phone : Phone} {id : UserId} {user : User} {pc : Pc}
    (h : Admitted phone id user pc) : pc.depth ≤ 8 := by
  cases h <;> simp [Pc.depth]

/-- Every operation leads further. -/
theorem Stmt.depth_lt (h : Stmt env me x db k o) (hfin : k.isFinished = false) :
    o.call.pc.depth < k.pc.depth := by
  cases h with
  | fails => exact depth_pos hfin
  | reads hr =>
      cases hr with
      | clash hlt =>
          simp only [Pc.depth]
          omega
      | limited hlim =>
          rw [hlim.depth]
          simp [Pc.depth]
      | uncleared hadm => exact Nat.lt_of_le_of_lt hadm.depth_le (by decide : 8 < 9)
      | drawn =>
          simp only [Pc.depth]
          omega
      | _ => simp [Pc.depth]
  | aside ha =>
      cases ha with
      | countOver _ hlim | expireOver _ hlim =>
          rw [hlim.depth]
          simp [Pc.depth]
      | countFailure hpc => rcases hpc with rfl | rfl <;> simp [Pc.depth]
      | clearFailures hadm => exact Nat.lt_of_le_of_lt hadm.depth_le (by decide : 8 < 9)
      | _ => simp [Pc.depth]
  | _ => simp [Pc.depth]

/-- A statement pays for itself out of the depth of its call. -/
theorem Stmt.pays (h : Stmt env me x db k o) (hfin : k.isFinished = false) :
    1 + o.call.pc.depth + (o.spawned.map fun k' => k'.pc.depth).sum ≤ k.pc.depth := by
  have hlt := h.depth_lt hfin
  rw [h.spawned_eq_nil]
  simp only [List.map_nil, List.sum_nil]
  omega

theorem Limited.fits {op op' : Op} {pc : Pc} (h : Limited op pc) : Call.Fits ⟨op', pc⟩ := by
  cases h <;> trivial

theorem Admitted.fits {op : Op} {phone : Phone} {id : UserId} {user : User} {pc : Pc}
    (h : Admitted phone id user pc) : Call.Fits ⟨op, pc⟩ := by
  cases h <;> trivial

theorem Reads.fits {op : Op} {pc pc' : Pc} (h : Reads env x db op pc pc')
    (hfit : Call.Fits ⟨op, pc⟩) : Call.Fits ⟨op, pc'⟩ := by
  cases h with
  | limited hlim => exact hlim.fits
  | uncleared hadm => exact hadm.fits
  | clash | drawn | userUnknown | passwordDiffers => cases op <;> exact hfit
  | targetRead hguard =>
      cases op with
      | suspend | restore => trivial
      | _ => simp [statusGuard] at hguard
  | _ => trivial

theorem Stmt.fits (h : Stmt env me x db k o) (hfit : k.Fits) : o.call.Fits := by
  cases h with
  | reads hr => exact hr.fits hfit
  | @aside op pc db' pc' ha =>
      cases ha with
      | countOver _ hlim | expireOver _ hlim => exact hlim.fits
      | clearFailures hadm => exact hadm.fits
      | countFailure hpc =>
          rcases hpc with rfl | rfl
          · cases op <;> exact hfit
          · trivial
      | _ => trivial
  | _ => trivial

/-- What is locked after an operation was locked by another call before, or is locked by a call
inside its transaction. -/
theorem Stmt.lock_step (h : Stmt env me x db k o) {id : SessionId} {j : ℕ}
    (hself : ∀ id, db.sessionLock id = some me → k.Holding)
    (hlock : o.store.sessionLock id = some j) :
    HeldAfter db.sessionLock me o.call.Holding id j := by
  have hkept : db.sessionLock id = some j → ¬ k.Holding →
      HeldAfter db.sessionLock me o.call.Holding id j := fun hbefore hnot =>
    heldAfter_kept hself hnot hbefore
  cases h with
  | fails | sessionInvalid | consumeSession => exact heldAfter_released hlock
  | lockSession => exact heldAfter_taken hself not_false trivial hlock
  | reads hr =>
      refine heldAfter_inside hself (fun hpc => ?_) hlock
      cases hr with
      | sessionValid => trivial
      | _ => exact hpc.elim
  | aside ha =>
      rw [ha.frame.2.2.2] at hlock
      refine hkept hlock fun hpc => ?_
      cases ha <;> exact hpc.elim
  | _ => exact hkept hlock not_false

/-- The transaction of `consumeSession` waits for nothing once it has its lock. -/
theorem step_of_holding (env : Env) (me : ℕ) (x : Input) (db : Db) (hk : k.Holding) :
    (step env me x k db).isSome := by
  obtain ⟨op, pc⟩ := k
  have hfin : Call.isFinished ⟨op, pc⟩ = false := by
    cases pc <;> first | exact hk.elim | rfl
  rw [step, hfin, if_neg Bool.false_ne_true]
  split
  · rfl
  · cases pc with
    | lockedSession id =>
        simp only [proceed]
        split <;> rfl
    | validSession id session => rfl
    | _ => exact hk.elim

theorem locked_of_revokeWaits {ids : List SessionId} (h : db.revokeWaits ids = true) :
    ∃ id, (db.sessionLock id).isSome = true := by
  obtain ⟨id, -, hlocked⟩ := List.any_eq_true.mp h
  exact ⟨id, (Bool.and_eq_true_iff.mp hlocked).2⟩

/-- Only locked session rows are waited for. -/
theorem waits_for_lock (hfit : k.Fits) (hfin : k.isFinished = false)
    (hnone : step env me x k db = none) : ∃ id, (db.sessionLock id).isSome = true := by
  obtain ⟨op, pc⟩ := k
  have hfail : x.fail = false := by
    cases hf : x.fail with
    | false => rfl
    | true => simp [step, hfin, hf] at hnone
  simp only [step, hfin, hfail, Bool.false_eq_true, if_false] at hnone
  cases pc with
  | start =>
      cases op with
      | register =>
          simp only [proceed, begin] at hnone
          split at hnone
          · simp at hnone
          · split at hnone <;> simp at hnone
      | verifyOtp | resetPassword => simp [proceed, begin] at hnone
      | _ =>
          simp only [proceed, begin] at hnone
          split at hnone <;> simp at hnone
  | foundSession id =>
      simp only [proceed] at hnone
      split at hnone
      · exact ⟨id, ‹_›⟩
      · simp at hnone
  | revoking ids revokedAt =>
      simp only [proceed] at hnone
      split at hnone
      · exact locked_of_revokeWaits ‹_›
      · simp at hnone
  | returned | threw => simp [Call.isFinished] at hfin
  | counting | comparing | mismatched | matched | activating | rehashed | challenging
  | lockedSession =>
      simp only [proceed] at hnone
      split at hnone <;> simp at hnone
  | drawingCode | consumed =>
      simp only [proceed] at hnone
      split at hnone
      · first | simp at hnone | (split at hnone <;> simp at hnone)
      · first | simp at hnone | (split at hnone <;> simp at hnone)
  | hashing | reRegistering | creating | profiling =>
      cases op with
      | register =>
          simp only [proceed] at hnone
          split at hnone <;> simp at hnone
      | _ => exact hfit.elim
  | signingUp =>
      cases op with
      | register =>
          simp only [proceed] at hnone
          split at hnone
          · simp at hnone
          · split at hnone <;> simp at hnone
      | _ => exact hfit.elim
  | readingUser | comparingPassword =>
      cases op with
      | login =>
          simp only [proceed] at hnone
          split at hnone <;> simp at hnone
      | _ => exact hfit.elim
  | writingStatus =>
      cases op with
      | suspend | restore =>
          simp only [proceed, writeStatus] at hnone
          split at hnone <;> simp at hnone
      | _ => exact hfit.elim
  | recordingSignup | resetting | lockedOut | failedLogin | expiringFailures
  | clearingFailures => cases op <;> first | exact hfit.elim | simp [proceed] at hnone
  | _ => simp [proceed] at hnone

end Statements

/-- The locks of the session rows, and what the calls have left to do. -/
def sessionLocks (env : Env) : LockDiscipline (accounts env) SessionId where
  Finished k := k.isFinished = true
  lock := Db.sessionLock
  Holding := Call.Holding
  Fits := Call.Fits
  fits_start k hk := by
    obtain ⟨op, pc⟩ := k
    cases pc with
    | start => trivial
    | _ => simp [accounts, Call.isStart] at hk
  fits_step _ _ _ _ _ hfit hstep := by
    have hstmt := step_cases hstep
    refine ⟨hstmt.fits hfit, fun k' hk' => ?_⟩
    simp [hstmt.spawned_eq_nil] at hk'
  lock_step _ _ _ _ _ _ _ hstep hself hlock := (step_cases hstep).lock_step hself hlock
  holding_runs i x _ s hk := step_of_holding env i x s hk
  waits _ _ _ _ hfit hfin hnone := waits_for_lock hfit (Bool.eq_false_of_not_eq_true hfin) hnone
  work k _ := k.pc.depth
  pays _ _ _ _ _ _ hstep := (step_cases hstep).pays (isFinished_eq_false_of_step hstep)
  others _ _ _ _ _ _ _ := le_rfl

theorem depth_le (pc : Pc) : pc.depth ≤ 18 := by
  cases pc with
  | drawingCode attempt passwordHash =>
      simp only [Pc.depth]
      omega
  | _ => simp [Pc.depth]

/-- **The account services come to rest**: no refresh, logout or reset waits for another one
that waits, all calls together run no more operations than their depths, and no call runs more
than eighteen, Redis up or down. -/
theorem accounts_drain {env : Env} {db : Db} (hfree : ∀ id, db.sessionLock id = none)
    {c : Config Db Call} {ts : List (Transition Db Call Input)}
    (hrun : (accounts env).Run ⟨db, []⟩ ts c) :
    Drains (accounts env) (fun k => k.isFinished = true)
        (c.calls.map fun k => k.pc.depth).sum c ∧
      ∀ i k ts' c', c.calls[i]? = some k → (accounts env).Run c ts' c' →
        ts'.countP (fun t => decide (t.IsBy i)) ≤ 18 := by
  refine ⟨(sessionLocks env).drains hfree hrun, fun i k ts' c' hk hrun' => ?_⟩
  exact ((sessionLocks env).countP_isBy_le hfree hrun hrun' hk).trans (depth_le k.pc)

/-- A refresh holds the row of its session, and another one waits for it. -/
def refreshWaits : List (Event Call Input) :=
  List.flatten
    [play 0 12 (.register { phone := "p", password := "a" }) { code := "1" },
      play 1 7 (.verifyOtp "p" "1" .signup) { refreshToken := "t" },
      play 2 2 (.refresh "t") {}, play 3 1 (.refresh "t") {}]

theorem accounts_drain_refreshWaits :
    Drains (accounts plainHashes) (fun k => k.isFinished = true)
      (((accounts plainHashes).after ⟨{}, []⟩ refreshWaits).calls.map fun k => k.pc.depth).sum
      ((accounts plainHashes).after ⟨{}, []⟩ refreshWaits) :=
  (accounts_drain (fun _ => rfl) ((accounts plainHashes).run_trace _ _)).1

end Handly.Auth
