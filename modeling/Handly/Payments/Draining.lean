import Handly.Lib.Draining
import Handly.Payments.DoubleCharge

/-!
# The payment service comes to rest

Two requests to pay for one order wait for each other's row lock, and the one that charges goes
through the withholding and the reward of the referrer before it returns. Both end.
-/

namespace Handly.Payments

open Interleaving

/-- The call stands at a point of its own method. -/
def Call.Fits (k : Call) : Prop :=
  match k.pc, k.op with
  | .checked _, .initiate _ _ _ | .locked _, .initiate _ _ _ | .vacant _, .initiate _ _ _
  | .resolving _, .resolve _ _ _ _ | .resolved _, .resolve _ _ _ _
  | .notifyResolved _, .resolve _ _ _ _ => True
  | .checked _, _ | .locked _, _ | .vacant _, _ | .resolving _, _ | .resolved _, _
  | .notifyResolved _, _ => False
  | _, _ => True

/-- The transaction of `initiate` has locked the order row. -/
def Call.Holding (k : Call) : Prop :=
  match k.pc, k.op with
  | .locked _, .initiate _ _ _ | .vacant _, .initiate _ _ _ => True
  | _, _ => False

/-- The statements from here to the end. -/
def Pc.depth : Pc → ℕ
  | .start => 13
  | .checked _ => 12
  | .locked _ => 11
  | .vacant _ => 10
  | .created _ _ => 9
  | .settling _ _ _ => 8
  | .succeeded _ _ => 7
  | .recording _ _ _ => 6
  | .notifySucceeded _ _ => 5
  | .reward _ => 4
  | .rewarding _ _ | .resolving _ => 3
  | .crediting _ _ | .resolved _ => 2
  | .notifyReferrer _ | .notifyFailed _ _ | .notifyResolved _ => 1
  | .returned | .threw _ => 0

section Statements

variable {env : Env} {me : ℕ} {x : Input} {k : Call} {db : Db} {o : Outcome Db Call}

theorem depth_pos (hfin : k.isFinished = false) : 0 < k.pc.depth := by
  obtain ⟨op, pc⟩ := k
  cases pc with
  | returned | threw => simp [Call.isFinished] at hfin
  | _ => simp [Pc.depth]

theorem EntersReward.le_depth {op : Op} {pc : Pc} {refereeId : UserId}
    (h : EntersReward op pc refereeId) : 4 ≤ pc.depth := by
  cases h <;> simp [Pc.depth]

/-- Every statement leads further. -/
theorem Stmt.depth_lt (h : Stmt env me x db k o) : o.call.pc.depth < k.pc.depth := by
  cases h with
  | fails _ hfin => exact depth_pos hfin
  | reads hr =>
      cases hr with
      | rewardReads henter => exact Nat.lt_of_lt_of_le (by decide : 3 < 4) henter.le_depth
      | _ => simp [Pc.depth]
  | rewardNone henter => exact Nat.lt_of_lt_of_le (by decide : 0 < 4) henter.le_depth
  | credit hpc => rcases hpc with rfl | rfl <;> simp [Pc.depth]
  | _ => simp [Pc.depth]

/-- A statement pays for itself out of the depth of its call. -/
theorem Stmt.pays (h : Stmt env me x db k o) :
    1 + o.call.pc.depth + (o.spawned.map fun k' => k'.pc.depth).sum ≤ k.pc.depth := by
  have hlt := h.depth_lt
  rw [h.spawned_eq_nil]
  simp only [List.map_nil, List.sum_nil]
  omega

theorem Stmt.fits (h : Stmt env me x db k o) : o.call.Fits := by
  cases h with
  | reads hr => cases hr <;> trivial
  | credit hpc => rcases hpc with rfl | rfl <;> trivial
  | _ => trivial

/-- What is locked after a statement was locked by another call before, or is locked by a call
inside its transaction. -/
theorem Stmt.lock_step (h : Stmt env me x db k o) {orderId : OrderId} {j : ℕ}
    (hself : ∀ orderId, db.orderLock orderId = some me → k.Holding)
    (hlock : o.store.orderLock orderId = some j) :
    HeldAfter db.orderLock me o.call.Holding orderId j := by
  cases h with
  | fails | duplicate | create => exact heldAfter_released hlock
  | lock => exact heldAfter_taken hself id trivial hlock
  | reads hr =>
      refine heldAfter_inside hself (fun hpc => ?_) hlock
      cases hr with
      | vacant => trivial
      | rewardReads henter => cases henter <;> exact hpc.elim
      | _ => exact hpc.elim
  | rewardNone henter => exact heldAfter_kept hself (by cases henter <;> exact id) hlock
  | _ => exact heldAfter_kept hself id hlock

/-- The transaction of `initiate` waits for nothing once it has its lock. -/
theorem step_of_holding (env : Env) (me : ℕ) (x : Input) (db : Db) (hk : k.Holding) :
    (step env me x k db).isSome := by
  obtain ⟨op, pc⟩ := k
  have hfin : Call.isFinished ⟨op, pc⟩ = false := by
    cases pc <;> first | exact hk.elim | rfl
  rw [step, hfin, if_neg Bool.false_ne_true]
  split
  · rfl
  · cases pc with
    | locked order =>
        cases op with
        | initiate =>
            simp only [proceed]
            split <;> rfl
        | _ => exact hk.elim
    | vacant order => cases op <;> first | exact hk.elim | rfl
    | _ => exact hk.elim

/-- Only locked order rows are waited for. -/
theorem waits_for_lock (hfit : k.Fits) (hfin : k.isFinished = false)
    (hnone : step env me x k db = none) : ∃ orderId, (db.orderLock orderId).isSome = true := by
  obtain ⟨op, pc⟩ := k
  have hfail : x.fail = false := by
    cases hf : x.fail with
    | false => rfl
    | true => simp [step, hfin, hf] at hnone
  simp only [step, hfin, hfail, Bool.false_eq_true, if_false] at hnone
  cases pc with
  | checked order =>
      cases op with
      | initiate customerId orderId method =>
          simp only [proceed] at hnone
          split at hnone
          · exact ⟨orderId, ‹_›⟩
          · simp at hnone
      | _ => exact hfit.elim
  | locked | resolving | resolved =>
      cases op <;> first
        | exact hfit.elim
        | (simp only [proceed] at hnone; split at hnone <;> simp at hnone)
  | vacant | notifyResolved => cases op <;> first | exact hfit.elim | simp [proceed] at hnone
  | returned | threw => simp [Call.isFinished] at hfin
  | succeeded | rewarding =>
      simp only [proceed] at hnone
      split at hnone <;> simp at hnone
  | _ => simp [proceed] at hnone

end Statements

/-- The locks of the order rows, and what the calls have left to do. -/
def paymentLocks (env : Env) : LockDiscipline (payments env) OrderId where
  Finished k := k.isFinished = true
  lock := Db.orderLock
  Holding := Call.Holding
  Fits := Call.Fits
  fits_start k hk := by
    obtain ⟨op, pc⟩ := k
    cases pc with
    | start => trivial
    | _ => simp [payments, Call.isStart] at hk
  fits_step _ _ _ _ _ _ hstep := by
    have hstmt := (step_cases hstep).2.1
    refine ⟨hstmt.fits, fun k' hk' => ?_⟩
    simp [hstmt.spawned_eq_nil] at hk'
  lock_step _ _ _ _ _ _ _ hstep hself hlock := (step_cases hstep).2.1.lock_step hself hlock
  holding_runs i x _ s hk := step_of_holding env i x s hk
  waits _ _ _ _ hfit hfin hnone := waits_for_lock hfit (Bool.eq_false_of_not_eq_true hfin) hnone
  work k _ := k.pc.depth
  pays _ _ _ _ _ _ hstep := (step_cases hstep).2.1.pays
  others _ _ _ _ _ _ _ := le_rfl

theorem depth_le (pc : Pc) : pc.depth ≤ 13 := by
  cases pc <;> simp [Pc.depth]

/-- **The payment service comes to rest**: no two payments wait for each other, all calls together
run no more statements than their depths, and no call runs more than thirteen, whatever the rail
and the tax provider answer. -/
theorem payments_drain {env : Env} {db : Db} (hfree : ∀ orderId, db.orderLock orderId = none)
    {c : Config Db Call} {ts : List (Transition Db Call Input)}
    (hrun : (payments env).Run ⟨db, []⟩ ts c) :
    Drains (payments env) (fun k => k.isFinished = true)
        (c.calls.map fun k => k.pc.depth).sum c ∧
      ∀ i k ts' c', c.calls[i]? = some k → (payments env).Run c ts' c' →
        ts'.countP (fun t => decide (t.IsBy i)) ≤ 13 := by
  refine ⟨(paymentLocks env).drains hfree hrun, fun i k ts' c' hk hrun' => ?_⟩
  exact ((paymentLocks env).countP_isBy_le hfree hrun hrun' hk).trans (depth_le k.pc)

/-- Two payments for one order, of which one has the lock. -/
theorem payments_drain_payTwice :
    Drains (payments {}) (fun k => k.isFinished = true)
      (((payments {}).after ⟨oneCompleted, []⟩ (payTwice.take 5)).calls.map fun k =>
        k.pc.depth).sum
      ((payments {}).after ⟨oneCompleted, []⟩ (payTwice.take 5)) :=
  (payments_drain (fun _ => rfl) ((payments {}).run_trace _ _)).1

end Handly.Payments
