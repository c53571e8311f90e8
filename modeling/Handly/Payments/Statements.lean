import Handly.Lib.Checks
import Handly.Payments.PaymentsService

/-!
# What one statement of the payment service can do

`step_cases` inverts a step once, as `Handly.Orders.Statements` does for the order
services: a `Reads` only moves the call on, every other statement has a constructor
in `Stmt`. The invariants of payments go by cases on these.
-/

namespace Handly.Payments

open Interleaving

/-- The next statement is the read of `rewardOnFirstPayment(refereeId)`. -/
inductive EntersReward : Op → Pc → UserId → Prop
  | settle {op refereeId} : EntersReward op (.reward refereeId) refereeId
  | direct {refereeId} : EntersReward (.rewardOnFirstPayment refereeId) .start refereeId

/-- The statements that leave the store as it is. -/
inductive Reads (x : Input) (db : Db) : Op → Pc → Pc → Prop
  | refused {op e} : Reads x db op .start (.threw e)
  -- initiate
  | checked {customerId orderId method order} : db.orders[orderId]? = some order →
      order.customerId = customerId → order.status = .completed ∨ order.status = .closed →
      order.finalAmount.isSome →
      Reads x db (.initiate customerId orderId method) .start (.checked order)
  | vacant {customerId orderId method order} : hasActivePayment db orderId = false →
      Reads x db (.initiate customerId orderId method) (.locked order) (.vacant order)
  | charged {op paymentId payment} :
      Reads x db op (.created paymentId payment) (.settling paymentId payment x.charge)
  -- handleWebhook
  | webhookNoop {providerRef success failureReason} :
      Reads x db (.handleWebhook providerRef success failureReason) .start .returned
  | webhook {providerRef success failureReason paymentId payment} :
      db.payments[paymentId]? = some payment → payment.providerRef = some providerRef →
      payment.status = .processing →
      Reads x db (.handleWebhook providerRef success failureReason) .start
        (.settling paymentId payment { success, providerRef, failureReason })
  -- settle
  | settleRefused {op paymentId payment result} :
      db.payments[paymentId]? = none ∨ db.providerRefTaken paymentId result.providerRef = true →
      Reads x db op (.settling paymentId payment result) (.threw .infrastructure)
  | orderMissing {op paymentId payment} : db.orders[payment.orderId]? = none →
      Reads x db op (.succeeded paymentId payment) (.threw .infrastructure)
  | orderRead {op paymentId payment order} : db.orders[payment.orderId]? = some order →
      Reads x db op (.succeeded paymentId payment) (.recording paymentId payment order)
  -- rewardOnFirstPayment
  | rewardReads {op pc refereeId referralId referral} : EntersReward op pc refereeId →
      db.referrals[referralId]? = some referral → referral.refereeId = refereeId →
      referral.status = .active → Reads x db op pc (.rewarding referralId referral)
  -- resolve
  | resolving {paymentId adminId refund note payment} :
      db.payments[paymentId]? = some payment → payment.resolvedAt = none →
      (refund = true → payment.status = .succeeded) →
      Reads x db (.resolve paymentId adminId refund note) .start (.resolving payment)
  | resolveLost {paymentId adminId refund note payment} :
      (∀ row, db.payments[paymentId]? = some row → row.resolvedAt.isSome) →
      Reads x db (.resolve paymentId adminId refund note) (.resolving payment)
        (.threw (.conflict "Bu to'lov allaqachon hal qilingan"))
  | resolvedMissing {paymentId adminId refund note payment} : db.payments[paymentId]? = none →
      Reads x db (.resolve paymentId adminId refund note) (.resolved payment)
        (.threw .infrastructure)
  | resolvedRead {paymentId adminId refund note payment} :
      Reads x db (.resolve paymentId adminId refund note) (.resolved payment)
        (.notifyResolved payment)

/-- Everything the next statement of a call can be. -/
inductive Stmt (env : Env) (me : ℕ) (x : Input) (db : Db) : Call → Outcome Db Call → Prop
  | fails {op pc} : x.fail = true → Call.isFinished ⟨op, pc⟩ = false →
      Stmt env me x db ⟨op, pc⟩ ⟨db.unlock me, ⟨op, .threw .infrastructure⟩, []⟩
  | reads {op pc pc'} : Reads x db op pc pc' → Stmt env me x db ⟨op, pc⟩ ⟨db, ⟨op, pc'⟩, []⟩
  -- initiate
  | lock {customerId orderId method order} : db.orderLock orderId = none →
      Stmt env me x db ⟨.initiate customerId orderId method, .checked order⟩
        ⟨db.lockOrder orderId me, ⟨.initiate customerId orderId method, .locked order⟩, []⟩
  | duplicate {customerId orderId method order} : hasActivePayment db orderId = true →
      Stmt env me x db ⟨.initiate customerId orderId method, .locked order⟩
        ⟨db.unlock me, ⟨.initiate customerId orderId method,
          .threw (.conflict "Bu buyurtma uchun to'lov allaqachon mavjud")⟩, []⟩
  | create {customerId orderId method order} :
      Stmt env me x db ⟨.initiate customerId orderId method, .vacant order⟩
        ⟨(db.createPayment (paymentOf env me customerId orderId method order)).unlock me,
          ⟨.initiate customerId orderId method,
            .created db.payments.length (paymentOf env me customerId orderId method order)⟩, []⟩
  -- settle
  | settleSuccess {op paymentId payment result row} : db.payments[paymentId]? = some row →
      db.providerRefTaken paymentId result.providerRef = false → result.success = true →
      Stmt env me x db ⟨op, .settling paymentId payment result⟩
        ⟨db.updatePayment paymentId (settleData result x.now),
          ⟨op, .succeeded paymentId payment⟩, []⟩
  | settleFailure {op paymentId payment result row} : db.payments[paymentId]? = some row →
      db.providerRefTaken paymentId result.providerRef = false → result.success = false →
      Stmt env me x db ⟨op, .settling paymentId payment result⟩
        ⟨db.updatePayment paymentId (settleData result x.now),
          ⟨op, .notifyFailed paymentId payment⟩, []⟩
  | recordWithholding {op paymentId payment order} :
      Stmt env me x db ⟨op, .recording paymentId payment order⟩
        ⟨db.recordWithholding (withholdingOf paymentId payment order x.reference),
          ⟨op, .notifySucceeded paymentId payment⟩, []⟩
  | notifySucceeded {op paymentId payment} :
      Stmt env me x db ⟨op, .notifySucceeded paymentId payment⟩
        ⟨db.createNotification (succeededNotice paymentId payment),
          ⟨op, .reward payment.customerId⟩, []⟩
  | notifyFailed {op paymentId payment} :
      Stmt env me x db ⟨op, .notifyFailed paymentId payment⟩
        ⟨db.createNotification (failedNotice paymentId payment), ⟨op, .returned⟩, []⟩
  -- rewardOnFirstPayment
  | rewardNone {op pc refereeId} : EntersReward op pc refereeId →
      Stmt env me x db ⟨op, pc⟩ ⟨db.rewardReturned me refereeId, ⟨op, .returned⟩, []⟩
  | claimReferral {op referralId referral row} : db.referrals[referralId]? = some row →
      row.status = .active →
      Stmt env me x db ⟨op, .rewarding referralId referral⟩
        ⟨db.updateReferral referralId fun r =>
            { r with status := .rewarded, rewardedAt := some x.now },
          ⟨op, .crediting referralId referral⟩, []⟩
  | rewardLost {op referralId referral} :
      (∀ row, db.referrals[referralId]? = some row → row.status ≠ .active) →
      Stmt env me x db ⟨op, .rewarding referralId referral⟩
        ⟨db.rewardReturned me referral.refereeId, ⟨op, .returned⟩, []⟩
  | credit {op referralId referral pc} : pc = .returned ∨ pc = .notifyReferrer referral →
      Stmt env me x db ⟨op, .crediting referralId referral⟩
        ⟨(db.createCashback (cashbackOf referralId referral)).rewardReturned me referral.refereeId,
          ⟨op, pc⟩, []⟩
  | notifyReferrer {op referral} :
      Stmt env me x db ⟨op, .notifyReferrer referral⟩
        ⟨db.createNotification (rewardNotice referral), ⟨op, .returned⟩, []⟩
  -- resolve
  | resolve {paymentId adminId refund note payment row} : db.payments[paymentId]? = some row →
      row.resolvedAt = none →
      Stmt env me x db ⟨.resolve paymentId adminId refund note, .resolving payment⟩
        ⟨db.updatePayment paymentId (resolveData adminId refund note x.now),
          ⟨.resolve paymentId adminId refund note, .resolved payment⟩, []⟩
  | notifyResolved {paymentId adminId refund note payment} :
      Stmt env me x db ⟨.resolve paymentId adminId refund note, .notifyResolved payment⟩
        ⟨db.createNotification (resolvedNotice paymentId payment refund note),
          ⟨.resolve paymentId adminId refund note, .returned⟩, []⟩

section Cases

variable {env : Env} {me : ℕ} {x : Input} {k : Call} {db : Db} {o : Outcome Db Call}

theorem initiateGuard_eq_ok {customerId : UserId} {orderId : OrderId} {order : Order}
    (h : initiateGuard db customerId orderId = .ok order) :
    db.orders[orderId]? = some order ∧ order.customerId = customerId ∧
      (order.status = .completed ∨ order.status = .closed) ∧ order.finalAmount.isSome := by
  unfold initiateGuard at h
  split at h
  · simp at h
  · rename_i row hrow
    simp only [Checks.check_eq_ok, Checks.pure_eq_ok] at h
    obtain ⟨hcust, hst, hfinal, rfl⟩ := h
    refine ⟨hrow, of_not_not hcust, ?_, Option.isSome_iff_ne_none.mpr hfinal⟩
    rcases not_and_or.mp hst with h | h
    · exact Or.inl (of_not_not h)
    · exact Or.inr (of_not_not h)

theorem resolveGuard_eq_ok {paymentId : PaymentId} {refund : Bool} {payment : Payment}
    (h : resolveGuard db paymentId refund = .ok payment) :
    db.payments[paymentId]? = some payment ∧ payment.resolvedAt = none ∧
      (refund = true → payment.status = .succeeded) := by
  unfold resolveGuard at h
  split at h
  · simp at h
  · rename_i row hrow
    simp only [Checks.check_eq_ok, Checks.pure_eq_ok] at h
    obtain ⟨hres, hst, rfl⟩ := h
    exact ⟨hrow, by simpa using hres, fun hr => of_not_not fun hne => hst ⟨hr, hne⟩⟩

theorem enterReward_cases {refereeId : UserId} (henter : EntersReward k.op k.pc refereeId) :
    Stmt env me x db k (enterReward k me db refereeId) := by
  unfold enterReward
  split
  · exact .rewardNone henter
  · rename_i referralId referral hfound
    obtain ⟨hrow, href⟩ := Table.findRow_eq_some hfound
    split
    · exact .rewardNone henter
    · rename_i hst
      exact .reads (.rewardReads henter hrow (of_decide_eq_true href) (of_not_not hst))

/-- The first statement of a call. -/
theorem begin_cases (hpc : k.pc = .start) : Stmt env me x db k (begin k me db) := by
  obtain ⟨op, pc⟩ := k
  obtain rfl : pc = .start := hpc
  cases op with
  | initiate customerId orderId method =>
      simp only [begin]
      split
      · exact .reads .refused
      · rename_i order hok
        obtain ⟨hrow, hcust, hst, hfinal⟩ := initiateGuard_eq_ok hok
        exact .reads (.checked hrow hcust hst hfinal)
  | handleWebhook providerRef success failureReason =>
      simp only [begin]
      split
      · exact .reads .webhookNoop
      · rename_i paymentId payment hfound
        obtain ⟨hrow, href⟩ := Table.findRow_eq_some hfound
        split
        · exact .reads .webhookNoop
        · rename_i hst
          exact .reads (.webhook hrow (of_decide_eq_true href) (of_not_not hst))
  | resolve paymentId adminId refund note =>
      simp only [begin]
      split
      · exact .reads .refused
      · rename_i payment hok
        obtain ⟨hrow, hres, hst⟩ := resolveGuard_eq_ok hok
        exact .reads (.resolving hrow hres hst)
  | rewardOnFirstPayment refereeId => exact enterReward_cases .direct

theorem settle_cases {paymentId : PaymentId} {payment : Payment} {result : ChargeResult}
    (hpc : k.pc = .settling paymentId payment result) :
    Stmt env me x db k (settle k x db paymentId payment result) := by
  obtain ⟨op, pc⟩ := k
  obtain rfl : pc = .settling paymentId payment result := hpc
  unfold settle
  split
  · rename_i hbad
    exact .reads (.settleRefused (hbad.imp_left Option.isNone_iff_eq_none.mp))
  · rename_i hok
    obtain ⟨hsome, htaken⟩ := not_or.mp hok
    obtain ⟨row, hrow⟩ : ∃ row, db.payments[paymentId]? = some row :=
      Option.ne_none_iff_exists'.mp (mt Option.isNone_iff_eq_none.mpr hsome)
    by_cases hs : result.success = true
    · rw [if_pos hs]
      exact .settleSuccess hrow (by simpa using htaken) hs
    · rw [if_neg hs]
      exact .settleFailure hrow (by simpa using htaken) (by simpa using hs)

/-- The next statement of a call that does not fail. -/
theorem proceed_cases (h : proceed env me x k db = some o) : Stmt env me x db k o := by
  obtain ⟨op, pc⟩ := k
  cases pc with
  | start =>
      rw [← Option.some.inj h]
      exact begin_cases rfl
  | checked order =>
      cases op with
      | initiate customerId orderId method =>
          simp only [proceed] at h
          split at h
          · simp at h
          · rename_i hlock
            rw [← Option.some.inj h]
            exact .lock (by simpa using hlock)
      | _ => simp [proceed] at h
  | locked order =>
      cases op with
      | initiate customerId orderId method =>
          simp only [proceed] at h
          split at h
          · rename_i hactive
            rw [← Option.some.inj h]
            exact .duplicate hactive
          · rename_i hactive
            rw [← Option.some.inj h]
            exact .reads (.vacant (by simpa using hactive))
      | _ => simp [proceed] at h
  | vacant order =>
      cases op with
      | initiate customerId orderId method =>
          rw [← Option.some.inj h]
          exact .create
      | _ => simp [proceed] at h
  | created paymentId payment =>
      rw [← Option.some.inj h]
      exact .reads .charged
  | settling paymentId payment result =>
      rw [← Option.some.inj h]
      exact settle_cases rfl
  | succeeded paymentId payment =>
      simp only [proceed] at h
      split at h
      · rename_i hnone
        rw [← Option.some.inj h]
        exact .reads (.orderMissing hnone)
      · rename_i order hrow
        rw [← Option.some.inj h]
        exact .reads (.orderRead hrow)
  | recording paymentId payment order =>
      rw [← Option.some.inj h]
      exact .recordWithholding
  | notifySucceeded paymentId payment =>
      rw [← Option.some.inj h]
      exact .notifySucceeded
  | notifyFailed paymentId payment =>
      rw [← Option.some.inj h]
      exact .notifyFailed
  | reward refereeId =>
      rw [← Option.some.inj h]
      exact enterReward_cases .settle
  | rewarding referralId referral =>
      simp only [proceed] at h
      split at h
      · rename_i hactive
        rw [← Option.some.inj h]
        cases hrow : db.referrals[referralId]? with
        | none => simp [hrow] at hactive
        | some row => exact .claimReferral hrow (by simpa [hrow] using hactive)
      · rename_i hlost
        rw [← Option.some.inj h]
        refine .rewardLost fun row hrow hst => hlost ?_
        simp [hrow, hst]
  | crediting referralId referral =>
      rw [← Option.some.inj h]
      refine .credit ?_
      cases op with
      | rewardOnFirstPayment refereeId => exact Or.inl rfl
      | _ => exact Or.inr rfl
  | notifyReferrer referral =>
      rw [← Option.some.inj h]
      exact .notifyReferrer
  | resolving payment =>
      cases op with
      | resolve paymentId adminId refund note =>
          simp only [proceed] at h
          split at h
          · rename_i hnull
            rw [← Option.some.inj h]
            cases hrow : db.payments[paymentId]? with
            | none => simp [hrow] at hnull
            | some row => exact .resolve hrow (by simpa [hrow] using hnull)
          · rename_i hlost
            rw [← Option.some.inj h]
            refine .reads (.resolveLost fun row hrow => ?_)
            simpa [hrow, Option.isSome_iff_ne_none] using hlost
      | _ => simp [proceed] at h
  | resolved payment =>
      cases op with
      | resolve paymentId adminId refund note =>
          simp only [proceed] at h
          split at h
          · rename_i hnone
            rw [← Option.some.inj h]
            exact .reads (.resolvedMissing hnone)
          · rw [← Option.some.inj h]
            exact .reads .resolvedRead
      | _ => simp [proceed] at h
  | notifyResolved payment =>
      cases op with
      | resolve paymentId adminId refund note =>
          rw [← Option.some.inj h]
          exact .notifyResolved
      | _ => simp [proceed] at h
  | returned => simp [proceed] at h
  | threw e => simp [proceed] at h

/-- **Inversion of a step.** The next statement of any call is one of these, and
when it fails it is `Stmt.fails`. -/
theorem step_cases (h : step env me x k db = some o) :
    k.isFinished = false ∧ Stmt env me x db k o ∧
      (x.fail = true → o = k.goto (db.unlock me) (.threw .infrastructure)) := by
  unfold step at h
  split at h
  · simp at h
  · rename_i hfin
    refine ⟨by simpa using hfin, ?_⟩
    split at h
    · rename_i hfail
      rw [← Option.some.inj h]
      exact ⟨.fails hfail (by simpa using hfin), fun _ => rfl⟩
    · rename_i hfail
      exact ⟨proceed_cases h, fun hx => absurd hx hfail⟩

end Cases

end Handly.Payments
