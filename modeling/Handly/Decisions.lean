import Handly.Verifications.Decisions
import Handly.Guarantees.Decisions
import Handly.Payments.Resolutions
import Handly.Payments.Webhooks

/-!
# The decisions of the admins

The three services in which an admin decides, as registers of one decision.
-/

namespace Handly

open Interleaving

section

variable {env : Payments.Env} {v : VerificationId} {g : ClaimId} {p : PaymentId}
  {vdb : Verifications.Db} {vc : Config Verifications.Db Verifications.Call}
  {vts : List (Transition Verifications.Db Verifications.Call Verifications.Input)}
  {gdb : Guarantees.Db} {gc : Config Guarantees.Db Guarantees.Call}
  {gts : List (Transition Guarantees.Db Guarantees.Call Guarantees.Input)}
  {pdb : Payments.Db} {pc : Config Payments.Db Payments.Call}
  {pts : List (Transition Payments.Db Payments.Call Payments.Input)}

/-- **Every admin decision is final and made once**: in any run of each of the three services
from tables in which the record is undecided, if no statement of a call fails after the call
has written its decision, and no write that settles the payment finds it REFUNDED. -/
theorem decisions_madeOnce (hv : Verifications.verification.Run ⟨vdb, []⟩ vts vc)
    (hpending : ∀ row, vdb.verifications[v]? = some row → row.status = .pending)
    (hvC : ∀ t ∈ vts, t.Satisfies (Verifications.NoticeGoesOut v))
    (hg : Guarantees.guarantees.Run ⟨gdb, []⟩ gts gc)
    (hundecided : ∀ row, gdb.claims[g]? = some row → row.Undecided)
    (hgC : ∀ t ∈ gts, t.Satisfies (Guarantees.NoticeGoesOut g))
    (hp : (Payments.payments env).Run ⟨pdb, []⟩ pts pc)
    (hunresolved : ∀ a, pdb.payments[p]? = some a → a.resolvedAt = none ∧ a.status ≠ .refunded)
    (hpC : ∀ t ∈ pts, t.Satisfies (Payments.StaysResolved p)) :
    Verifications.DecidedOnce v vdb vts vc ∧ Guarantees.DecidedOnce g gdb gts gc ∧
      Payments.ResolvedOnce p pdb pts pc := by
  refine ⟨?_, ?_, ?_⟩
  · exact Verifications.decidedOnce_of_run hv hpending hvC
  · exact Guarantees.decidedOnce_of_run hg hundecided hgC
  · exact Payments.resolvedOnce_of_run hp hunresolved hpC

end

/-- A master with a pending request. -/
def onePending : Verifications.Db where
  masters := [⟨0, .pending, 0, 0, 0, false⟩]
  verifications := [{ masterId := 0 }]

/-- Two admins decide the opposite; the second finds the request decided. -/
def opposedDecisions : List (Event Verifications.Call Verifications.Input) :=
  [.start ⟨.decide 0 9 true none, .start⟩, .start ⟨.decide 0 8 false (some "x"), .start⟩,
    .run 0 {}, .run 1 {}, .run 0 { now := 1 }, .run 0 {}, .run 0 {}, .run 1 {}, .run 0 {}]

/-- A customer with an open claim. -/
def oneOpenClaim : Guarantees.Db where
  claims := [{ orderId := 0, customerId := 0, reason := "" }]

/-- Two admins decide the opposite; the second finds the claim closed. -/
def opposedVerdicts : List (Event Guarantees.Call Guarantees.Input) :=
  [.start ⟨.decide 0 9 true none, .start⟩, .start ⟨.decide 0 8 false none, .start⟩,
    .run 0 {}, .run 1 {}, .run 0 { now := 1 }, .run 1 {}, .run 0 {}, .run 0 {}]

theorem decisions_madeOnce_opposed :
    Verifications.DecidedOnce 0 onePending
      (Verifications.verification.trace ⟨onePending, []⟩ opposedDecisions)
      (Verifications.verification.after ⟨onePending, []⟩ opposedDecisions) ∧
    Guarantees.DecidedOnce 0 oneOpenClaim
      (Guarantees.guarantees.trace ⟨oneOpenClaim, []⟩ opposedVerdicts)
      (Guarantees.guarantees.after ⟨oneOpenClaim, []⟩ opposedVerdicts) ∧
    Payments.ResolvedOnce 0 Payments.onRail
      ((Payments.payments {}).trace ⟨Payments.onRail, []⟩ Payments.replayAfterRefund)
      ((Payments.payments {}).after ⟨Payments.onRail, []⟩ Payments.replayAfterRefund) :=
  decisions_madeOnce (Verifications.verification.run_trace _ _) (by decide) (by decide +kernel)
    (Guarantees.guarantees.run_trace _ _) (by decide) (by decide +kernel)
    ((Payments.payments {}).run_trace _ _) (by decide) (by decide +kernel)

/-- Two deliveries read a payment before either settles it, and a refund comes between their
writes. -/
def refundBetween : List (Event Payments.Call Payments.Input) :=
  [.start ⟨.handleWebhook "r" true none, .start⟩, .start ⟨.handleWebhook "r" true none, .start⟩,
    .run 0 {}, .run 1 {}, .run 0 {}, .start ⟨.resolve 0 9 true "", .start⟩, .run 2 {}, .run 2 {},
    .run 2 {}, .run 2 {}, .run 1 {}]

/-- The second delivery overwrites REFUNDED. -/
theorem not_decisions_madeOnce_always :
    ¬ ((∀ (id : VerificationId) (db : Verifications.Db)
          (ts : List (Transition Verifications.Db Verifications.Call Verifications.Input))
          (c' : Config Verifications.Db Verifications.Call),
        Verifications.verification.Run ⟨db, []⟩ ts c' →
        (∀ row, db.verifications[id]? = some row → row.status = .pending) →
        Verifications.DecidedOnce id db ts c') ∧
      (∀ (id : ClaimId) (db : Guarantees.Db)
          (ts : List (Transition Guarantees.Db Guarantees.Call Guarantees.Input))
          (c' : Config Guarantees.Db Guarantees.Call),
        Guarantees.guarantees.Run ⟨db, []⟩ ts c' →
        (∀ row, db.claims[id]? = some row → row.Undecided) →
        Guarantees.DecidedOnce id db ts c') ∧
      ∀ (env : Payments.Env) (p : PaymentId) (db : Payments.Db)
          (ts : List (Transition Payments.Db Payments.Call Payments.Input))
          (c' : Config Payments.Db Payments.Call),
        (Payments.payments env).Run ⟨db, []⟩ ts c' →
        (∀ a, db.payments[p]? = some a → a.resolvedAt = none ∧ a.status ≠ .refunded) →
        Payments.ResolvedOnce p db ts c') := by
  intro h
  have hone := h.2.2 {} 0 Payments.onRail _ _ ((Payments.payments {}).run_trace _ refundBetween)
    (by decide)
  have hstays : ∀ t ∈ (Payments.payments {}).trace ⟨Payments.onRail, []⟩ refundBetween,
      (t.post.calls.any fun k => k.resolveStage 0 = .done) →
      Payments.resolutionOf 0 t.post.store =
        Payments.resolutionOf 0 ((Payments.payments {}).after ⟨Payments.onRail, []⟩
          refundBetween).store := by
    intro t ht hdone
    obtain ⟨k, hmem, hk⟩ := List.any_eq_true.mp hdone
    obtain ⟨i, hi⟩ := List.getElem?_of_mem hmem
    obtain ⟨d, n, -, -, hd, hd', -⟩ := hone.final t ht i k hi (of_decide_eq_true hk)
    exact hd.trans hd'.symm
  exact absurd hstays (by decide +kernel)

end Handly
