import Handly.Lib.Checks
import Handly.Guarantees.GuaranteeService

/-!
# What one statement of the guarantee service can do

`step_cases` inverts a step once; what is known of claims goes by cases on `Stmt`.
-/

namespace Handly.Guarantees

open Interleaving

/-- Everything the next statement of a call can be. -/
inductive Stmt (x : Input) (db : Db) : Call → Outcome Db Call → Prop
  | fails {op pc} : x.fail = true → Stmt x db ⟨op, pc⟩ ⟨db, ⟨op, .threw .infrastructure⟩, []⟩
  | refused {op pc e} :
      pc = .start ∨ pc = .eligible ∨ pc = .vacant ∨ (∃ claim, pc = .checked claim) →
      Stmt x db ⟨op, pc⟩ ⟨db, ⟨op, .threw e⟩, []⟩
  -- fileClaim
  | readOrder {customerId orderId reason order} : db.orders[orderId]? = some order →
      order.customerId = customerId → order.status = .closed →
      (∃ m, db.masterOf order = some m ∧ m.verificationStatus = .verified) →
      db.paymentsOf orderId ≠ [] →
      Stmt x db ⟨.fileClaim customerId orderId reason, .start⟩
        ⟨db, ⟨.fileClaim customerId orderId reason, .eligible⟩, []⟩
  | readClaim {customerId orderId reason} : db.hasClaim orderId = false →
      Stmt x db ⟨.fileClaim customerId orderId reason, .eligible⟩
        ⟨db, ⟨.fileClaim customerId orderId reason, .vacant⟩, []⟩
  | create {customerId orderId reason} : db.hasClaim orderId = false →
      Stmt x db ⟨.fileClaim customerId orderId reason, .vacant⟩
        ⟨db.createClaim (claimOf customerId orderId reason),
          ⟨.fileClaim customerId orderId reason, .returned⟩, []⟩
  -- decide
  | read {claimId adminId approve note claim} : db.claims[claimId]? = some claim →
      claim.status = .open_ ∨ claim.status = .underReview →
      Stmt x db ⟨.decide claimId adminId approve note, .start⟩
        ⟨db, ⟨.decide claimId adminId approve note, .checked claim⟩, []⟩
  | decide {claimId adminId approve note claim row} : db.claims[claimId]? = some row →
      row.status = claim.status →
      Stmt x db ⟨.decide claimId adminId approve note, .checked claim⟩
        ⟨db.updateClaim claimId (decideData adminId approve note x.now),
          ⟨.decide claimId adminId approve note, .decided claim⟩, []⟩
  | missing {claimId adminId approve note claim} : db.claims[claimId]? = none →
      Stmt x db ⟨.decide claimId adminId approve note, .decided claim⟩
        ⟨db, ⟨.decide claimId adminId approve note, .threw .infrastructure⟩, []⟩
  | readAgain {claimId adminId approve note claim row} : db.claims[claimId]? = some row →
      Stmt x db ⟨.decide claimId adminId approve note, .decided claim⟩
        ⟨db, ⟨.decide claimId adminId approve note, .notifying claim⟩, []⟩
  | notify {claimId adminId approve note claim} :
      Stmt x db ⟨.decide claimId adminId approve note, .notifying claim⟩
        ⟨db.createNotification (decidedNotice claimId claim approve note),
          ⟨.decide claimId adminId approve note, .returned⟩, []⟩

section Cases

variable {me : ℕ} {x : Input} {k : Call} {db : Db} {o : Outcome Db Call}

theorem fileGuard_eq_ok {customerId : UserId} {orderId : OrderId} {u : Unit}
    (h : fileGuard db customerId orderId = .ok u) :
    ∃ order, db.orders[orderId]? = some order ∧ order.customerId = customerId ∧
      order.status = .closed ∧
      (∃ m, db.masterOf order = some m ∧ m.verificationStatus = .verified) ∧
      db.paymentsOf orderId ≠ [] := by
  unfold fileGuard at h
  split at h
  · simp at h
  · rename_i order hrow
    simp only [Checks.check_eq_ok] at h
    obtain ⟨hcust, hst, hmaster, hpaid⟩ := h
    obtain ⟨m, hm, hverified⟩ := (Option.any_eq_true _ _).mp (of_not_not hmaster)
    refine ⟨order, hrow, of_not_not hcust, of_not_not hst,
      ⟨m, hm, of_decide_eq_true hverified⟩, fun hnil => ?_⟩
    simp [hnil, throw, throwThe, MonadExceptOf.throw] at hpaid

theorem decideGuard_eq_ok {claimId : ClaimId} {claim : GuaranteeClaim}
    (h : decideGuard db claimId = .ok claim) :
    db.claims[claimId]? = some claim ∧ (claim.status = .open_ ∨ claim.status = .underReview) := by
  unfold decideGuard at h
  split at h
  · simp at h
  · rename_i row hrow
    simp only [Checks.check_eq_ok, Checks.pure_eq_ok] at h
    obtain ⟨hst, rfl⟩ := h
    refine ⟨hrow, ?_⟩
    rcases not_and_or.mp hst with h | h
    · exact Or.inl (of_not_not h)
    · exact Or.inr (of_not_not h)

/-- The next statement of a call that does not fail. -/
theorem proceed_cases (h : proceed x k db = some o) : Stmt x db k o := by
  obtain ⟨op, pc⟩ := k
  cases op with
  | fileClaim customerId orderId reason =>
      cases pc with
      | start =>
          simp only [proceed] at h
          split at h
          · rw [← Option.some.inj h]
            exact .refused (Or.inl rfl)
          · rename_i hok
            rw [← Option.some.inj h]
            obtain ⟨order, hrow, hcust, hst, hmaster, hpaid⟩ := fileGuard_eq_ok hok
            exact .readOrder hrow hcust hst hmaster hpaid
      | eligible =>
          simp only [proceed] at h
          split at h
          · rw [← Option.some.inj h]
            exact .refused (Or.inr (Or.inl rfl))
          · rename_i hnone
            rw [← Option.some.inj h]
            exact .readClaim (by simpa using hnone)
      | vacant =>
          simp only [proceed] at h
          split at h
          · rw [← Option.some.inj h]
            exact .refused (Or.inr (Or.inr (Or.inl rfl)))
          · rename_i hnone
            rw [← Option.some.inj h]
            exact .create (by simpa using hnone)
      | _ => simp [proceed] at h
  | decide claimId adminId approve note =>
      cases pc with
      | start =>
          simp only [proceed] at h
          split at h
          · rw [← Option.some.inj h]
            exact .refused (Or.inl rfl)
          · rename_i claim hok
            rw [← Option.some.inj h]
            obtain ⟨hrow, hst⟩ := decideGuard_eq_ok hok
            exact .read hrow hst
      | checked claim =>
          simp only [proceed] at h
          split at h
          · rename_i hsame
            obtain ⟨row, hrow, hst⟩ := (Option.any_eq_true _ _).mp hsame
            rw [← Option.some.inj h]
            exact .decide hrow (of_decide_eq_true hst)
          · rw [← Option.some.inj h]
            exact .refused (Or.inr (Or.inr (Or.inr ⟨claim, rfl⟩)))
      | decided claim =>
          simp only [proceed] at h
          split at h
          · rename_i hnone
            rw [← Option.some.inj h]
            exact .missing hnone
          · rename_i row hrow
            rw [← Option.some.inj h]
            exact .readAgain hrow
      | notifying claim =>
          rw [← Option.some.inj h]
          exact .notify
      | _ => simp [proceed] at h

/-- **Inversion of a step.** -/
theorem step_cases (h : guarantees.step me x k db = some o) :
    k.isFinished = false ∧ Stmt x db k o := by
  simp only [guarantees, step] at h
  split at h
  · simp at h
  · rename_i hfinished
    refine ⟨by simpa using hfinished, ?_⟩
    split at h
    · rename_i hfail
      rw [← Option.some.inj h]
      exact .fails hfail
    · exact proceed_cases h

theorem Stmt.op_eq (h : Stmt x db k o) : o.call.op = k.op := by
  cases h <;> rfl

theorem Stmt.spawned_eq_nil (h : Stmt x db k o) : o.spawned = [] := by
  cases h <;> rfl

/-- No statement removes a claim. -/
theorem Stmt.row_stays (h : Stmt x db k o) {id : ℕ} (hrow : db.claims[id]?.isSome) :
    o.store.claims[id]?.isSome := by
  obtain ⟨row, hrow⟩ := Option.isSome_iff_exists.mp hrow
  refine Option.isSome_iff_exists.mpr ?_
  cases h with
  | create => exact ⟨row, Table.append_of_row hrow _⟩
  | decide => exact ⟨_, Table.modify_of_row hrow _⟩
  | _ => exact ⟨row, hrow⟩

/-- The call that a transition runs, and its statement. -/
theorem stmt_of_fires {t : Transition Db Call Input} (ht : guarantees.Fires t) :
    (∃ k, t.event = .start k ∧ k.pc = .start ∧ t.post = ⟨t.pre.store, t.pre.calls ++ [k]⟩) ∨
    (∃ i x k o, t.event = .run i x ∧ t.pre.calls[i]? = some k ∧ k.isFinished = false ∧
        Stmt x t.pre.store k o ∧ t.post = ⟨o.store, t.pre.calls.set i o.call⟩) := by
  rcases ht.cases with ⟨k, he, hk, hpost⟩ | ⟨i, x, k, o, he, hi, ho, hpost⟩
  · refine Or.inl ⟨k, he, ?_, hpost⟩
    obtain ⟨op, pc⟩ := k
    cases pc <;> trivial
  · obtain ⟨hfinished, h⟩ := step_cases ho
    rw [h.spawned_eq_nil, List.append_nil] at hpost
    exact Or.inr ⟨i, x, k, o, he, hi, hfinished, h, hpost⟩

end Cases

end Handly.Guarantees
