import Handly.Payments.Statements

/-!
# What a statement does to the payments and the locks

The four ways in which a statement can treat the table of payments. Every invariant
of that table goes by cases on them.
-/

namespace Handly.Payments

open Interleaving

/-- The status of a payment counts as active. -/
def Payment.Active (p : Payment) : Prop := p.status ∈ activePaymentStatuses

instance : DecidablePred Payment.Active := fun p =>
  inferInstanceAs (Decidable (p.status ∈ activePaymentStatuses))

/-- What the next statement of a call makes of the payments. -/
inductive PaymentEffect (env : Env) (me : ℕ) (x : Input) (db : Db) :
    Call → List Payment → Prop
  | frame {k} : PaymentEffect env me x db k db.payments
  | create {customerId orderId method order} :
      PaymentEffect env me x db ⟨.initiate customerId orderId method, .vacant order⟩
        (db.payments ++ [paymentOf env me customerId orderId method order])
  | settle {op paymentId payment result row} : db.payments[paymentId]? = some row →
      PaymentEffect env me x db ⟨op, .settling paymentId payment result⟩
        (db.payments.modify paymentId (settleData result x.now))
  | resolve {paymentId adminId refund note payment row} : db.payments[paymentId]? = some row →
      row.resolvedAt = none →
      PaymentEffect env me x db ⟨.resolve paymentId adminId refund note, .resolving payment⟩
        (db.payments.modify paymentId (resolveData adminId refund note x.now))

/-! ### Rows -/

theorem settleData_status (result : ChargeResult) (now : Time) (a : Payment) :
    (settleData result now a).status = .succeeded ∨ (settleData result now a).status = .failed := by
  unfold settleData
  split
  · exact Or.inl rfl
  · exact Or.inr rfl

theorem settleData_frame (result : ChargeResult) (now : Time) (a : Payment) :
    (settleData result now a).orderId = a.orderId ∧
      (settleData result now a).createdBy = a.createdBy ∧
      (settleData result now a).resolvedAt = a.resolvedAt := by
  unfold settleData
  split <;> exact ⟨rfl, rfl, rfl⟩

section Effects

variable {env : Env} {me : ℕ} {x : Input} {k : Call} {db : Db} {o : Outcome Db Call}

theorem Stmt.paymentEffect (h : Stmt env me x db k o) :
    PaymentEffect env me x db k o.store.payments := by
  cases h with
  | create => exact .create
  | settleSuccess hrow | settleFailure hrow => exact .settle hrow
  | resolve hrow hnull => exact .resolve hrow hnull
  | _ => exact .frame

/-- A statement leaves the locks of the other transactions. -/
theorem Stmt.orderLock (h : Stmt env me x db k o) {id : OrderId} {other : ℕ} (hne : other ≠ me)
    (hlock : db.orderLock id = some other) : o.store.orderLock id = some other := by
  have hunlock : (db.unlock me).orderLock id = some other := by
    simp [hlock, hne]
  cases h with
  | @lock customerId orderId method order hfree =>
      have hid : id ≠ orderId := by
        intro heq
        obtain rfl := heq
        simp [hfree] at hlock
      simpa [Function.update_of_ne hid] using hlock
  | fails | duplicate | create => exact hunlock
  | _ => exact hlock

theorem Stmt.op_eq (h : Stmt env me x db k o) : o.call.op = k.op := by
  cases h <;> rfl

theorem Stmt.spawned_eq_nil (h : Stmt env me x db k o) : o.spawned = [] := by
  cases h <;> rfl

/-- The payment service does not write orders. -/
theorem Stmt.orders_eq (h : Stmt env me x db k o) : o.store.orders = db.orders := by
  cases h <;> rfl

/-- The call that a transition runs, and its statement. -/
theorem stmt_of_fires {t : Transition Db Call Input} (ht : (payments env).Fires t) :
    (∃ k, t.event = .start k ∧ k.pc = .start ∧ t.post = ⟨t.pre.store, t.pre.calls ++ [k]⟩) ∨
    (∃ i x k o, t.event = .run i x ∧ t.pre.calls[i]? = some k ∧ k.isFinished = false ∧
        Stmt env i x t.pre.store k o ∧
        (x.fail = true → o = k.goto (t.pre.store.unlock i) (.threw .infrastructure)) ∧
        t.post = ⟨o.store, t.pre.calls.set i o.call⟩) := by
  rcases ht.cases with ⟨k, he, hk, hpost⟩ | ⟨i, x, k, o, he, hi, ho, hpost⟩
  · refine Or.inl ⟨k, he, ?_, hpost⟩
    obtain ⟨op, pc⟩ := k
    cases pc <;> trivial
  · obtain ⟨hfin, h, hfails⟩ := step_cases ho
    rw [h.spawned_eq_nil, List.append_nil] at hpost
    exact Or.inr ⟨i, x, k, o, he, hi, hfin, h, hfails, hpost⟩

/-- No statement removes a payment, and its order, its customer and its creator stay. -/
theorem PaymentEffect.row {ps : List Payment} (h : PaymentEffect env me x db k ps) {p : PaymentId}
    {a : Payment} (ha : db.payments[p]? = some a) :
    ∃ b, ps[p]? = some b ∧ b.orderId = a.orderId ∧ b.customerId = a.customerId ∧
      b.createdBy = a.createdBy := by
  have hmodify : ∀ {id : PaymentId} {f : Payment → Payment},
      (∀ row, (f row).orderId = row.orderId ∧ (f row).customerId = row.customerId ∧
        (f row).createdBy = row.createdBy) →
      ∃ b, (db.payments.modify id f)[p]? = some b ∧ b.orderId = a.orderId ∧
        b.customerId = a.customerId ∧ b.createdBy = a.createdBy := by
    intro id f hf
    refine ⟨_, Table.modify_of_row ha id, ?_⟩
    split
    · exact hf a
    · exact ⟨rfl, rfl, rfl⟩
  cases h with
  | frame => exact ⟨a, ha, rfl, rfl, rfl⟩
  | create => exact ⟨a, Table.append_of_row ha _, rfl, rfl, rfl⟩
  | settle =>
      refine hmodify fun row => ?_
      unfold settleData
      split <;> exact ⟨rfl, rfl, rfl⟩
  | resolve => exact hmodify fun row => ⟨rfl, rfl, rfl⟩

/-- Where a row of the table after a statement comes from. -/
inductive RowEffect (env : Env) (me : ℕ) (x : Input) (db : Db) :
    Call → PaymentId → Payment → Prop
  | same {k p a} : db.payments[p]? = some a → RowEffect env me x db k p a
  | created {customerId orderId method order} :
      RowEffect env me x db ⟨.initiate customerId orderId method, .vacant order⟩
        db.payments.length (paymentOf env me customerId orderId method order)
  | settled {op p payment result a} : db.payments[p]? = some a →
      RowEffect env me x db ⟨op, .settling p payment result⟩ p (settleData result x.now a)
  | resolved {p adminId refund note payment a} : db.payments[p]? = some a →
      a.resolvedAt = none →
      RowEffect env me x db ⟨.resolve p adminId refund note, .resolving payment⟩ p
        (resolveData adminId refund note x.now a)

theorem PaymentEffect.rowEffect {ps : List Payment} (h : PaymentEffect env me x db k ps)
    {p : ℕ} {b : Payment} (hb : ps[p]? = some b) : RowEffect env me x db k p b := by
  cases h with
  | frame => exact .same hb
  | create =>
      rcases Table.of_append hb with hrow | ⟨rfl, rfl⟩
      · exact .same hrow
      · exact .created
  | @settle op id payment result row hrow =>
      obtain ⟨a, ha, ⟨rfl, rfl⟩ | ⟨-, rfl⟩⟩ := Table.of_modify hb
      · exact .settled ha
      · exact .same ha
  | @resolve id adminId refund note payment row hrow hnull =>
      obtain ⟨a, ha, ⟨rfl, rfl⟩ | ⟨-, rfl⟩⟩ := Table.of_modify hb
      · obtain rfl := Option.some.inj (ha.symm.trans hrow)
        exact .resolved ha hnull
      · exact .same ha

end Effects

/-! ### Withholdings -/

/-- How often the tax provider was told of the payment. -/
def Db.withheld (db : Db) (p : PaymentId) : ℕ := db.withholdings.countP fun w => w.paymentId = p

theorem recordWithholding_withheld (db : Db) (p : PaymentId) (w : RecordedWithholding) :
    (db.recordWithholding w).withheld p = db.withheld p + if w.paymentId = p then 1 else 0 := by
  simp [Db.withheld, List.countP_append, List.countP_singleton]

/-- Only `settle` tells the tax provider of a payment. -/
theorem Stmt.withheld_eq {env : Env} {me : ℕ} {x : Input} {k : Call} {db : Db} {o : Outcome Db Call}
    (h : Stmt env me x db k o) {p : PaymentId}
    (hp : ∀ payment order, k.pc ≠ .recording p payment order) :
    o.store.withheld p = db.withheld p := by
  cases h with
  | @recordWithholding op q payment order =>
      have hq : q ≠ p := by
        intro heq
        obtain rfl := heq
        exact hp payment order rfl
      show (db.recordWithholding _).withheld p = db.withheld p
      rw [recordWithholding_withheld]
      simp [withholdingOf, hq]
  | _ => rfl

/-! ### Bounds -/

/-- **A bound over a run.** A quantity of the store that no statement raises by more than
what its call gives up, and of which calls hold nothing at their start, does not grow. -/
theorem bound_of_run {env : Env} {db : Db} {c' : Config Db Call}
    {ts : List (Transition Db Call Input)} {C : ℕ → Input → Call → Db → Prop} (f : Db → ℕ)
    (g : Call → ℕ) (hstart : ∀ op, g ⟨op, .start⟩ = 0)
    (hstmt : ∀ i x k db o, Stmt env i x db k o →
      (x.fail = true → o = k.goto (db.unlock i) (.threw .infrastructure)) → C i x k db →
      f o.store + g o.call ≤ f db + g k)
    (hrun : (payments env).Run ⟨db, []⟩ ts c') (hC : ∀ t ∈ ts, t.Satisfies C) :
    f c'.store ≤ f db := by
  have hpotential : potential f g c' ≤ f db := by
    refine (potential_run_le f g ?_ ?_ hrun hC (by simp [potential])).1
    · intro t k _ _ hentry
      obtain ⟨op, pc⟩ := k
      cases pc with
      | start => exact hstart op
      | _ => simp [payments, Call.isStart] at hentry
    · intro t i x k o _ hCt he hk hstep
      obtain ⟨-, h, hfails⟩ := step_cases hstep
      have hle := hstmt i x k t.pre.store o h hfails (hCt i x k he hk)
      rw [h.spawned_eq_nil]
      simpa using hle
  exact (Nat.le_add_right _ _).trans hpotential

/-- A completed order of customer 0. -/
def oneCompleted : Db where
  orders :=
    [{ customerId := 0, categoryId := some 0, description := "", status := .completed
       masterId := some 1, finalAmount := some 100000 }]

end Handly.Payments
