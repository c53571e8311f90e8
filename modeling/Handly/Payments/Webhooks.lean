import Handly.Payments.Effects

/-!
# Webhook deliveries

`handleWebhook` reads the payment, checks that it is PROCESSING and leaves the write to
`settle`, which updates by id. Two deliveries that both read before either writes both
settle. Where every settling write does find the payment PROCESSING, the right to settle
it is used up by the first.
-/

namespace Handly.Payments

open Interleaving

/-- The status of a payment. -/
def Db.statusOf (db : Db) (p : PaymentId) : Option PaymentStatus :=
  db.payments[p]?.map Payment.status

def Op.isWebhook (op : Op) : Bool := op matches .handleWebhook _ _ _

/-- In this transition a delivery changes the status of the payment. -/
def deliveryMoves (p : PaymentId) (t : Transition Db Call Input) : Bool :=
  (t.caller.any fun k => k.op.isWebhook) &&
    decide (t.pre.store.statusOf p ≠ t.post.store.statusOf p)

/-- The notification tells the outcome of this payment. -/
def tellsOutcome (p : PaymentId) (n : Notification) : Bool :=
  n.paymentId = some p ∧ (n.type = .paymentSucceeded ∨ n.type = .paymentFailed)

/-- How often the outcome of the payment was notified. -/
def Db.notified (db : Db) (p : PaymentId) : ℕ := db.notifications.countP (tellsOutcome p)

/-- In a run from `db` at most one delivery changes the status of the payment, and its
withholding is recorded and its outcome notified at most once. -/
structure SettledOnce (p : PaymentId) (db : Db) (ts : List (Transition Db Call Input))
    (c' : Config Db Call) : Prop where
  moved : ts.countP (deliveryMoves p) ≤ 1
  withheld : c'.store.withheld p ≤ db.withheld p + 1
  notified : c'.store.notified p ≤ db.notified p + 1

/-- A write that settles the payment finds it PROCESSING. -/
def SettlesOpen (p : PaymentId) (_me : ℕ) (x : Input) (k : Call) (db : Db) : Prop :=
  match k.pc with
  | .settling q _ _ => q = p → x.fail = false → db.statusOf p = some .processing
  | _ => True

instance (p : PaymentId) (me : ℕ) (x : Input) (k : Call) (db : Db) :
    Decidable (SettlesOpen p me x k db) :=
  decidable_of_bool
    (match k.pc with
      | .settling q _ _ => decide (q = p → x.fail = false → db.statusOf p = some .processing)
      | _ => true)
    (by unfold SettlesOpen; split <;> simp only [decide_eq_true_iff])

/-- The right to settle the payment: it is PROCESSING, or does not exist yet. -/
def Db.unsettled (db : Db) (p : PaymentId) : ℕ :=
  match db.statusOf p with
  | none | some .processing => 1
  | _ => 0

/-- The record that a call past the update of this payment has yet to make. -/
def Call.toRecord (p : PaymentId) (k : Call) : ℕ :=
  match k.pc with
  | .succeeded q _ | .recording q _ _ => if q = p then 1 else 0
  | _ => 0

/-- The notification of the outcome that such a call has yet to make. -/
def Call.toNotify (p : PaymentId) (k : Call) : ℕ :=
  match k.pc with
  | .succeeded q _ | .recording q _ _ | .notifySucceeded q _ | .notifyFailed q _ =>
      if q = p then 1 else 0
  | _ => 0

section Statements

variable {env : Env} {me : ℕ} {x : Input} {k : Call} {db : Db} {o : Outcome Db Call}
  {p : PaymentId}

theorem createNotification_notified (db : Db) (p : PaymentId) (n : Notification) :
    (db.createNotification n).notified p = db.notified p + if tellsOutcome p n then 1 else 0 := by
  simp [Db.notified, List.countP_append, List.countP_singleton]

/-- No statement gives the right to settle a payment. -/
theorem Stmt.unsettled_le (h : Stmt env me x db k o) : o.store.unsettled p ≤ db.unsettled p := by
  have hrow := h.paymentEffect
  cases hpost : o.store.payments[p]? with
  | none =>
      have hpre : db.payments[p]? = none := by
        by_contra hsome
        obtain ⟨a, ha⟩ := Option.ne_none_iff_exists'.mp hsome
        obtain ⟨b, hb, -⟩ := hrow.row ha
        simp [hpost] at hb
      simp [Db.unsettled, Db.statusOf, hpost, hpre]
  | some b =>
      cases hrow.rowEffect hpost with
      | same ha => simp [Db.unsettled, Db.statusOf, hpost, ha]
      | created => simp [Db.unsettled, Db.statusOf, hpost, paymentOf]
      | @settled op p payment result a ha =>
          have hst : (settleData result x.now a).status = .succeeded ∨
              (settleData result x.now a).status = .failed := settleData_status result x.now a
          rcases hst with hs | hs <;> simp [Db.unsettled, Db.statusOf, hpost, hs]
      | @resolved p adminId refund note payment a ha hnull =>
          cases refund with
          | false => simp [Db.unsettled, Db.statusOf, hpost, ha, resolveData]
          | true => simp [Db.unsettled, Db.statusOf, hpost, resolveData]

/-- The write that settles a payment uses up the right to settle it. -/
theorem unsettled_settle (now : Time) {payment : Payment} {result : ChargeResult} {row : Payment}
    (hC : SettlesOpen p me x k db) (hpc : k.pc = .settling p payment result) (hx : x.fail = false)
    (hrow : db.payments[p]? = some row) :
    db.unsettled p = 1 ∧ (db.updatePayment p (settleData result now)).unsettled p = 0 := by
  have hst : db.statusOf p = some .processing := by
    rw [SettlesOpen, hpc] at hC
    exact hC rfl hx
  refine ⟨by simp [Db.unsettled, hst], ?_⟩
  have hpost : (db.updatePayment p (settleData result now)).statusOf p =
      some (settleData result now row).status := by
    simp [Db.statusOf, hrow]
  rcases settleData_status result now row with hs | hs <;> simp [Db.unsettled, hpost, hs]

/-- A delivery changes the status only by using up the right to settle. -/
theorem Stmt.moves_le (h : Stmt env me x db k o)
    (hfails : x.fail = true → o = k.goto (db.unlock me) (.threw .infrastructure))
    (hC : SettlesOpen p me x k db) (hop : k.op.isWebhook = true) :
    (if db.statusOf p ≠ o.store.statusOf p then 1 else 0) + o.store.unsettled p ≤
      db.unsettled p := by
  have hle := h.unsettled_le (p := p)
  have hsame : o.store.statusOf p = db.statusOf p →
      (if db.statusOf p ≠ o.store.statusOf p then 1 else 0) + o.store.unsettled p ≤
        db.unsettled p := by
    intro hst
    simpa [hst] using hle
  by_cases hx : x.fail = true
  · exact hsame (by rw [hfails hx]; rfl)
  have hx : x.fail = false := by simpa using hx
  have hsettle : ∀ {q payment result row}, k.pc = .settling q payment result →
      db.payments[q]? = some row → o.store = db.updatePayment q (settleData result x.now) →
      (if db.statusOf p ≠ o.store.statusOf p then 1 else 0) + o.store.unsettled p ≤
        db.unsettled p := by
    intro q payment result row hpc hrow hstore
    by_cases hq : q = p
    · subst hq
      obtain ⟨hpre, hpost⟩ := unsettled_settle x.now hC hpc hx hrow
      rw [hstore, hpre, hpost]
      split <;> omega
    · refine hsame ?_
      rw [hstore]
      simp [Db.statusOf, hq]
  cases h with
  | settleSuccess hrow | settleFailure hrow => exact hsettle rfl hrow rfl
  | lock | duplicate | create | resolve | notifyResolved => simp [Op.isWebhook] at hop
  | _ => exact hsame rfl

/-- A statement that only moves the call on gives it nothing to do. -/
theorem Reads.owes_le {op : Op} {pc pc' : Pc} (h : Reads x db op pc pc') :
    Call.toRecord p ⟨op, pc'⟩ ≤ Call.toRecord p ⟨op, pc⟩ ∧
      Call.toNotify p ⟨op, pc'⟩ ≤ Call.toNotify p ⟨op, pc⟩ := by
  cases h <;> simp [Call.toRecord, Call.toNotify]

/-- The books of one statement: what is recorded or notified was owed, and what comes to be
owed uses up the right to settle. -/
theorem Stmt.books_le (h : Stmt env me x db k o)
    (hfails : x.fail = true → o = k.goto (db.unlock me) (.threw .infrastructure))
    (hC : SettlesOpen p me x k db) :
    o.store.withheld p + o.store.unsettled p + o.call.toRecord p ≤
        db.withheld p + db.unsettled p + k.toRecord p ∧
      o.store.notified p + o.store.unsettled p + o.call.toNotify p ≤
        db.notified p + db.unsettled p + k.toNotify p := by
  have hle := h.unsettled_le (p := p)
  -- A statement that makes no record and no notification of an outcome, after which its call
  -- owes none.
  have hidle : o.store.withheld p = db.withheld p → o.store.notified p = db.notified p →
      o.call.toRecord p = 0 → o.call.toNotify p = 0 →
      o.store.withheld p + o.store.unsettled p + o.call.toRecord p ≤
          db.withheld p + db.unsettled p + k.toRecord p ∧
        o.store.notified p + o.store.unsettled p + o.call.toNotify p ≤
          db.notified p + db.unsettled p + k.toNotify p := by
    omega
  by_cases hx : x.fail = true
  · rw [hfails hx] at hle hidle ⊢
    exact hidle rfl rfl rfl rfl
  have hx : x.fail = false := by simpa using hx
  cases h with
  | reads hr =>
      have howes := hr.owes_le (p := p)
      dsimp only at hle ⊢
      omega
  | @settleSuccess op q payment result row hrow
  | @settleFailure op q payment result row hrow =>
      by_cases hq : q = p
      · subst hq
        obtain ⟨hpre, hpost⟩ := unsettled_settle x.now hC rfl hx hrow
        simp only [Call.toRecord, Call.toNotify, hpre, hpost, if_true]
        exact ⟨by simp [Db.withheld], by simp [Db.notified]⟩
      · exact hidle rfl rfl (by simp [Call.toRecord, hq]) (by simp [Call.toNotify, hq])
  | @recordWithholding op q payment order =>
      let w := withholdingOf q payment order x.reference
      refine ⟨?_, Nat.le_refl _⟩
      show (db.recordWithholding w).withheld p + db.unsettled p + 0 ≤
        db.withheld p + db.unsettled p + if w.paymentId = p then 1 else 0
      rw [recordWithholding_withheld]
      omega
  | @notifySucceeded op q payment =>
      refine ⟨Nat.le_refl _, ?_⟩
      show (db.createNotification (succeededNotice q payment)).notified p + db.unsettled p + 0 ≤
        db.notified p + db.unsettled p + if q = p then 1 else 0
      rw [createNotification_notified]
      simp [tellsOutcome, succeededNotice, add_right_comm]
  | @notifyFailed op q payment =>
      refine ⟨Nat.le_refl _, ?_⟩
      show (db.createNotification (failedNotice q payment)).notified p + db.unsettled p + 0 ≤
        db.notified p + db.unsettled p + if q = p then 1 else 0
      rw [createNotification_notified]
      simp [tellsOutcome, failedNotice, add_right_comm]
  | credit hpc => rcases hpc with rfl | rfl <;> exact hidle rfl rfl rfl rfl
  | notifyReferrer | notifyResolved =>
      refine hidle rfl ?_ rfl rfl
      simp [createNotification_notified, tellsOutcome, rewardNotice, resolvedNotice]
  | _ => exact hidle rfl rfl rfl rfl

end Statements

section Run

variable {env : Env} {db : Db} {c' : Config Db Call} {ts : List (Transition Db Call Input)}
  {p : PaymentId}

theorem deliveryMoves_le {t : Transition Db Call Input} (ht : (payments env).Fires t)
    (hC : t.Satisfies (SettlesOpen p)) :
    (if deliveryMoves p t then 1 else 0) + t.post.store.unsettled p ≤ t.pre.store.unsettled p := by
  rcases stmt_of_fires ht with ⟨k, he, -, hpost⟩ | ⟨i, x, k, o, he, hk, -, h, hfails, hpost⟩
  · simp [deliveryMoves, Transition.caller, he, hpost]
  · simp only [deliveryMoves, t.caller_eq he hk, Option.any_some, hpost]
    by_cases hop : k.op.isWebhook = true
    · simpa [hop] using h.moves_le hfails (hC i x k he hk) hop
    · simpa [hop] using h.unsettled_le

/-- What a run records and notifies about a payment is bounded by the right to settle it. -/
theorem owed_of_run (hrun : (payments env).Run ⟨db, []⟩ ts c')
    (hC : ∀ t ∈ ts, t.Satisfies (SettlesOpen p)) :
    c'.store.withheld p + c'.store.unsettled p ≤ db.withheld p + db.unsettled p ∧
      c'.store.notified p + c'.store.unsettled p ≤ db.notified p + db.unsettled p := by
  constructor
  · refine bound_of_run (fun d => d.withheld p + d.unsettled p) (Call.toRecord p) (fun _ => rfl)
      ?_ hrun hC
    intro i x k d o h hfails hCk
    exact (h.books_le hfails hCk).1
  · refine bound_of_run (fun d => d.notified p + d.unsettled p) (Call.toNotify p) (fun _ => rfl)
      ?_ hrun hC
    intro i x k d o h hfails hCk
    exact (h.books_le hfails hCk).2

theorem unsettled_le_one (db : Db) (p : PaymentId) : db.unsettled p ≤ 1 := by
  unfold Db.unsettled
  split <;> omega

/-- **Deliveries settle once** where every settling write finds the payment PROCESSING. -/
theorem settledOnce_of_run (hrun : (payments env).Run ⟨db, []⟩ ts c')
    (hC : ∀ t ∈ ts, t.Satisfies (SettlesOpen p)) : SettledOnce p db ts c' := by
  have hone := unsettled_le_one db p
  obtain ⟨hwithheld, hnotified⟩ := owed_of_run hrun hC
  refine ⟨?_, by omega, by omega⟩
  have hmoved := hrun.countP_add_le (fun c => c.store.unsettled p) (deliveryMoves p)
    fun t ht hfire => deliveryMoves_le hfire (hC t ht)
  dsimp only at hmoved
  omega

end Run

/-- A payment on an asynchronous rail: PROCESSING, with the provider's reference. -/
def onRail : Db where
  orders := oneCompleted.orders
  payments :=
    [{ orderId := 0, customerId := 0, method := .click, status := .processing, amount := 100000
       platformFee := 0, taxRate := 1 / 100, taxAmount := 1000, masterNetAmount := 99000
       providerRef := some "r", createdBy := 0 }]

/-- A delivery, its replay with the opposite outcome, and a refund between them. -/
def replayAfterRefund : List (Event Call Input) :=
  [.start ⟨.handleWebhook "r" true none, .start⟩, .run 0 {}, .run 0 {}, .run 0 {}, .run 0 {},
    .run 0 {}, .run 0 {}, .start ⟨.resolve 0 9 true "", .start⟩, .run 1 {}, .run 1 {}, .run 1 {},
    .run 1 {}, .start ⟨.handleWebhook "r" false none, .start⟩, .run 2 {}]

theorem settledOnce_replayAfterRefund :
    SettledOnce 0 onRail ((payments {}).trace ⟨onRail, []⟩ replayAfterRefund)
      ((payments {}).after ⟨onRail, []⟩ replayAfterRefund) :=
  settledOnce_of_run ((payments {}).run_trace _ _) (by decide +kernel)

/-- Two deliveries with opposite outcomes read the payment before either settles it. -/
def overlappingDeliveries : List (Event Call Input) :=
  [.start ⟨.handleWebhook "r" false none, .start⟩, .start ⟨.handleWebhook "r" true none, .start⟩,
    .run 0 {}, .run 1 {}, .run 0 {}, .run 1 {}]

/-- The second of two overlapping deliveries overwrites FAILED by SUCCEEDED. -/
theorem not_settledOnce_always :
    ¬ ∀ (db : Db) (p : PaymentId) (a : Payment) (ref : String)
        (ts : List (Transition Db Call Input)) (c' : Config Db Call),
      db.payments[p]? = some a → a.status = .processing → a.providerRef = some ref →
        (payments {}).Run ⟨db, []⟩ ts c' →
        (∀ t ∈ ts, ∀ k, t.event = .start k →
          (∃ success reason, k.op = .handleWebhook ref success reason) ∨
            ∃ q admin refund note, k.op = .resolve q admin refund note) →
        SettledOnce p db ts c' := by
  intro h
  have honce := h onRail 0 _ "r" _ _ rfl rfl rfl
    ((payments {}).run_trace _ overlappingDeliveries) (by
      intro t ht k he
      have hmem := Machine.event_mem_of_mem_trace _ ht
      rw [he] at hmem
      simp only [overlappingDeliveries, List.mem_cons, Event.start.injEq, reduceCtorEq,
        List.not_mem_nil, or_false] at hmem
      rcases hmem with rfl | rfl
      · exact Or.inl ⟨false, none, rfl⟩
      · exact Or.inl ⟨true, none, rfl⟩)
  exact absurd honce.moved (by decide +kernel)

end Handly.Payments
