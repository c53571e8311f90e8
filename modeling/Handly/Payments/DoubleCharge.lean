import Handly.Payments.Effects

/-!
# No double charge

Only the transaction of `initiate` is serialised, by the lock of the order row. What
makes the other writes safe is that a PROCESSING payment is settled by the call that
created it and by no other: it has no `providerRef` yet, so no webhook finds it, and a
refund needs it SUCCEEDED.
-/

namespace Handly.Payments

open Interleaving

/-- At most one payment of an order is active. -/
def OnePaymentEach (db : Db) : Prop :=
  ∀ (p q : PaymentId) (a b : Payment), db.payments[p]? = some a → db.payments[q]? = some b →
    a.orderId = b.orderId → a.Active → b.Active → p = q

/-- The moves of `Payment.status`. -/
def paymentMoves : List (PaymentStatus × PaymentStatus) :=
  [(.processing, .succeeded), (.processing, .failed), (.succeeded, .refunded)]

/-- In this transition a new payment is PROCESSING, and the status of every other one
stays or makes one of the moves. -/
def StatusMoves (t : Transition Db Call Input) : Prop :=
  (∀ (p : PaymentId) (a : Payment), t.pre.store.payments[p]? = some a →
    ∃ b : Payment, t.post.store.payments[p]? = some b ∧
      (b.status = a.status ∨ (a.status, b.status) ∈ paymentMoves)) ∧
  ∀ (p : PaymentId) (b : Payment), t.pre.store.payments[p]? = none →
    t.post.store.payments[p]? = some b → b.status = .processing

def Op.isInitiate (op : Op) : Bool := op matches .initiate _ _ _

/-- The payment is in progress and was created by this call. -/
def Db.HeldBy (db : Db) (p : PaymentId) (call : ℕ) : Prop :=
  ∃ a : Payment, db.payments[p]? = some a ∧ a.status = .processing ∧ a.createdBy = call

/-- What a call knows at its current point. -/
def Call.Knows (db : Db) (me : ℕ) (k : Call) : Prop :=
  match k.pc, k.op with
  | .locked _, .initiate _ orderId _ => db.orderLock orderId = some me
  | .vacant _, .initiate _ orderId _ =>
      db.orderLock orderId = some me ∧ hasActivePayment db orderId = false
  | .created p _, op | .settling p _ _, op => op.isInitiate = true ∧ db.HeldBy p me
  | .resolving _, .resolve p _ refund _ =>
      ∃ a, db.payments[p]? = some a ∧
        (refund = true → a.resolvedAt = none → a.status = .succeeded)
  | _, _ => True

/-- What holds of the table at every moment. -/
structure Db.Consistent (db : Db) : Prop where
  one : OnePaymentEach db
  /-- A payment in progress cannot be found by a webhook. -/
  unreferenced : ∀ (p : PaymentId) (a : Payment), db.payments[p]? = some a →
    a.status = .processing → a.providerRef = none
  /-- No write leaves a payment PENDING. -/
  begun : ∀ (p : PaymentId) (a : Payment), db.payments[p]? = some a → a.status ≠ .pending

theorem hasActivePayment_eq_false {db : Db} {orderId : OrderId} :
    hasActivePayment db orderId = false ↔
      ∀ (p : PaymentId) (a : Payment), db.payments[p]? = some a → a.orderId = orderId →
        ¬ a.Active := by
  simp only [hasActivePayment, List.any_eq_false, decide_eq_true_eq, not_and, Payment.Active]
  constructor
  · intro h p a ha hid
    exact h a (List.mem_of_getElem? ha) hid
  · intro h a ha
    obtain ⟨p, hp⟩ := List.mem_iff_getElem?.mp ha
    exact h p a hp

section Statements

variable {env : Env} {me : ℕ} {x : Input} {k : Call} {db : Db} {o : Outcome Db Call}

/-- A row that a statement leaves active is new, or was active before. -/
theorem RowEffect.active {p : PaymentId} {b : Payment} (h : RowEffect env me x db k p b)
    (hk : k.Knows db me) (hb : b.Active) :
    (∃ a, db.payments[p]? = some a ∧ a.orderId = b.orderId ∧ a.Active) ∨
      (p = db.payments.length ∧ hasActivePayment db b.orderId = false) := by
  cases h with
  | same ha => exact Or.inl ⟨b, ha, rfl, hb⟩
  | created => exact Or.inr ⟨rfl, hk.2⟩
  | @settled op p payment result a ha =>
      obtain ⟨-, a', ha', hst, -⟩ := hk
      obtain rfl := Option.some.inj (ha.symm.trans ha')
      refine Or.inl ⟨a, ha, (settleData_frame result x.now a).1.symm, ?_⟩
      simp [Payment.Active, hst, activePaymentStatuses]
  | @resolved p adminId refund note payment a ha hnull =>
      refine Or.inl ⟨a, ha, rfl, ?_⟩
      cases refund with
      | false => exact hb
      | true => simp [Payment.Active, resolveData, activePaymentStatuses] at hb

/-- A statement keeps the table consistent. -/
theorem Stmt.consistent (h : Stmt env me x db k o) (hdb : db.Consistent) (hk : k.Knows db me) :
    o.store.Consistent := by
  refine ⟨fun p q a b ha hb hid hactive hactive' => ?_, fun p b hb hst => ?_, fun p b hb => ?_⟩
  · have hp := h.paymentEffect.rowEffect ha
    have hq := h.paymentEffect.rowEffect hb
    rcases hp.active hk hactive with ⟨a', ha', hida, hactivea⟩ | ⟨hnew, hnone⟩
    · rcases hq.active hk hactive' with ⟨b', hb', hidb, hactiveb⟩ | ⟨hnew', hnone'⟩
      · exact hdb.one p q a' b' ha' hb' (hida.trans (hid.trans hidb.symm)) hactivea hactiveb
      · exact absurd hactivea
          (hasActivePayment_eq_false.mp hnone' p a' ha' (hida.trans hid))
    · rcases hq.active hk hactive' with ⟨b', hb', hidb, hactiveb⟩ | ⟨hnew', -⟩
      · exact absurd hactiveb
          (hasActivePayment_eq_false.mp hnone q b' hb' (hidb.trans hid.symm))
      · rw [hnew, hnew']
  · cases h.paymentEffect.rowEffect hb with
    | same ha => exact hdb.unreferenced p b ha hst
    | created => rfl
    | @settled op p payment result a ha =>
        rcases settleData_status result x.now a with hs | hs <;> simp [hs] at hst
    | @resolved p adminId refund note payment a ha hnull =>
        refine hdb.unreferenced p a ha ?_
        cases refund with
        | false => exact hst
        | true => simp [resolveData] at hst
  · cases h.paymentEffect.rowEffect hb with
    | same ha => exact hdb.begun p b ha
    | created => simp [paymentOf]
    | @settled op p payment result a ha =>
        rcases settleData_status result x.now a with hs | hs <;> simp [hs]
    | @resolved p adminId refund note payment a ha hnull =>
        cases refund with
        | false => exact hdb.begun p a ha
        | true => simp [resolveData]

/-- A statement establishes what its own call knows next. -/
theorem Stmt.knows (h : Stmt env me x db k o) (hdb : db.Consistent) (hk : k.Knows db me) :
    o.call.Knows o.store me := by
  cases h with
  | reads hr =>
      cases hr with
      | vacant hnone => exact ⟨hk, hnone⟩
      | charged => exact hk
      | webhook hrow href hst =>
          -- A payment in progress has no reference, so no webhook finds it.
          have := hdb.unreferenced _ _ hrow hst
          simp [href] at this
      | resolving hrow hnull hst => exact ⟨_, hrow, fun hrefund _ => hst hrefund⟩
      | _ => trivial
  | lock hfree =>
      show (db.lockOrder _ me).orderLock _ = some me
      simp
  | create =>
      refine ⟨rfl, ?_⟩
      show Db.HeldBy _ db.payments.length me
      exact ⟨_, List.getElem?_concat_length, rfl, rfl⟩
  | credit hpc => rcases hpc with rfl | rfl <;> trivial
  | _ => trivial

/-- The payment that another call is to settle stays PROCESSING. -/
theorem Stmt.heldBy_other (h : Stmt env me x db k o) (hk : k.Knows db me) {other : ℕ}
    (hne : other ≠ me) {p : PaymentId} (hheld : db.HeldBy p other) : o.store.HeldBy p other := by
  obtain ⟨a, ha, hst, hby⟩ := hheld
  obtain ⟨b, hb, -, -, hby'⟩ := h.paymentEffect.row ha
  refine ⟨b, hb, ?_, hby'.trans hby⟩
  cases h.paymentEffect.rowEffect hb with
  | same ha' =>
      obtain rfl := Option.some.inj (ha.symm.trans ha')
      exact hst
  | created => rfl
  | settled ha' =>
      obtain ⟨-, a', hrow, -, hme⟩ := hk
      obtain rfl := Option.some.inj (ha.symm.trans hrow)
      exact absurd (hby.symm.trans hme) hne
  | @resolved p adminId refund note payment a' ha' hnull =>
      obtain rfl := Option.some.inj (ha.symm.trans ha')
      cases refund with
      | false => exact hst
      | true =>
          obtain ⟨a', hrow, hsucceeded⟩ := hk
          obtain rfl := Option.some.inj (ha.symm.trans hrow)
          simp [hsucceeded rfl hnull] at hst

/-- A statement does not disturb what another call knows. -/
theorem Stmt.knows_other (h : Stmt env me x db k o) (hk : k.Knows db me) {k' : Call} {other : ℕ}
    (hne : other ≠ me) (hk' : k'.Knows db other) : k'.Knows o.store other := by
  obtain ⟨op, pc⟩ := k'
  cases pc with
  | locked order =>
      cases op with
      | initiate customerId orderId method => exact h.orderLock hne hk'
      | _ => trivial
  | vacant order =>
      cases op with
      | initiate customerId orderId method =>
          obtain ⟨hlock, hnone⟩ := hk'
          refine ⟨h.orderLock hne hlock, hasActivePayment_eq_false.mpr fun p b hb hid hactive => ?_⟩
          have hrow := h.paymentEffect.rowEffect hb
          rcases hrow.active hk hactive with ⟨a, ha, hida, hactivea⟩ | ⟨hnew, -⟩
          · exact hasActivePayment_eq_false.mp hnone p a ha (hida.trans hid) hactivea
          · -- Only the holder of the lock inserts a payment of the order.
            cases hrow with
            | same ha =>
                exact hasActivePayment_eq_false.mp hnone p b ha hid hactive
            | created =>
                obtain ⟨hmine, -⟩ := hk
                obtain rfl := hid
                exact hne (Option.some.inj (hlock.symm.trans hmine))
            | settled ha | resolved ha =>
                exact absurd hnew (Nat.ne_of_lt (List.getElem?_eq_some_iff.mp ha).1)
      | _ => trivial
  | created p payment | settling p payment result => exact ⟨hk'.1, h.heldBy_other hk hne hk'.2⟩
  | resolving payment =>
      cases op with
      | resolve p adminId refund note =>
          obtain ⟨a, ha, hsucceeded⟩ := hk'
          obtain ⟨b, hb, -⟩ := h.paymentEffect.row ha
          refine ⟨b, hb, fun hrefund hnull => ?_⟩
          cases h.paymentEffect.rowEffect hb with
          | same ha' =>
              obtain rfl := Option.some.inj (ha.symm.trans ha')
              exact hsucceeded hrefund hnull
          | created => simp at ha
          | @settled op p payment result a' ha' =>
              obtain rfl := Option.some.inj (ha.symm.trans ha')
              obtain ⟨-, a', hrow, hst, -⟩ := hk
              obtain rfl := Option.some.inj (ha.symm.trans hrow)
              have := hsucceeded hrefund ((settleData_frame result x.now a).2.2.symm.trans hnull)
              simp [hst] at this
          | resolved => simp [resolveData] at hnull
      | _ => trivial
  | _ => trivial

/-- A statement moves a status as `paymentMoves` says. -/
theorem Stmt.statusMoves (h : Stmt env me x db k o) (hk : k.Knows db me) {p : PaymentId}
    {a : Payment} (ha : db.payments[p]? = some a) :
    ∃ b : Payment, o.store.payments[p]? = some b ∧
      (b.status = a.status ∨ (a.status, b.status) ∈ paymentMoves) := by
  obtain ⟨b, hb, -⟩ := h.paymentEffect.row ha
  refine ⟨b, hb, ?_⟩
  cases h.paymentEffect.rowEffect hb with
  | same ha' =>
      obtain rfl := Option.some.inj (ha.symm.trans ha')
      exact Or.inl rfl
  | created => simp at ha
  | @settled op p payment result a' ha' =>
      obtain rfl := Option.some.inj (ha.symm.trans ha')
      obtain ⟨-, a', hrow, hst, -⟩ := hk
      obtain rfl := Option.some.inj (ha.symm.trans hrow)
      rcases settleData_status result x.now a with hs | hs <;> simp [hs, hst, paymentMoves]
  | @resolved p adminId refund note payment a' ha' hnull =>
      obtain rfl := Option.some.inj (ha.symm.trans ha')
      obtain ⟨a', hrow, hsucceeded⟩ := hk
      obtain rfl := Option.some.inj (ha.symm.trans hrow)
      cases refund with
      | false => exact Or.inl rfl
      | true => simp [hsucceeded rfl hnull, resolveData, paymentMoves]

/-- A statement adds a payment only as PROCESSING. -/
theorem Stmt.created_status (h : Stmt env me x db k o) {p : PaymentId} {b : Payment}
    (hnew : db.payments[p]? = none) (hb : o.store.payments[p]? = some b) :
    b.status = .processing := by
  cases h.paymentEffect.rowEffect hb with
  | same ha | settled ha | resolved ha => simp [hnew] at ha
  | created => rfl

end Statements

/-- Who may settle a payment, and that the table stays consistent. -/
def settlers (env : Env) : Outline (payments env) fun t => t.Satisfies fun _ _ _ _ => True :=
  .ofSteps (payments env) _ Db.Consistent (fun db me k => k.Knows db me)
    (by
      intro db me k hentry _
      obtain ⟨op, pc⟩ := k
      cases pc <;> trivial)
    (by
      intro me x k db o _ hstep hdb hk
      obtain ⟨-, h, -⟩ := step_cases hstep
      exact ⟨h.consistent hdb hk, h.knows hdb hk, h.spawned_eq_nil⟩)
    (by
      intro me x k db o other k' _ hstep hne _ hk hk'
      obtain ⟨-, h, -⟩ := step_cases hstep
      exact h.knows_other hk (Ne.symm hne) hk')

section Run

variable {env : Env} {db : Db} {c' : Config Db Call} {ts : List (Transition Db Call Input)}

/-- The assertions hold in every run that starts with no payments and no calls. -/
theorem settlers_of_run (hrun : (payments env).Run ⟨db, []⟩ ts c') (hpayments : db.payments = []) :
    (settlers env).Holds c' ∧
      ∀ t ∈ ts, (settlers env).Holds t.pre ∧ (settlers env).Holds t.post := by
  refine (settlers env).holds_run hrun (fun t _ i x k _ _ => trivial) ⟨⟨?_, ?_, ?_⟩, ?_⟩
  · intro p q a b ha
    simp [hpayments] at ha
  · intro p a ha
    simp [hpayments] at ha
  · intro p a ha
    simp [hpayments] at ha
  · intro i k hk
    simp at hk

/-- **No double charge.** -/
theorem noDoubleCharge_of_run (hrun : (payments env).Run ⟨db, []⟩ ts c')
    (hpayments : db.payments = []) :
    OnePaymentEach c'.store ∧
      ∀ t ∈ ts, OnePaymentEach t.pre.store ∧ OnePaymentEach t.post.store ∧ StatusMoves t := by
  obtain ⟨hend, hall⟩ := settlers_of_run hrun hpayments
  refine ⟨hend.1.one, fun t ht => ?_⟩
  obtain ⟨⟨hdb, hcalls⟩, hpost⟩ := hall t ht
  refine ⟨hdb.one, hpost.1.one, ?_⟩
  rcases stmt_of_fires (hrun.fires t ht) with ⟨k, -, -, hstay⟩ | ⟨i, x, k, o, -, hk, -, h, -, hstep⟩
  · rw [StatusMoves, hstay]
    refine ⟨fun p a ha => ⟨a, ha, Or.inl rfl⟩, fun p b hnew hb => ?_⟩
    simp [hnew] at hb
  · rw [StatusMoves, hstep]
    exact ⟨fun p a ha => h.statusMoves (hcalls i k hk) ha, fun p b hnew hb =>
      h.created_status hnew hb⟩

end Run

/-- The customer pays twice at once; the first charge fails, then a second attempt
succeeds, a webhook for it is delivered, and an admin refunds it. -/
def payTwice : List (Event Call Input) :=
  [.start ⟨.initiate 0 0 .click, .start⟩, .start ⟨.initiate 0 0 .click, .start⟩, .run 0 {},
    .run 1 {}, .run 0 {}, .run 0 {}, .run 0 {}, .run 1 {}, .run 1 {},
    .run 0 { charge := { success := false, providerRef := "a" } }, .run 0 {}, .run 0 {},
    .start ⟨.initiate 0 0 .click, .start⟩, .run 2 {}, .run 2 {}, .run 2 {}, .run 2 {},
    .run 2 { charge := { success := true, providerRef := "b" } }, .run 2 {},
    .start ⟨.handleWebhook "b" true none, .start⟩, .run 3 {},
    .start ⟨.resolve 0 9 true "", .start⟩, .start ⟨.resolve 1 9 true "", .start⟩,
    .run 4 {}, .run 5 {}, .run 5 {}]

theorem noDoubleCharge_payTwice :
    OnePaymentEach ((payments {}).after ⟨oneCompleted, []⟩ payTwice).store ∧
      ∀ t ∈ (payments {}).trace ⟨oneCompleted, []⟩ payTwice,
        OnePaymentEach t.pre.store ∧ OnePaymentEach t.post.store ∧ StatusMoves t :=
  noDoubleCharge_of_run ((payments {}).run_trace _ _) rfl

end Handly.Payments
