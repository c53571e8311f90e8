import Mathlib.Data.List.Nodup
import Handly.Payments.DoubleCharge

/-!
# What the rail takes

The provider takes money when `charge` answers with success. What becomes of it is up to the call
that has asked: it settles the payment, tells the tax provider and tells the customer, one
statement after the other, and it can stop in between.

`charges_entered` balances the books: of each kind, the entries about a payment, those that calls
in flight still owe and those that calls which threw have lost are as many as the successful
charges. `charges_refunded` says that the rail takes no money twice for an order, unless one of
the payments has been refunded.
-/

namespace Handly.Payments

open Interleaving

/-! ### Charges -/

/-- The payment for which the rail takes money in the next statement of a call. -/
def Call.charge (x : Input) (k : Call) : Option (PaymentId × Payment) :=
  match k.pc with
  | .created paymentId payment =>
      if x.fail = false ∧ x.charge.success = true then some (paymentId, payment) else none
  | _ => none

/-- The payment for which the rail takes money in a transition. -/
def charge (t : Transition Db Call Input) : Option (PaymentId × Payment) :=
  match t.event with
  | .start _ => none
  | .run _ x => t.caller.bind (Call.charge x)

/-- The rail takes money for this payment. -/
def charges (p : PaymentId) (t : Transition Db Call Input) : Bool :=
  (charge t).any fun c => decide (c.1 = p)

theorem charge_eq {t : Transition Db Call Input} {i : ℕ} {x : Input} {k : Call}
    (he : t.event = .run i x) (hk : t.pre.calls[i]? = some k) : charge t = k.charge x := by
  rw [charge, he, Transition.caller_eq he hk]
  rfl

/-! ### Entries -/

/-- What `settle` enters about a successful charge: the status of the payment, the withholding at
the tax provider and the notification of the customer. -/
inductive Entry
  | status | withholding | notification
  deriving DecidableEq

def Call.hasThrown (k : Call) : Bool := k.pc matches .threw _

namespace Entry

/-- How often it has been entered for the payment. -/
def made (entry : Entry) (p : PaymentId) (db : Db) : ℕ :=
  match entry with
  | status => if db.payments[p]?.any fun a => a.status ∈ [.succeeded, .refunded] then 1 else 0
  | withholding => db.withheld p
  | notification =>
      db.notifications.countP fun n => n.type = .paymentSucceeded ∧ n.paymentId = some p

/-- How often a call is still to enter it. -/
def owed (entry : Entry) (p : PaymentId) (k : Call) : ℕ :=
  match k.pc with
  | .settling q _ result => if q = p ∧ result.success = true then 1 else 0
  | .succeeded q _ | .recording q _ _ => if q = p ∧ entry ≠ status then 1 else 0
  | .notifySucceeded q _ => if q = p ∧ entry = notification then 1 else 0
  | _ => 0

/-- What a call does not enter any more, as it throws in this transition. -/
def lost (entry : Entry) (p : PaymentId) (t : Transition Db Call Input) : ℕ :=
  if t.callerAfter.any Call.hasThrown then (t.caller.map (entry.owed p)).getD 0 else 0

end Entry

section Statements

variable {env : Env} {me : ℕ} {x : Input} {k : Call} {db db' : Db} {o : Outcome Db Call}
  {p : PaymentId} {entry : Entry}

theorem made_eq (hpayments : db'.payments = db.payments)
    (hwithholdings : db'.withholdings = db.withholdings)
    (hnotifications : db'.notifications = db.notifications) :
    entry.made p db' = entry.made p db := by
  cases entry with
  | status => rw [Entry.made, hpayments, Entry.made]
  | withholding => rw [Entry.made, Db.withheld, hwithholdings, Entry.made, Db.withheld]
  | notification => rw [Entry.made, hnotifications, Entry.made]

theorem made_unlock : entry.made p (db.unlock me) = entry.made p db := made_eq rfl rfl rfl

/-- A new payment is not settled. -/
theorem made_createPayment {row : Payment} (hst : row.status = .processing) :
    entry.made p (db.createPayment row) = entry.made p db := by
  cases entry with
  | status =>
      have hfilter : (db.payments ++ [row])[p]?.filter
            (fun a => decide (a.status ∈ [PaymentStatus.succeeded, .refunded])) =
          db.payments[p]?.filter
            fun a => decide (a.status ∈ [PaymentStatus.succeeded, .refunded]) :=
        Table.filter_append (by simp [hst]) p
      rw [Entry.made, Entry.made, Db.createPayment_payments]
      simp only [← Option.isSome_filter, hfilter]
  | withholding | notification => rfl

/-- An update of a payment enters its status, if it does. -/
theorem made_updatePayment {q : PaymentId} {f : Payment → Payment} {row : Payment}
    (hrow : db.payments[q]? = some row) :
    entry.made p (db.updatePayment q f) =
      if q = p ∧ entry = .status then
        if (f row).status ∈ [PaymentStatus.succeeded, .refunded] then 1 else 0
      else entry.made p db := by
  cases entry with
  | status =>
      by_cases hq : q = p
      · subst hq
        simp [Entry.made, hrow]
      · simp [Entry.made, hq]
  | withholding | notification => simp [Entry.made, Db.withheld]

theorem made_createNotification {n : Notification} :
    entry.made p (db.createNotification n) = entry.made p db +
      if entry = .notification ∧ n.type = .paymentSucceeded ∧ n.paymentId = some p then 1
      else 0 := by
  cases entry with
  | notification => simp [Entry.made, List.countP_append, List.countP_singleton]
  | status | withholding => rfl

theorem made_recordWithholding {w : RecordedWithholding} :
    entry.made p (db.recordWithholding w) =
      entry.made p db + if entry = .withholding ∧ w.paymentId = p then 1 else 0 := by
  cases entry with
  | withholding => simp [Entry.made, recordWithholding_withheld]
  | status | notification => rfl

/-- The books of one statement: what is entered, owed and lost after it has been charged. -/
def Entry.Balances (entry : Entry) (p : PaymentId) (x : Input) (db : Db) (k : Call)
    (o : Outcome Db Call) : Prop :=
  entry.made p o.store + entry.owed p o.call + (if o.call.hasThrown then entry.owed p k else 0) =
    entry.made p db + entry.owed p k + if (k.charge x).any fun c => c.1 = p then 1 else 0

theorem Reads.balances {op : Op} {pc pc' : Pc} (h : Reads x db op pc pc') (hx : x.fail = false)
    (hdb : db.Consistent) : entry.Balances p x db ⟨op, pc⟩ ⟨db, ⟨op, pc'⟩, []⟩ := by
  cases h with
  | @charged op q payment =>
      by_cases hs : x.charge.success = true
      · simp [Entry.Balances, Entry.owed, Call.hasThrown, Call.charge, hx, hs]
      · simp [Entry.Balances, Entry.owed, Call.hasThrown, Call.charge, hs]
  | webhook hrow href hst =>
      -- A payment in progress has no reference, so no webhook finds it.
      have := hdb.unreferenced _ _ hrow hst
      simp [href] at this
  | rewardReads henter =>
      cases henter <;> simp [Entry.Balances, Entry.owed, Call.hasThrown, Call.charge]
  | _ => simp [Entry.Balances, Entry.owed, Call.hasThrown, Call.charge]

theorem charge_eq_none (hx : x.fail = true) : k.charge x = none := by
  unfold Call.charge
  split <;> simp [hx]

/-- The books of one statement. -/
theorem Stmt.balances (h : Stmt env me x db k o)
    (hfails : x.fail = true → o = k.goto (db.unlock me) (.threw .infrastructure))
    (hdb : db.Consistent) (hk : k.Knows db me) : entry.Balances p x db k o := by
  by_cases hx : x.fail = true
  · rw [hfails hx, Entry.Balances, charge_eq_none hx]
    show entry.made p (db.unlock me) + 0 + entry.owed p k = _ + _ + 0
    rw [made_unlock]
    omega
  have hx : x.fail = false := by simpa using hx
  cases h with
  | fails hfail => simp [hx] at hfail
  | reads hr => exact hr.balances hx hdb
  | lock => exact congrArg (· + 0 + 0) (made_eq rfl rfl rfl)
  | duplicate => exact congrArg (· + 0 + 0) made_unlock
  | create => exact congrArg (· + 0 + 0) (made_unlock.trans (made_createPayment rfl))
  | @settleSuccess op q payment result row hrow htaken hs =>
      obtain ⟨-, a, ha, hst, -⟩ := hk
      obtain rfl := Option.some.inj (ha.symm.trans hrow)
      have hnone : q = p → Entry.status.made p db = 0 := by
        intro hq
        subst hq
        simp [Entry.made, ha, hst]
      simp only [Entry.Balances, made_updatePayment ha, settleData, hs, if_true]
      by_cases hq : q = p
      · cases entry with
        | status => simp [Entry.owed, Call.hasThrown, Call.charge, hq, hnone hq, hs]
        | withholding | notification => simp [Entry.owed, Call.hasThrown, Call.charge, hq, hs]
      · simp [Entry.owed, Call.hasThrown, Call.charge, hq]
  | @settleFailure op q payment result row hrow htaken hs =>
      obtain ⟨-, a, ha, hst, -⟩ := hk
      obtain rfl := Option.some.inj (ha.symm.trans hrow)
      have hnone : q = p → Entry.status.made p db = 0 := by
        intro hq
        subst hq
        simp [Entry.made, ha, hst]
      simp only [Entry.Balances, made_updatePayment ha, settleData, hs]
      by_cases hq : q = p
      · cases entry with
        | status => simp [Entry.owed, Call.hasThrown, Call.charge, hq, hnone hq, hs]
        | withholding | notification => simp [Entry.owed, Call.hasThrown, Call.charge, hs]
      · simp [Entry.owed, Call.hasThrown, Call.charge, hq]
  | @recordWithholding op q payment order =>
      simp only [Entry.Balances, made_recordWithholding, withholdingOf]
      cases entry <;> simp [Entry.owed, Call.hasThrown, Call.charge]
  | @notifySucceeded op q payment =>
      simp only [Entry.Balances, made_createNotification, succeededNotice]
      cases entry <;> simp [Entry.owed, Call.hasThrown, Call.charge]
  | notifyFailed =>
      simp [Entry.Balances, made_createNotification, failedNotice, Entry.owed, Call.hasThrown,
        Call.charge]
  | rewardNone henter =>
      cases henter <;> exact congrArg (· + 0 + 0) (made_eq rfl rfl rfl)
  | claimReferral | rewardLost => exact congrArg (· + 0 + 0) (made_eq rfl rfl rfl)
  | credit hpc =>
      rcases hpc with rfl | rfl <;> exact congrArg (· + 0 + 0) (made_eq rfl rfl rfl)
  | notifyReferrer =>
      simp [Entry.Balances, made_createNotification, rewardNotice, Entry.owed, Call.hasThrown,
        Call.charge]
  | @resolve q adminId refund note payment row hrow hnull =>
      obtain ⟨a, ha, hsucceeded⟩ := hk
      obtain rfl := Option.some.inj (ha.symm.trans hrow)
      have hsame : entry.made p (db.updatePayment q (resolveData adminId refund note x.now)) =
          entry.made p db := by
        rw [made_updatePayment ha]
        split
        · rename_i hq
          obtain ⟨rfl, rfl⟩ := hq
          cases refund with
          | false => simp [Entry.made, ha, resolveData]
          | true => simp [Entry.made, ha, resolveData, hsucceeded rfl hnull]
        · rfl
      exact congrArg (· + 0 + 0) hsame
  | notifyResolved =>
      simp [Entry.Balances, made_createNotification, resolvedNotice, Entry.owed, Call.hasThrown,
        Call.charge]

end Statements

/-! ### The right to charge -/

/-- The payment is not there yet, or its charge has failed. -/
def Db.unpaid (db : Db) (p : PaymentId) : ℕ :=
  match db.payments[p]? with
  | none => 1
  | some a => if a.status ∈ [.failed, .cancelled] then 1 else 0

/-- The call is still to charge the payment, or to enter that the charge has failed. -/
def Call.unpaid (p : PaymentId) (k : Call) : ℕ :=
  match k.pc with
  | .created q _ => if q = p then 1 else 0
  | .settling q _ result => if q = p ∧ result.success = false then 1 else 0
  | _ => 0

/-- What a payment is about. -/
def Payment.bill (a : Payment) : OrderId × UserId × PaymentMethod × ℤ :=
  (a.orderId, a.customerId, a.method, a.amount)

/-- What the rail is asked for is what the row says. -/
def Call.Bills (db : Db) (k : Call) : Prop :=
  match k.pc with
  | .created p payment => db.payments[p]?.map Payment.bill = some payment.bill
  | _ => True

def Db.Refunded (db : Db) (p : PaymentId) : Prop :=
  ∃ a : Payment, db.payments[p]? = some a ∧ a.status = .refunded

section Statements

variable {env : Env} {me : ℕ} {x : Input} {k : Call} {db : Db} {o : Outcome Db Call}
  {p : PaymentId}

theorem createPayment_unpaid {row : Payment} (hst : row.status = .processing) :
    (db.createPayment row).unpaid p + (if db.payments.length = p then 1 else 0) =
      db.unpaid p := by
  unfold Db.unpaid
  rw [Db.createPayment_payments]
  rcases Nat.lt_trichotomy p db.payments.length with hlt | heq | hgt
  · rw [List.getElem?_append_left hlt, if_neg hlt.ne', Nat.add_zero]
  · subst heq
    simp [hst]
  · rw [List.getElem?_eq_none (by simp; omega), List.getElem?_eq_none hgt.le, if_neg hgt.ne]

theorem updatePayment_unpaid {q : PaymentId} {f : Payment → Payment} {row : Payment}
    (hrow : db.payments[q]? = some row) :
    (db.updatePayment q f).unpaid p =
      if q = p then if (f row).status ∈ [PaymentStatus.failed, .cancelled] then 1 else 0
      else db.unpaid p := by
  unfold Db.unpaid
  by_cases hq : q = p
  · subst hq
    simp [hrow]
  · simp [hq]

/-- A charge uses up the right to it, and no statement gives the right back. -/
theorem Stmt.unpaid_le (h : Stmt env me x db k o)
    (hfails : x.fail = true → o = k.goto (db.unlock me) (.threw .infrastructure))
    (hdb : db.Consistent) :
    (if (k.charge x).any fun c => c.1 = p then 1 else 0) + (o.store.unpaid p + o.call.unpaid p) ≤
      db.unpaid p + k.unpaid p := by
  by_cases hx : x.fail = true
  · rw [hfails hx, charge_eq_none hx]
    show 0 + (db.unpaid p + 0) ≤ _
    omega
  -- A statement that charges nothing, and after which its call is not to charge.
  have hidle : ∀ {op : Op} {pc : Pc}, Call.charge x ⟨op, pc⟩ = none →
      o.store.unpaid p ≤ db.unpaid p → o.call.unpaid p = 0 → k = ⟨op, pc⟩ →
      (if (k.charge x).any fun c => c.1 = p then 1 else 0) +
        (o.store.unpaid p + o.call.unpaid p) ≤ db.unpaid p + k.unpaid p := by
    intro op pc hcharge hstore hcall hk
    rw [hk, hcharge, hcall]
    show 0 + (o.store.unpaid p + 0) ≤ _
    omega
  cases h with
  | fails hfail => exact absurd hfail hx
  | reads hr =>
      cases hr with
      | charged =>
          by_cases hs : x.charge.success = true
          · simp [Call.charge, Call.unpaid, hx, hs, Nat.add_comm]
          · simp [Call.charge, Call.unpaid, hs]
      | webhook hrow href hst =>
          have := hdb.unreferenced _ _ hrow hst
          simp [href] at this
      | rewardReads henter => cases henter <;> exact hidle rfl (Nat.le_refl _) rfl rfl
      | _ => exact hidle rfl (Nat.le_refl _) rfl rfl
  | @create customerId orderId method order =>
      have hnew := @createPayment_unpaid db p
        (paymentOf env me customerId orderId method order) rfl
      show 0 + ((db.createPayment _).unpaid p + if db.payments.length = p then 1 else 0) ≤ _
      rw [hnew]
      omega
  | @settleSuccess op q payment result row hrow htaken hs =>
      refine hidle rfl ?_ rfl rfl
      show (db.updatePayment q (settleData result x.now)).unpaid p ≤ db.unpaid p
      rw [updatePayment_unpaid hrow]
      split
      · simp [settleData, hs]
      · exact Nat.le_refl _
  | @settleFailure op q payment result row hrow htaken hs =>
      show 0 + ((db.updatePayment q (settleData result x.now)).unpaid p + 0) ≤
        db.unpaid p + if q = p ∧ result.success = false then 1 else 0
      rw [updatePayment_unpaid hrow]
      by_cases hq : q = p
      · simp [settleData, hs, hq]
      · simp [hq]
  | @resolve q adminId refund note payment row hrow hnull =>
      refine hidle rfl ?_ rfl rfl
      show (db.updatePayment q (resolveData adminId refund note x.now)).unpaid p ≤ db.unpaid p
      rw [updatePayment_unpaid hrow]
      split
      · rename_i hq
        subst hq
        cases refund with
        | false => simp [resolveData, Db.unpaid, hrow]
        | true => simp [resolveData]
      · exact Nat.le_refl _
  | rewardNone henter => cases henter <;> exact hidle rfl (Nat.le_refl _) rfl rfl
  | credit hpc => rcases hpc with rfl | rfl <;> exact hidle rfl (Nat.le_refl _) rfl rfl
  | _ => exact hidle rfl (Nat.le_refl _) rfl rfl

/-- No statement changes what a payment is about. -/
theorem Stmt.bill (h : Stmt env me x db k o) {bill : OrderId × UserId × PaymentMethod × ℤ}
    (hbill : db.payments[p]?.map Payment.bill = some bill) :
    o.store.payments[p]?.map Payment.bill = some bill := by
  obtain ⟨a, ha, rfl⟩ := Option.map_eq_some_iff.mp hbill
  obtain ⟨b, hb, -⟩ := h.paymentEffect.row ha
  rw [hb]
  cases h.paymentEffect.rowEffect hb with
  | same ha' =>
      obtain rfl := Option.some.inj (ha.symm.trans ha')
      rfl
  | created => simp at ha
  | @settled op p payment result a' ha' =>
      obtain rfl := Option.some.inj (ha.symm.trans ha')
      unfold settleData
      split <;> rfl
  | resolved ha' =>
      obtain rfl := Option.some.inj (ha.symm.trans ha')
      rfl

theorem Stmt.bills (h : Stmt env me x db k o) : o.call.Bills o.store := by
  cases h with
  | reads hr => cases hr <;> trivial
  | create =>
      show (db.payments ++ [_])[db.payments.length]?.map Payment.bill = _
      rw [List.getElem?_concat_length]
      rfl
  | credit hpc => rcases hpc with rfl | rfl <;> trivial
  | _ => trivial

theorem Stmt.bills_other (h : Stmt env me x db k o) {k' : Call} (hk' : k'.Bills db) :
    k'.Bills o.store := by
  obtain ⟨op, pc⟩ := k'
  cases pc with
  | created => exact h.bill hk'
  | _ => trivial

end Statements

/-! ### Whole runs -/

/-- What the rail is asked for. -/
def billing (env : Env) : Outline (payments env) fun t => t.Satisfies fun _ _ _ _ => True :=
  .ofSteps (payments env) _ (fun _ => True) (fun db _ k => k.Bills db)
    (by
      intro db me k hentry _
      obtain ⟨op, pc⟩ := k
      cases pc <;> trivial)
    (by
      intro me x k db o _ hstep _ _
      obtain ⟨-, h, -⟩ := step_cases hstep
      exact ⟨trivial, h.bills, h.spawned_eq_nil⟩)
    (by
      intro me x k db o other k' _ hstep _ _ _ hk'
      obtain ⟨-, h, -⟩ := step_cases hstep
      exact h.bills_other hk')

section Run

variable {env : Env} {db : Db} {c' : Config Db Call} {ts : List (Transition Db Call Input)}
  {p : PaymentId} {entry : Entry}

/-- The books of one transition. -/
theorem balances_of_fires {t : Transition Db Call Input} (ht : (payments env).Fires t)
    (hpre : (settlers env).Holds t.pre) :
    potential (entry.made p) (entry.owed p) t.post + entry.lost p t =
      potential (entry.made p) (entry.owed p) t.pre + if charges p t then 1 else 0 := by
  obtain ⟨hdb, hcalls⟩ := hpre
  rcases stmt_of_fires ht with ⟨k, he, hpc, hpost⟩ | ⟨i, x, k, o, he, hk, -, h, hfails, hpost⟩
  · have howed : entry.owed p k = 0 := by rw [Entry.owed, hpc]
    have hlost : entry.lost p t = 0 := by simp [Entry.lost, Transition.callerAfter, he]
    have hcharge : charges p t = false := by simp [charges, charge, he]
    rw [hlost, hcharge, hpost]
    simp [potential, howed]
  · have hbalances : entry.Balances p x t.pre.store k o := h.balances hfails hdb (hcalls i k hk)
    have hset := sum_map_set (g := entry.owed p) hk o.call
    have hlost : entry.lost p t = if o.call.hasThrown then entry.owed p k else 0 := by
      rw [Entry.lost, Transition.callerAfter_eq he hk hpost, Transition.caller_eq he hk]
      rfl
    rw [Entry.Balances] at hbalances
    rw [hlost, charges, charge_eq he hk, hpost]
    simp only [potential]
    omega

/-- **The rail and the books agree.** In every run, however the calls interleave and wherever they
throw, the entries of each kind about a payment, with those that calls in flight still owe and
those that calls which threw have lost, are as many as the successful charges for it. -/
theorem charges_entered (hrun : (payments env).Run ⟨db, []⟩ ts c') (hpayments : db.payments = [])
    (entry : Entry) (p : PaymentId) :
    entry.made p c'.store + (c'.calls.map (entry.owed p)).sum + (ts.map (entry.lost p)).sum =
      entry.made p db + ts.countP (charges p) := by
  obtain ⟨-, hall⟩ := settlers_of_run hrun hpayments
  have hflow := hrun.add_sum_eq_add_countP (potential (entry.made p) (entry.owed p))
    (entry.lost p) (charges p) fun t ht hfire => balances_of_fires hfire (hall t ht).1
  simpa [potential] using hflow

/-- A payment is charged at most once, and not when it is failed. -/
theorem countP_charges_le (hrun : (payments env).Run ⟨db, []⟩ ts c')
    (hpayments : db.payments = []) (p : PaymentId) :
    ts.countP (charges p) + c'.store.unpaid p ≤ 1 := by
  obtain ⟨-, hall⟩ := settlers_of_run hrun hpayments
  have hcount := hrun.countP_add_le (potential (fun d => d.unpaid p) (Call.unpaid p)) (charges p)
    (by
      intro t ht hfire
      obtain ⟨hdb, hcalls⟩ := (hall t ht).1
      rcases stmt_of_fires hfire with
        ⟨k, he, hpc, hpost⟩ | ⟨i, x, k, o, he, hk, -, h, hfails, hpost⟩
      · have hcharge : charges p t = false := by simp [charges, charge, he]
        have hcall : k.unpaid p = 0 := by rw [Call.unpaid, hpc]
        rw [hcharge, hpost]
        simp [potential, hcall]
      · have hle := h.unpaid_le hfails hdb (p := p)
        have hset := sum_map_set (g := Call.unpaid p) hk o.call
        rw [charges, charge_eq he hk, hpost]
        simp only [potential]
        omega)
  have hstart : potential (fun d => d.unpaid p) (Call.unpaid p) (⟨db, []⟩ : Config Db Call) =
      1 := by
    simp [potential, Db.unpaid, hpayments]
  rw [hstart] at hcount
  simp only [potential] at hcount
  omega

/-- What the rail has taken is what the row says, then and later. -/
theorem bill_of_run (hrun : (payments env).Run ⟨db, []⟩ ts c') :
    ∀ t ∈ ts, ∀ a, charge t = some a →
      c'.store.payments[a.1]?.map Payment.bill = some a.2.bill := by
  have hall := ((billing env).holds_run hrun (fun t _ i x k _ _ => trivial)
    ⟨trivial, fun i k hk => by simp at hk⟩).2
  have hlater : ∀ {t : Transition Db Call Input}, (payments env).Fires t →
      ∀ a : PaymentId × Payment, t.pre.store.payments[a.1]?.map Payment.bill = some a.2.bill →
      t.post.store.payments[a.1]?.map Payment.bill = some a.2.bill := by
    intro t ht a hbill
    rcases stmt_of_fires ht with ⟨k, -, -, hpost⟩ | ⟨i, x, k, o, -, -, -, h, -, hpost⟩
    · rw [hpost]
      exact hbill
    · rw [hpost]
      exact h.bill hbill
  induction hrun with
  | nil => simp
  | snoc t hrun hpre hfire ih =>
      intro t' ht' a ha
      rcases List.mem_append.mp ht' with hold | hnew
      · refine hlater hfire a ?_
        rw [hpre]
        exact ih (fun t ht => hall t (List.mem_append_left _ ht)) t' hold a ha
      · obtain rfl := List.mem_singleton.mp hnew
        refine hlater hfire a ?_
        obtain ⟨-, hcalls⟩ := (hall t' ht').1
        rcases stmt_of_fires hfire with ⟨k, he, -, -⟩ | ⟨i, x, k, o, he, hk, -, -, -, -⟩
        · simp [charge, he] at ha
        · rw [charge_eq he hk] at ha
          obtain ⟨op, pc⟩ := k
          have hbills := hcalls i _ hk
          cases pc with
          | created q payment =>
              simp only [Call.charge] at ha
              split at ha
              · obtain rfl := Option.some.inj ha
                exact hbills
              · simp at ha
          | _ => simp [Call.charge] at ha

/-- A payment that has been charged is refunded or active. -/
theorem row_of_charge (hrun : (payments env).Run ⟨db, []⟩ ts c') (hpayments : db.payments = [])
    {a : PaymentId × Payment} (ha : a ∈ ts.filterMap charge) :
    ∃ b : Payment, c'.store.payments[a.1]? = some b ∧ b.orderId = a.2.orderId ∧
      (b.status = .refunded ∨ b.Active) := by
  obtain ⟨t, ht, hcharge⟩ := List.mem_filterMap.mp ha
  obtain ⟨b, hb, hbill⟩ := Option.map_eq_some_iff.mp (bill_of_run hrun t ht a hcharge)
  refine ⟨b, hb, congrArg Prod.fst hbill, ?_⟩
  have hpos : 0 < ts.countP (charges a.1) :=
    List.countP_pos_iff.mpr ⟨t, ht, by simp [charges, hcharge]⟩
  have hcount := countP_charges_le hrun hpayments a.1
  have hunpaid : c'.store.unpaid a.1 = 0 := by omega
  have hbegun := (settlers_of_run hrun hpayments).1.1.begun a.1 b hb
  cases hst : b.status with
  | pending => exact absurd hst hbegun
  | failed | cancelled => simp [Db.unpaid, hb, hst] at hunpaid
  | refunded => exact Or.inl rfl
  | processing | succeeded => exact Or.inr (by simp [Payment.Active, hst, activePaymentStatuses])

/-- **No order is paid twice.** In every run the rail takes for a payment what its row says, and
of two charges for one order, which are for different payments, one has been refunded. -/
theorem charges_refunded (hrun : (payments env).Run ⟨db, []⟩ ts c') (hpayments : db.payments = []) :
    (∀ a ∈ ts.filterMap charge, c'.store.payments[a.1]?.map Payment.bill = some a.2.bill) ∧
      (ts.filterMap charge).Pairwise fun a b => a.1 ≠ b.1 ∧
        (a.2.orderId = b.2.orderId → c'.store.Refunded a.1 ∨ c'.store.Refunded b.1) := by
  refine ⟨fun a ha => ?_, ?_⟩
  · obtain ⟨t, ht, hcharge⟩ := List.mem_filterMap.mp ha
    exact bill_of_run hrun t ht a hcharge
  have hnodup : ((ts.filterMap charge).map Prod.fst).Nodup := by
    refine List.nodup_iff_count_le_one.mpr fun p => ?_
    have hcount : ((ts.filterMap charge).map Prod.fst).count p = ts.countP (charges p) := by
      rw [List.count, List.countP_map, List.countP_filterMap]
      refine List.countP_congr fun t _ => ?_
      cases hcharge : charge t <;> simp [charges, hcharge]
    have := countP_charges_le hrun hpayments p
    omega
  refine (List.pairwise_map.mp hnodup).imp_of_mem fun {a b} ha hb hne => ⟨hne, fun hid => ?_⟩
  obtain ⟨row, hrow, horder, hstatus⟩ := row_of_charge hrun hpayments ha
  obtain ⟨row', hrow', horder', hstatus'⟩ := row_of_charge hrun hpayments hb
  rcases hstatus with hrefunded | hactive
  · exact Or.inl ⟨row, hrow, hrefunded⟩
  rcases hstatus' with hrefunded | hactive'
  · exact Or.inr ⟨row', hrow', hrefunded⟩
  have hone := (settlers_of_run hrun hpayments).1.1.one
  have hsame := horder.trans (hid.trans horder'.symm)
  exact absurd (hone _ _ row row' hrow hrow' hsame hactive hactive') hne

end Run

/-- In the run of `payTwice`, the one charge that succeeds is withheld from once. -/
theorem charges_entered_payTwice :
    Entry.withholding.made 1 ((payments {}).after ⟨oneCompleted, []⟩ payTwice).store +
        (((payments {}).after ⟨oneCompleted, []⟩ payTwice).calls.map
          (Entry.withholding.owed 1)).sum +
        (((payments {}).trace ⟨oneCompleted, []⟩ payTwice).map (Entry.withholding.lost 1)).sum =
      Entry.withholding.made 1 oneCompleted +
        ((payments {}).trace ⟨oneCompleted, []⟩ payTwice).countP (charges 1) ∧
      ((payments {}).trace ⟨oneCompleted, []⟩ payTwice).countP (charges 1) = 1 :=
  ⟨charges_entered ((payments {}).run_trace _ _) rfl .withholding 1, by decide +kernel⟩

/-- The customer pays, is refunded, and pays again. -/
def payAgain : List (Event Call Input) :=
  [.start ⟨.initiate 0 0 .click, .start⟩, .run 0 {}, .run 0 {}, .run 0 {}, .run 0 {},
    .run 0 { charge := { success := true, providerRef := "a" } }, .run 0 {},
    .start ⟨.resolve 0 9 true "", .start⟩, .run 1 {}, .run 1 {},
    .start ⟨.initiate 0 0 .click, .start⟩, .run 2 {}, .run 2 {}, .run 2 {}, .run 2 {},
    .run 2 { charge := { success := true, providerRef := "b" } }, .run 2 {}]

theorem charges_refunded_payAgain :
    ((∀ a ∈ ((payments {}).trace ⟨oneCompleted, []⟩ payAgain).filterMap charge,
        ((payments {}).after ⟨oneCompleted, []⟩ payAgain).store.payments[a.1]?.map Payment.bill =
          some a.2.bill) ∧
      (((payments {}).trace ⟨oneCompleted, []⟩ payAgain).filterMap charge).Pairwise fun a b =>
        a.1 ≠ b.1 ∧ (a.2.orderId = b.2.orderId →
          ((payments {}).after ⟨oneCompleted, []⟩ payAgain).store.Refunded a.1 ∨
            ((payments {}).after ⟨oneCompleted, []⟩ payAgain).store.Refunded b.1)) ∧
      (((payments {}).trace ⟨oneCompleted, []⟩ payAgain).filterMap charge).length = 2 :=
  ⟨charges_refunded ((payments {}).run_trace _ _) rfl, by decide +kernel⟩

end Handly.Payments
