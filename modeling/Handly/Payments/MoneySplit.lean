import Handly.Orders.Records
import Handly.Payments.Effects
import Mathlib.Tactic.Linarith

/-!
# How a payment is split

`initiate` takes the platform fee and the withholding from the final amount and never checks
that they fit. They do because of what the order services did before: a quote starts at
30 000, no tier has a higher fee, and `completeService` keeps the final amount in the quoted
range.
-/

namespace Handly.Payments

open Interleaving

/-- The payment splits the final amount of its order into three parts, none negative. -/
structure SplitsAmount (order : Order) (p : Payment) : Prop where
  amount : order.finalAmount = some p.amount
  sum : p.platformFee + p.taxAmount + p.masterNetAmount = p.amount
  platformFee : 0 ≤ p.platformFee
  taxAmount : 0 ≤ p.taxAmount
  masterNetAmount : 0 ≤ p.masterNetAmount

/-! ### The arithmetic -/

theorem mathRound_nonneg {x : ℚ} (h : 0 ≤ x) : 0 ≤ mathRound x :=
  Int.floor_nonneg.mpr (by linarith)

theorem mathRound_le {x : ℚ} {n : ℤ} (h : x ≤ n) : mathRound x ≤ n :=
  Int.floor_le_iff.mpr (by linarith)

/-- The withholding is a part of the gross amount. -/
theorem computeWithholding_range {env : Env} (grossAmount : ℤ) (hgross : 0 ≤ grossAmount)
    (hrate : 0 ≤ env.taxWithholdingRate ∧ env.taxWithholdingRate ≤ 1) :
    0 ≤ (computeWithholding env grossAmount).taxAmount ∧
      0 ≤ (computeWithholding env grossAmount).netAmount := by
  obtain ⟨hnonneg, hle⟩ := hrate
  have hgross' : (0 : ℚ) ≤ grossAmount := by exact_mod_cast hgross
  refine ⟨mathRound_nonneg (mul_nonneg hgross' hnonneg), ?_⟩
  show 0 ≤ grossAmount - mathRound (grossAmount * env.taxWithholdingRate)
  have htax := mathRound_le (mul_le_of_le_one_right hgross' hle)
  omega

/-- The fee of a well-formed order fits in its final amount. -/
theorem platformFee_le_finalAmount {order : Order} (hc : order.Columns) {amount : ℤ}
    (hamount : order.finalAmount = some amount) : order.platformFee ≤ amount := by
  have hst := hc.finalAmount.mp (by simp [hamount])
  have hpriced : order.Priced := by
    refine hc.priced ?_ ?_ <;> rcases hst with hst | hst <;> simp [hst]
  obtain ⟨lo, hi, hlo, -, hfloor, -⟩ := hpriced.range
  obtain ⟨lo', hi', hlo', -, hle, -⟩ := hc.inRange amount hamount
  obtain rfl := Option.some.inj (hlo.symm.trans hlo')
  calc order.platformFee ≤ 30000 := hc.platformFee.2
    _ ≤ lo := hfloor
    _ ≤ amount := hle

/-- The payment that `initiate` creates for a well-formed order. -/
theorem paymentOf_splits {env : Env} {order : Order} (hc : order.Columns)
    (hfinal : order.finalAmount.isSome)
    (hrate : 0 ≤ env.taxWithholdingRate ∧ env.taxWithholdingRate ≤ 1) (me : ℕ)
    (customerId : UserId) (orderId : OrderId) (method : PaymentMethod) :
    SplitsAmount order (paymentOf env me customerId orderId method order) := by
  obtain ⟨amount, hamount⟩ := Option.isSome_iff_exists.mp hfinal
  have hfee := platformFee_le_finalAmount hc hamount
  obtain ⟨htax, hnet⟩ :=
    computeWithholding_range (amount - order.platformFee) (by omega) hrate
  have hpayment : paymentOf env me customerId orderId method order =
      { orderId, customerId, method, status := .processing, amount
        platformFee := order.platformFee, createdBy := me
        taxRate := (computeWithholding env (amount - order.platformFee)).rate
        taxAmount := (computeWithholding env (amount - order.platformFee)).taxAmount
        masterNetAmount := (computeWithholding env (amount - order.platformFee)).netAmount } := by
    simp only [paymentOf, hamount, Option.getD_some]
  rw [hpayment]
  refine ⟨hamount, ?_, hc.platformFee.1, htax, hnet⟩
  show order.platformFee + (computeWithholding env (amount - order.platformFee)).taxAmount +
    (amount - order.platformFee -
      (computeWithholding env (amount - order.platformFee)).taxAmount) = amount
  omega

/-! ### Runs of the payment service -/

/-- What an `initiate` call has read, and that its order has a final amount. -/
def Call.ReadsOrder (db : Db) (k : Call) : Prop :=
  match k.pc, k.op with
  | .checked order, .initiate _ orderId _ | .locked order, .initiate _ orderId _
  | .vacant order, .initiate _ orderId _ =>
      db.orders[orderId]? = some order ∧ order.finalAmount.isSome
  | _, _ => True

/-- Every payment beyond the first `n` splits the final amount of its order. -/
def SplitsAll (orders : List Order) (n : ℕ) (db : Db) : Prop :=
  db.orders = orders ∧
    ∀ (id : ℕ) (p : Payment), n ≤ id → db.payments[id]? = some p →
      ∃ order, orders[p.orderId]? = some order ∧ SplitsAmount order p

section Statements

variable {env : Env} {me : ℕ} {x : Input} {k : Call} {db : Db} {o : Outcome Db Call}

theorem Stmt.readsOrder (h : Stmt env me x db k o) (hk : k.ReadsOrder db) :
    o.call.ReadsOrder o.store := by
  cases h with
  | reads hr =>
      cases hr with
      | checked hrow _ _ hfinal => exact ⟨hrow, hfinal⟩
      | vacant => exact hk
      | _ => trivial
  | lock => exact hk
  | credit hpc => rcases hpc with rfl | rfl <;> trivial
  | _ => trivial

theorem Stmt.readsOrder_other (h : Stmt env me x db k o) {k' : Call} (hk' : k'.ReadsOrder db) :
    k'.ReadsOrder o.store := by
  unfold Call.ReadsOrder
  rw [h.orders_eq]
  exact hk'

/-- Settling or resolving a payment leaves its split. -/
theorem SplitsAmount.congr {order : Order} {p p' : Payment} (h : SplitsAmount order p)
    (hsame : p'.amount = p.amount ∧ p'.platformFee = p.platformFee ∧ p'.taxAmount = p.taxAmount ∧
      p'.masterNetAmount = p.masterNetAmount) : SplitsAmount order p' := by
  obtain ⟨hamount, hfee, htax, hnet⟩ := hsame
  exact ⟨by rw [hamount]; exact h.amount, by rw [hamount, hfee, htax, hnet]; exact h.sum,
    by rw [hfee]; exact h.platformFee, by rw [htax]; exact h.taxAmount,
    by rw [hnet]; exact h.masterNetAmount⟩

theorem Stmt.splitsAll (h : Stmt env me x db k o) {orders : List Order} {n : ℕ}
    (horders : ∀ (id : ℕ) (row : Order), orders[id]? = some row → row.Columns)
    (hrate : 0 ≤ env.taxWithholdingRate ∧ env.taxWithholdingRate ≤ 1) (hk : k.ReadsOrder db)
    (hsplits : SplitsAll orders n db) : SplitsAll orders n o.store := by
  obtain ⟨hdb, hrows⟩ := hsplits
  refine ⟨h.orders_eq.trans hdb, fun id p hid hp => ?_⟩
  cases h.paymentEffect.rowEffect hp with
  | same ha => exact hrows id p hid ha
  | @created customerId orderId method order =>
      obtain ⟨hrow, hfinal⟩ := hk
      rw [hdb] at hrow
      exact ⟨order, hrow, paymentOf_splits (horders orderId order hrow) hfinal hrate _ _ _ _⟩
  | @settled op p payment result a ha =>
      obtain ⟨order, hrow, hsplit⟩ := hrows id a hid ha
      refine ⟨order, ?_, hsplit.congr ?_⟩
      · rw [(settleData_frame result x.now a).1]
        exact hrow
      · unfold settleData
        split <;> exact ⟨rfl, rfl, rfl, rfl⟩
  | resolved ha =>
      obtain ⟨order, hrow, hsplit⟩ := hrows id _ hid ha
      exact ⟨order, hrow, hsplit.congr ⟨rfl, rfl, rfl, rfl⟩⟩

end Statements

/-- The payments split the amounts of well-formed orders. -/
def splits (env : Env) (orders : List Order) (n : ℕ)
    (horders : ∀ (id : ℕ) (row : Order), orders[id]? = some row → row.Columns)
    (hrate : 0 ≤ env.taxWithholdingRate ∧ env.taxWithholdingRate ≤ 1) :
    Outline (payments env) fun t => t.Satisfies fun _ _ _ _ => True :=
  .ofSteps (payments env) _ (SplitsAll orders n) (fun db _ k => k.ReadsOrder db)
    (by
      intro db me k hentry _
      obtain ⟨op, pc⟩ := k
      cases pc with
      | start => trivial
      | _ => simp [payments, Call.isStart] at hentry)
    (by
      intro me x k db o _ hstep hsplits hk
      obtain ⟨-, h, -⟩ := step_cases hstep
      exact ⟨h.splitsAll horders hrate hk hsplits, h.readsOrder hk, h.spawned_eq_nil⟩)
    (by
      intro me x k db o other k' _ hstep _ _ _ hk'
      obtain ⟨-, h, -⟩ := step_cases hstep
      exact h.readsOrder_other hk')

/-- **The money split is exact and never negative.** Order calls run one at a time; then
`initiate` and the other payment calls run in any order. -/
theorem splitsAmount_of_runs {orderEnv : Handly.Env} {start : Handly.Db}
    {placed : Config Handly.Db Handly.Call} {steps : List (Transition Handly.Db Handly.Call
      Handly.Input)}
    (hplaced : (Handly.orders orderEnv).Run ⟨start, []⟩ steps placed) (horders : start.orders = [])
    (hdispatches : start.dispatches = []) (hC : ∀ t ∈ steps, OneAtATime t)
    {env : Env} (hrate : 0 ≤ env.taxWithholdingRate ∧ env.taxWithholdingRate ≤ 1)
    {db : Db} {c' : Config Db Call} {ts : List (Transition Db Call Input)}
    (hdb : db.orders = placed.store.orders) (hrun : (payments env).Run ⟨db, []⟩ ts c')
    {id : ℕ} {p : Payment} (hp : c'.store.payments[id]? = some p)
    (hnew : db.payments[id]? = none) :
    ∃ order, placed.store.orders[p.orderId]? = some order ∧ SplitsAmount order p := by
  have hcolumns := (records_of_run hplaced horders hdispatches hC).1
  have hlen := List.getElem?_eq_none_iff.mp hnew
  have hstart : (splits env _ db.payments.length hcolumns hrate).Holds ⟨db, []⟩ := by
    refine ⟨⟨hdb, fun id p hid hp => ?_⟩, by simp⟩
    exact absurd (List.getElem?_eq_some_iff.mp hp).1 (Nat.not_lt.mpr hid)
  obtain ⟨⟨⟨-, hsplits⟩, -⟩, -⟩ := (splits env _ _ hcolumns hrate).holds_run hrun
    (fun _ _ _ _ _ _ _ => trivial) hstart
  exact hsplits id p hlen hp

/-- The closed order, and no payments. -/
def closedOrder : Db where
  orders := ((Handly.orders .flat).after ⟨oneMaster, []⟩ wholeLife).store.orders

/-- The customer pays for the order. -/
def payOnce : List (Event Call Input) :=
  .start ⟨.initiate 0 0 .click, .start⟩ :: List.replicate 8 (.run 0 {})

def paidOnce : Payment where
  orderId := 0
  customerId := 0
  method := .click
  status := .succeeded
  amount := 110000
  platformFee := 30000
  taxRate := 1 / 100
  taxAmount := 800
  masterNetAmount := 79200
  providerRef := some ""
  succeededAt := some 0
  createdBy := 0

theorem splitsAmount_wholeLife :
    ∃ order,
      ((Handly.orders .flat).after ⟨oneMaster, []⟩ wholeLife).store.orders[paidOnce.orderId]? =
          some order ∧
        SplitsAmount order paidOnce := by
  have hrate : 0 ≤ ({} : Env).taxWithholdingRate ∧ ({} : Env).taxWithholdingRate ≤ 1 := by
    decide +kernel
  have hpaid : ((payments {}).after ⟨closedOrder, []⟩ payOnce).store.payments[0]? =
      some paidOnce := by
    decide +kernel
  exact splitsAmount_of_runs ((Handly.orders .flat).run_trace _ _) rfl rfl (by decide +kernel)
    hrate rfl ((payments {}).run_trace _ _) hpaid rfl

end Handly.Payments
