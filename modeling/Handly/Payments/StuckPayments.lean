import Handly.Payments.DoubleCharge

/-!
# Payments that nobody settles

The row that `initiate` commits before it charges is PROCESSING, and only that call
settles it. When the call fails in between, the row keeps its status for good, and
`hasActivePayment` refuses every later attempt to pay the order.
-/

namespace Handly.Payments

open Interleaving

/-- The call is past the transaction that created this payment and has not settled it. -/
def Call.Settles (k : Call) (p : PaymentId) : Prop :=
  match k.pc with
  | .created q _ | .settling q _ _ => q = p
  | _ => False

/-- No awaited step of an `initiate` fails from the charge to the update of the payment
(which fails also when the provider's reference is taken). -/
def SettlesCreated (_me : ℕ) (x : Input) (k : Call) (db : Db) : Prop :=
  match k.op, k.pc with
  | .initiate _ _ _, .created _ _ => x.fail = false
  | .initiate _ _ _, .settling p _ result =>
      x.fail = false ∧ db.providerRefTaken p result.providerRef = false
  | _, _ => True

instance (me : ℕ) (x : Input) (k : Call) (db : Db) : Decidable (SettlesCreated me x k db) :=
  decidable_of_bool
    (match k.op, k.pc with
      | .initiate _ _ _, .created _ _ => !x.fail
      | .initiate _ _ _, .settling p _ result =>
          !x.fail && !db.providerRefTaken p result.providerRef
      | _, _ => true)
    (by unfold SettlesCreated; split <;> simp)

/-- No `initiate` is in flight. -/
def NoInitiate (c : Config Db Call) : Prop :=
  ∀ k ∈ c.calls, k.op.isInitiate = true → k.isFinished = true

instance (c : Config Db Call) : Decidable (NoInitiate c) :=
  inferInstanceAs (Decidable (∀ k ∈ c.calls, k.op.isInitiate = true → k.isFinished = true))

/-- No payment is in progress, and an order none of whose payments succeeded is free for
another attempt. -/
structure NothingStuck (db : Db) : Prop where
  settled : ∀ (p : PaymentId) (a : Payment), db.payments[p]? = some a → a.status ≠ .processing
  payable : ∀ orderId, (∀ (p : PaymentId) (a : Payment), db.payments[p]? = some a →
    a.orderId = orderId → a.status ≠ .succeeded) → hasActivePayment db orderId = false

/-- Every payment in progress is in the hands of the call that created it. -/
def InHand (c : Config Db Call) : Prop :=
  ∀ (p : PaymentId) (a : Payment), c.store.payments[p]? = some a → a.status = .processing →
    ∃ k, c.calls[a.createdBy]? = some k ∧ k.Settles p

section Stuck

variable {env : Env} {me : ℕ} {x : Input} {k : Call} {db : Db} {o : Outcome Db Call}

/-- A call that goes on with a payment goes on with it after its next statement, or has
settled it. -/
theorem Stmt.settles (h : Stmt env me x db k o) (hk : k.Knows db me)
    (hC : SettlesCreated me x k db) {p : PaymentId} (hsettles : k.Settles p) {b : Payment}
    (hb : o.store.payments[p]? = some b) (hst : b.status = .processing) : o.call.Settles p := by
  obtain ⟨op, pc⟩ := k
  have hinitiate : ∀ (q : PaymentId), (op.isInitiate = true ∧ db.HeldBy q me) →
      ∃ c i m, op = .initiate c i m := by
    intro q hmine
    obtain ⟨hop, -⟩ := hmine
    cases op with
    | initiate c i m => exact ⟨c, i, m, rfl⟩
    | _ => simp [Op.isInitiate] at hop
  cases pc with
  | created q payment =>
      obtain ⟨c, i, m, rfl⟩ := hinitiate q hk
      cases h with
      | fails hx => simp [SettlesCreated, hx] at hC
      | reads hr =>
          cases hr with
          | charged => exact hsettles
          | rewardReads henter => cases henter
      | rewardNone henter => cases henter
  | settling q payment result =>
      obtain ⟨c, i, m, rfl⟩ := hinitiate q hk
      obtain rfl : q = p := hsettles
      obtain ⟨hx, hfree⟩ := hC
      cases h with
      | fails hfail => simp [hx] at hfail
      | reads hr =>
          cases hr with
          | settleRefused hbad =>
              obtain ⟨-, a, ha, -⟩ := hk
              rcases hbad with hnone | htaken
              · simp [ha] at hnone
              · simp [hfree] at htaken
          | rewardReads henter => cases henter
      | settleSuccess | settleFailure =>
          rw [Db.updatePayment_payments, List.getElem?_modify] at hb
          obtain ⟨a, -, rfl⟩ := Option.map_eq_some_iff.mp hb
          rcases settleData_status result x.now a with hs | hs <;> simp [hs] at hst
      | rewardNone henter => cases henter
  | _ => exact hsettles.elim

end Stuck

section Run

variable {env : Env} {db : Db} {c' : Config Db Call} {ts : List (Transition Db Call Input)}

/-- While nothing fails in between, the payments in progress stay in hand. -/
theorem inHand_step {t : Transition Db Call Input} (ht : (payments env).Fires t)
    (hC : t.Satisfies SettlesCreated) (hholds : (settlers env).Holds t.pre) (hI : InHand t.pre) :
    InHand t.post := by
  obtain ⟨hdb, hcalls⟩ := hholds
  rcases stmt_of_fires ht with ⟨k, -, -, hpost⟩ | ⟨i, x, k, o, he, hk, -, h, -, hpost⟩
  · rw [hpost]
    intro p a ha hst
    obtain ⟨k', hk', hsettles⟩ := hI p a ha hst
    exact ⟨k', List.getElem?_append_left (List.getElem?_eq_some_iff.mp hk').1 ▸ hk', hsettles⟩
  · have hknows := hcalls i k hk
    have hlt : i < t.pre.calls.length := (List.getElem?_eq_some_iff.mp hk).1
    rw [hpost]
    intro p b hb hst
    show ∃ k', (t.pre.calls.set i o.call)[b.createdBy]? = some k' ∧ k'.Settles p
    have hself : (t.pre.calls.set i o.call)[i]? = some o.call := List.getElem?_set_self hlt
    -- A row that was in progress before is in the hands of its creator, this call or another.
    have hold : ∀ a : Payment, t.pre.store.payments[p]? = some a → a.status = .processing →
        a.createdBy = b.createdBy →
        ∃ k', (t.pre.calls.set i o.call)[b.createdBy]? = some k' ∧ k'.Settles p := by
      intro a ha hsta hby
      obtain ⟨k', hk', hsettles⟩ := hI p a ha hsta
      rw [hby] at hk'
      by_cases hi : b.createdBy = i
      · rw [hi] at hk' ⊢
        obtain rfl := Option.some.inj (hk.symm.trans hk')
        exact ⟨o.call, hself, h.settles hknows (hC i x k he hk) hsettles hb hst⟩
      · exact ⟨k', (List.getElem?_set_ne (Ne.symm hi)).trans hk', hsettles⟩
    cases h.paymentEffect.rowEffect hb with
    | same ha => exact hold b ha hst rfl
    | created =>
        refine ⟨o.call, hself, ?_⟩
        cases h with
        | create => exact rfl
        | fails | reads | rewardNone => simp at hb
    | @settled op p payment result a ha =>
        rcases settleData_status result x.now a with hs | hs <;> simp [hs] at hst
    | @resolved p adminId refund note payment a ha hnull =>
        cases refund with
        | false => exact hold a ha hst rfl
        | true => simp [resolveData] at hst

/-- A payment whose call has finished before settling it stays in progress. -/
theorem heldBy_stays {c : Config Db Call} (hrun : (payments env).Run c ts c')
    (hholds : ∀ t ∈ ts, (settlers env).Holds t.pre) {i : ℕ} {p : PaymentId} {k : Call}
    (hk : c.calls[i]? = some k) (hfin : k.isFinished = true) (hheld : c.store.HeldBy p i) :
    c'.store.HeldBy p i := by
  refine (hrun.invariant (fun c => c.store.HeldBy p i ∧ c.calls[i]? = some k) (fun t => t ∈ ts)
    (fun _ ht => ht) ⟨hheld, hk⟩ ?_).1.1
  intro t ht hts hboth
  obtain ⟨hheld, hk⟩ := hboth
  rcases stmt_of_fires ht with ⟨k', -, -, hpost⟩ | ⟨j, x, k', o, -, hk', hlive, h, -, hpost⟩
  · rw [hpost]
    exact ⟨hheld, List.getElem?_append_left (List.getElem?_eq_some_iff.mp hk).1 ▸ hk⟩
  · have hne : i ≠ j := by
      intro heq
      obtain rfl := heq
      obtain rfl := Option.some.inj (hk.symm.trans hk')
      simp [hfin] at hlive
    rw [hpost]
    exact ⟨h.heldBy_other ((hholds t hts).2 j k' hk') hne hheld,
      (List.getElem?_set_ne (Ne.symm hne)).trans hk⟩

/-- Where a call fails between the charge and the update, its payment is left in
progress. -/
theorem heldBy_of_not_settlesCreated {t : Transition Db Call Input} (ht : (payments env).Fires t)
    (hholds : (settlers env).Holds t.pre) (hC : ¬ t.Satisfies SettlesCreated) :
    ∃ i p k, t.post.calls[i]? = some k ∧ k.isFinished = true ∧ t.post.store.HeldBy p i := by
  rcases stmt_of_fires ht with ⟨k, he, -⟩ | ⟨i, x, k, o, he, hk, hlive, h, hfails, hpost⟩
  · exact absurd (Transition.satisfies_start he) hC
  · rw [Transition.satisfies_iff he hk] at hC
    have hknows := hholds.2 i k hk
    have hself : t.post.calls[i]? = some o.call := by
      rw [hpost]
      exact List.getElem?_set_self (List.getElem?_eq_some_iff.mp hk).1
    have hfailed : ∀ {p : PaymentId}, x.fail = true → t.pre.store.HeldBy p i →
        ∃ i p k, t.post.calls[i]? = some k ∧ k.isFinished = true ∧ t.post.store.HeldBy p i := by
      intro p hx hheld
      refine ⟨i, p, o.call, hself, ?_, ?_⟩
      · rw [hfails hx]
        rfl
      · rw [hpost, hfails hx]
        exact hheld
    obtain ⟨op, pc⟩ := k
    cases op with
    | initiate customerId orderId method =>
        cases pc with
        | created p payment => exact hfailed (by simpa [SettlesCreated] using hC) hknows.2
        | settling p payment result =>
            by_cases hx : x.fail = true
            · exact hfailed hx hknows.2
            · have htaken : t.pre.store.providerRefTaken p result.providerRef = true := by
                simpa [SettlesCreated, hx] using hC
              -- The unique index refuses the update, and the call throws.
              cases h with
              | fails hfail => exact absurd hfail hx
              | reads hr =>
                  cases hr with
                  | settleRefused =>
                      refine ⟨i, p, _, hself, rfl, ?_⟩
                      rw [hpost]
                      exact hknows.2
                  | rewardReads henter => cases henter
              | settleSuccess _ hfree | settleFailure _ hfree => simp [htaken] at hfree
              | rewardNone henter => cases henter
        | _ => simp [SettlesCreated] at hC
    | _ => simp [SettlesCreated] at hC

/-- **When a failed attempt leaves the order locked.** Once no `initiate` is in flight,
nothing is stuck exactly if no call has failed between the commit of its payment and the
update that settles it. -/
theorem nothingStuck_iff (hrun : (payments env).Run ⟨db, []⟩ ts c') (hpayments : db.payments = [])
    (hquiet : NoInitiate c') :
    NothingStuck c'.store ↔ ∀ t ∈ ts, t.Satisfies SettlesCreated := by
  obtain ⟨hend, hall⟩ := settlers_of_run hrun hpayments
  constructor
  · intro hstuck t ht
    by_contra hC
    obtain ⟨i, p, k, hk, hfin, hheld⟩ :=
      heldBy_of_not_settlesCreated (hrun.fires t ht) (hall t ht).1 hC
    obtain ⟨before, after, rfl, -, hafter⟩ := hrun.split t ht
    obtain ⟨a, ha, hst, -⟩ :=
      heldBy_stays hafter (fun t' ht' => (hall t' (by simp [ht'])).1) hk hfin hheld
    exact hstuck.settled p a ha hst
  · intro hC
    have hhand : InHand c' := by
      refine (hrun.invariant InHand (fun t => t ∈ ts) (fun _ ht => ht) ?_ ?_).1
      · intro p a ha
        simp [hpayments] at ha
      · intro t ht hts hI
        exact inHand_step ht (hC t hts) (hall t hts).1 hI
    have hsettled : ∀ (p : PaymentId) (a : Payment), c'.store.payments[p]? = some a →
        a.status ≠ .processing := by
      intro p a ha hst
      obtain ⟨⟨op, pc⟩, hk, hsettles⟩ := hhand p a ha hst
      have hknows := hend.2 _ _ hk
      have hfin := hquiet _ (List.mem_of_getElem? hk)
      cases pc with
      | created q payment | settling q payment result => simpa [Call.isFinished] using hfin hknows.1
      | _ => exact hsettles
    refine ⟨hsettled, fun orderId hnone => hasActivePayment_eq_false.mpr ?_⟩
    intro p a ha hid hactive
    have hcases : a.status = .pending ∨ a.status = .processing ∨ a.status = .succeeded := by
      simpa [Payment.Active, activePaymentStatuses] using hactive
    rcases hcases with hst | hst | hst
    · exact hend.1.begun p a ha hst
    · exact hsettled p a ha hst
    · exact hnone p a ha hid hst

end Run

/-- The first charge is answered with a failure and settled; the customer then pays. -/
def payAfterFailure : List (Event Call Input) :=
  [.start ⟨.initiate 0 0 .click, .start⟩, .run 0 {}, .run 0 {}, .run 0 {}, .run 0 {},
    .run 0 { charge := { success := false, providerRef := "a" } }, .run 0 {}, .run 0 {},
    .start ⟨.initiate 0 0 .click, .start⟩, .run 1 {}, .run 1 {}, .run 1 {}, .run 1 {},
    .run 1 { charge := { success := true, providerRef := "b" } }, .run 1 {}, .run 1 {}, .run 1 {},
    .run 1 {}, .run 1 {}]

theorem nothingStuck_payAfterFailure :
    NothingStuck ((payments {}).after ⟨oneCompleted, []⟩ payAfterFailure).store :=
  (nothingStuck_iff ((payments {}).run_trace _ _) rfl (by decide +kernel)).mpr
    (by decide +kernel)

/-- The provider throws. -/
def chargeThrows : List (Event Call Input) :=
  [.start ⟨.initiate 0 0 .click, .start⟩, .run 0 {}, .run 0 {}, .run 0 {}, .run 0 {},
    .run 0 { fail := true }]

/-- An attempt whose charge throws locks the order. -/
theorem not_nothingStuck_always :
    ¬ ∀ (db : Db) (ts : List (Transition Db Call Input)) (c' : Config Db Call),
      (payments {}).Run ⟨db, []⟩ ts c' → db.payments = [] → NoInitiate c' →
        NothingStuck c'.store := by
  intro h
  have hstuck := h oneCompleted _ _ ((payments {}).run_trace _ chargeThrows) rfl (by decide +kernel)
  have hrow : ((payments {}).after ⟨oneCompleted, []⟩ chargeThrows).store.payments[0]?.map
      Payment.status = some .processing := by decide +kernel
  obtain ⟨a, ha, hst⟩ := Option.map_eq_some_iff.mp hrow
  exact hstuck.settled 0 a ha hst

end Handly.Payments
