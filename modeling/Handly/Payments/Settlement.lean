import Handly.Payments.DoubleCharge

/-!
# Settlement

The status of a payment flips to SUCCEEDED in a commit of its own. The withholding, the
notification and the referral reward follow one by one, and a later `initiate` or
webhook does not resume them. `Stage` says how far the settlement of each payment has
come, read off the point at which its creating call stands. The reference that
`recordWithholding` returns is stored nowhere.
-/

namespace Handly.Payments

open Interleaving

/-- The withholding of the payment was recorded once, and the call that settled it has run
`rewardOnFirstPayment` for its customer to the end. -/
structure Db.Settled (db : Db) (p : PaymentId) (a : Payment) : Prop where
  withheld : db.withheld p = 1
  rewarded : (a.createdBy, a.customerId) ∈ db.rewardReturns

/-- All of the settlement has happened, the tax reference included. -/
structure Db.AllOrNothing (db : Db) (p : PaymentId) (a : Payment) : Prop extends
    db.Settled p a where
  reference : ∃ w ∈ db.withholdings, w.paymentId = p ∧ a.taxWithholdingRef = some w.reference

/-- No awaited step fails from the commit of SUCCEEDED to the end of the reward. -/
def GoesThrough (_me : ℕ) (x : Input) (k : Call) (_db : Db) : Prop :=
  match k.op, k.pc with
  | .initiate _ _ _, .succeeded _ _ | .initiate _ _ _, .recording _ _ _
  | .initiate _ _ _, .notifySucceeded _ _ | .initiate _ _ _, .reward _
  | .initiate _ _ _, .rewarding _ _ | .initiate _ _ _, .crediting _ _ => x.fail = false
  | _, _ => True

instance (me : ℕ) (x : Input) (k : Call) (db : Db) : Decidable (GoesThrough me x k db) := by
  unfold GoesThrough
  split <;> infer_instance

/-- `payment` is a version of the row `p`, which this call created, and its order exists. -/
def Db.OwnPayment (db : Db) (me : ℕ) (p : PaymentId) (payment : Payment) : Prop :=
  (∃ a : Payment, db.payments[p]? = some a ∧ a.createdBy = me ∧
    payment.customerId = a.customerId) ∧ (db.orders[payment.orderId]?).isSome

/-- What a call that pays an order knows of the order and of its payment. -/
def Call.Follows (db : Db) (me : ℕ) (k : Call) : Prop :=
  match k.pc, k.op with
  | .checked _, .initiate _ orderId _ | .locked _, .initiate _ orderId _
  | .vacant _, .initiate _ orderId _ => (db.orders[orderId]?).isSome
  | .created p payment, _ | .settling p payment _, _ | .succeeded p payment, _
  | .recording p payment _, _ | .notifySucceeded p payment, _ => db.OwnPayment me p payment
  | _, _ => True

/-- What holds of the tables besides `Db.Consistent`. -/
structure Db.Recorded (db : Db) : Prop where
  /-- The tax provider was told of existing payments only. -/
  known : ∀ w ∈ db.withholdings, w.paymentId < db.payments.length
  /-- No write stores the tax reference. -/
  unreferenced : ∀ (p : PaymentId) (a : Payment), db.payments[p]? = some a →
    a.taxWithholdingRef = none

/-- How far the settlement of the payment `p` has come when its creating call is `k`. -/
def Stage (db : Db) (p : PaymentId) (a : Payment) (k : Call) : Prop :=
  match k.pc with
  | .created q _ | .settling q _ _ =>
      q = p ∧ a.status = .processing ∧ db.withheld p = 0
  | .succeeded q _ | .recording q _ _ =>
      q = p ∧ db.withheld p = 0
  | .notifySucceeded q _ => q = p ∧ db.withheld p = 1
  | .reward refereeId =>
      refereeId = a.customerId ∧ db.withheld p = 1
  | .rewarding _ referral | .crediting _ referral =>
      referral.refereeId = a.customerId ∧ db.withheld p = 1
  | .notifyFailed _ _ => a.status = .failed
  | .notifyReferrer _ | .returned | .threw _ => a.status = .succeeded → db.Settled p a
  | _ => False

section Statements

variable {env : Env} {me : ℕ} {x : Input} {k : Call} {db : Db} {o : Outcome Db Call}

theorem Stmt.ownPayment (h : Stmt env me x db k o) {call : ℕ} {p : PaymentId} {payment : Payment}
    (hown : db.OwnPayment call p payment) : o.store.OwnPayment call p payment := by
  obtain ⟨⟨a, ha, hby, hcustomer⟩, horder⟩ := hown
  obtain ⟨b, hb, -, hcustomer', hby'⟩ := h.paymentEffect.row ha
  refine ⟨⟨b, hb, hby'.trans hby, hcustomer.trans hcustomer'.symm⟩, ?_⟩
  rw [h.orders_eq]
  exact horder

/-- A statement establishes what its own call knows of its payment next. -/
theorem Stmt.follows (h : Stmt env me x db k o) (hdb : db.Consistent) (hk : k.Follows db me) :
    o.call.Follows o.store me := by
  have hown : ∀ p payment, db.OwnPayment me p payment → o.store.OwnPayment me p payment :=
    fun _ _ => h.ownPayment
  cases h with
  | reads hr =>
      cases hr with
      | checked hrow => exact Option.isSome_iff_exists.mpr ⟨_, hrow⟩
      | vacant | charged | orderRead => exact hk
      | webhook hrow href hst =>
          have := hdb.unreferenced _ _ hrow hst
          simp [href] at this
      | _ => trivial
  | lock => exact hk
  | create =>
      refine ⟨⟨_, List.getElem?_concat_length, rfl, rfl⟩, ?_⟩
      exact hk
  | settleSuccess => exact hown _ _ hk
  | recordWithholding => exact hk
  | credit hpc => rcases hpc with rfl | rfl <;> trivial
  | _ => trivial

/-- A statement does not disturb what another call knows of its payment. -/
theorem Stmt.follows_other (h : Stmt env me x db k o) {k' : Call} {other : ℕ}
    (hk' : k'.Follows db other) : k'.Follows o.store other := by
  obtain ⟨op, pc⟩ := k'
  cases pc with
  | checked order | locked order | vacant order =>
      cases op with
      | initiate customerId orderId method =>
          show (o.store.orders[orderId]?).isSome
          rw [h.orders_eq]
          exact hk'
      | _ => trivial
  | created | settling | succeeded | recording | notifySucceeded => exact h.ownPayment hk'
  | _ => trivial

theorem Stmt.recorded (h : Stmt env me x db k o) (hdb : db.Recorded) (hk : k.Follows db me) :
    o.store.Recorded := by
  refine ⟨?_, fun p b hb => ?_⟩
  · have hlength : db.payments.length ≤ o.store.payments.length := by
      rcases hp : db.payments.length with _ | n
      · omega
      · have hlast : n < db.payments.length := by omega
        obtain ⟨b, hb, -⟩ := h.paymentEffect.row (List.getElem?_eq_getElem hlast)
        exact (List.getElem?_eq_some_iff.mp hb).1
    have hold : o.store.withholdings = db.withholdings →
        ∀ w ∈ o.store.withholdings, w.paymentId < o.store.payments.length := by
      intro heq w hw
      rw [heq] at hw
      exact lt_of_lt_of_le (hdb.known w hw) hlength
    cases h with
    | @recordWithholding op q payment order =>
        intro w hw
        rcases List.mem_append.mp hw with hw | hw
        · exact hdb.known w hw
        · rw [List.mem_singleton] at hw
          obtain ⟨⟨a, ha, -⟩, -⟩ := hk
          rw [hw]
          exact (List.getElem?_eq_some_iff.mp ha).1
    | _ => exact hold rfl
  · cases h.paymentEffect.rowEffect hb with
    | same ha => exact hdb.unreferenced p b ha
    | created => rfl
    | @settled op p payment result a ha =>
        rw [← hdb.unreferenced p a ha]
        unfold settleData
        split <;> rfl
    | @resolved p adminId refund note payment a ha => exact hdb.unreferenced p a ha

/-- What another call's statement makes of a payment: at most a refund. -/
theorem Stmt.row_other (h : Stmt env me x db k o) (hk : k.Knows db me) {p : PaymentId}
    {a b : Payment} (ha : db.payments[p]? = some a) (hb : o.store.payments[p]? = some b)
    (hby : a.createdBy ≠ me) :
    b.status = a.status ∨ (a.status ≠ .processing ∧ a.status ≠ .failed ∧ b.status = .refunded) := by
  cases h.paymentEffect.rowEffect hb with
  | same ha' =>
      obtain rfl := Option.some.inj (ha.symm.trans ha')
      exact Or.inl rfl
  | created => simp at ha
  | settled ha' =>
      obtain ⟨-, a', hrow, -, hme⟩ := hk
      obtain rfl := Option.some.inj (ha.symm.trans hrow)
      exact absurd hme hby
  | @resolved p adminId refund note payment a' ha' hnull =>
      obtain rfl := Option.some.inj (ha.symm.trans ha')
      cases refund with
      | false => exact Or.inl rfl
      | true =>
          obtain ⟨a', hrow, hsucceeded⟩ := hk
          obtain rfl := Option.some.inj (ha.symm.trans hrow)
          refine Or.inr ⟨?_, ?_, rfl⟩ <;> simp [hsucceeded rfl hnull]

theorem Stmt.rewardReturns_mono (h : Stmt env me x db k o) {r : ℕ × UserId}
    (hr : r ∈ db.rewardReturns) : r ∈ o.store.rewardReturns := by
  cases h with
  | rewardNone | rewardLost | credit => exact List.mem_append_left _ hr
  | _ => exact hr

/-- The settlement of a payment does not move when another call runs. -/
theorem Stmt.stage_other (h : Stmt env me x db k o) (hk : k.Knows db me) (hf : k.Follows db me)
    {p : PaymentId} {a b : Payment} (ha : db.payments[p]? = some a)
    (hb : o.store.payments[p]? = some b) (hby : a.createdBy ≠ me) {k' : Call}
    (hstage : Stage db p a k') : Stage o.store p b k' := by
  have hwithheld : o.store.withheld p = db.withheld p := by
    refine h.withheld_eq fun payment order hpc => hby ?_
    obtain ⟨op, pc⟩ := k
    obtain rfl : pc = .recording p payment order := hpc
    obtain ⟨⟨a', ha', hme, -⟩, -⟩ := hf
    obtain rfl := Option.some.inj (ha.symm.trans ha')
    exact hme
  obtain ⟨b', hb', -, hcustomer, hby'⟩ := h.paymentEffect.row ha
  obtain rfl := Option.some.inj (hb.symm.trans hb')
  have hstatus := h.row_other hk ha hb hby
  have hsettled : (a.status = .succeeded → db.Settled p a) →
      b.status = .succeeded → o.store.Settled p b := by
    intro hs hst
    have hsta : a.status = .succeeded := by
      rcases hstatus with heq | ⟨-, -, hrefunded⟩
      · rw [← heq, hst]
      · simp [hst] at hrefunded
    obtain ⟨hw, hr⟩ := hs hsta
    refine ⟨hwithheld.trans hw, ?_⟩
    rw [hby', hcustomer]
    exact h.rewardReturns_mono hr
  obtain ⟨op, pc⟩ := k'
  cases pc with
  | created | settling =>
      obtain ⟨hq, hst, hw⟩ := hstage
      refine ⟨hq, ?_, hwithheld.trans hw⟩
      rcases hstatus with heq | ⟨hne, -, -⟩
      · exact heq.trans hst
      · exact absurd hst hne
  | succeeded | recording | notifySucceeded =>
      exact ⟨hstage.1, hwithheld.trans hstage.2⟩
  | reward | rewarding | crediting =>
      exact ⟨hstage.1.trans hcustomer.symm, hwithheld.trans hstage.2⟩
  | notifyFailed =>
      rcases hstatus with heq | ⟨-, hne, -⟩
      · exact heq.trans hstage
      · exact absurd hstage hne
  | notifyReferrer | returned | threw => exact hsettled hstage
  | _ => exact hstage.elim

/-- A call carries the settlement of its own payment on, and to the end unless it fails. -/
theorem Stmt.stage_own (h : Stmt env me x db k o) (hfin : k.isFinished = false)
    (hf : k.Follows db me) (hop : k.op.isInitiate = true) (hC : GoesThrough me x k db)
    {p : PaymentId} {a b : Payment} (ha : db.payments[p]? = some a)
    (hb : o.store.payments[p]? = some b) (hby : a.createdBy = me) (hstage : Stage db p a k) :
    Stage o.store p b o.call := by
  obtain ⟨op, pc⟩ := k
  obtain ⟨c, i, m, rfl⟩ : ∃ c i m, op = .initiate c i m := by
    cases op with
    | initiate c i m => exact ⟨c, i, m, rfl⟩
    | _ => simp [Op.isInitiate] at hop
  -- Only the update of `settle` changes the row.
  have hframe : o.store.payments = db.payments → b = a := by
    intro heq
    rw [heq, ha] at hb
    exact (Option.some.inj hb).symm
  cases pc with
  | created q payment =>
      obtain ⟨rfl, hst, hw⟩ := hstage
      obtain rfl : b = a := hframe (by cases h <;> rfl)
      cases h with
      | fails => exact fun hs => by simp [hs] at hst
      | reads hr =>
          cases hr with
          | charged => exact ⟨rfl, hst, hw⟩
          | rewardReads henter => cases henter
      | rewardNone henter => cases henter
  | settling q payment result =>
      obtain ⟨rfl, hst, hw⟩ := hstage
      cases h with
      | fails =>
          obtain rfl := hframe rfl
          exact fun hs => by simp [hs] at hst
      | reads hr =>
          obtain rfl := hframe rfl
          cases hr with
          | settleRefused => exact fun hs => by simp [hs] at hst
          | rewardReads henter => cases henter
      | settleSuccess => exact ⟨rfl, hw⟩
      | settleFailure _ _ hs =>
          rw [Db.updatePayment_payments, List.getElem?_modify, ha] at hb
          obtain rfl : settleData result x.now a = b := by simpa using hb
          show (settleData result x.now a).status = .failed
          simp [settleData, hs]
      | rewardNone henter => cases henter
  | succeeded q payment =>
      obtain ⟨rfl, hw⟩ := hstage
      cases h with
      | fails hx => simp [GoesThrough, hx] at hC
      | reads hr =>
          cases hr with
          | orderMissing hnone =>
              have := hf.2
              simp [hnone] at this
          | orderRead => exact ⟨rfl, hw⟩
          | rewardReads henter => cases henter
      | rewardNone henter => cases henter
  | recording q payment order =>
      obtain ⟨rfl, hw⟩ := hstage
      cases h with
      | fails hx => simp [GoesThrough, hx] at hC
      | reads hr =>
          cases hr with
          | rewardReads henter => cases henter
      | recordWithholding =>
          refine ⟨rfl, ?_⟩
          show (db.recordWithholding _).withheld q = 1
          rw [recordWithholding_withheld, hw]
          simp [withholdingOf]
      | rewardNone henter => cases henter
  | notifySucceeded q payment =>
      obtain ⟨rfl, hw⟩ := hstage
      obtain ⟨⟨a', ha', -, hcustomer⟩, -⟩ := hf
      obtain rfl := Option.some.inj (ha.symm.trans ha')
      cases h with
      | fails hx => simp [GoesThrough, hx] at hC
      | reads hr =>
          cases hr with
          | rewardReads henter => cases henter
      | notifySucceeded =>
          obtain rfl := hframe rfl
          exact ⟨hcustomer, hw⟩
      | rewardNone henter => cases henter
  | reward refereeId =>
      obtain ⟨rfl, hw⟩ := hstage
      obtain rfl : b = a := hframe (by cases h <;> rfl)
      cases h with
      | fails hx => simp [GoesThrough, hx] at hC
      | reads hr =>
          cases hr with
          | rewardReads henter hrow href =>
              cases henter
              exact ⟨href, hw⟩
      | rewardNone henter =>
          cases henter
          refine fun _ => ⟨hw, List.mem_append_right _ ?_⟩
          rw [hby]
          exact List.mem_singleton_self _
  | rewarding referralId referral =>
      obtain ⟨hreferee, hw⟩ := hstage
      obtain rfl : b = a := hframe (by cases h <;> rfl)
      cases h with
      | fails hx => simp [GoesThrough, hx] at hC
      | reads hr =>
          cases hr with
          | rewardReads henter => cases henter
      | rewardNone henter => cases henter
      | claimReferral => exact ⟨hreferee, hw⟩
      | rewardLost =>
          refine fun _ => ⟨hw, List.mem_append_right _ ?_⟩
          rw [hby, ← hreferee]
          exact List.mem_singleton_self _
  | crediting referralId referral =>
      obtain ⟨hreferee, hw⟩ := hstage
      obtain rfl : b = a := hframe (by cases h <;> rfl)
      cases h with
      | fails hx => simp [GoesThrough, hx] at hC
      | reads hr =>
          cases hr with
          | rewardReads henter => cases henter
      | rewardNone henter => cases henter
      | credit hpc =>
          have hsettled : ((db.createCashback (cashbackOf referralId referral)).rewardReturned me
              referral.refereeId).Settled p b := by
            refine ⟨hw, List.mem_append_right _ ?_⟩
            rw [hby, ← hreferee]
            exact List.mem_singleton_self _
          rcases hpc with rfl | rfl <;> exact fun _ => hsettled
  | notifyFailed q payment =>
      obtain rfl : b = a := hframe (by cases h <;> rfl)
      have hfailed : b.status = .succeeded → o.store.Settled p b :=
        fun hs => by simp [Stage, hs] at hstage
      cases h with
      | fails | notifyFailed => exact hfailed
      | reads hr =>
          cases hr with
          | rewardReads henter => cases henter
      | rewardNone henter => cases henter
  | notifyReferrer referral =>
      obtain rfl : b = a := hframe (by cases h <;> rfl)
      cases h with
      | fails | notifyReferrer => exact fun hs => ⟨(hstage hs).withheld, (hstage hs).rewarded⟩
      | reads hr =>
          cases hr with
          | rewardReads henter => cases henter
      | rewardNone henter => cases henter
  | returned | threw => simp [Call.isFinished] at hfin
  | _ => exact hstage.elim

end Statements

/-- `settlers`, with what each call knows of its own payment and what is on record. -/
def settlements (env : Env) : Outline (payments env) fun t => t.Satisfies fun _ _ _ _ => True :=
  .ofSteps (payments env) _ (fun db => db.Consistent ∧ db.Recorded)
    (fun db me k => k.Knows db me ∧ k.Follows db me)
    (by
      intro db me k hentry _
      obtain ⟨op, pc⟩ := k
      cases pc with
      | start => exact ⟨trivial, trivial⟩
      | _ => simp [payments, Call.isStart] at hentry)
    (by
      intro me x k db o _ hstep hG hL
      obtain ⟨hdb, hrecorded⟩ := hG
      obtain ⟨hk, hf⟩ := hL
      obtain ⟨-, h, -⟩ := step_cases hstep
      exact ⟨⟨h.consistent hdb hk, h.recorded hrecorded hf⟩, ⟨h.knows hdb hk, h.follows hdb hf⟩,
        h.spawned_eq_nil⟩)
    (by
      intro me x k db o other k' _ hstep hne _ hL hL'
      obtain ⟨hk, -⟩ := hL
      obtain ⟨hk', hf'⟩ := hL'
      obtain ⟨-, h, -⟩ := step_cases hstep
      exact ⟨h.knows_other hk (Ne.symm hne) hk', h.follows_other hf'⟩)

/-- The settlement of every payment is where its creating call stands. -/
def Staged (c : Config Db Call) : Prop :=
  ∀ (p : PaymentId) (a : Payment), c.store.payments[p]? = some a →
    ∃ k, c.calls[a.createdBy]? = some k ∧ k.op.isInitiate = true ∧ Stage c.store p a k

section Run

variable {env : Env} {db : Db} {c' : Config Db Call} {ts : List (Transition Db Call Input)}

theorem settlements_of_run (hrun : (payments env).Run ⟨db, []⟩ ts c')
    (hpayments : db.payments = []) (hwithholdings : db.withholdings = []) :
    (settlements env).Holds c' ∧ ∀ t ∈ ts, (settlements env).Holds t.pre := by
  have hnone : ∀ (p : PaymentId) (a : Payment), db.payments[p]? ≠ some a := by
    simp [hpayments]
  have hstart : (settlements env).Holds ⟨db, []⟩ := by
    refine ⟨⟨⟨?_, ?_, ?_⟩, ?_, ?_⟩, ?_⟩
    · intro p q a b ha
      exact absurd ha (hnone p a)
    · intro p a ha
      exact absurd ha (hnone p a)
    · intro p a ha
      exact absurd ha (hnone p a)
    · intro w hw
      simp [hwithholdings] at hw
    · intro p a ha
      exact absurd ha (hnone p a)
    · intro i k hk
      simp at hk
  obtain ⟨hend, hall⟩ :=
    (settlements env).holds_run hrun (fun t _ i x k _ _ => trivial) hstart
  exact ⟨hend, fun t ht => (hall t ht).1⟩

/-- One transition carries the settlements on. -/
theorem staged_step {t : Transition Db Call Input} (ht : (payments env).Fires t)
    (hC : t.Satisfies GoesThrough) (hholds : (settlements env).Holds t.pre) (hI : Staged t.pre) :
    Staged t.post := by
  obtain ⟨⟨hdb, hrecorded⟩, hcalls⟩ := hholds
  rcases stmt_of_fires ht with ⟨k, -, -, hpost⟩ | ⟨i, x, k, o, he, hk, hfin, h, -, hpost⟩
  · rw [hpost]
    intro p a ha
    obtain ⟨k', hk', hrest⟩ := hI p a ha
    exact ⟨k', List.getElem?_append_left (List.getElem?_eq_some_iff.mp hk').1 ▸ hk', hrest⟩
  · obtain ⟨hknows, hfollows⟩ := hcalls i k hk
    have hlt : i < t.pre.calls.length := (List.getElem?_eq_some_iff.mp hk).1
    have hself : (t.pre.calls.set i o.call)[i]? = some o.call := List.getElem?_set_self hlt
    rw [hpost]
    intro p b hb
    show ∃ k', (t.pre.calls.set i o.call)[b.createdBy]? = some k' ∧ k'.op.isInitiate = true ∧
      Stage o.store p b k'
    cases hpre : t.pre.store.payments[p]? with
    | none =>
        -- The payment is new: this call has created it.
        cases h.paymentEffect.rowEffect hb with
        | same ha | settled ha | resolved ha => simp [hpre] at ha
        | created =>
            cases h with
            | create =>
                refine ⟨_, hself, rfl, rfl, rfl, ?_⟩
                refine List.countP_eq_zero.mpr fun w hw => ?_
                have hknown := hrecorded.known w hw
                simpa using Nat.ne_of_lt hknown
            | fails | reads | rewardNone => simp at hb
    | some a =>
        obtain ⟨k', hk', hop, hstage⟩ := hI p a hpre
        obtain ⟨b', hb', -, -, hby⟩ := h.paymentEffect.row hpre
        obtain rfl := Option.some.inj (hb.symm.trans hb')
        rw [hby]
        by_cases hi : a.createdBy = i
        · rw [hi] at hk' ⊢
          obtain rfl := Option.some.inj (hk.symm.trans hk')
          exact ⟨o.call, hself, h.op_eq ▸ hop,
            h.stage_own hfin hfollows hop (hC i x k he hk) hpre hb hi hstage⟩
        · exact ⟨k', (List.getElem?_set_ne (Ne.symm hi)).trans hk', hop,
            h.stage_other hknows hfollows hpre hb hi hstage⟩

/-- **When settlement is all or nothing.** Never for a payment that succeeded: its tax
reference is not stored. The rest of the settlement has happened for all of them once no
call is in flight, where no awaited step failed after a commit of SUCCEEDED. -/
theorem allOrNothing_iff (hrun : (payments env).Run ⟨db, []⟩ ts c') (hpayments : db.payments = [])
    (hwithholdings : db.withholdings = []) (hquiet : ∀ k ∈ c'.calls, k.isFinished = true) :
    ((∀ (p : PaymentId) (a : Payment), c'.store.payments[p]? = some a → a.status = .succeeded →
        c'.store.AllOrNothing p a) ↔
      ∀ (p : PaymentId) (a : Payment), c'.store.payments[p]? = some a → a.status ≠ .succeeded) ∧
    ((∀ t ∈ ts, t.Satisfies GoesThrough) →
      ∀ (p : PaymentId) (a : Payment), c'.store.payments[p]? = some a → a.status = .succeeded →
        c'.store.Settled p a) := by
  obtain ⟨⟨⟨-, hrecorded⟩, -⟩, hall⟩ := settlements_of_run hrun hpayments hwithholdings
  refine ⟨⟨fun h p a ha hst => ?_, fun h p a ha hst => absurd hst (h p a ha)⟩, fun hC => ?_⟩
  · obtain ⟨w, -, -, hreference⟩ := (h p a ha hst).reference
    simp [hrecorded.unreferenced p a ha] at hreference
  · have hstaged : Staged c' := by
      refine (hrun.invariant Staged (fun t => t ∈ ts) (fun _ ht => ht) ?_ ?_).1
      · intro p a ha
        simp [hpayments] at ha
      · intro t ht hts hI
        exact staged_step ht (hC t hts) (hall t hts) hI
    intro p a ha hst
    obtain ⟨⟨op, pc⟩, hk, -, hstage⟩ := hstaged p a ha
    have hfin := hquiet _ (List.mem_of_getElem? hk)
    cases pc with
    | returned | threw => exact hstage hst
    | _ => simp [Call.isFinished] at hfin

end Run

/-- An attempt that fails, one that succeeds, and one that is refused. -/
def payThrice : List (Event Call Input) :=
  [.start ⟨.initiate 0 0 .click, .start⟩, .run 0 {}, .run 0 {}, .run 0 {}, .run 0 {},
    .run 0 { charge := { success := false, providerRef := "a" } }, .run 0 {}, .run 0 {},
    .start ⟨.initiate 0 0 .click, .start⟩, .run 1 {}, .run 1 {}, .run 1 {}, .run 1 {},
    .run 1 { charge := { success := true, providerRef := "b" } }, .run 1 {}, .run 1 {},
    .run 1 { reference := "t" }, .run 1 {}, .run 1 {},
    .start ⟨.initiate 0 0 .click, .start⟩, .run 2 {}, .run 2 {}, .run 2 {}]

theorem settled_payThrice :
    ∃ a, ((payments {}).after ⟨oneCompleted, []⟩ payThrice).store.payments[1]? = some a ∧
      a.status = .succeeded ∧
        ((payments {}).after ⟨oneCompleted, []⟩ payThrice).store.Settled 1 a := by
  have hsucceeded : ((payments {}).after ⟨oneCompleted, []⟩ payThrice).store.payments[1]?.any
      (fun a => a.status = .succeeded) := by
    decide +kernel
  obtain ⟨a, ha, hst⟩ := (Option.any_eq_true _ _).mp hsucceeded
  have hst : a.status = .succeeded := by simpa using hst
  exact ⟨a, ha, hst,
    (allOrNothing_iff ((payments {}).run_trace _ _) rfl rfl (by decide +kernel)).2
      (by decide +kernel) 1 a ha hst⟩

/-- The tax provider throws after the commit of SUCCEEDED; the customer tries again and is
refused, and a webhook for the payment changes nothing. -/
def withholdingThrows : List (Event Call Input) :=
  [.start ⟨.initiate 0 0 .click, .start⟩, .run 0 {}, .run 0 {}, .run 0 {}, .run 0 {},
    .run 0 { charge := { success := true, providerRef := "a" } }, .run 0 {}, .run 0 {},
    .run 0 { fail := true },
    .start ⟨.initiate 0 0 .click, .start⟩, .run 1 {}, .run 1 {}, .run 1 {},
    .start ⟨.handleWebhook "a" true none, .start⟩, .run 2 {}]

/-- A payment is left SUCCEEDED with nothing withheld. -/
theorem not_allOrNothing_always :
    ¬ ∀ (db : Db) (ts : List (Transition Db Call Input)) (c' : Config Db Call),
      (payments {}).Run ⟨db, []⟩ ts c' → db.payments = [] → db.withholdings = [] →
        (∀ k ∈ c'.calls, k.isFinished = true) →
        ∀ (p : PaymentId) (a : Payment), c'.store.payments[p]? = some a → a.status = .succeeded →
          c'.store.AllOrNothing p a := by
  intro h
  have hall := h oneCompleted _ _ ((payments {}).run_trace _ withholdingThrows) rfl rfl
    (by decide +kernel)
  have hrow : ((payments {}).after ⟨oneCompleted, []⟩ withholdingThrows).store.payments[0]?.map
      Payment.status = some .succeeded := by decide +kernel
  obtain ⟨a, ha, hst⟩ := Option.map_eq_some_iff.mp hrow
  have hzero :
      ((payments {}).after ⟨oneCompleted, []⟩ withholdingThrows).store.withheld 0 = 0 := by
    decide +kernel
  have hone := (hall 0 a ha hst).withheld
  omega

end Handly.Payments
