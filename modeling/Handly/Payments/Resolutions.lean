import Handly.Lib.OneDecision
import Handly.Payments.Effects

/-!
# Resolving a payment

`resolve` as a register of one decision: its `updateMany` matches only while `resolvedAt` is
null. `settle` writes the status by id alone, so a webhook that has read the payment before it
was refunded overwrites REFUNDED.
-/

namespace Handly.Payments

open Interleaving

/-- The columns that record a resolution. -/
structure Resolution where
  refunded : Bool
  resolvedByAdminId : Option UserId
  resolvedAt : Option Time
  resolutionNote : Option String
  deriving DecidableEq

/-- The resolution of a payment, once there is one. -/
def Payment.resolution (a : Payment) : Option Resolution :=
  if a.resolvedAt.isSome then
    some ⟨a.status = .refunded, a.resolvedByAdminId, a.resolvedAt, a.resolutionNote⟩
  else none

def resolutionOf (p : PaymentId) (db : Db) : Option Resolution :=
  db.payments[p]?.bind Payment.resolution

/-- The notification tells that this payment was resolved. -/
def tellsResolution (p : PaymentId) (n : Notification) : Bool :=
  n.paymentId = some p ∧ n.type = .paymentResolved

/-- How far a call has come with its resolution of the payment. -/
def Call.resolveStage (p : PaymentId) (k : Call) : OneDecision.Stage :=
  match k.pc, k.op with
  | .resolved _, .resolve q _ _ _ | .notifyResolved _, .resolve q _ _ _ =>
      if q = p then .written else .idle
  | .returned, .resolve q _ _ _ => if q = p then .done else .idle
  | _, _ => .idle

/-- The call resolves the payment. -/
def Op.Resolves (p : PaymentId) : Op → Prop
  | .resolve q _ _ _ => q = p
  | _ => False

/-- The resolution has the outcome, the admin and the note of the call, and a time. -/
def Op.Asks (op : Op) (r : Resolution) : Prop :=
  match op with
  | .resolve _ adminId refund note =>
      r.refunded = refund ∧ r.resolvedByAdminId = some adminId ∧ r.resolvedAt.isSome ∧
        r.resolutionNote = some note
  | _ => False

/-- The notification states the outcome of the call. -/
def Op.States (op : Op) (n : Notification) : Prop :=
  match op with
  | .resolve p _ refund note => ∃ payment, n = resolvedNotice p payment refund note
  | _ => False

/-- The resolution of one payment. -/
def resolutions (p : PaymentId) :
    OneDecision.Register Db Call Op Resolution Notification Db where
  decision := resolutionOf p
  notices db := db.notifications.filter (tellsResolution p)
  data db := { db with orderLock := fun _ => none }
  op := Call.op
  stage := Call.resolveStage p
  Decides := Op.Resolves p
  Asks := Op.Asks
  States := Op.States

/-- The payment is resolved once, and every call on it that does not complete its resolution
throws. -/
structure ResolvedOnce (p : PaymentId) (db : Db) (ts : List (Transition Db Call Input))
    (c' : Config Db Call) : Prop extends (resolutions p).MadeOnce db ts c' where
  throws : ∀ k ∈ c'.calls, k.op.Resolves p → k.isFinished = true → k.resolveStage p ≠ .done →
    ∃ e, k.pc = .threw e

/-- The next statement of the call is a write that settles the payment. -/
def Call.writesSettlement (p : PaymentId) (db : Db) (k : Call) : Bool :=
  match k.pc with
  | .settling q _ result => q = p ∧ db.providerRefTaken q result.providerRef = false
  | _ => false

/-- No statement of a call fails between the resolution of the payment and the end of the call,
and no write that settles the payment finds it REFUNDED. -/
def StaysResolved (p : PaymentId) (_me : ℕ) (x : Input) (k : Call) (db : Db) : Prop :=
  (k.resolveStage p = .written → x.fail = false) ∧
    (k.writesSettlement p db = true → x.fail = false →
      db.payments[p]?.map Payment.status ≠ some .refunded)

instance (p : PaymentId) (me : ℕ) (x : Input) (k : Call) (db : Db) :
    Decidable (StaysResolved p me x k db) :=
  inferInstanceAs (Decidable ((_ → _) ∧ (_ → _ → _)))

/-- A refunded payment is resolved. -/
def Db.RefundResolved (p : PaymentId) (db : Db) : Prop :=
  ∀ a, db.payments[p]? = some a → a.resolvedAt = none → a.status ≠ .refunded

/-- The point belongs to the settlement of a payment. -/
def Pc.Settles (pc : Pc) : Bool :=
  match pc with
  | .created _ _ | .settling _ _ _ | .succeeded _ _ | .recording _ _ _ | .notifySucceeded _ _
  | .reward _ | .rewarding _ _ | .crediting _ _ | .notifyReferrer _ | .notifyFailed _ _ => true
  | _ => false

/-- A call that resolves a payment settles none, and the payment that it has resolved is there. -/
def Call.HasResolved (db : Db) (k : Call) : Prop :=
  match k.op with
  | .resolve q _ _ _ => k.pc.Settles = false ∧
      ∀ payment, k.pc = .resolved payment → db.payments[q]?.isSome
  | _ => True

/-- The statements of a call of `resolve`. -/
inductive ResolveStmt (me : ℕ) (x : Input) (db : Db) (q : PaymentId) (adminId : UserId)
    (refund : Bool) (note : String) : Pc → Outcome Db Call → Prop
  | fails {pc} : x.fail = true → ResolveStmt me x db q adminId refund note pc
      ⟨db.unlock me, ⟨.resolve q adminId refund note, .threw .infrastructure⟩, []⟩
  | refused {pc e} : pc = .start ∨ (∃ payment, pc = .resolving payment) →
      ResolveStmt me x db q adminId refund note pc
        ⟨db, ⟨.resolve q adminId refund note, .threw e⟩, []⟩
  | read {payment} : ResolveStmt me x db q adminId refund note .start
      ⟨db, ⟨.resolve q adminId refund note, .resolving payment⟩, []⟩
  | resolve {payment row} : db.payments[q]? = some row → row.resolvedAt = none →
      ResolveStmt me x db q adminId refund note (.resolving payment)
        ⟨db.updatePayment q (resolveData adminId refund note x.now),
          ⟨.resolve q adminId refund note, .resolved payment⟩, []⟩
  | missing {payment} : db.payments[q]? = none →
      ResolveStmt me x db q adminId refund note (.resolved payment)
        ⟨db, ⟨.resolve q adminId refund note, .threw .infrastructure⟩, []⟩
  | readAgain {payment} : ResolveStmt me x db q adminId refund note (.resolved payment)
      ⟨db, ⟨.resolve q adminId refund note, .notifyResolved payment⟩, []⟩
  | notify {payment} : ResolveStmt me x db q adminId refund note (.notifyResolved payment)
      ⟨db.createNotification (resolvedNotice q payment refund note),
        ⟨.resolve q adminId refund note, .returned⟩, []⟩

section Moves

variable {env : Env} {me : ℕ} {x : Input} {k : Call} {db : Db} {o : Outcome Db Call}
  {p : PaymentId}

theorem Stmt.refundResolved (h : Stmt env me x db k o) (hdb : db.RefundResolved p) :
    o.store.RefundResolved p := by
  intro b hb hnull
  cases h.paymentEffect.rowEffect hb with
  | same ha => exact hdb b ha hnull
  | created => simp [paymentOf]
  | @settled op p payment result a ha =>
      rcases settleData_status result x.now a with hs | hs <;> simp [hs]
  | resolved => simp [resolveData] at hnull

/-- What a call of `resolve` runs. -/
theorem Stmt.resolve_cases {q : PaymentId} {adminId : UserId} {refund : Bool} {note : String}
    {pc : Pc} (h : Stmt env me x db ⟨.resolve q adminId refund note, pc⟩ o)
    (hpc : pc.Settles = false) : ResolveStmt me x db q adminId refund note pc o := by
  cases h with
  | fails hfail => exact .fails hfail
  | reads hr =>
      cases hr with
      | refused => exact .refused (Or.inl rfl)
      | resolving => exact .read
      | resolveLost => exact .refused (Or.inr ⟨_, rfl⟩)
      | resolvedMissing hnone => exact .missing hnone
      | resolvedRead => exact .readAgain
      | rewardReads henter => cases henter; simp [Pc.Settles] at hpc
      | _ => simp [Pc.Settles] at hpc
  | resolve hrow hnull => exact .resolve hrow hnull
  | notifyResolved => exact .notify
  | rewardNone henter => cases henter; simp [Pc.Settles] at hpc
  | _ => simp [Pc.Settles] at hpc

theorem Stmt.hasResolved (h : Stmt env me x db k o) (hk : k.HasResolved db) :
    o.call.HasResolved o.store := by
  have hop := h.op_eq
  obtain ⟨op, pc⟩ := k
  cases op with
  | resolve q adminId refund note =>
      cases h.resolve_cases hk.1 with
      | resolve hrow =>
          exact ⟨rfl, fun _ _ => Option.isSome_iff_exists.mpr ⟨_, Table.modify_of_row hrow _⟩⟩
      | _ => exact ⟨rfl, by simp⟩
  | _ =>
      unfold Call.HasResolved
      rw [hop]
      trivial

theorem Stmt.hasResolved_other (h : Stmt env me x db k o) {k' : Call} (hk' : k'.HasResolved db) :
    k'.HasResolved o.store := by
  obtain ⟨op, pc⟩ := k'
  cases op with
  | resolve q adminId refund note =>
      refine ⟨hk'.1, fun payment hpc => ?_⟩
      obtain ⟨a, ha⟩ := Option.isSome_iff_exists.mp (hk'.2 payment hpc)
      obtain ⟨b, hb, -⟩ := h.paymentEffect.row ha
      exact Option.isSome_iff_exists.mpr ⟨b, hb⟩
  | _ => trivial

/-- A call that has not finished and may fail here has written nothing. -/
theorem resolveStage_eq_idle (hfinished : k.isFinished = false)
    (hwritten : k.resolveStage p ≠ .written) : k.resolveStage p = .idle := by
  obtain ⟨op, pc⟩ := k
  cases op with
  | resolve q adminId refund note =>
      cases pc with
      | resolved payment | notifyResolved payment =>
          by_cases hq : q = p
          · exact absurd (if_pos hq) hwritten
          · exact if_neg hq
      | returned => simp [Call.isFinished] at hfinished
      | _ => rfl
  | _ => cases pc <;> rfl

theorem threw_of_finished (hresolves : k.op.Resolves p) (hfinished : k.isFinished = true)
    (hdone : k.resolveStage p ≠ .done) : ∃ e, k.pc = .threw e := by
  obtain ⟨op, pc⟩ := k
  cases op with
  | resolve q adminId refund note =>
      cases pc with
      | returned => exact absurd (if_pos hresolves) hdone
      | threw e => exact ⟨e, rfl⟩
      | _ => simp [Call.isFinished] at hfinished
  | _ => exact hresolves.elim

/-- A notification of another kind, or of another payment, is no notice of this resolution. -/
theorem resolutions_createNotification {n : Notification} :
    (resolutions p).notices (db.createNotification n) =
      (resolutions p).notices db ++ if tellsResolution p n then [n] else [] := by
  show List.filter _ (db.notifications ++ [n]) = _
  rw [List.filter_append]
  by_cases hn : tellsResolution p n <;> simp [resolutions, hn]

/-- The write that settles a payment which is not REFUNDED keeps its resolution. -/
theorem resolution_settleData {result : ChargeResult} {now : Time} {a : Payment}
    (hst : a.status ≠ .refunded) : (settleData result now a).resolution = a.resolution := by
  unfold settleData Payment.resolution
  split <;> simp [hst]

theorem resolutionOf_settle {q : PaymentId} {result : ChargeResult} {now : Time}
    (hst : q = p → db.payments[p]?.map Payment.status ≠ some .refunded) :
    resolutionOf p (db.updatePayment q (settleData result now)) = resolutionOf p db := by
  simp only [resolutionOf, Db.updatePayment_payments, List.getElem?_modify]
  cases hrow : db.payments[p]? with
  | none => rfl
  | some a =>
      by_cases hq : q = p
      · have hne : a.status ≠ .refunded := by simpa [hrow] using hst hq
        simp [hq, resolution_settleData hne]
      · simp [hq]

theorem resolutionOf_createPayment {row : Payment} (hnull : row.resolvedAt = none) :
    resolutionOf p (db.createPayment row) = resolutionOf p db := by
  simp only [resolutionOf, Db.createPayment_payments]
  cases hrow : db.payments[p]? with
  | some a => rw [Table.append_of_row hrow]
  | none =>
      cases hnew : (db.payments ++ [row])[p]? with
      | none => rfl
      | some b =>
          rcases Table.of_append hnew with hold | ⟨-, rfl⟩
          · simp [hrow] at hold
          · simp [Payment.resolution, hnull]

theorem resolution_resolveData {adminId : UserId} {refund : Bool} {note : String} {now : Time}
    {a : Payment} (hst : a.status ≠ .refunded) :
    (resolveData adminId refund note now a).resolution =
      some ⟨refund, some adminId, some now, some note⟩ := by
  cases refund <;> simp [Payment.resolution, resolveData, hst]

/-- A statement of `resolve` is a move. -/
theorem ResolveStmt.move {q : PaymentId} {adminId : UserId} {refund : Bool} {note : String}
    {pc : Pc} (h : ResolveStmt me x db q adminId refund note pc o) (hdb : db.RefundResolved p)
    (hk : Call.HasResolved db ⟨.resolve q adminId refund note, pc⟩)
    (hfinished : Call.isFinished ⟨.resolve q adminId refund note, pc⟩ = false)
    (hC : StaysResolved p me x ⟨.resolve q adminId refund note, pc⟩ db) :
    (resolutions p).Move db ⟨.resolve q adminId refund note, pc⟩ o.store o.call := by
  cases h with
  | fails hfail =>
      have hidle : Call.resolveStage p ⟨.resolve q adminId refund note, pc⟩ = .idle :=
        resolveStage_eq_idle hfinished fun hwritten => by simp [hC.1 hwritten] at hfail
      exact .keep rfl rfl hidle.symm fun _ => rfl
  | refused hpc => rcases hpc with rfl | ⟨payment, rfl⟩ <;> exact .keep rfl rfl rfl fun _ => rfl
  | read => exact .keep rfl rfl rfl fun _ => rfl
  | @resolve payment row hrow hnull =>
      by_cases hq : q = p
      · subst hq
        refine .write (d := ⟨refund, some adminId, some x.now, some note⟩) ?_ ?_ rfl rfl
          (if_pos rfl) ⟨rfl, rfl, rfl, rfl⟩
        · simp [resolutions, resolutionOf, hrow, Payment.resolution, hnull]
        · show (db.payments.modify q _)[q]?.bind _ = _
          rw [Table.modify_of_row hrow, if_pos rfl]
          exact resolution_resolveData (hdb row hrow hnull)
      · refine .keep ?_ rfl (if_neg hq) hq.elim
        show (db.payments.modify q _)[p]?.bind _ = _
        rw [List.getElem?_modify_ne _ _ hq]
        rfl
  | @missing payment hnone =>
      have hsome := hk.2 payment rfl
      simp [hnone] at hsome
  | readAgain => exact .keep rfl rfl rfl fun _ => rfl
  | @notify payment =>
      by_cases hq : q = p
      · subst hq
        refine .tell rfl ?_ (if_pos rfl) (if_pos rfl) ⟨payment, rfl⟩
        rw [resolutions_createNotification, if_pos (by simp [tellsResolution, resolvedNotice])]
      · refine .keep rfl ?_ ((if_neg hq).trans (if_neg hq).symm) hq.elim
        rw [resolutions_createNotification, if_neg (by simp [tellsResolution, resolvedNotice, hq]),
          List.append_nil]

theorem resolveStage_of_op (hop : ∀ q adminId refund note, k.op ≠ .resolve q adminId refund note) :
    k.resolveStage p = .idle := by
  obtain ⟨op, pc⟩ := k
  cases op with
  | resolve q adminId refund note => exact absurd rfl (hop q adminId refund note)
  | _ => cases pc <;> rfl

/-- Where the resolution of a payment stays, a statement of another method is a move. -/
theorem move_of_op (hop : ∀ q adminId refund note, k.op ≠ .resolve q adminId refund note)
    (hcall : o.call.op = k.op) (hdecision : resolutionOf p o.store = resolutionOf p db)
    (hnotices : (resolutions p).notices o.store = (resolutions p).notices db) :
    (resolutions p).Move db k o.store o.call := by
  refine .keep hdecision hnotices ?_ fun hresolves => ?_
  · exact (resolveStage_of_op (hcall ▸ hop)).trans (resolveStage_of_op hop).symm
  · obtain ⟨op, pc⟩ := k
    cases op with
    | resolve q adminId refund note => exact absurd rfl (hop q adminId refund note)
    | _ => exact hresolves.elim

/-- **Every statement of the service is a move.** -/
theorem Stmt.move (h : Stmt env me x db k o) (hdb : db.RefundResolved p) (hk : k.HasResolved db)
    (hfinished : k.isFinished = false)
    (hfails : x.fail = true → o = k.goto (db.unlock me) (.threw .infrastructure))
    (hC : StaysResolved p me x k db) : (resolutions p).Move db k o.store o.call := by
  by_cases hresolve : ∃ q adminId refund note, k.op = .resolve q adminId refund note
  · obtain ⟨q, adminId, refund, note, hop⟩ := hresolve
    obtain ⟨op, pc⟩ := k
    obtain rfl : op = .resolve q adminId refund note := hop
    exact (h.resolve_cases hk.1).move hdb hk hfinished hC
  · have hop : ∀ q adminId refund note, k.op ≠ .resolve q adminId refund note :=
      fun q adminId refund note heq => hresolve ⟨q, adminId, refund, note, heq⟩
    have hnotice : ∀ {n : Notification}, n.type ≠ .paymentResolved →
        (resolutions p).notices (db.createNotification n) = (resolutions p).notices db := by
      intro n hn
      rw [resolutions_createNotification, if_neg (by simp [tellsResolution, hn]), List.append_nil]
    have hx : ∀ {pc}, o.call.pc = pc → (∀ e, pc ≠ .threw e) → x.fail = false := by
      intro pc hpc hne
      by_contra hfail
      rw [hfails (by simpa using hfail)] at hpc
      exact hne _ hpc.symm
    have hcall := h.op_eq
    cases h with
    | create => exact move_of_op hop hcall (resolutionOf_createPayment rfl) rfl
    | settleSuccess _ htaken | settleFailure _ htaken =>
        refine move_of_op hop hcall (resolutionOf_settle fun hq => ?_) rfl
        subst hq
        exact hC.2 (by simp [Call.writesSettlement, htaken]) (hx rfl (by simp))
    | notifySucceeded | notifyFailed | notifyReferrer =>
        exact move_of_op hop hcall rfl
          (hnotice (by simp [succeededNotice, failedNotice, rewardNotice]))
    | resolve => exact absurd rfl (hop _ _ _ _)
    | notifyResolved => exact absurd rfl (hop _ _ _ _)
    | _ => exact move_of_op hop hcall rfl rfl

end Moves

/-- What is known of the payment, over a run. -/
def resolvedOutline (env : Env) (p : PaymentId) (C : ℕ → Input → Call → Db → Prop) :
    Outline (payments env) fun t => t.Satisfies C :=
  .ofSteps (payments env) C (Db.RefundResolved p) (fun db _ k => k.HasResolved db)
    (by
      intro db me k hentry _
      obtain ⟨op, pc⟩ := k
      cases pc with
      | start => cases op <;> first | trivial | exact ⟨rfl, by simp⟩
      | _ => simp [payments, Call.isStart] at hentry)
    (by
      intro me x k db o _ hstep hdb hk
      obtain ⟨-, h, -⟩ := step_cases hstep
      exact ⟨h.refundResolved hdb, h.hasResolved hk, h.spawned_eq_nil⟩)
    (by
      intro me x k db o other k' _ hstep _ _ _ hk'
      obtain ⟨-, h, -⟩ := step_cases hstep
      exact h.hasResolved_other hk')

/-- **A payment is resolved once.** -/
theorem resolvedOnce_of_run {env : Env} {p : PaymentId} {db : Db} {c' : Config Db Call}
    {ts : List (Transition Db Call Input)} (hrun : (payments env).Run ⟨db, []⟩ ts c')
    (hunresolved : ∀ a, db.payments[p]? = some a → a.resolvedAt = none ∧ a.status ≠ .refunded)
    (hC : ∀ t ∈ ts, t.Satisfies (StaysResolved p)) : ResolvedOnce p db ts c' := by
  have hholds := ((resolvedOutline env p (StaysResolved p)).holds_run hrun hC
    ⟨fun a ha _ => (hunresolved a ha).2, fun i k hk => by simp at hk⟩).2
  refine ⟨OneDecision.Register.madeOnce_of_run hrun (fun t ht => ?_) ?_,
    fun k _ hresolves hfinished hdone => threw_of_finished hresolves hfinished hdone⟩
  · rcases stmt_of_fires (hrun.fires t ht) with
      ⟨k, he, hstart, hpost⟩ | ⟨i, x, k, o, he, hi, hfinished, h, hfails, hpost⟩
    · refine .start he hpost ?_
      obtain ⟨op, pc⟩ := k
      obtain rfl : pc = .start := hstart
      cases op <;> rfl
    · obtain ⟨⟨hdb, hL⟩, -⟩ := hholds t ht
      exact .run he hi hpost h.op_eq
        (h.move hdb (hL i k hi) hfinished hfails (hC t ht i x k he hi))
  · cases hrow : db.payments[p]? with
    | none => simp [resolutions, resolutionOf, hrow]
    | some a =>
        simp [resolutions, resolutionOf, hrow, Payment.resolution, (hunresolved a hrow).1]

end Handly.Payments
