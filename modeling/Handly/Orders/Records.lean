import Handly.Dispatch.AcceptRace
import Handly.Orders.Quotes

/-!
# Well-formed order records

When calls run one at a time, a call acts on the rows that it has read. Then every order
keeps the columns that its status calls for: a category, a complexity and a price range once
it is PRICED, a master with an ACCEPTED dispatch from ASSIGNED on, a final amount in the
quoted range when it is COMPLETED, and a cancellation time when it is cancelled.
-/

namespace Handly

open Interleaving Checks

/-- The table leads from DRAFT to the status without passing SEARCHING. -/
inductive OrderStatus.ReachedUnsearched : OrderStatus → Prop
  | draft : ReachedUnsearched .draft
  | next {s t : OrderStatus} : ReachedUnsearched s → canTransition s t = true → t ≠ .searching →
      ReachedUnsearched t

/-- The order has a category, a complexity and a price range. -/
structure Order.Priced (row : Order) : Prop where
  categoryId : row.categoryId.isSome
  complexity : row.complexity.isSome
  range : ∃ lo hi, row.priceMin = some lo ∧ row.priceMax = some hi ∧ 30000 ≤ lo ∧ lo < hi

/-- An order has the columns that its status calls for. -/
structure WellFormed (db : Db) (orderId : OrderId) (row : Order) : Prop where
  /-- PRICED, or a status that is reached only through SEARCHING. -/
  priced : row.status = .priced ∨ ¬ row.status.ReachedUnsearched → row.Priced
  draft : row.status = .draft → row.priceMin = none ∧ row.priceMax = none
  /-- The order has a master exactly if it has exactly one ACCEPTED dispatch. -/
  accepted : row.masterId.isSome ↔ ∃! id, db.Accepted orderId id
  /-- And he is the master of that dispatch. -/
  master : ∀ (id : DispatchId) (d : OrderDispatch), db.dispatches[id]? = some d →
    d.orderId = orderId → d.status = .accepted → row.masterId = some d.masterId
  unassigned : row.status ∈ [.draft, .priced, .searching, .expired] → row.masterId = none
  assigned : row.status ∈
      [.assigned, .enRoute, .inProgress, .completed, .closed, .cancelledByMaster] →
    row.masterId.isSome
  finalAmount : row.finalAmount.isSome ↔ row.status = .completed ∨ row.status = .closed
  inRange : ∀ amount, row.finalAmount = some amount → ∃ lo hi, row.priceMin = some lo ∧
    row.priceMax = some hi ∧ lo ≤ amount ∧ amount ≤ hi
  cancelledAt : row.cancelledAt.isSome ↔
    row.status = .cancelledByCustomer ∨ row.status = .cancelledByMaster

/-- One call runs at a time: every other has not begun or has finished. -/
def OneAtATime (t : Transition Db Call Input) : Prop :=
  t.Satisfies fun i _ _ _ => ∀ r ∈ t.pre.calls.zipIdx, r.2 ≠ i → r.1.isStart = true ∨ r.1.Finished

instance (t : Transition Db Call Input) : Decidable (OneAtATime t) := by
  unfold OneAtATime
  infer_instance

/-! ### The table -/

theorem reachedUnsearched_iff {s : OrderStatus} :
    s.ReachedUnsearched ↔ s = .draft ∨ s = .priced ∨ s = .cancelledByCustomer := by
  constructor
  · intro h
    induction h with
    | draft => exact Or.inl rfl
    | @next s t _ hcan hne ih =>
        rcases ih with rfl | rfl | rfl <;> revert hcan hne <;> cases t <;> decide
  · intro h
    have hdraft := OrderStatus.ReachedUnsearched.draft
    rcases h with rfl | rfl | rfl
    · exact hdraft
    · exact hdraft.next rfl (by decide)
    · exact hdraft.next rfl (by decide)

theorem canTransition_enRoute {s : OrderStatus} :
    canTransition s .enRoute = true ↔ s = .assigned := by
  cases s <;> decide

theorem canTransition_inProgress {s : OrderStatus} :
    canTransition s .inProgress = true ↔ s = .enRoute := by
  cases s <;> decide

theorem canTransition_completed {s : OrderStatus} :
    canTransition s .completed = true ↔ s = .inProgress := by
  cases s <;> decide

theorem canTransition_closed {s : OrderStatus} :
    canTransition s .closed = true ↔ s = .completed := by
  cases s <;> decide

theorem canTransition_cancelledByMaster {s : OrderStatus} :
    canTransition s .cancelledByMaster = true ↔ s = .assigned ∨ s = .enRoute := by
  cases s <;> decide

theorem not_completed_of_canTransition_cancelled {s : OrderStatus}
    (h : canTransition s .cancelledByCustomer = true) : s ≠ .completed ∧ s ≠ .closed := by
  revert h
  cases s <;> decide

/-! ### What a call has read -/

/-- The snapshots of the call are the rows as they are, and they have passed its checks. -/
def Call.Current (db : Db) (k : Call) : Prop :=
  match k.pc, k.op with
  | .guarded order, .updateDraft _ orderId _ | .guarded order, .diagnose _ orderId
  | .diagnosing order _, .diagnose _ orderId =>
      db.orders[orderId]? = some order ∧ order.status.Editable
  | .quoted order diagnosis _ quote, .diagnose _ orderId =>
      (db.orders[orderId]? = some order ∧ order.status.Editable) ∧ ∃ baseMin baseMax tier,
        quote = computeQuote baseMin baseMax diagnosis.complexity tier
  | .guarded order, .submit _ orderId =>
      db.orders[orderId]? = some order ∧ order.status = .priced
  | .guarded order, .lifecycle l =>
      db.orders[l.spec.orderId]? = some order ∧ canTransition order.status l.spec.target = true ∧
        l.spec.check order = .ok ()
  | .ownOffer dispatch, .acceptOffer dispatchId masterId
  | .locked dispatch, .acceptOffer dispatchId masterId =>
      db.dispatches[dispatchId]? = some dispatch ∧ dispatch.masterId = masterId
  | .lockedOrder dispatch order, .acceptOffer dispatchId masterId =>
      (db.dispatches[dispatchId]? = some dispatch ∧ dispatch.masterId = masterId) ∧
        db.orders[dispatch.orderId]? = some order
  | .accepting dispatch order, .acceptOffer dispatchId masterId =>
      (db.dispatches[dispatchId]? = some dispatch ∧ dispatch.masterId = masterId) ∧
        db.orders[dispatch.orderId]? = some order ∧ dispatch.status = .offered ∧
        order.status = .searching
  | .failSearchWrite orderId _ order, _ =>
      db.orders[orderId]? = some order ∧ order.status = .searching
  | _, _ => True

section Current

variable {env : Env} {me : ℕ} {x : Input} {k : Call} {db : Db} {o : Outcome Db Call}

theorem updateDraftGuard_eq_ok {now : Time} {customerId : UserId} {orderId : OrderId}
    {dto : OrderUpdateInput} {order : Order}
    (h : updateDraftGuard db now customerId orderId dto = .ok order) :
    db.orders[orderId]? = some order ∧ order.status.Editable := by
  simp only [updateDraftGuard, bind_eq_ok, check_eq_ok] at h
  obtain ⟨row, hrow, hst, h⟩ := h
  obtain rfl : row = order := by
    split at h
    · obtain ⟨_, -, h⟩ := bind_eq_ok.mp h
      split at h
      · obtain ⟨_, -, h⟩ := bind_eq_ok.mp h
        exact pure_eq_ok.mp h
      · exact pure_eq_ok.mp h
    · split at h
      · obtain ⟨_, -, h⟩ := bind_eq_ok.mp h
        exact pure_eq_ok.mp h
      · exact pure_eq_ok.mp h
  exact ⟨(getOwned_eq_ok hrow).1, of_not_not hst⟩

theorem diagnoseGuard_eq_ok {customerId : UserId} {orderId : OrderId} {order : Order}
    (h : diagnoseGuard db customerId orderId = .ok order) :
    db.orders[orderId]? = some order ∧ order.status.Editable := by
  simp only [diagnoseGuard, bind_eq_ok, check_eq_ok, pure_eq_ok, Bool.not_eq_true',
    Bool.not_eq_false, canTransition_priced] at h
  obtain ⟨row, hrow, hst, rfl⟩ := h
  exact ⟨(getOwned_eq_ok hrow).1, editable_iff.mpr hst⟩

theorem Reads.current {op : Op} {pc pc' : Pc} (h : Reads env x db op pc pc')
    (hk : Call.Current db ⟨op, pc⟩) : Call.Current db ⟨op, pc'⟩ := by
  cases h with
  | @guarded op order hguard =>
      cases op with
      | updateDraft => exact updateDraftGuard_eq_ok (Option.some.inj hguard)
      | diagnose => exact diagnoseGuard_eq_ok (Option.some.inj hguard)
      | submit => exact submitGuard_eq_ok (Option.some.inj hguard)
      | lifecycle l =>
          obtain ⟨hrow, -, hcan, hcheck⟩ :=
            GuardedTransition.guard_eq_ok (Option.some.inj hguard)
          exact ⟨hrow, hcan, hcheck⟩
      | _ => simp [Op.guard] at hguard
  | categories => exact hk
  | quoted hquote =>
      obtain ⟨c, -, hquote⟩ := quoteFor_eq_ok hquote
      exact ⟨hk, _, _, _, hquote⟩
  | acceptOwn hrow hm => exact ⟨hrow, hm⟩
  | acceptOrder hrow => exact ⟨hk, hrow⟩
  | acceptFresh hfresh hcheck =>
      obtain ⟨⟨hrow, hm⟩, horder⟩ := hk
      obtain rfl := Option.some.inj (hrow.symm.trans hfresh)
      obtain ⟨hoffered, -, hsearching⟩ := acceptCheck_eq_ok hcheck
      exact ⟨⟨hrow, hm⟩, horder, hoffered, hsearching⟩
  | failSearchReads _ hrow hst => exact ⟨hrow, hst⟩
  | _ => trivial

theorem Stmt.current (h : Stmt env me x db k o) (hk : k.Current db) :
    o.call.Current o.store := by
  cases h with
  | reads hr => exact hr.current hk
  | acceptLock => exact hk
  | _ => trivial

/-- A call that has not begun or has finished has read nothing. -/
theorem Call.current_of_idle (h : k.isStart = true ∨ k.Finished) : k.Current db := by
  obtain ⟨op, pc⟩ := k
  cases pc with
  | start | returned | threw => trivial
  | _ => simp [Call.isStart, Call.Finished] at h

end Current

/-! ### The columns of one row -/

/-- The columns that the status calls for, as far as they concern the row alone. The last
field is what a settlement relies on. -/
structure Order.Columns (row : Order) : Prop where
  priced : row.status ≠ .draft → row.status ≠ .cancelledByCustomer → row.Priced
  draft : row.status = .draft → row.priceMin = none ∧ row.priceMax = none
  unassigned : row.status ∈ [.draft, .priced, .searching, .expired] → row.masterId = none
  assigned : row.status ∈
      [.assigned, .enRoute, .inProgress, .completed, .closed, .cancelledByMaster] →
    row.masterId.isSome
  finalAmount : row.finalAmount.isSome ↔ row.status = .completed ∨ row.status = .closed
  inRange : ∀ amount, row.finalAmount = some amount → ∃ lo hi, row.priceMin = some lo ∧
    row.priceMax = some hi ∧ lo ≤ amount ∧ amount ≤ hi
  cancelledAt : row.cancelledAt.isSome ↔
    row.status = .cancelledByCustomer ∨ row.status = .cancelledByMaster
  platformFee : 0 ≤ row.platformFee ∧ row.platformFee ≤ 30000

section Columns

variable {row : Order}

theorem Order.Columns.finalAmount_eq_none (hc : row.Columns)
    (hst : row.status ≠ .completed ∧ row.status ≠ .closed) : row.finalAmount = none := by
  rw [← Option.not_isSome_iff_eq_none, hc.finalAmount]
  exact not_or.mpr hst

theorem Order.Columns.cancelledAt_eq_none (hc : row.Columns)
    (hst : row.status ≠ .cancelledByCustomer ∧ row.status ≠ .cancelledByMaster) :
    row.cancelledAt = none := by
  rw [← Option.not_isSome_iff_eq_none, hc.cancelledAt]
  exact not_or.mpr hst

/-- Before a master has accepted, nothing but the quote is written. -/
theorem Order.Columns.unstarted (hc : row.Columns)
    (hst : row.status = .draft ∨ row.status = .priced ∨ row.status = .searching) :
    row.masterId = none ∧ row.finalAmount = none ∧ row.cancelledAt = none := by
  refine ⟨hc.unassigned ?_, hc.finalAmount_eq_none ?_, hc.cancelledAt_eq_none ?_⟩ <;>
    rcases hst with hst | hst | hst <;> rw [hst] <;> decide

/-- A quoted order that no master has accepted. -/
theorem Order.Columns.quoted
    (hst : row.status = .priced ∨ row.status = .searching ∨ row.status = .expired)
    (hpriced : row.Priced)
    (hblank : row.masterId = none ∧ row.finalAmount = none ∧ row.cancelledAt = none)
    (hfee : 0 ≤ row.platformFee ∧ row.platformFee ≤ 30000) : row.Columns := by
  obtain ⟨hmaster, hfinal, hcancelled⟩ := hblank
  rcases hst with hst | hst | hst <;>
    exact ⟨fun _ _ => hpriced, by simp [hst], fun _ => hmaster, by simp [hst],
      by simp [hst, hfinal], by simp [hfinal], by simp [hst, hcancelled], hfee⟩

theorem computeQuote_range (baseMin baseMax : ℤ) (complexity : Complexity) (tier : ServiceTier) :
    30000 ≤ (computeQuote baseMin baseMax complexity tier).priceMin ∧
      (computeQuote baseMin baseMax complexity tier).priceMin <
        (computeQuote baseMin baseMax complexity tier).priceMax := by
  refine ⟨le_max_left _ _, ?_⟩
  refine lt_of_lt_of_le ?_ (le_max_left _ _)
  exact lt_add_of_pos_right _ (by decide)

theorem platformFee_range (tier : ServiceTier) :
    0 ≤ tier.platformFee ∧ tier.platformFee ≤ 30000 := by
  cases tier <;> decide

/-- The range check of `completeService`, where there is a range. -/
theorem finalAmountCheck_eq_ok {finalAmount lo hi : ℤ}
    (h : Lifecycle.finalAmountCheck finalAmount row = .ok ()) (hlo : row.priceMin = some lo)
    (hhi : row.priceMax = some hi) : lo ≤ finalAmount ∧ finalAmount ≤ hi := by
  simp only [Lifecycle.finalAmountCheck, hlo, hhi, ite_error_eq_ok] at h
  omega

/-- The master is on his way or at work. -/
theorem Order.Columns.advanced (hc : row.Columns)
    (hst : row.status = .assigned ∨ row.status = .enRoute) {s : OrderStatus}
    (hs : s = .enRoute ∨ s = .inProgress) : Order.Columns { row with status := s } := by
  have hmaster := hc.assigned (by rcases hst with hst | hst <;> simp [hst])
  have hfinal := hc.finalAmount_eq_none (by rcases hst with hst | hst <;> simp [hst])
  have hcancelled := hc.cancelledAt_eq_none (by rcases hst with hst | hst <;> simp [hst])
  have hpriced := hc.priced (by rcases hst with hst | hst <;> simp [hst])
    (by rcases hst with hst | hst <;> simp [hst])
  rcases hs with rfl | rfl <;>
    exact ⟨fun _ _ => ⟨hpriced.categoryId, hpriced.complexity, hpriced.range⟩, by simp, by simp,
      fun _ => hmaster, by simp [hfinal], by simp [hfinal], by simp [hcancelled], hc.platformFee⟩

/-- A guarded transition of a well-formed row. -/
theorem Order.Columns.moved (hc : row.Columns) {l : Lifecycle}
    (hcan : canTransition row.status l.spec.target = true) (hcheck : l.spec.check row = .ok ())
    (now : Time) : Order.Columns { l.spec.data now row with status := l.spec.target } := by
  cases l with
  | cancel customerId orderId =>
      have hfinal := hc.finalAmount_eq_none (not_completed_of_canTransition_cancelled hcan)
      exact ⟨fun _ hne => absurd rfl hne, by simp [Lifecycle.spec], by simp [Lifecycle.spec],
        by simp [Lifecycle.spec], by simp [Lifecycle.spec, hfinal],
        by simp [Lifecycle.spec, hfinal], by simp [Lifecycle.spec], hc.platformFee⟩
  | startEnRoute masterId orderId =>
      exact hc.advanced (Or.inl (canTransition_enRoute.mp hcan)) (Or.inl rfl)
  | startService masterId orderId =>
      exact hc.advanced (Or.inr (canTransition_inProgress.mp hcan)) (Or.inr rfl)
  | completeService masterId orderId finalAmount =>
      have hst := canTransition_completed.mp hcan
      have hmaster := hc.assigned (by simp [hst])
      have hcancelled := hc.cancelledAt_eq_none (by simp [hst])
      have hpriced := hc.priced (by simp [hst]) (by simp [hst])
      obtain ⟨lo, hi, hlo, hhi, -, -⟩ := hpriced.range
      have hrange := finalAmountCheck_eq_ok hcheck hlo hhi
      refine ⟨fun _ _ => ⟨hpriced.categoryId, hpriced.complexity, hpriced.range⟩,
        by simp [Lifecycle.spec], by simp [Lifecycle.spec], fun _ => hmaster,
        by simp [Lifecycle.spec], ?_, by simp [Lifecycle.spec, hcancelled], hc.platformFee⟩
      intro amount hamount
      obtain rfl := Option.some.inj hamount
      exact ⟨lo, hi, hlo, hhi, hrange⟩
  | confirmCompletion customerId orderId =>
      have hst := canTransition_closed.mp hcan
      have hmaster := hc.assigned (by simp [hst])
      have hfinal := hc.finalAmount.mpr (Or.inl hst)
      have hcancelled := hc.cancelledAt_eq_none (by simp [hst])
      have hpriced := hc.priced (by simp [hst]) (by simp [hst])
      exact ⟨fun _ _ => ⟨hpriced.categoryId, hpriced.complexity, hpriced.range⟩,
        by simp [Lifecycle.spec], by simp [Lifecycle.spec], fun _ => hmaster,
        by simp [Lifecycle.spec, hfinal], hc.inRange, by simp [Lifecycle.spec, hcancelled],
        hc.platformFee⟩
  | cancelByMaster masterId orderId reason =>
      have hst := canTransition_cancelledByMaster.mp hcan
      have hmaster := hc.assigned (by rcases hst with hst | hst <;> simp [hst])
      have hfinal := hc.finalAmount_eq_none (by rcases hst with hst | hst <;> simp [hst])
      have hpriced := hc.priced (by rcases hst with hst | hst <;> simp [hst])
        (by rcases hst with hst | hst <;> simp [hst])
      exact ⟨fun _ _ => ⟨hpriced.categoryId, hpriced.complexity, hpriced.range⟩,
        by simp [Lifecycle.spec], by simp [Lifecycle.spec], fun _ => hmaster,
        by simp [Lifecycle.spec, hfinal], by simp [Lifecycle.spec, hfinal],
        by simp [Lifecycle.spec], hc.platformFee⟩

end Columns

/-- A statement of a call whose snapshots are current keeps the columns well-formed. -/
theorem OrderEffect.columns {x : Input} {k : Call} {db : Db} {id : OrderId} {row' : Order}
    (h : OrderEffect x db k id row') (hk : k.Current db)
    (hrows : ∀ (id : ℕ) (row : Order), db.orders[id]? = some row → row.Columns) :
    row'.Columns := by
  cases h with
  | same hrow => exact hrows _ _ hrow
  | created =>
      exact ⟨fun hne => absurd rfl hne, fun _ => ⟨rfl, rfl⟩, fun _ => rfl, by simp [draftOf],
        by simp [draftOf], by simp [draftOf], by simp [draftOf], by simp [draftOf]⟩
  | @edited customerId id dto order row hrow =>
      have hc := hrows _ _ hrow
      refine ⟨fun hdraft hcancel => ?_, hc.draft, hc.unassigned, hc.assigned, hc.finalAmount,
        hc.inRange, hc.cancelledAt, hc.platformFee⟩
      have hpriced := hc.priced hdraft hcancel
      refine ⟨?_, hpriced.complexity, hpriced.range⟩
      show (dto.categoryId <|> row.categoryId).isSome
      simp [hpriced.categoryId]
  | reopened row hrow =>
      obtain ⟨hread, hst⟩ := hk
      obtain rfl := Option.some.inj (hread.symm.trans hrow)
      have hc := hrows _ _ hrow
      obtain ⟨hmaster, hfinal, hcancelled⟩ :=
        hc.unstarted ((editable_iff.mp hst).imp_right Or.inl)
      exact ⟨fun hne => absurd rfl hne, fun _ => ⟨rfl, rfl⟩, fun _ => hmaster, by simp,
        by simp [OrderUpdateInput.apply, hfinal], by simp [OrderUpdateInput.apply, hfinal],
        by simp [OrderUpdateInput.apply, hcancelled], hc.platformFee⟩
  | diagnosed row hrow =>
      obtain ⟨⟨hread, hst⟩, baseMin, baseMax, tier, rfl⟩ := hk
      obtain rfl := Option.some.inj (hread.symm.trans hrow)
      have hblank := (hrows _ _ hrow).unstarted ((editable_iff.mp hst).imp_right Or.inl)
      exact .quoted (Or.inl rfl) ⟨rfl, rfl, _, _, rfl, rfl, computeQuote_range _ _ _ _⟩ hblank
        (platformFee_range tier)
  | submitted row hrow =>
      obtain ⟨hread, hst⟩ := hk
      obtain rfl := Option.some.inj (hread.symm.trans hrow)
      have hc := hrows _ _ hrow
      have hpriced := hc.priced (by simp [hst]) (by simp [hst])
      exact .quoted (Or.inr (Or.inl rfl))
        ⟨hpriced.categoryId, hpriced.complexity, hpriced.range⟩
        (hc.unstarted (Or.inr (Or.inl hst))) hc.platformFee
  | moved row hrow =>
      obtain ⟨hread, hcan, hcheck⟩ := hk
      obtain rfl := Option.some.inj (hread.symm.trans hrow)
      exact (hrows _ _ hrow).moved hcan hcheck x.now
  | assigned row hrow =>
      obtain ⟨-, hread, -, hst⟩ := hk
      obtain rfl := Option.some.inj (hread.symm.trans hrow)
      have hc := hrows _ _ hrow
      obtain ⟨-, hfinal, hcancelled⟩ := hc.unstarted (Or.inr (Or.inr hst))
      have hpriced := hc.priced (by simp [hst]) (by simp [hst])
      exact ⟨fun _ _ => ⟨hpriced.categoryId, hpriced.complexity, hpriced.range⟩, by simp,
        by simp, fun _ => rfl, by simp [hfinal], by simp [hfinal], by simp [hcancelled],
        hc.platformFee⟩
  | expired row hrow =>
      obtain ⟨hread, hst⟩ := hk
      obtain rfl := Option.some.inj (hread.symm.trans hrow)
      have hc := hrows _ _ hrow
      have hpriced := hc.priced (by simp [hst]) (by simp [hst])
      exact .quoted (Or.inr (Or.inr rfl))
        ⟨hpriced.categoryId, hpriced.complexity, hpriced.range⟩
        (hc.unstarted (Or.inr (Or.inr hst))) hc.platformFee

/-! ### Masters and ACCEPTED dispatches -/

/-- An order has a master exactly if it has an ACCEPTED dispatch, and it has one at most. -/
structure MastersMatch (db : Db) : Prop where
  master : ∀ (id : ℕ) (d : OrderDispatch), db.dispatches[id]? = some d → d.status = .accepted →
    ∃ row, db.orders[d.orderId]? = some row ∧ row.masterId = some d.masterId
  accepted : ∀ (orderId : ℕ) (row : Order), db.orders[orderId]? = some row →
    row.masterId.isSome → ∃ id, db.Accepted orderId id
  unique : ∀ (id id' : ℕ) (orderId : OrderId), db.Accepted orderId id →
    db.Accepted orderId id' → id = id'

section MastersMatch

variable {env : Env} {me : ℕ} {x : Input} {k : Call} {db : Db} {o : Outcome Db Call}

/-- Only the commit of an `acceptOffer` accepts a dispatch. -/
theorem DispatchEffect.accepted_before {id : DispatchId} {d : OrderDispatch}
    (h : DispatchEffect env x db k id d) (hst : d.status = .accepted)
    (hk : ∀ dispatchId masterId dispatch order,
      k ≠ ⟨.acceptOffer dispatchId masterId, .accepting dispatch order⟩) :
    db.dispatches[id]? = some d := by
  cases h with
  | same hrow => exact hrow
  | inserted => nomatch hst
  | accepted => exact absurd rfl (hk _ _ _ _)
  | closed _ _ hne => exact absurd hst hne

/-- An ACCEPTED dispatch stays as it is. -/
theorem Stmt.accepted_stays (h : Stmt env me x db k o) (hk : k.Current db) {id : ℕ}
    {d : OrderDispatch} (hd : db.dispatches[id]? = some d) (hst : d.status = .accepted) :
    o.store.dispatches[id]? = some d := by
  have hlt := (List.getElem?_eq_some_iff.mp hd).1
  obtain ⟨d', hd'⟩ : ∃ d', o.store.dispatches[id]? = some d' :=
    ⟨_, List.getElem?_eq_getElem (Nat.lt_of_lt_of_le hlt h.dispatches_length)⟩
  rw [hd']
  cases h.dispatchEffect hd' with
  | same hrow => exact hrow.symm.trans hd
  | inserted => simp at hd
  | accepted hrow =>
      -- The one that is being accepted was OFFERED.
      obtain ⟨⟨hread, -⟩, -, hoffered, -⟩ := hk
      obtain rfl := Option.some.inj (hread.symm.trans hd)
      simp [hst] at hoffered
  | closed hrow hoffered =>
      obtain rfl := Option.some.inj (hrow.symm.trans hd)
      simp [hst] at hoffered

/-- Any other statement than the commit of an `acceptOffer` leaves the masters. -/
theorem Stmt.master_stays (h : Stmt env me x db k o)
    (hk : ∀ dispatchId masterId dispatch order,
      k ≠ ⟨.acceptOffer dispatchId masterId, .accepting dispatch order⟩) {id : ℕ} {row : Order}
    (hrow : db.orders[id]? = some row) :
    ∃ row', o.store.orders[id]? = some row' ∧ row'.masterId = row.masterId := by
  have hjob : ∃ job, o.store.jobs[id]? = some job ∧ job.masterId = row.masterId := by
    rcases h.jobs.job_before (Db.jobs_of_order hrow) with hsame | ⟨w, hw, -, -, hwritten, -⟩
    · exact ⟨row.job, hsame, rfl⟩
    · refine ⟨_, hwritten, ?_⟩
      cases hw with
      | accept => exact absurd rfl (hk _ _ _ _)
      | _ => rfl
  obtain ⟨job, hjob, hmaster⟩ := hjob
  rw [Db.jobs_getElem?] at hjob
  obtain ⟨row', hrow', rfl⟩ := Option.map_eq_some_iff.mp hjob
  exact ⟨row', hrow', hmaster⟩

theorem OrderEffect.master_before {id : OrderId} {row' : Order} (h : OrderEffect x db k id row')
    (hmaster : row'.masterId.isSome) (hk : ∀ dispatchId masterId dispatch order,
      k ≠ ⟨.acceptOffer dispatchId masterId, .accepting dispatch order⟩) :
    ∃ row, db.orders[id]? = some row ∧ row.masterId.isSome := by
  cases h with
  | same hrow => exact ⟨row', hrow, hmaster⟩
  | created => nomatch hmaster
  | edited hrow => exact ⟨_, hrow, hmaster⟩
  | reopened row hrow | diagnosed row hrow | submitted row hrow | expired row hrow =>
      exact ⟨row, hrow, hmaster⟩
  | @moved l order row hrow =>
      refine ⟨row, hrow, ?_⟩
      cases l <;> exact hmaster
  | assigned => exact absurd rfl (hk _ _ _ _)

theorem MastersMatch.step_other (hM : MastersMatch db) (h : Stmt env me x db k o)
    (hcur : k.Current db) (hk : ∀ dispatchId masterId dispatch order,
      k ≠ ⟨.acceptOffer dispatchId masterId, .accepting dispatch order⟩) :
    MastersMatch o.store := by
  have hbefore : ∀ {orderId : OrderId} {id : DispatchId}, o.store.Accepted orderId id →
      db.Accepted orderId id := by
    intro orderId id hacc
    obtain ⟨d, hd, hid, hst⟩ := hacc
    exact ⟨d, (h.dispatchEffect hd).accepted_before hst hk, hid, hst⟩
  refine ⟨fun id d hd hst => ?_, fun orderId row' hrow' hmaster => ?_,
    fun id id' orderId hid hid' => hM.unique id id' orderId (hbefore hid) (hbefore hid')⟩
  · obtain ⟨row, hrow, hmaster⟩ :=
      hM.master id d ((h.dispatchEffect hd).accepted_before hst hk) hst
    obtain ⟨row', hrow', hsame⟩ := h.master_stays hk hrow
    exact ⟨row', hrow', hsame.trans hmaster⟩
  · obtain ⟨row, hrow, hbefore⟩ := (h.orderEffect hrow').master_before hmaster hk
    obtain ⟨id, d, hd, hid, hst⟩ := hM.accepted orderId row hrow hbefore
    exact ⟨id, d, h.accepted_stays hcur hd hst, hid, hst⟩

/-- The commit of an `acceptOffer`, whose order had no master. -/
theorem MastersMatch.step_accept (hM : MastersMatch db) {dispatchId : DispatchId}
    {masterId : UserId} {dispatch : OrderDispatch} {order : Order}
    (h : Stmt env me x db ⟨.acceptOffer dispatchId masterId, .accepting dispatch order⟩ o)
    (hx : x.fail = false)
    (hcur : Call.Current db ⟨.acceptOffer dispatchId masterId, .accepting dispatch order⟩)
    (hnone : order.masterId = none) : MastersMatch o.store := by
  have hstays := @Stmt.accepted_stays _ _ _ _ _ _ h hcur
  obtain ⟨⟨hd, hm⟩, horder, -, -⟩ := hcur
  have hrows : ∀ {id : ℕ} {row : Order}, db.orders[id]? = some row →
      o.store.orders[id]? = some (if dispatch.orderId = id then
        { row with status := .assigned, masterId := some masterId } else row) := by
    intro id row hrow
    rw [h.accept_eq hx]
    exact Table.modify_of_row hrow dispatch.orderId
  have haccepted : o.store.dispatches[dispatchId]? = some (dispatch.accept x.now) := by
    rw [h.accept_eq hx]
    simp [acceptWrite, List.getElem?_mapIdx, Table.modify_of_row hd]
  -- The order had no ACCEPTED dispatch.
  have hfirst : ∀ {id : DispatchId}, ¬ db.Accepted dispatch.orderId id := by
    intro id hacc
    obtain ⟨d, hd', hid, hst⟩ := hacc
    obtain ⟨row, hrow, hmaster⟩ := hM.master id d hd' hst
    rw [hid] at hrow
    obtain rfl := Option.some.inj (hrow.symm.trans horder)
    simp [hnone] at hmaster
  -- An ACCEPTED dispatch was ACCEPTED before, or it is this one.
  have hbefore : ∀ {orderId : OrderId} {id : DispatchId}, o.store.Accepted orderId id →
      db.Accepted orderId id ∨ id = dispatchId ∧ orderId = dispatch.orderId := by
    intro orderId id hacc
    obtain ⟨d', hd', hid, hst⟩ := hacc
    cases h.dispatchEffect hd' with
    | same hrow => exact Or.inl ⟨d', hrow, hid, hst⟩
    | accepted hrow =>
        obtain rfl := Option.some.inj (hrow.symm.trans hd)
        exact Or.inr ⟨rfl, hid.symm⟩
    | closed _ _ hne => exact absurd hst hne
  refine ⟨fun id d' hd' hst => ?_, fun orderId row' hrow' hmaster => ?_,
    fun id id' orderId hid hid' => ?_⟩
  · rcases hbefore ⟨d', hd', rfl, hst⟩ with ⟨d, hrow, hid, hacc⟩ | ⟨rfl, hid⟩
    · obtain rfl := Option.some.inj ((hstays hrow hacc).symm.trans hd')
      obtain ⟨row, hrow₁, hmaster⟩ := hM.master id d hrow hacc
      have hne : dispatch.orderId ≠ d.orderId := fun he => hfirst ⟨d, hrow, he.symm, hacc⟩
      exact ⟨row, by rw [hrows hrow₁, if_neg hne], hmaster⟩
    · obtain rfl := Option.some.inj (haccepted.symm.trans hd')
      refine ⟨_, hrows horder, ?_⟩
      simp [OrderDispatch.accept, hm]
  · by_cases hid : dispatch.orderId = orderId
    · exact ⟨dispatchId, _, haccepted, hid, rfl⟩
    · cases h.orderEffect hrow' with
      | same hrow =>
          obtain ⟨id, d, hrow₁, hid', hst⟩ := hM.accepted orderId row' hrow hmaster
          exact ⟨id, d, hstays hrow₁ hst, hid', hst⟩
      | assigned => exact absurd rfl hid
  · rcases hbefore hid with hold | ⟨rfl, he⟩
    · rcases hbefore hid' with hold' | ⟨-, rfl⟩
      · exact hM.unique id id' orderId hold hold'
      · exact absurd hold hfirst
    · rcases hbefore hid' with hold' | ⟨rfl, -⟩
      · exact absurd (he ▸ hold') hfirst
      · rfl

/-- A statement of a call whose snapshots are current keeps masters and dispatches
together. -/
theorem MastersMatch.step (hM : MastersMatch db) (h : Stmt env me x db k o)
    (hfails : x.fail = true → o = k.goto (db.unlock me) (.threw .infrastructure))
    (hcur : k.Current db)
    (hrows : ∀ (id : ℕ) (row : Order), db.orders[id]? = some row → row.Columns) :
    MastersMatch o.store := by
  cases hx : x.fail with
  | true =>
      rw [hfails hx]
      exact ⟨hM.master, hM.accepted, hM.unique⟩
  | false =>
      by_cases haccept : ∃ dispatchId masterId dispatch order,
          k = ⟨.acceptOffer dispatchId masterId, .accepting dispatch order⟩
      · obtain ⟨dispatchId, masterId, dispatch, order, rfl⟩ := haccept
        have hst := hcur.2.2.2
        exact hM.step_accept h hx hcur
          ((hrows _ _ hcur.2.1).unstarted (Or.inr (Or.inr hst))).1
      · push Not at haccept
        exact hM.step_other h hcur haccept

end MastersMatch

/-! ### Whole runs -/

section Run

variable {env : Env} {db : Db} {c' : Config Db Call} {ts : List (Transition Db Call Input)}

/-- The columns and the masters, with calls whose snapshots are current. -/
def records (env : Env) : Outline (orders env) OneAtATime :=
  outline env _
    (fun db => (∀ (id : ℕ) (row : Order), db.orders[id]? = some row → row.Columns) ∧
      MastersMatch db)
    (fun db _ k => k.Current db)
    (fun _ _ _ _ => trivial)
    (fun _ _ x k _ _ _ _ h hfails hG hL => by
      obtain ⟨hrows, hM⟩ := hG
      exact ⟨⟨fun _ _ hrow' => (h.orderEffect hrow').columns hL hrows,
        hM.step h hfails hL hrows⟩, h.current hL⟩)
    (fun t i x k _ j k' hC he hk hk' _ hne _ _ _ =>
      Call.current_of_idle (hC i x k he hk (k', j) (List.mem_zipIdx_iff_getElem?.mpr hk')
        (Ne.symm hne)))

theorem wellFormed_of_columns (hM : MastersMatch db) {orderId : OrderId} {row : Order}
    (hrow : db.orders[orderId]? = some row) (hc : row.Columns) : WellFormed db orderId row := by
  have hmaster : ∀ (id : DispatchId) (d : OrderDispatch), db.dispatches[id]? = some d →
      d.orderId = orderId → d.status = .accepted → row.masterId = some d.masterId := by
    intro id d hd hid hst
    obtain ⟨row', hrow', hm⟩ := hM.master id d hd hst
    rw [hid] at hrow'
    obtain rfl := Option.some.inj (hrow'.symm.trans hrow)
    exact hm
  refine ⟨fun hst => ?_, hc.draft, ⟨fun hsome => ?_, fun hone => ?_⟩, hmaster, hc.unassigned,
    hc.assigned, hc.finalAmount, hc.inRange, hc.cancelledAt⟩
  · rw [reachedUnsearched_iff] at hst
    refine hc.priced (fun hdraft => ?_) fun hcancelled => ?_
    · simp [hdraft] at hst
    · simp [hcancelled] at hst
  · obtain ⟨id, hid⟩ := hM.accepted orderId row hrow hsome
    exact ⟨id, hid, fun id' hid' => hM.unique id' id orderId hid' hid⟩
  · obtain ⟨id, ⟨d, hd, hid, hst⟩, -⟩ := hone
    simp [hmaster id d hd hid hst]

theorem records_of_run (hrun : (orders env).Run ⟨db, []⟩ ts c') (horders : db.orders = [])
    (hdispatches : db.dispatches = []) (hC : ∀ t ∈ ts, OneAtATime t) :
    (∀ (id : ℕ) (row : Order), c'.store.orders[id]? = some row → row.Columns) ∧
      MastersMatch c'.store := by
  refine ((records env).holds_run hrun hC ⟨⟨fun id row hrow => ?_, ⟨fun id d hd => ?_,
    fun orderId row hrow => ?_, fun id id' orderId hid => ?_⟩⟩, by simp⟩).1.1
  · simp [horders] at hrow
  · simp [hdispatches] at hd
  · simp [horders] at hrow
  · obtain ⟨d, hd, -⟩ := hid
    simp [hdispatches] at hd

/-- **Order records are well formed** in every state that calls running one at a time reach. -/
theorem wellFormed_of_run (hrun : (orders env).Run ⟨db, []⟩ ts c') (horders : db.orders = [])
    (hdispatches : db.dispatches = []) (hC : ∀ t ∈ ts, OneAtATime t) :
    ∀ (orderId : ℕ) (row : Order), c'.store.orders[orderId]? = some row →
      WellFormed c'.store orderId row := by
  obtain ⟨hrows, hM⟩ := records_of_run hrun horders hdispatches hC
  exact fun orderId row hrow => wellFormed_of_columns hM hrow (hrows orderId row hrow)

end Run

/-! ### An order from its draft to its close -/

/-- Call number `i` is started and runs its first `n` statements. -/
def runCall (i n : ℕ) (op : Op) : List (Event Call Input) :=
  .start ⟨op, .start⟩ :: List.replicate n (.run i {})

/-- One master, who is online and in range, and no orders. -/
def oneMaster : Db where
  users := [⟨.active, .customer⟩, ⟨.active, .master⟩]
  masters :=
    [{ userId := 1, verificationStatus := .verified, trustTier := 0, ratingAvg := 5, jobsDone := 0
       isOnline := true }]
  categories := [{ basePriceMin := 100000, basePriceMax := 200000, active := true }]
  skills := [⟨1, 0⟩]
  serviceAreas := [⟨1, (0, 0), 5000⟩]

/-- An order is made, quoted, searched for, accepted, completed and closed. -/
def wholeLife : List (Event Call Input) :=
  List.flatten
    [runCall 0 1 (.createDraft 0 { categoryId := some 0, description := "" }),
      runCall 1 2 (.updateDraft 0 0
        { serviceTier := some .emergency, latitude := some 0, longitude := some 0 }),
      runCall 2 4 (.diagnose 0 0), runCall 3 2 (.submit 0 0), List.replicate 8 (.run 4 {}),
      runCall 5 5 (.acceptOffer 0 1), runCall 6 3 (.lifecycle (.startEnRoute 1 0)),
      runCall 7 3 (.lifecycle (.startService 1 0)),
      runCall 8 4 (.lifecycle (.completeService 1 0 110000)),
      runCall 9 5 (.lifecycle (.confirmCompletion 0 0))]

theorem wellFormed_wholeLife :
    ∃ row, ((orders .flat).after ⟨oneMaster, []⟩ wholeLife).store.orders[0]? = some row ∧
      row.status = .closed ∧
        WellFormed ((orders .flat).after ⟨oneMaster, []⟩ wholeLife).store 0 row := by
  have hclosed : ((orders .flat).after ⟨oneMaster, []⟩ wholeLife).store.orders[0]?.any
      (fun row => row.status = .closed) := by
    decide +kernel
  obtain ⟨row, hrow, hst⟩ := (Option.any_eq_true _ _).mp hclosed
  exact ⟨row, hrow, by simpa using hst,
    wellFormed_of_run ((orders .flat).run_trace _ _) rfl rfl (by decide +kernel) 0 row hrow⟩

end Handly
