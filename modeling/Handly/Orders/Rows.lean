import Handly.Orders.Effects

/-!
# Where a row comes from

`Stmt.orderEffect` and `Stmt.dispatchEffect` say, for every row that a table holds after
a statement, which row it was before and what the statement changed in it. Invariants
about columns that `Job` and `Offer` leave out go by cases on these.
-/

namespace Handly

open Interleaving

/-- Where an order row after a statement comes from. -/
inductive OrderEffect (x : Input) (db : Db) : Call → OrderId → Order → Prop
  | same {k id row} : db.orders[id]? = some row → OrderEffect x db k id row
  | created {customerId dto} :
      OrderEffect x db ⟨.createDraft customerId dto, .start⟩ db.orders.length
        (draftOf customerId dto)
  | edited {customerId id dto order row} : db.orders[id]? = some row →
      invalidatesQuote order dto = false →
      OrderEffect x db ⟨.updateDraft customerId id dto, .guarded order⟩ id (dto.apply row)
  /-- The edit drops the quote. -/
  | reopened {customerId id dto order} (row) : db.orders[id]? = some row →
      invalidatesQuote order dto = true →
      OrderEffect x db ⟨.updateDraft customerId id dto, .guarded order⟩ id
        { dto.apply row with status := .draft, priceMin := none, priceMax := none }
  | diagnosed {customerId id order diagnosis categoryId quote} (row) : db.orders[id]? = some row →
      OrderEffect x db ⟨.diagnose customerId id, .quoted order diagnosis categoryId quote⟩ id
        { row with
          status := .priced, categoryId := some categoryId, complexity := some diagnosis.complexity
          priceMin := some quote.priceMin, priceMax := some quote.priceMax
          platformFee := quote.platformFee, diagnosedFrom := some order.description }
  | submitted {customerId id order scheduledAt} (row) : db.orders[id]? = some row →
      OrderEffect x db ⟨.submit customerId id, .guarded order⟩ id
        { row with
          status := .searching, consentAcceptedAt := some x.now, submittedAt := some x.now
          scheduledAt }
  | moved {l order} (row) : db.orders[l.spec.orderId]? = some row → row.status = order.status →
      OrderEffect x db ⟨.lifecycle l, .guarded order⟩ l.spec.orderId
        { l.spec.data x.now row with status := l.spec.target }
  | assigned {dispatchId masterId dispatch order} (row) :
      db.orders[dispatch.orderId]? = some row →
      OrderEffect x db ⟨.acceptOffer dispatchId masterId, .accepting dispatch order⟩
        dispatch.orderId { row with status := .assigned, masterId := some masterId }
  | expired {op id reason order} (row) : db.orders[id]? = some row → row.status = order.status →
      OrderEffect x db ⟨op, .failSearchWrite id reason order⟩ id { row with status := .expired }

/-- Where a dispatch row after a statement comes from. -/
inductive DispatchEffect (env : Env) (x : Input) (db : Db) :
    Call → DispatchId → OrderDispatch → Prop
  | same {k id row} : db.dispatches[id]? = some row → DispatchEffect env x db k id row
  | inserted {op orderId attempt order rankSoFar picked} :
      alreadyOffered db orderId picked.masterId = false →
      DispatchEffect env x db ⟨op, .cascadeCreate orderId attempt order rankSoFar picked⟩
        db.dispatches.length (offerOf env x.now orderId order rankSoFar picked)
  | accepted {id masterId dispatch order row} : db.dispatches[id]? = some row →
      DispatchEffect env x db ⟨.acceptOffer id masterId, .accepting dispatch order⟩ id
        (row.accept x.now)
  /-- It is declined, expires or is withdrawn. -/
  | closed {k id row status} : db.dispatches[id]? = some row → row.status = .offered →
      status ≠ .accepted → status ≠ .offered →
      DispatchEffect env x db k id { row with status, respondedAt := some x.now }

section Rows

variable {env : Env} {me : ℕ} {x : Input} {k : Call} {db : Db} {o : Outcome Db Call}

/-! ### Orders -/

/-- An order row after a write of `Order.status`. -/
theorem setStatus_row (me : ℕ) {id : ℕ} {status : OrderStatus} {f : Order → Order}
    {orderId : OrderId} {row' : Order}
    (h : (db.setStatus me orderId status f).orders[id]? = some row') :
    ∃ row, db.orders[id]? = some row ∧
      (id = orderId ∧ row' = { f row with status } ∨ row' = row) := by
  obtain ⟨row, hrow, ⟨rfl, rfl⟩ | ⟨-, rfl⟩⟩ := Table.of_modify h
  · exact ⟨row, hrow, Or.inl ⟨rfl, rfl⟩⟩
  · exact ⟨row', hrow, Or.inr rfl⟩

theorem Stmt.orderEffect (h : Stmt env me x db k o) {id : ℕ} {row' : Order}
    (hrow' : o.store.orders[id]? = some row') : OrderEffect x db k id row' := by
  cases h with
  | createDraft =>
      rcases Table.of_append hrow' with hrow | ⟨rfl, rfl⟩
      · exact .same hrow
      · exact .created
  | @updateDraft customerId orderId dto order =>
      cases hinv : invalidatesQuote order dto with
      | false =>
          simp only [updateDraftWrite, hinv, Bool.false_eq_true, if_false] at hrow'
          obtain ⟨row, hrow, ⟨rfl, rfl⟩ | ⟨-, rfl⟩⟩ := Table.of_modify hrow'
          · exact .edited hrow hinv
          · exact .same hrow
      | true =>
          simp only [updateDraftWrite, hinv, if_true] at hrow'
          obtain ⟨row, hrow, ⟨rfl, rfl⟩ | rfl⟩ := setStatus_row me hrow'
          · exact .reopened row hrow hinv
          · exact .same hrow
  | diagnose =>
      obtain ⟨row, hrow, ⟨rfl, rfl⟩ | rfl⟩ := setStatus_row me hrow'
      · exact .diagnosed row hrow
      · exact .same hrow
  | submit =>
      obtain ⟨row, hrow, ⟨rfl, rfl⟩ | rfl⟩ := setStatus_row me hrow'
      · exact .submitted row hrow
      · exact .same hrow
  | @lifecycle l order found hfound hst =>
      rw [GuardedTransition.write, (GuardedTransition.credit_frame _ _ _).1] at hrow'
      obtain ⟨row, hrow, ⟨rfl, rfl⟩ | rfl⟩ := setStatus_row me hrow'
      · obtain rfl := Option.some.inj (hfound.symm.trans hrow)
        exact .moved found hrow hst
      · exact .same hrow
  | accept =>
      obtain ⟨row, hrow, ⟨rfl, rfl⟩ | rfl⟩ := setStatus_row me hrow'
      · exact .assigned row hrow
      · exact .same hrow
  | followup hf =>
      rw [(Followup.run_frame hf).1] at hrow'
      exact .same hrow'
  | @failSearchUpdate op orderId reason order found hfound hst =>
      obtain ⟨row, hrow, ⟨rfl, rfl⟩ | rfl⟩ := setStatus_row me hrow'
      · obtain rfl := Option.some.inj (hfound.symm.trans hrow)
        exact .expired found hrow hst
      · exact .same hrow
  | fails | reads | acceptLock | acceptRollback | decline | expiry | cascadeInsert
  | cascadeEnqueue | failSearchRecord => exact .same hrow'

/-! ### Dispatches -/

theorem updateDispatch_row {id dispatchId : ℕ} {f : OrderDispatch → OrderDispatch}
    {row' : OrderDispatch} (h : (db.updateDispatch dispatchId f).dispatches[id]? = some row') :
    ∃ row, db.dispatches[id]? = some row ∧ (id = dispatchId ∧ row' = f row ∨ row' = row) := by
  obtain ⟨row, hrow, ⟨rfl, rfl⟩ | ⟨-, rfl⟩⟩ := Table.of_modify h
  · exact ⟨row, hrow, Or.inl ⟨rfl, rfl⟩⟩
  · exact ⟨row', hrow, Or.inr rfl⟩

theorem Stmt.dispatchEffect (h : Stmt env me x db k o) {id : ℕ} {row' : OrderDispatch}
    (hrow' : o.store.dispatches[id]? = some row') : DispatchEffect env x db k id row' := by
  cases h with
  | @accept dispatchId masterId dispatch order =>
      simp only [acceptWrite, Db.unlock_dispatches, Db.createNotification_dispatches,
        Db.createHistory_dispatches, Db.setStatus_dispatches, Db.withdrawOthers_dispatches,
        List.getElem?_mapIdx] at hrow'
      obtain ⟨mid, hmid, rfl⟩ := Option.map_eq_some_iff.mp hrow'
      obtain ⟨row, hrow, ⟨rfl, rfl⟩ | rfl⟩ := updateDispatch_row hmid
      · rw [if_neg fun hother => hother.2.2 rfl]
        exact .accepted hrow
      · split
        · rename_i hother
          exact .closed hrow hother.2.1 (by decide) (by decide)
        · exact .same hrow
  | decline hfound hst | expiry hfound hst =>
      obtain ⟨row, hrow, ⟨rfl, rfl⟩ | rfl⟩ := updateDispatch_row hrow'
      · obtain rfl := Option.some.inj (hfound.symm.trans hrow)
        exact .closed hrow hst (by decide) (by decide)
      · exact .same hrow
  | cascadeInsert hfree =>
      rcases Table.of_append hrow' with hrow | ⟨rfl, rfl⟩
      · exact .same hrow
      · exact .inserted hfree
  | followup hf =>
      rw [(Followup.run_frame hf).2.1] at hrow'
      exact .same hrow'
  | updateDraft | lifecycle => exact .same (by simpa using hrow')
  | fails | reads | createDraft | diagnose | submit | acceptLock | acceptRollback
  | cascadeEnqueue | failSearchUpdate | failSearchRecord => exact .same hrow'

/-- No statement removes a dispatch. -/
theorem Stmt.dispatches_length (h : Stmt env me x db k o) :
    db.dispatches.length ≤ o.store.dispatches.length := by
  have hoffers : ∀ db : Db, db.dispatches.length = db.offers.length := by
    simp [Db.offers]
  rw [hoffers, hoffers]
  rcases h.offers with he | ⟨_, _, _, _, _, -, he⟩
  · rw [he]
  · rw [he, List.length_append]
    exact Nat.le_add_right _ _

/-! ### Penalties -/

/-- A statement leaves the penalties, or it is a `penaltyRecord.create` that follows. -/
theorem Stmt.penalties (h : Stmt env me x db k o) :
    o.store.penalties = db.penalties ∨
      ∃ masterId eventType orderId note todo next p,
        k.pc = .after (.createPenalty masterId eventType orderId note :: todo) next ∧
        o.call.pc = .after todo next ∧ o.store.penalties = db.penalties ++ [p] ∧
        p.masterId = masterId ∧ p.eventType = eventType ∧ p.orderId = some orderId := by
  cases h with
  | @updateDraft customerId orderId dto order =>
      left
      show (updateDraftWrite db me x.now customerId orderId dto order).penalties = _
      unfold updateDraftWrite
      split <;> rfl
  | @lifecycle l order =>
      left
      show (l.spec.write db me x.now order).penalties = _
      unfold GuardedTransition.write GuardedTransition.credit
      cases l.spec.credits order <;> rfl
  | @followup op f todo next db' hf =>
      cases f with
      | createPenalty masterId eventType orderId note =>
          obtain rfl := Except.ok.inj hf
          exact Or.inr ⟨_, _, _, _, _, _, _, rfl, rfl, rfl, rfl, rfl, rfl⟩
      | recomputeTrustTier masterId =>
          simp only [Followup.run, recomputeTrustTier] at hf
          split at hf
          · simp at hf
          · obtain rfl := Except.ok.inj hf
            exact Or.inl rfl
      | notify | toOfferDto =>
          obtain rfl := Except.ok.inj hf
          exact Or.inl rfl
  | accept =>
      left
      simp only [acceptWrite, Db.unlock, Db.createNotification, Db.createHistory, Db.setStatus,
        Db.withdrawOthers, Db.updateDispatch]
  | fails | reads | createDraft | diagnose | submit | acceptLock | acceptRollback | decline
  | expiry | cascadeInsert | cascadeEnqueue | failSearchUpdate | failSearchRecord =>
      exact Or.inl rfl

/-! ### Categories -/

/-- No call changes the categories. -/
theorem Stmt.categories_eq (h : Stmt env me x db k o) : o.store.categories = db.categories := by
  cases h with
  | @updateDraft customerId orderId dto order =>
      show (updateDraftWrite db me x.now customerId orderId dto order).categories = _
      unfold updateDraftWrite
      split <;> rfl
  | @lifecycle l order =>
      show (l.spec.write db me x.now order).categories = _
      unfold GuardedTransition.write GuardedTransition.credit
      cases l.spec.credits order <;> rfl
  | @followup op f todo next db' hf =>
      cases f with
      | recomputeTrustTier masterId =>
          simp only [Followup.run, recomputeTrustTier] at hf
          split at hf
          · simp at hf
          · obtain rfl := Except.ok.inj hf
            rfl
      | notify | createPenalty | toOfferDto =>
          obtain rfl := Except.ok.inj hf
          rfl
  | accept =>
      simp only [acceptWrite, Db.unlock, Db.createNotification, Db.createHistory, Db.setStatus,
        Db.withdrawOthers, Db.updateDispatch]
  | fails | reads | createDraft | diagnose | submit | acceptLock | acceptRollback | decline
  | expiry | cascadeInsert | cascadeEnqueue | failSearchUpdate | failSearchRecord => rfl

end Rows

end Handly
