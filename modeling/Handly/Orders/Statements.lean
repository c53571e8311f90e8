import Handly.Lib.Checks
import Handly.Orders.Machine

/-!
# What one statement can do

`step_cases` says once everything the next statement of a call can be. A `Reads`
only moves the call on; every other statement has a constructor of its own in
`Stmt`, with what it is conditioned on and what it writes. The invariants of the
later modules go by cases on these and never unfold `step`.
-/

namespace Handly

open Interleaving

/-- The next statement is the first read of `cascadeNext(orderId, attempt)`. -/
inductive EntersCascade : Op → Pc → OrderId → Attempt → Prop
  | cascade {op orderId attempt} : EntersCascade op (.cascade orderId attempt) orderId attempt
  | startDispatch {orderId} : EntersCascade (.startDispatch orderId) .start orderId .one
  | cascadeNext {orderId attempt} :
      EntersCascade (.cascadeNext orderId attempt) .start orderId attempt

/-- The next statement is the first read of `failSearch(orderId, reason)`. -/
inductive EntersFailSearch : Op → Pc → OrderId → String → Prop
  | cascade {op orderId reason} : EntersFailSearch op (.failSearch orderId reason) orderId reason
  | direct {orderId reason} : EntersFailSearch (.failSearch orderId reason) .start orderId reason

/-- The statements that leave the store as it is. -/
inductive Reads (env : Env) (x : Input) (db : Db) : Op → Pc → Pc → Prop
  | createDraftRefused {customerId dto e} :
      Reads env x db (.createDraft customerId dto) .start (.threw e)
  | refused {op e} : op.guard db x.now = some (.error e) → Reads env x db op .start (.threw e)
  | guarded {op order} : op.guard db x.now = some (.ok order) →
      Reads env x db op .start (.guarded order)
  | updateDraftMissing {customerId orderId dto order} : db.orders[orderId]? = none →
      Reads env x db (.updateDraft customerId orderId dto) (.guarded order)
        (.threw .infrastructure)
  | submitMissing {customerId orderId order} : db.orders[orderId]? = none →
      Reads env x db (.submit customerId orderId) (.guarded order) (.threw .infrastructure)
  -- diagnose
  | categories {customerId orderId order} :
      Reads env x db (.diagnose customerId orderId) (.guarded order)
        (.diagnosing order db.categories)
  | unquoted {customerId orderId order categories e} :
      Reads env x db (.diagnose customerId orderId) (.diagnosing order categories) (.threw e)
  | quoted {customerId orderId order categories categoryId quote} :
      quoteFor categories order x.diagnosis = .ok (categoryId, quote) →
      Reads env x db (.diagnose customerId orderId) (.diagnosing order categories)
        (.quoted order x.diagnosis categoryId quote)
  | diagnoseMissing {customerId orderId order diagnosis categoryId quote} :
      db.orders[orderId]? = none →
      Reads env x db (.diagnose customerId orderId) (.quoted order diagnosis categoryId quote)
        (.threw .infrastructure)
  -- the guarded transitions
  | lifecycleLost {l order} : db.statusOf l.spec.orderId ≠ some order.status →
      Reads env x db (.lifecycle l) (.guarded order) (.threw (.conflict l.spec.lost))
  -- acceptOffer and declineOffer
  | acceptNotOwn {dispatchId masterId e} :
      Reads env x db (.acceptOffer dispatchId masterId) .start (.threw e)
  | acceptOwn {dispatchId masterId dispatch} : db.dispatches[dispatchId]? = some dispatch →
      dispatch.masterId = masterId →
      Reads env x db (.acceptOffer dispatchId masterId) .start (.ownOffer dispatch)
  | acceptOrder {dispatchId masterId dispatch order} :
      db.orders[dispatch.orderId]? = some order →
      Reads env x db (.acceptOffer dispatchId masterId) (.locked dispatch)
        (.lockedOrder dispatch order)
  | acceptFresh {dispatchId masterId dispatch order fresh} :
      db.dispatches[dispatchId]? = some fresh → acceptCheck x.now order fresh = .ok () →
      Reads env x db (.acceptOffer dispatchId masterId) (.lockedOrder dispatch order)
        (.accepting dispatch order)
  | declineNotOwn {dispatchId masterId e} :
      Reads env x db (.declineOffer dispatchId masterId) .start (.threw e)
  | declineOwn {dispatchId masterId dispatch} : db.dispatches[dispatchId]? = some dispatch →
      dispatch.masterId = masterId →
      Reads env x db (.declineOffer dispatchId masterId) .start (.ownOffer dispatch)
  | declineNoop {dispatchId masterId dispatch} : claim db dispatchId .declined x.now = none →
      Reads env x db (.declineOffer dispatchId masterId) (.ownOffer dispatch) .returned
  -- handleOfferExpiry
  | expiryNoop {dispatchId} : claim db dispatchId .expired x.now = none →
      Reads env x db (.handleOfferExpiry dispatchId) .start .returned
  | expiryMissing {dispatchId orderId} : db.dispatches[dispatchId]? = none →
      Reads env x db (.handleOfferExpiry dispatchId) (.claimed orderId) .returned
  | expiryFull {dispatchId orderId full} : db.dispatches[dispatchId]? = some full →
      Reads env x db (.handleOfferExpiry dispatchId) (.claimed orderId)
        (.after (expiryFollowups full) (some full.orderId))
  | followupThrows {op f todo next e} : f.run db x.now = .error e →
      Reads env x db op (.after (f :: todo) next) (.threw e)
  | done {op} : Reads env x db op (.after [] none) .returned
  | cascades {op orderId} :
      Reads env x db op (.after [] (some orderId)) (.cascade orderId .one)
  -- cascadeNext
  | cascadeStops {op pc orderId attempt} : EntersCascade op pc orderId attempt →
      db.statusOf orderId ≠ some .searching → Reads env x db op pc .returned
  | cascadeMissing {op pc orderId attempt} : EntersCascade op pc orderId attempt →
      db.statusOf orderId = some .searching →
      (∀ order ∈ db.orders[orderId]?, order.categoryId = none ∨ order.location = none) →
      Reads env x db op pc (.failSearch orderId "missing category or location")
  | cascadeReads {op pc orderId attempt order categoryId} :
      EntersCascade op pc orderId attempt → db.orders[orderId]? = some order →
      order.status = .searching →
      Reads env x db op pc (.cascadeCount orderId attempt order categoryId)
  | cascadeCounts {op orderId attempt order categoryId} :
      Reads env x db op (.cascadeCount orderId attempt order categoryId)
        (.cascadeQuery orderId attempt order categoryId (db.countDispatches orderId))
  | cascadePicks {op orderId attempt order categoryId rankSoFar picked} :
      picked ∈ cascadeCandidates env db x.now orderId attempt order categoryId →
      Reads env x db op (.cascadeQuery orderId attempt order categoryId rankSoFar)
        (.cascadeCreate orderId attempt order rankSoFar picked)
  | cascadeExpands {op orderId order categoryId rankSoFar} :
      cascadeCandidates env db x.now orderId .one order categoryId = [] →
      Reads env x db op (.cascadeQuery orderId .one order categoryId rankSoFar)
        (.cascade orderId .two)
  | cascadeExhausted {op orderId order categoryId rankSoFar} :
      cascadeCandidates env db x.now orderId .two order categoryId = [] →
      Reads env x db op (.cascadeQuery orderId .two order categoryId rankSoFar)
        (.failSearch orderId "pool exhausted after radius expansion")
  | cascadeRetries {op orderId attempt order rankSoFar picked} :
      alreadyOffered db orderId picked.masterId = true →
      Reads env x db op (.cascadeCreate orderId attempt order rankSoFar picked)
        (.cascade orderId attempt)
  -- failSearch
  | failSearchStops {op pc orderId reason} : EntersFailSearch op pc orderId reason →
      db.statusOf orderId ≠ some .searching → Reads env x db op pc .returned
  | failSearchReads {op pc orderId reason order} : EntersFailSearch op pc orderId reason →
      db.orders[orderId]? = some order → order.status = .searching →
      Reads env x db op pc (.failSearchWrite orderId reason order)
  | failSearchLost {op orderId reason order} : db.statusOf orderId ≠ some order.status →
      Reads env x db op (.failSearchWrite orderId reason order) .returned

/-- Everything the next statement of a call can be. -/
inductive Stmt (env : Env) (me : ℕ) (x : Input) (db : Db) : Call → Outcome Db Call → Prop
  | fails {op pc} : x.fail = true → ¬ Call.Finished ⟨op, pc⟩ →
      Stmt env me x db ⟨op, pc⟩ ⟨db.unlock me, ⟨op, .threw .infrastructure⟩, []⟩
  | reads {op pc pc'} : Reads env x db op pc pc' →
      Stmt env me x db ⟨op, pc⟩ ⟨db, ⟨op, pc'⟩, []⟩
  | createDraft {customerId dto} :
      Stmt env me x db ⟨.createDraft customerId dto, .start⟩
        ⟨createDraftWrite db x.now customerId dto, ⟨.createDraft customerId dto, .returned⟩, []⟩
  | updateDraft {customerId orderId dto order row} :
      db.orders[orderId]? = some row → db.orderLock orderId = none →
      Stmt env me x db ⟨.updateDraft customerId orderId dto, .guarded order⟩
        ⟨updateDraftWrite db me x.now customerId orderId dto order,
          ⟨.updateDraft customerId orderId dto, .returned⟩, []⟩
  | diagnose {customerId orderId order diagnosis categoryId quote row} :
      db.orders[orderId]? = some row → db.orderLock orderId = none →
      Stmt env me x db
        ⟨.diagnose customerId orderId, .quoted order diagnosis categoryId quote⟩
        ⟨diagnoseWrite db me x.now customerId orderId order diagnosis categoryId quote,
          ⟨.diagnose customerId orderId, .returned⟩, []⟩
  | submit {customerId orderId order row} :
      db.orders[orderId]? = some row → db.orderLock orderId = none →
      Stmt env me x db ⟨.submit customerId orderId, .guarded order⟩
        ⟨submitWrite db me x.now customerId orderId order, ⟨.submit customerId orderId, .returned⟩,
          [⟨.startDispatch orderId, .start⟩]⟩
  | lifecycle {l order row} :
      db.orders[l.spec.orderId]? = some row → row.status = order.status →
      db.orderLock l.spec.orderId = none →
      Stmt env me x db ⟨.lifecycle l, .guarded order⟩
        ⟨l.spec.write db me x.now order, ⟨.lifecycle l, .after (l.spec.followups order) none⟩, []⟩
  | acceptLock {dispatchId masterId dispatch} : db.orderLock dispatch.orderId = none →
      Stmt env me x db ⟨.acceptOffer dispatchId masterId, .ownOffer dispatch⟩
        ⟨db.lockOrder dispatch.orderId me, ⟨.acceptOffer dispatchId masterId, .locked dispatch⟩, []⟩
  | acceptRollback {dispatchId masterId dispatch pc e} :
      pc = .locked dispatch ∨ (∃ order, pc = .lockedOrder dispatch order) →
      Stmt env me x db ⟨.acceptOffer dispatchId masterId, pc⟩
        ⟨db.unlock me, ⟨.acceptOffer dispatchId masterId, .threw e⟩, []⟩
  | accept {dispatchId masterId dispatch order} :
      Stmt env me x db ⟨.acceptOffer dispatchId masterId, .accepting dispatch order⟩
        ⟨acceptWrite db me x.now dispatchId masterId dispatch order,
          ⟨.acceptOffer dispatchId masterId, .returned⟩, []⟩
  | decline {dispatchId masterId dispatch row} :
      db.dispatches[dispatchId]? = some row → row.status = .offered →
      Stmt env me x db ⟨.declineOffer dispatchId masterId, .ownOffer dispatch⟩
        ⟨db.updateDispatch dispatchId fun d =>
            { d with status := .declined, respondedAt := some x.now },
          ⟨.declineOffer dispatchId masterId, .cascade dispatch.orderId .one⟩, []⟩
  | expiry {dispatchId row} :
      db.dispatches[dispatchId]? = some row → row.status = .offered →
      Stmt env me x db ⟨.handleOfferExpiry dispatchId, .start⟩
        ⟨db.updateDispatch dispatchId fun d =>
            { d with status := .expired, respondedAt := some x.now },
          ⟨.handleOfferExpiry dispatchId, .claimed row.orderId⟩, []⟩
  | followup {op f todo next db'} : f.run db x.now = .ok db' →
      Stmt env me x db ⟨op, .after (f :: todo) next⟩ ⟨db', ⟨op, .after todo next⟩, []⟩
  | cascadeInsert {op orderId attempt order rankSoFar picked} :
      alreadyOffered db orderId picked.masterId = false →
      Stmt env me x db ⟨op, .cascadeCreate orderId attempt order rankSoFar picked⟩
        ⟨db.createDispatch (offerOf env x.now orderId order rankSoFar picked),
          ⟨op, .cascadeEnqueue orderId order picked db.dispatches.length⟩, []⟩
  | cascadeEnqueue {op orderId order picked dispatchId} :
      Stmt env me x db ⟨op, .cascadeEnqueue orderId order picked dispatchId⟩
        ⟨db.enqueue { dispatchId, runAt := x.now + offerTtlSeconds env order.serviceTier * 1000 },
          ⟨op, .after (offerFollowups orderId order picked dispatchId) none⟩, []⟩
  | failSearchUpdate {op orderId reason order row} :
      db.orders[orderId]? = some row → row.status = order.status →
      db.orderLock orderId = none →
      Stmt env me x db ⟨op, .failSearchWrite orderId reason order⟩
        ⟨failSearchUpdate db me orderId, ⟨op, .failSearchHistory orderId reason order⟩, []⟩
  | failSearchRecord {op orderId reason order} :
      Stmt env me x db ⟨op, .failSearchHistory orderId reason order⟩
        ⟨failSearchRecord db x.now orderId reason order,
          ⟨op, .after (failSearchFollowups orderId order) none⟩, []⟩

section Cases

variable {env : Env} {me : ℕ} {x : Input} {k : Call} {db : Db} {o : Outcome Db Call}

theorem updateById_cases {orderId : OrderId} {write : Outcome Db Call}
    (h : updateById k db orderId write = some o) :
    (db.orders[orderId]? = none ∧ o = k.goto db (.threw .infrastructure)) ∨
      (∃ row, db.orders[orderId]? = some row ∧ db.orderLock orderId = none ∧ o = write) := by
  unfold updateById at h
  split at h
  · rename_i hnone
    exact Or.inl ⟨hnone, (Option.some.inj h).symm⟩
  · rename_i row hrow
    split at h
    · simp at h
    · rename_i hlock
      exact Or.inr ⟨row, hrow, by simpa using hlock, (Option.some.inj h).symm⟩

theorem updateIfStatus_cases {orderId : OrderId} {status : OrderStatus}
    {lost won : Outcome Db Call} (h : updateIfStatus db orderId status lost won = some o) :
    (db.statusOf orderId ≠ some status ∧ o = lost) ∨
      (∃ row, db.orders[orderId]? = some row ∧ row.status = status ∧
        db.orderLock orderId = none ∧ o = won) := by
  unfold updateIfStatus at h
  split at h
  · rename_i hstatus
    split at h
    · simp at h
    · rename_i hlock
      obtain ⟨row, hrow, hrs⟩ := Db.statusOf_eq_some.mp hstatus
      exact Or.inr ⟨row, hrow, hrs, by simpa using hlock, (Option.some.inj h).symm⟩
  · rename_i hstatus
    exact Or.inl ⟨hstatus, (Option.some.inj h).symm⟩

theorem claim_eq_some {dispatchId : DispatchId} {status : DispatchStatus} {now : Time}
    {row : OrderDispatch} {db' : Db} (h : claim db dispatchId status now = some (row, db')) :
    db.dispatches[dispatchId]? = some row ∧ row.status = .offered ∧
      db' = db.updateDispatch dispatchId fun d => { d with status, respondedAt := some now } := by
  unfold claim at h
  split at h
  · simp at h
  · rename_i row' hrow
    split at h
    · rename_i hst
      simp only [Option.some.injEq, Prod.mk.injEq] at h
      obtain ⟨rfl, rfl⟩ := h
      exact ⟨hrow, hst, rfl⟩
    · simp at h

theorem enterCascade_cases {orderId : OrderId} {attempt : Attempt}
    (henter : EntersCascade k.op k.pc orderId attempt) :
    Stmt env me x db k (enterCascade k db orderId attempt) := by
  unfold enterCascade
  split
  · rename_i hrow
    exact .reads (.cascadeStops henter (by simp [Db.statusOf, hrow]))
  · rename_i order hrow
    split
    · rename_i hst
      exact .reads (.cascadeStops henter (by simpa [Db.statusOf, hrow] using hst))
    · rename_i hst
      have hst' : order.status = .searching := by simpa using hst
      split
      · exact .reads (.cascadeReads henter hrow hst')
      · rename_i hnone
        have hsearching : db.statusOf orderId = some .searching := by simp [Db.statusOf, hrow, hst']
        refine .reads (.cascadeMissing henter hsearching fun row hrow' => ?_)
        obtain rfl := Option.some.inj (hrow.symm.trans hrow')
        cases hcategory : order.categoryId with
        | none => exact Or.inl rfl
        | some categoryId =>
            cases hlocation : order.location with
            | none => exact Or.inr rfl
            | some location => exact absurd hlocation (hnone categoryId location hcategory)

theorem enterFailSearch_cases {orderId : OrderId} {reason : String}
    (henter : EntersFailSearch k.op k.pc orderId reason) :
    Stmt env me x db k (enterFailSearch k db orderId reason) := by
  unfold enterFailSearch
  split
  · rename_i hrow
    exact .reads (.failSearchStops henter (by simp [Db.statusOf, hrow]))
  · rename_i order hrow
    split
    · rename_i hcan
      exact .reads (.failSearchReads henter hrow (canTransition_expired.mp hcan))
    · rename_i hcan
      rw [canTransition_expired] at hcan
      exact .reads (.failSearchStops henter (by simpa [Db.statusOf, hrow] using hcan))

theorem findOwnOffer_eq_ok {dispatchId : DispatchId} {masterId : UserId}
    {dispatch : OrderDispatch} (h : findOwnOffer db dispatchId masterId = .ok dispatch) :
    db.dispatches[dispatchId]? = some dispatch ∧ dispatch.masterId = masterId := by
  unfold findOwnOffer at h
  split at h
  · simp at h
  · rename_i row hrow
    obtain ⟨hm, hok⟩ := Checks.ite_error_eq_ok.mp h
    obtain rfl := Except.ok.inj hok
    exact ⟨hrow, of_not_not hm⟩

/-- The first statement of a call. -/
theorem begin_cases (hpc : k.pc = .start) (h : begin k x db = some o) :
    Stmt env me x db k o := by
  obtain ⟨op, pc⟩ := k
  obtain rfl : pc = .start := hpc
  have hguard : ∀ op : Op, (op.guard db x.now).map (Call.check ⟨op, .start⟩ db .guarded) = some o →
      Stmt env me x db ⟨op, .start⟩ o := by
    intro op h
    obtain ⟨r, hr, rfl⟩ := Option.map_eq_some_iff.mp h
    cases r with
    | error e => exact .reads (.refused hr)
    | ok order => exact .reads (.guarded hr)
  cases op with
  | createDraft customerId dto =>
      simp only [begin] at h
      split at h
      · rw [← Option.some.inj h]
        exact .reads .createDraftRefused
      · rw [← Option.some.inj h]
        exact .createDraft
  | acceptOffer dispatchId masterId =>
      rw [← Option.some.inj h]
      cases hown : findOwnOffer db dispatchId masterId with
      | error e => exact .reads .acceptNotOwn
      | ok dispatch =>
          obtain ⟨hrow, hm⟩ := findOwnOffer_eq_ok hown
          exact .reads (.acceptOwn hrow hm)
  | declineOffer dispatchId masterId =>
      rw [← Option.some.inj h]
      cases hown : findOwnOffer db dispatchId masterId with
      | error e => exact .reads .declineNotOwn
      | ok dispatch =>
          obtain ⟨hrow, hm⟩ := findOwnOffer_eq_ok hown
          exact .reads (.declineOwn hrow hm)
  | handleOfferExpiry dispatchId =>
      simp only [begin] at h
      split at h
      · rename_i hnone
        rw [← Option.some.inj h]
        exact .reads (.expiryNoop hnone)
      · rename_i row db' hsome
        obtain ⟨hrow, hst, rfl⟩ := claim_eq_some hsome
        rw [← Option.some.inj h]
        exact .expiry hrow hst
  | startDispatch orderId =>
      rw [← Option.some.inj h]
      exact enterCascade_cases .startDispatch
  | cascadeNext orderId attempt =>
      rw [← Option.some.inj h]
      exact enterCascade_cases .cascadeNext
  | failSearch orderId reason =>
      rw [← Option.some.inj h]
      exact enterFailSearch_cases .direct
  | updateDraft _ _ _ | diagnose _ _ | submit _ _ | lifecycle _ => exact hguard _ h

/-- The statement after the guard of an editing or lifecycle call. -/
theorem afterGuard_cases {order : Order} (hpc : k.pc = .guarded order)
    (h : afterGuard k me x db order = some o) : Stmt env me x db k o := by
  obtain ⟨op, pc⟩ := k
  obtain rfl : pc = .guarded order := hpc
  cases op with
  | updateDraft customerId orderId dto =>
      rcases updateById_cases h with ⟨hnone, rfl⟩ | ⟨row, hrow, hlock, rfl⟩
      · exact .reads (.updateDraftMissing hnone)
      · exact .updateDraft hrow hlock
  | diagnose customerId orderId =>
      rw [← Option.some.inj h]
      exact .reads .categories
  | submit customerId orderId =>
      rcases updateById_cases h with ⟨hnone, rfl⟩ | ⟨row, hrow, hlock, rfl⟩
      · exact .reads (.submitMissing hnone)
      · exact .submit hrow hlock
  | lifecycle l =>
      rcases updateIfStatus_cases h with ⟨hne, rfl⟩ | ⟨row, hrow, hst, hlock, rfl⟩
      · exact .reads (.lifecycleLost hne)
      · exact .lifecycle hrow hst hlock
  | _ => simp [afterGuard] at h

/-- The next statement of a call that does not fail. -/
theorem proceed_cases (h : proceed env me x k db = some o) : Stmt env me x db k o := by
  obtain ⟨op, pc⟩ := k
  cases pc with
  | start => exact begin_cases rfl h
  | guarded order => exact afterGuard_cases rfl h
  | diagnosing order categories =>
      cases op with
      | diagnose customerId orderId =>
          rw [← Option.some.inj h]
          cases hquote : quoteFor categories order x.diagnosis with
          | error e => exact .reads .unquoted
          | ok p => exact .reads (.quoted hquote)
      | _ => simp [proceed] at h
  | quoted order diagnosis categoryId quote =>
      cases op with
      | diagnose customerId orderId =>
          rcases updateById_cases h with ⟨hnone, rfl⟩ | ⟨row, hrow, hlock, rfl⟩
          · exact .reads (.diagnoseMissing hnone)
          · exact .diagnose hrow hlock
      | _ => simp [proceed] at h
  | ownOffer dispatch =>
      cases op with
      | acceptOffer dispatchId masterId =>
          simp only [proceed] at h
          split at h
          · simp at h
          · rename_i hlock
            rw [← Option.some.inj h]
            exact .acceptLock (by simpa using hlock)
      | declineOffer dispatchId masterId =>
          simp only [proceed] at h
          split at h
          · rename_i hnone
            rw [← Option.some.inj h]
            exact .reads (.declineNoop hnone)
          · rename_i row db' hsome
            obtain ⟨hrow, hst, rfl⟩ := claim_eq_some hsome
            rw [← Option.some.inj h]
            exact .decline hrow hst
      | _ => simp [proceed] at h
  | locked dispatch =>
      cases op with
      | acceptOffer dispatchId masterId =>
          simp only [proceed] at h
          split at h
          · rw [← Option.some.inj h]
            exact .acceptRollback (.inl rfl)
          · rename_i order hrow
            rw [← Option.some.inj h]
            exact .reads (.acceptOrder hrow)
      | _ => simp [proceed] at h
  | lockedOrder dispatch order =>
      cases op with
      | acceptOffer dispatchId masterId =>
          simp only [proceed] at h
          split at h
          · rw [← Option.some.inj h]
            exact .acceptRollback (.inr ⟨order, rfl⟩)
          · rename_i fresh hrow
            split at h
            · rw [← Option.some.inj h]
              exact .acceptRollback (.inr ⟨order, rfl⟩)
            · rename_i hcheck
              rw [← Option.some.inj h]
              exact .reads (.acceptFresh hrow hcheck)
      | _ => simp [proceed] at h
  | accepting dispatch order =>
      cases op with
      | acceptOffer dispatchId masterId =>
          rw [← Option.some.inj h]
          exact .accept
      | _ => simp [proceed] at h
  | claimed orderId =>
      cases op with
      | handleOfferExpiry dispatchId =>
          simp only [proceed] at h
          split at h
          · rename_i hnone
            rw [← Option.some.inj h]
            exact .reads (.expiryMissing hnone)
          · rename_i full hrow
            rw [← Option.some.inj h]
            exact .reads (.expiryFull hrow)
      | _ => simp [proceed] at h
  | after todo next =>
      cases todo with
      | nil =>
          cases next with
          | none =>
              rw [← Option.some.inj h]
              exact .reads .done
          | some orderId =>
              rw [← Option.some.inj h]
              exact .reads .cascades
      | cons f todo =>
          simp only [proceed] at h
          split at h
          · rename_i e hf
            rw [← Option.some.inj h]
            exact .reads (.followupThrows hf)
          · rename_i db' hf
            rw [← Option.some.inj h]
            exact .followup hf
  | cascade orderId attempt =>
      rw [← Option.some.inj h]
      exact enterCascade_cases .cascade
  | cascadeCount orderId attempt order categoryId =>
      rw [← Option.some.inj h]
      exact .reads .cascadeCounts
  | cascadeQuery orderId attempt order categoryId rankSoFar =>
      simp only [proceed] at h
      split at h
      · rename_i picked hpick
        rw [← Option.some.inj h]
        exact .reads (.cascadePicks (weightedRandomPick_mem hpick))
      · rename_i hempty
        have hempty := weightedRandomPick_eq_none.mp hempty
        cases attempt with
        | one =>
            rw [← Option.some.inj h]
            exact .reads (.cascadeExpands hempty)
        | two =>
            rw [← Option.some.inj h]
            exact .reads (.cascadeExhausted hempty)
  | cascadeCreate orderId attempt order rankSoFar picked =>
      simp only [proceed] at h
      split at h
      · rename_i hdup
        rw [← Option.some.inj h]
        exact .reads (.cascadeRetries hdup)
      · rename_i hnew
        rw [← Option.some.inj h]
        exact .cascadeInsert (by simpa using hnew)
  | cascadeEnqueue orderId order picked dispatchId =>
      rw [← Option.some.inj h]
      exact .cascadeEnqueue
  | failSearch orderId reason =>
      rw [← Option.some.inj h]
      exact enterFailSearch_cases .cascade
  | failSearchWrite orderId reason order =>
      rcases updateIfStatus_cases h with ⟨hne, rfl⟩ | ⟨row, hrow, hst, hlock, rfl⟩
      · exact .reads (.failSearchLost hne)
      · exact .failSearchUpdate hrow hst hlock
  | failSearchHistory orderId reason order =>
      rw [← Option.some.inj h]
      exact .failSearchRecord
  | returned => simp [proceed] at h
  | threw e => simp [proceed] at h

/-- **Inversion of a step.** The next statement of any call is one of these, and
when it fails it is `Stmt.fails`. -/
theorem step_cases (h : step env me x k db = some o) :
    ¬ k.Finished ∧ Stmt env me x db k o ∧
      (x.fail = true → o = k.goto (db.unlock me) (.threw .infrastructure)) := by
  unfold step at h
  split at h
  · simp at h
  · rename_i hfin
    refine ⟨hfin, ?_⟩
    split at h
    · rename_i hfail
      rw [← Option.some.inj h]
      exact ⟨.fails hfail hfin, fun _ => rfl⟩
    · rename_i hfail
      exact ⟨proceed_cases h, fun hx => absurd hx hfail⟩

/-- The last statement of `acceptOffer`, unless it fails. -/
theorem Stmt.accept_eq {dispatchId : DispatchId} {masterId : UserId} {dispatch : OrderDispatch}
    {order : Order}
    (h : Stmt env me x db ⟨.acceptOffer dispatchId masterId, .accepting dispatch order⟩ o)
    (hfail : x.fail = false) :
    o = ⟨acceptWrite db me x.now dispatchId masterId dispatch order,
      ⟨.acceptOffer dispatchId masterId, .returned⟩, []⟩ := by
  cases h with
  | fails hx => simp [hx] at hfail
  | reads hr =>
      cases hr with
      | cascadeStops henter | cascadeMissing henter | cascadeReads henter => cases henter
      | failSearchStops henter | failSearchReads henter => cases henter
  | acceptRollback hpc => rcases hpc with hpc | ⟨order, hpc⟩ <;> cases hpc
  | accept => rfl

end Cases

end Handly
