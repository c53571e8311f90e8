import Handly.Orders.Effects

/-!
# What a call knows

A call acts on snapshots. `Call.Knows` is what stays true of them whatever the
other calls do: the guard of a lifecycle call passed, the identity of an offer,
and for `acceptOffer` the row it read under its lock. `knowledge` proves that it
holds in every run: each statement establishes it for its own call and does not
disturb it for the others.
-/

namespace Handly

open Interleaving Checks

/-- `dispatch` is a version of the row `dispatchId`, and it is offered to
`masterId`. -/
def OwnOffer (db : Db) (dispatchId : DispatchId) (masterId : UserId) (dispatch : OrderDispatch) :
    Prop :=
  dispatch.masterId = masterId ∧ db.offers[dispatchId]? = some dispatch.offer

/-- What a call knows at its current point. -/
def Call.Knows (db : Db) (me : ℕ) (k : Call) : Prop :=
  match k.pc, k.op with
  | .guarded order, .lifecycle l => canTransition order.status l.spec.target = true
  | .failSearchWrite _ _ order, _ => order.status = .searching
  | .ownOffer dispatch, .acceptOffer dispatchId masterId
  | .ownOffer dispatch, .declineOffer dispatchId masterId =>
      OwnOffer db dispatchId masterId dispatch
  | .claimed orderId, .handleOfferExpiry dispatchId =>
      ∃ f, db.offers[dispatchId]? = some f ∧ f.orderId = orderId
  | .locked dispatch, .acceptOffer dispatchId masterId =>
      OwnOffer db dispatchId masterId dispatch ∧ db.orderLock dispatch.orderId = some me
  | .lockedOrder dispatch order, .acceptOffer dispatchId masterId =>
      OwnOffer db dispatchId masterId dispatch ∧ db.orderLock dispatch.orderId = some me ∧
        db.orders[dispatch.orderId]? = some order
  | .accepting dispatch order, .acceptOffer dispatchId masterId =>
      OwnOffer db dispatchId masterId dispatch ∧ db.orderLock dispatch.orderId = some me ∧
        db.orders[dispatch.orderId]? = some order ∧ order.status = .searching
  | _, _ => True

/-! ### Guards -/

theorem getOwned_eq_ok {db : Db} {customerId : UserId} {orderId : OrderId} {order : Order}
    (h : getOwned db customerId orderId = .ok order) :
    db.orders[orderId]? = some order ∧ order.customerId = customerId := by
  unfold getOwned at h
  split at h
  · simp at h
  · rename_i row hrow
    obtain ⟨hc, hok⟩ := ite_error_eq_ok.mp h
    obtain rfl := Except.ok.inj hok
    exact ⟨hrow, of_not_not hc⟩

theorem getOwnedByMaster_eq_ok {db : Db} {masterId : UserId} {orderId : OrderId} {order : Order}
    (h : getOwnedByMaster db masterId orderId = .ok order) :
    db.orders[orderId]? = some order ∧ order.masterId = some masterId := by
  unfold getOwnedByMaster at h
  split at h
  · simp at h
  · rename_i row hrow
    obtain ⟨hm, hok⟩ := ite_error_eq_ok.mp h
    obtain rfl := Except.ok.inj hok
    exact ⟨hrow, of_not_not hm⟩

/-- A `submit` that goes on has read a PRICED order. -/
theorem submitGuard_eq_ok {db : Db} {now : Time} {customerId : UserId} {orderId : OrderId}
    {order : Order} (h : submitGuard db now customerId orderId = .ok order) :
    db.orders[orderId]? = some order ∧ order.status = .priced := by
  simp only [submitGuard, bind_eq_ok, check_eq_ok, Bool.not_eq_true', Bool.not_eq_false,
    canTransition_searching] at h
  obtain ⟨row, hrow, hst, -, h⟩ := h
  obtain rfl : row = order := by
    split at h
    · split at h
      · exact (throw_eq_ok.mp (bind_eq_ok.mp h).choose_spec.1).elim
      · obtain ⟨_, -, h⟩ := bind_eq_ok.mp h
        exact pure_eq_ok.mp h
    · exact pure_eq_ok.mp h
  exact ⟨(getOwned_eq_ok hrow).1, hst⟩

/-- The order is the caller's. -/
def Owner.Owns (order : Order) : Owner → Prop
  | customer id => order.customerId = id
  | master id => order.masterId = some id

/-- A guarded transition that goes on has read the caller's order in a status that
allows it. -/
theorem GuardedTransition.guard_eq_ok {g : GuardedTransition} {db : Db} {order : Order}
    (h : g.guard db = .ok order) :
    db.orders[g.orderId]? = some order ∧ g.owner.Owns order ∧
      canTransition order.status g.target = true ∧ g.check order = .ok () := by
  unfold GuardedTransition.guard at h
  cases howner : g.owner with
  | customer id =>
      simp only [howner, bind_eq_ok, check_eq_ok, pure_eq_ok] at h
      obtain ⟨row, hrow, hcan, u, hcheck, rfl⟩ := h
      obtain ⟨hfound, howns⟩ := getOwned_eq_ok hrow
      exact ⟨hfound, howns, by simpa using hcan, hcheck⟩
  | master id =>
      simp only [howner, bind_eq_ok, check_eq_ok, pure_eq_ok] at h
      obtain ⟨row, hrow, hcan, u, hcheck, rfl⟩ := h
      obtain ⟨hfound, howns⟩ := getOwnedByMaster_eq_ok hrow
      exact ⟨hfound, howns, by simpa using hcan, hcheck⟩

theorem acceptCheck_eq_ok {now : Time} {order : Order} {fresh : OrderDispatch}
    (h : acceptCheck now order fresh = .ok ()) :
    fresh.status = .offered ∧ now ≤ fresh.expiresAt ∧ order.status = .searching := by
  unfold acceptCheck at h
  simp only [ite_error_eq_ok, Bool.not_eq_true', Bool.not_eq_false, canTransition_assigned] at h
  obtain ⟨hfresh, hcan, -⟩ := h
  push Not at hfresh
  exact ⟨hfresh.1, hfresh.2, hcan⟩

section Knows

variable {env : Env} {me : ℕ} {x : Input} {k : Call} {db : Db} {o : Outcome Db Call}

/-! ### One statement -/

theorem OwnOffer.of_stmt (h : Stmt env me x db k o) {dispatchId : DispatchId}
    {masterId : UserId} {dispatch : OrderDispatch}
    (hown : OwnOffer db dispatchId masterId dispatch) :
    OwnOffer o.store dispatchId masterId dispatch :=
  ⟨hown.1, h.offers_getElem? hown.2⟩

theorem OwnOffer.of_row {dispatchId : DispatchId} {masterId : UserId} {dispatch : OrderDispatch}
    (hrow : db.dispatches[dispatchId]? = some dispatch) (hm : dispatch.masterId = masterId) :
    OwnOffer db dispatchId masterId dispatch :=
  ⟨hm, by simp [Db.offers, hrow]⟩

theorem getElem?_modify_of_ne {orders : List Order} {id id' : OrderId} {f : Order → Order}
    (h : id' ≠ id) : (orders.modify id' f)[id]? = orders[id]? := by
  rw [List.getElem?_modify]
  cases orders[id]? <;> simp [h]

/-- An order row that another call has locked is not written. -/
theorem Stmt.locked_order (h : Stmt env me x db k o) (hk : k.Knows db me) {id : OrderId}
    {other : ℕ} (hne : other ≠ me) (hlock : db.orderLock id = some other) {order : Order}
    (hrow : db.orders[id]? = some order) : o.store.orders[id]? = some order := by
  -- A write of an order row needs the lock of that row free, or held by the writer.
  have hfree : ∀ {id'}, db.orderLock id' = none → id' ≠ id := by
    intro id' hid heq
    obtain rfl := heq
    simp [hid] at hlock
  cases h with
  | createDraft =>
      simp only [createDraftWrite, Db.createHistory_orders, Db.createOrder_orders]
      rw [List.getElem?_append_left (List.getElem?_eq_some_iff.mp hrow).1]
      exact hrow
  | updateDraft _ hid =>
      unfold updateDraftWrite
      split <;> exact (getElem?_modify_of_ne (hfree hid)).trans hrow
  | diagnose _ hid | submit _ hid => exact (getElem?_modify_of_ne (hfree hid)).trans hrow
  | lifecycle _ _ hid =>
      rw [GuardedTransition.write, (GuardedTransition.credit_frame _ _ _).1]
      exact (getElem?_modify_of_ne (hfree hid)).trans hrow
  | failSearchUpdate _ _ hid => exact (getElem?_modify_of_ne (hfree hid)).trans hrow
  | accept =>
      obtain ⟨-, hmine, -, -⟩ := hk
      refine (getElem?_modify_of_ne ?_).trans hrow
      intro heq
      obtain rfl := heq
      rw [hmine] at hlock
      exact hne (Option.some.inj hlock).symm
  | followup hf =>
      rw [(Followup.run_frame hf).1]
      exact hrow
  | fails | reads | acceptLock | acceptRollback | decline | expiry | cascadeInsert
  | cascadeEnqueue | failSearchRecord => exact hrow

theorem Reads.knows {op : Op} {pc pc' : Pc} (h : Reads env x db op pc pc')
    (hk : Call.Knows db me ⟨op, pc⟩) : Call.Knows db me ⟨op, pc'⟩ := by
  cases h with
  | @guarded op order hguard =>
      cases op with
      | lifecycle l => exact (GuardedTransition.guard_eq_ok (Option.some.inj hguard)).2.2.1
      | _ => trivial
  | acceptOwn hrow hm | declineOwn hrow hm => exact .of_row hrow hm
  | acceptOrder hrow =>
      obtain ⟨hown, hlock⟩ := hk
      exact ⟨hown, hlock, hrow⟩
  | acceptFresh hrow hcheck =>
      obtain ⟨hown, hlock, horder⟩ := hk
      exact ⟨hown, hlock, horder, (acceptCheck_eq_ok hcheck).2.2⟩
  | failSearchReads _ _ hst => exact hst
  | _ => trivial

/-- A statement establishes what its own call knows next. -/
theorem Stmt.knows (h : Stmt env me x db k o) (hk : k.Knows db me) :
    o.call.Knows o.store me := by
  cases h with
  | reads hr => exact hr.knows hk
  | acceptLock hfree =>
      refine ⟨hk, ?_⟩
      simp [Db.lockOrder_orderLock]
  | @expiry dispatchId row hrow hst =>
      refine ⟨row.offer, ?_, rfl⟩
      rw [updateDispatch_offers (by intro d; rfl)]
      simp [Db.offers, hrow]
  | _ => trivial

/-- A statement does not disturb what another call knows. -/
theorem Stmt.knows_other (h : Stmt env me x db k o) (hk : k.Knows db me) {k' : Call}
    {other : ℕ} (hne : other ≠ me) (hk' : k'.Knows db other) : k'.Knows o.store other := by
  obtain ⟨op, pc⟩ := k'
  cases pc with
  | guarded order => cases op <;> exact hk'
  | failSearchWrite orderId reason order => exact hk'
  | ownOffer dispatch =>
      cases op with
      | acceptOffer | declineOffer => exact OwnOffer.of_stmt h hk'
      | _ => trivial
  | claimed orderId =>
      cases op with
      | handleOfferExpiry dispatchId =>
          obtain ⟨f, hf, he⟩ := hk'
          exact ⟨f, h.offers_getElem? hf, he⟩
      | _ => trivial
  | locked dispatch =>
      cases op with
      | acceptOffer dispatchId masterId =>
          obtain ⟨hown, hlock⟩ := hk'
          exact ⟨hown.of_stmt h, h.orderLock hne hlock⟩
      | _ => trivial
  | lockedOrder dispatch order =>
      cases op with
      | acceptOffer dispatchId masterId =>
          obtain ⟨hown, hlock, hrow⟩ := hk'
          exact ⟨hown.of_stmt h, h.orderLock hne hlock, h.locked_order hk hne hlock hrow⟩
      | _ => trivial
  | accepting dispatch order =>
      cases op with
      | acceptOffer dispatchId masterId =>
          obtain ⟨hown, hlock, hrow, hst⟩ := hk'
          exact ⟨hown.of_stmt h, h.orderLock hne hlock, h.locked_order hk hne hlock hrow, hst⟩
      | _ => trivial
  | _ => trivial

/-! ### The course of a call -/

theorem Stmt.op_eq (h : Stmt env me x db k o) : o.call.op = k.op := by
  cases h <;> rfl

/-- Only a submit starts another call. -/
theorem Stmt.spawned_eq_nil (h : Stmt env me x db k o) (hop : ∀ c i, k.op ≠ .submit c i) :
    o.spawned = [] := by
  cases h with
  | submit => exact absurd rfl (hop _ _)
  | _ => rfl

/-- The points that a call of `acceptOffer`, of a lifecycle method or of `failSearch` can
reach. -/
def Call.OnTrack (k : Call) : Prop :=
  match k.op, k.pc with
  | .acceptOffer _ _, .start | .acceptOffer _ _, .ownOffer _ | .acceptOffer _ _, .locked _
  | .acceptOffer _ _, .lockedOrder _ _ | .acceptOffer _ _, .accepting _ _
  | .acceptOffer _ _, .returned | .acceptOffer _ _, .threw _ => True
  | .acceptOffer _ _, _ => False
  | .lifecycle _, .start | .lifecycle _, .guarded _ | .lifecycle _, .after _ none
  | .lifecycle _, .returned | .lifecycle _, .threw _ => True
  | .lifecycle _, _ => False
  | .failSearch _ _, .start | .failSearch _ _, .failSearchWrite _ _ _
  | .failSearch _ _, .failSearchHistory _ _ _ | .failSearch _ _, .after _ none
  | .failSearch _ _, .returned | .failSearch _ _, .threw _ => True
  | .failSearch _ _, _ => False
  | _, _ => True

theorem Reads.onTrack {op : Op} {pc pc' : Pc} (h : Reads env x db op pc pc')
    (hk : Call.OnTrack ⟨op, pc⟩) : Call.OnTrack ⟨op, pc'⟩ := by
  cases h with
  | @guarded op order hguard =>
      cases op with
      | acceptOffer => simp [Op.guard] at hguard
      | _ => trivial
  | @refused op | @done op | @followupThrows op | @cascades op | @cascadeCounts op
  | @cascadePicks op | @cascadeExpands op | @cascadeExhausted op | @cascadeRetries op
  | @failSearchLost op =>
      cases op <;> trivial
  | @cascadeStops op _ _ _ henter | @cascadeMissing op _ _ _ henter
  | @cascadeReads op _ _ _ _ _ henter => cases op <;> cases henter <;> trivial
  | @failSearchStops op _ _ _ henter | @failSearchReads op _ _ _ _ henter =>
      cases op <;> cases henter <;> trivial
  | _ => trivial

theorem Stmt.onTrack (h : Stmt env me x db k o) (hk : k.OnTrack) : o.call.OnTrack := by
  cases h with
  | reads hr => exact hr.onTrack hk
  | @fails op => cases op <;> trivial
  | @followup op f todo next =>
      cases op with
      | lifecycle | failSearch =>
          cases next with
          | none => trivial
          | some orderId => exact hk.elim
      | acceptOffer => exact hk.elim
      | _ => trivial
  | @cascadeInsert op | @cascadeEnqueue op | @failSearchUpdate op | @failSearchRecord op =>
      cases op <;> trivial
  | _ => trivial

/-! ### A whole run -/

/-- A call spawned by a statement has not run yet. -/
theorem Stmt.spawned_start (h : Stmt env me x db k o) : ∀ k' ∈ o.spawned, k'.pc = .start := by
  cases h with
  | submit => simp
  | _ => simp

end Knows

/-- The outline given by facts about statements. A call that is started or spawned has not
run yet. -/
def outline (env : Env) (C : Transition Db Call Input → Prop) (G : Db → Prop)
    (L : Db → ℕ → Call → Prop) (start : ∀ db i op, G db → L db i ⟨op, .start⟩)
    (own : ∀ t i x k o, C t → t.event = .run i x → t.pre.calls[i]? = some k →
      Stmt env i x t.pre.store k o →
      (x.fail = true → o = k.goto (t.pre.store.unlock i) (.threw .infrastructure)) →
      G t.pre.store → L t.pre.store i k → G o.store ∧ L o.store i o.call)
    (others : ∀ t i x k o j k', C t → t.event = .run i x → t.pre.calls[i]? = some k →
      t.pre.calls[j]? = some k' → Stmt env i x t.pre.store k o → i ≠ j → G t.pre.store →
      L t.pre.store i k → L t.pre.store j k' → L o.store j k') : Outline (orders env) C where
  G := G
  L := L
  start t i k _ _ hentry hG := by
    obtain ⟨op, pc⟩ := k
    cases pc with
    | start => exact start t.pre.store i op hG
    | _ => simp [orders, Call.isStart] at hentry
  own t i x k o hC he hk hstep _ hG hL := by
    obtain ⟨-, h, hfails⟩ := step_cases hstep
    obtain ⟨hG', hL'⟩ := own t i x k o hC he hk h hfails hG hL
    refine ⟨hG', hL', fun j k' hk' => ?_⟩
    obtain ⟨op, pc⟩ := k'
    obtain rfl : pc = .start := h.spawned_start _ hk'
    exact start o.store j op hG'
  others t i x k o j k' hC he hk hstep hk' hne hG hL hL' :=
    others t i x k o j k' hC he hk hk' (step_cases hstep).2.1 hne hG hL hL'

/-- What a call knows, as assertions attached to the calls. -/
def knowledge (env : Env) : Outline (orders env) (fun _ => True) where
  G _ := True
  L db me k := k.Knows db me
  start t me k _ _ hentry _ := by
    obtain ⟨op, pc⟩ := k
    cases pc <;> trivial
  own t me x k o _ he hk hstep hpost _ hknows := by
    obtain ⟨-, h, -⟩ := step_cases hstep
    refine ⟨trivial, h.knows hknows, fun j k' hk' => ?_⟩
    obtain ⟨op, pc⟩ := k'
    obtain rfl : pc = .start := h.spawned_start _ hk'
    trivial
  others t me x k o j k' _ he hk hstep hk' hne _ hknows hknows' :=
    (step_cases hstep).2.1.knows_other hknows (Ne.symm hne) hknows'

/-- The calls stay on track. -/
def track (env : Env) : Outline (orders env) (fun _ => True) where
  G _ := True
  L _ _ k := k.OnTrack
  start t me k _ _ hentry _ := by
    obtain ⟨op, pc⟩ := k
    cases op <;> cases pc <;> trivial
  own t me x k o _ he hk hstep hpost _ htrack := by
    obtain ⟨-, h, -⟩ := step_cases hstep
    refine ⟨trivial, h.onTrack htrack, fun j k' hk' => ?_⟩
    obtain ⟨op, pc⟩ := k'
    obtain rfl : pc = .start := h.spawned_start _ hk'
    cases op <;> trivial
  others t me x k o j k' _ he hk hstep hk' hne _ _ htrack := htrack

/-- The calls that write `Order.status` by id alone. -/
def Op.IsEditing : Op → Prop
  | .updateDraft _ _ _ | .diagnose _ _ | .submit _ _ => True
  | _ => False

/-- No editing call is started. -/
def NoEditing (t : Transition Db Call Input) : Prop :=
  ∀ k, t.event = .start k → ¬ k.op.IsEditing

theorem noEditing_of_mem_trace {env : Env} {c : Config Db Call} {es : List (Event Call Input)}
    (h : ∀ k, .start k ∈ es → ¬ k.op.IsEditing) : ∀ t ∈ (orders env).trace c es, NoEditing t :=
  fun _ ht k he => h k (he ▸ (orders env).event_mem_of_mem_trace ht)

/-- Then none is in flight. -/
def unedited (env : Env) : Outline (orders env) NoEditing where
  G _ := True
  L _ _ k := ¬ k.op.IsEditing
  start _ _ k hC he _ _ := hC k he
  own t me x k o _ he hk hstep hpost _ hedit := by
    obtain ⟨-, h, -⟩ := step_cases hstep
    rw [h.op_eq, h.spawned_eq_nil]
    · exact ⟨trivial, hedit, by simp⟩
    · intro c i hop
      exact hedit (hop ▸ trivial)
  others t me x k o j k' _ he hk hstep hk' hne _ _ hedit := hedit

/-- In a run from a state with no call in flight, every call knows what it
should. -/
theorem knows_of_run {env : Env} {db : Db} {c' : Config Db Call}
    {ts : List (Transition Db Call Input)} (hrun : (orders env).Run ⟨db, []⟩ ts c') :
    (∀ (i : ℕ) (k : Call), c'.calls[i]? = some k → k.Knows c'.store i) ∧
      ∀ t ∈ ts, ∀ (i : ℕ) (k : Call), t.pre.calls[i]? = some k → k.Knows t.pre.store i := by
  obtain ⟨hend, hall⟩ := (knowledge env).holds_run hrun (fun _ _ => trivial)
    ⟨trivial, fun i k hk => by simp at hk⟩
  exact ⟨hend.2, fun t ht => (hall t ht).1.2⟩

/-- A finished call stays as it is. -/
theorem finished_stays {env : Env} {c c' : Config Db Call} {ts : List (Transition Db Call Input)}
    (hrun : (orders env).Run c ts c') {i : ℕ} {k : Call} (hk : c.calls[i]? = some k)
    (hfin : k.Finished) : c'.calls[i]? = some k := by
  obtain ⟨k', hk', rfl⟩ := hrun.call_stable (· = k)
    (by rintro i x _ s o rfl hstep; exact absurd hfin (step_cases hstep).1) hk rfl
  exact hk'

/-- A call keeps its method and arguments. -/
theorem op_stays {env : Env} {c c' : Config Db Call} {ts : List (Transition Db Call Input)}
    (hrun : (orders env).Run c ts c') {i : ℕ} {k k' : Call} (hk : c.calls[i]? = some k)
    (hk' : c'.calls[i]? = some k') : k'.op = k.op := by
  obtain ⟨k'', hk'', hop⟩ := hrun.call_stable (fun k'' => k''.op = k.op)
    (fun i x k'' s o h hstep => (step_cases hstep).2.1.op_eq.trans h) hk rfl
  rw [← hop, Option.some.inj (hk'.symm.trans hk'')]

/-- In such a run the calls stay on track. -/
theorem onTrack_of_run {env : Env} {db : Db} {c' : Config Db Call}
    {ts : List (Transition Db Call Input)} (hrun : (orders env).Run ⟨db, []⟩ ts c') :
    (∀ (i : ℕ) (k : Call), c'.calls[i]? = some k → k.OnTrack) ∧
      ∀ t ∈ ts, ∀ (i : ℕ) (k : Call), t.pre.calls[i]? = some k → k.OnTrack := by
  obtain ⟨hend, hall⟩ := (track env).holds_run hrun (fun _ _ => trivial)
    ⟨trivial, fun i k hk => by simp at hk⟩
  exact ⟨hend.2, fun t ht => (hall t ht).1.2⟩

/-- If such a run starts no editing call, it never has one. -/
theorem unedited_of_run {env : Env} {db : Db} {c' : Config Db Call}
    {ts : List (Transition Db Call Input)} (hrun : (orders env).Run ⟨db, []⟩ ts c')
    (hstarts : ∀ t ∈ ts, NoEditing t) :
    ∀ t ∈ ts, ∀ (i : ℕ) (k : Call), t.pre.calls[i]? = some k → ¬ k.op.IsEditing := by
  obtain ⟨-, hall⟩ := (unedited env).holds_run hrun hstarts ⟨trivial, fun i k hk => by simp at hk⟩
  exact fun t ht => (hall t ht).1.2

/-- **What a transition can be**: the start of a call, or the next statement of
one. -/
theorem stmt_of_fires {env : Env} {t : Transition Db Call Input} (ht : (orders env).Fires t) :
    (∃ k, t.event = .start k ∧ k.pc = .start ∧ t.post = ⟨t.pre.store, t.pre.calls ++ [k]⟩) ∨
    (∃ i x k o, t.event = .run i x ∧ t.pre.calls[i]? = some k ∧ ¬ k.Finished ∧
        Stmt env i x t.pre.store k o ∧
        (x.fail = true → o = k.goto (t.pre.store.unlock i) (.threw .infrastructure)) ∧
        t.post = ⟨o.store, t.pre.calls.set i o.call ++ o.spawned⟩) := by
  rcases ht.cases with ⟨k, he, hk, hpost⟩ | ⟨i, x, k, o, he, hi, ho, hpost⟩
  · refine Or.inl ⟨k, he, ?_, hpost⟩
    obtain ⟨op, pc⟩ := k
    cases pc <;> trivial
  · obtain ⟨hfin, h, hfails⟩ := step_cases ho
    exact Or.inr ⟨i, x, k, o, he, hi, hfin, h, hfails, hpost⟩

/-- The statement of call number `i` that a transition runs. -/
theorem stmt_of_event {env : Env} {t : Transition Db Call Input} (ht : (orders env).Fires t)
    {i : ℕ} {x : Input} (he : t.event = .run i x) :
    ∃ k o, t.pre.calls[i]? = some k ∧ Stmt env i x t.pre.store k o ∧
      t.post = ⟨o.store, t.pre.calls.set i o.call ++ o.spawned⟩ ∧
      t.post.calls[i]? = some o.call := by
  obtain ⟨k, o, hk, ho, hpost, hself⟩ := ht.of_event he
  exact ⟨k, o, hk, (step_cases ho).2.1, hpost, hself⟩

end Handly
