import Handly.Orders.Rows
import Handly.Dispatch.OpenOffers

/-!
# Answered once

A dispatch leaves OFFERED when it is accepted, declined, expires or is withdrawn. All of these
but the first find it OFFERED in the statement that writes. `acceptOffer` checks it under the
lock of the order row and writes by id later, and `declineOffer` and `handleOfferExpiry` do not
take that lock. Each dispatch is answered once exactly if no acceptance finds its dispatch
closed.
-/

namespace Handly

open Interleaving

/-- The dispatch was closed without an acceptance. -/
def DispatchStatus.Closed (s : DispatchStatus) : Prop :=
  s = .declined ∨ s = .expired ∨ s = .withdrawn

instance : DecidablePred DispatchStatus.Closed :=
  fun s => inferInstanceAs (Decidable (s = .declined ∨ s = .expired ∨ s = .withdrawn))

/-- The status of a dispatch. -/
def Db.dispatchStatus (db : Db) (id : DispatchId) : Option DispatchStatus :=
  db.dispatches[id]?.map OrderDispatch.status

/-- The dispatch is there, and in this transition its status changes. -/
def changesStatus (id : DispatchId) (t : Transition Db Call Input) : Bool :=
  (t.pre.store.dispatchStatus id).isSome ∧
    t.post.store.dispatchStatus id ≠ t.pre.store.dispatchStatus id

/-- Every dispatch leaves OFFERED at most once in the run. -/
structure AnsweredOnce (ts : List (Transition Db Call Input)) (c' : Config Db Call) : Prop where
  once : ∀ id, ts.countP (changesStatus id) ≤ 1
  /-- No statement overwrites a dispatch that is DECLINED, EXPIRED or WITHDRAWN. -/
  kept : ∀ t ∈ ts, ∀ (id : DispatchId) (row : OrderDispatch),
    t.pre.store.dispatches[id]? = some row → row.status.Closed →
    t.post.store.dispatches[id]? = some row
  /-- No master is penalised for not answering a dispatch that he is recorded to have
  accepted. -/
  unpunished : ∀ p ∈ c'.store.penalties, p.eventType = .lateResponse →
    ∀ d ∈ c'.store.dispatches, p.orderId = some d.orderId → p.masterId = d.masterId →
      d.status ≠ .accepted

/-- An `acceptOffer` that commits next finds its dispatch not closed. -/
def AcceptsOpen (_me : ℕ) (x : Input) (k : Call) (db : Db) : Prop :=
  match k.pc, k.op with
  | .accepting _ _, .acceptOffer dispatchId _ =>
      x.fail = false → ∀ s ∈ db.dispatchStatus dispatchId, ¬ s.Closed
  | _, _ => True

instance (me : ℕ) (x : Input) (k : Call) (db : Db) : Decidable (AcceptsOpen me x k db) :=
  decidable_of_bool
    (match k.pc, k.op with
      | .accepting _ _, .acceptOffer dispatchId _ =>
          decide (x.fail = false → ∀ s ∈ db.dispatchStatus dispatchId, ¬ s.Closed)
      | _, _ => true)
    (by unfold AcceptsOpen; split <;> simp only [decide_eq_true_iff])

section Statements

variable {env : Env} {me : ℕ} {x : Input} {k : Call} {db : Db} {o : Outcome Db Call}

/-- **How a dispatch changes** where acceptances find theirs open: it is OFFERED before and not
after, or it is an accepted one that is accepted again. -/
theorem Stmt.dispatch_change (h : Stmt env me x db k o)
    (hfails : x.fail = true → o = k.goto (db.unlock me) (.threw .infrastructure))
    (hC : AcceptsOpen me x k db) {id : ℕ} {row row' : OrderDispatch}
    (hrow : db.dispatches[id]? = some row) (hrow' : o.store.dispatches[id]? = some row') :
    row' = row ∨ (row.status = .offered ∧ row'.status ≠ .offered) ∨
      (row.status = .accepted ∧ row'.status = .accepted) := by
  by_cases hx : x.fail = true
  · rw [hfails hx] at hrow'
    exact Or.inl (Option.some.inj (hrow'.symm.trans hrow))
  have hx : x.fail = false := by simpa using hx
  cases h.dispatchEffect hrow' with
  | same hrow' => exact Or.inl (Option.some.inj (hrow'.symm.trans hrow))
  | inserted => simp at hrow
  | accepted hsame =>
      obtain rfl := Option.some.inj (hrow.symm.trans hsame)
      have hopen : ¬ row.status.Closed := hC hx _ (by simp [Db.dispatchStatus, hrow])
      cases hst : row.status with
      | offered => exact Or.inr (Or.inl ⟨rfl, by simp [OrderDispatch.accept]⟩)
      | accepted => exact Or.inr (Or.inr ⟨rfl, rfl⟩)
      | _ => exact absurd (by simp [DispatchStatus.Closed, hst]) hopen
  | closed hsame hoffered _ hne =>
      obtain rfl := Option.some.inj (hrow.symm.trans hsame)
      exact Or.inr (Or.inl ⟨hoffered, hne⟩)

/-- A dispatch stays. -/
theorem Stmt.dispatch_stays (h : Stmt env me x db k o) {id : ℕ} {row : OrderDispatch}
    (hrow : db.dispatches[id]? = some row) :
    ∃ row', o.store.dispatches[id]? = some row' ∧ row'.offer = row.offer := by
  have hoffer : db.offers[id]? = some row.offer := by simp [Db.offers, hrow]
  simpa [Db.offers] using h.offers_getElem? hoffer

/-- A closed dispatch stays as it is. -/
theorem Stmt.closed_stays (h : Stmt env me x db k o)
    (hfails : x.fail = true → o = k.goto (db.unlock me) (.threw .infrastructure))
    (hC : AcceptsOpen me x k db) {id : ℕ} {row : OrderDispatch}
    (hrow : db.dispatches[id]? = some row) (hclosed : row.status.Closed) :
    o.store.dispatches[id]? = some row := by
  obtain ⟨row', hrow', -⟩ := h.dispatch_stays hrow
  rcases h.dispatch_change hfails hC hrow hrow' with rfl | ⟨hst, -⟩ | ⟨hst, -⟩
  · exact hrow'
  · simp [hst, DispatchStatus.Closed] at hclosed
  · simp [hst, DispatchStatus.Closed] at hclosed

/-! ### Late responses -/

/-- The order was offered to the master, and every such offer has expired. -/
structure Db.Late (db : Db) (masterId : UserId) (orderId : OrderId) : Prop where
  offered : ∃ d ∈ db.dispatches, d.orderId = orderId ∧ d.masterId = masterId
  expired : ∀ d ∈ db.dispatches, d.orderId = orderId → d.masterId = masterId → d.status = .expired

/-- No order is offered to a master twice. -/
def Db.OffersUnique (db : Db) : Prop :=
  ∀ (i j : DispatchId) (d d' : OrderDispatch), db.dispatches[i]? = some d →
    db.dispatches[j]? = some d' → d.orderId = d'.orderId → d.masterId = d'.masterId → i = j

/-- No order is offered to a master twice, and a LATE_RESPONSE is recorded only against one who
was late. -/
structure Db.LateOnly (db : Db) : Prop where
  unique : ∀ (i j : DispatchId) (d d' : OrderDispatch), db.dispatches[i]? = some d →
    db.dispatches[j]? = some d' → d.orderId = d'.orderId → d.masterId = d'.masterId → i = j
  late : ∀ p ∈ db.penalties, p.eventType = .lateResponse → ∀ orderId, p.orderId = some orderId →
    db.Late p.masterId orderId

/-- The expired dispatch of a call that has claimed it, and what the call is about to record. -/
def Call.ExpiresLate (db : Db) (k : Call) : Prop :=
  match k.pc, k.op with
  | .claimed _, .handleOfferExpiry id =>
      ∃ d, db.dispatches[id]? = some d ∧ d.status = .expired
  | .after todo _, _ => ∀ masterId orderId note,
      Followup.createPenalty masterId .lateResponse orderId note ∈ todo → db.Late masterId orderId
  | _, _ => True

/-- Where a dispatch comes from. -/
theorem Stmt.dispatch_before (h : Stmt env me x db k o) {id : ℕ} {d' : OrderDispatch}
    (hd' : o.store.dispatches[id]? = some d') :
    (∃ d : OrderDispatch, db.dispatches[id]? = some d ∧ d'.offer = d.offer) ∨
      id = db.dispatches.length ∧ alreadyOffered db d'.orderId d'.masterId = false := by
  cases h.dispatchEffect hd' with
  | same hrow | accepted hrow | closed hrow => exact Or.inl ⟨_, hrow, rfl⟩
  | inserted hfree => exact Or.inr ⟨rfl, hfree⟩

theorem not_alreadyOffered {d : OrderDispatch} (hd : d ∈ db.dispatches) {orderId : OrderId}
    {masterId : UserId} (hfree : alreadyOffered db orderId masterId = false)
    (hid : d.orderId = orderId) : d.masterId ≠ masterId := by
  simp only [alreadyOffered, List.any_eq_false, decide_eq_true_eq, not_and] at hfree
  exact hfree d hd hid

theorem Db.Late.of_stmt (h : Stmt env me x db k o)
    (hfails : x.fail = true → o = k.goto (db.unlock me) (.threw .infrastructure))
    (hC : AcceptsOpen me x k db) {masterId : UserId} {orderId : OrderId}
    (hlate : db.Late masterId orderId) : o.store.Late masterId orderId := by
  obtain ⟨d, hd, hid, hm⟩ := hlate.offered
  refine ⟨?_, fun d' hd' hid' hm' => ?_⟩
  · obtain ⟨i, hi⟩ := List.getElem?_of_mem hd
    obtain ⟨d', hd', hoffer⟩ := h.dispatch_stays hi
    exact ⟨d', List.mem_of_getElem? hd', (congrArg Offer.orderId hoffer).trans hid,
      (congrArg Offer.masterId hoffer).trans hm⟩
  · obtain ⟨i, hi'⟩ := List.getElem?_of_mem hd'
    rcases h.dispatch_before hi' with ⟨d₀, hi, hoffer⟩ | ⟨-, hfree⟩
    · have hexpired : d₀.status = .expired :=
        hlate.expired d₀ (List.mem_of_getElem? hi) ((congrArg Offer.orderId hoffer).symm.trans hid')
          ((congrArg Offer.masterId hoffer).symm.trans hm')
      have hstays := h.closed_stays hfails hC hi (Or.inr (Or.inl hexpired))
      rwa [← Option.some.inj (hi'.symm.trans hstays)] at hexpired
    · exact absurd (hm.trans hm'.symm) (not_alreadyOffered hd hfree (hid.trans hid'.symm))

/-- The unique constraint. -/
theorem Stmt.offersUnique (h : Stmt env me x db k o) (hunique : db.OffersUnique) :
    o.store.OffersUnique := by
  intro i j d d' hd hd' hid hm
  rcases h.dispatch_before hd with ⟨d₀, hd₀, hoffer⟩ | ⟨rfl, hfree⟩
  · have hid₀ : d₀.orderId = d'.orderId := (congrArg Offer.orderId hoffer).symm.trans hid
    have hm₀ : d₀.masterId = d'.masterId := (congrArg Offer.masterId hoffer).symm.trans hm
    rcases h.dispatch_before hd' with ⟨d₁, hd₁, hoffer'⟩ | ⟨rfl, hfree⟩
    · exact hunique i j d₀ d₁ hd₀ hd₁ (hid₀.trans (congrArg Offer.orderId hoffer'))
        (hm₀.trans (congrArg Offer.masterId hoffer'))
    · exact absurd hm₀ (not_alreadyOffered (List.mem_of_getElem? hd₀) hfree hid₀)
  · rcases h.dispatch_before hd' with ⟨d₁, hd₁, hoffer'⟩ | ⟨rfl, -⟩
    · refine absurd ((congrArg Offer.masterId hoffer').symm.trans hm.symm)
        (not_alreadyOffered (List.mem_of_getElem? hd₁) hfree ?_)
      exact (congrArg Offer.orderId hoffer').symm.trans hid.symm
    · rfl

theorem Stmt.lateOnly (h : Stmt env me x db k o)
    (hfails : x.fail = true → o = k.goto (db.unlock me) (.threw .infrastructure))
    (hC : AcceptsOpen me x k db) (hG : db.LateOnly) (hk : k.ExpiresLate db) :
    o.store.LateOnly := by
  refine ⟨h.offersUnique hG.unique, fun p hp hevent orderId hid => ?_⟩
  refine Db.Late.of_stmt h hfails hC ?_
  rcases h.penalties with heq | ⟨m, e, oid, note, todo, next, p', hpc, -, heq, hm, he, ho⟩
  · exact hG.late p (heq ▸ hp) hevent orderId hid
  · rw [heq, List.mem_append, List.mem_singleton] at hp
    rcases hp with hp | rfl
    · exact hG.late p hp hevent orderId hid
    · obtain ⟨op, pc⟩ := k
      obtain rfl : pc = _ := hpc
      obtain rfl := Option.some.inj (ho.symm.trans hid)
      subst hm
      refine hk p.masterId oid note ?_
      simp [← he, hevent]

/-- Only an expiry records a LATE_RESPONSE. -/
theorem Lifecycle.no_lateResponse (l : Lifecycle) {order : Order} {masterId : UserId}
    {orderId : OrderId} {note : Option String} :
    Followup.createPenalty masterId .lateResponse orderId note ∉ l.spec.followups order := by
  cases l with
  | confirmCompletion customerId id =>
      cases hm : order.masterId <;> simp [Lifecycle.spec, hm]
  | _ => simp [Lifecycle.spec, recordEvent]

theorem Reads.expiresLate {op : Op} {pc pc' : Pc} (h : Reads env x db op pc pc')
    (hG : db.LateOnly) (hk : Call.ExpiresLate db ⟨op, pc⟩) : Call.ExpiresLate db ⟨op, pc'⟩ := by
  cases h with
  | @expiryFull id orderId full hfull =>
      obtain ⟨d, hd, hst⟩ := hk
      obtain rfl := Option.some.inj (hfull.symm.trans hd)
      intro masterId orderId' note hmem
      obtain ⟨rfl, rfl, -⟩ : masterId = full.masterId ∧ orderId' = full.orderId ∧ note = none := by
        simpa [expiryFollowups, recordEvent] using hmem
      refine ⟨⟨full, List.mem_of_getElem? hfull, rfl, rfl⟩, fun d' hd' hid hm => ?_⟩
      obtain ⟨j, hj⟩ := List.getElem?_of_mem hd'
      obtain rfl := hG.unique j id d' full hj hfull hid hm
      rwa [Option.some.inj (hj.symm.trans hfull)]
  | _ => trivial

/-- A statement establishes what its call is about to record. -/
theorem Stmt.expiresLate (h : Stmt env me x db k o)
    (hfails : x.fail = true → o = k.goto (db.unlock me) (.threw .infrastructure))
    (hC : AcceptsOpen me x k db) (hG : db.LateOnly) (hk : k.ExpiresLate db) :
    o.call.ExpiresLate o.store := by
  have hlate : ∀ {masterId orderId}, db.Late masterId orderId → o.store.Late masterId orderId :=
    Db.Late.of_stmt h hfails hC
  cases h with
  | reads hr => exact hr.expiresLate hG hk
  | @expiry id row hrow hst =>
      exact ⟨_, Table.modify_of_row hrow id, by simp⟩
  | @lifecycle l order =>
      intro masterId orderId note hmem
      exact absurd hmem l.no_lateResponse
  | @followup op f todo next db' hf =>
      intro masterId orderId note hmem
      exact hlate (hk masterId orderId note (List.mem_cons_of_mem f hmem))
  | cascadeEnqueue | failSearchRecord =>
      intro masterId orderId note hmem
      simp [offerFollowups, failSearchFollowups] at hmem
  | _ => trivial

/-- A statement of another call keeps it. -/
theorem Stmt.expiresLate_other (h : Stmt env me x db k o)
    (hfails : x.fail = true → o = k.goto (db.unlock me) (.threw .infrastructure))
    (hC : AcceptsOpen me x k db) {k' : Call} (hk' : k'.ExpiresLate db) :
    k'.ExpiresLate o.store := by
  obtain ⟨op, pc⟩ := k'
  cases pc with
  | claimed orderId =>
      cases op with
      | handleOfferExpiry id =>
          obtain ⟨d, hd, hst⟩ := hk'
          exact ⟨d, h.closed_stays hfails hC hd (Or.inr (Or.inl hst)), hst⟩
      | _ => trivial
  | after todo next =>
      intro masterId orderId note hmem
      exact Db.Late.of_stmt h hfails hC (hk' masterId orderId note hmem)
  | _ => cases op <;> trivial

end Statements

/-! ### Runs -/

/-- What is known of late responses, over a run in which acceptances find their dispatch open. -/
def lateOutline (env : Env) : Outline (orders env) fun t => t.Satisfies AcceptsOpen where
  G := Db.LateOnly
  L db _ k := k.ExpiresLate db
  start t i k _ _ hentry _ := by
    obtain ⟨op, pc⟩ := k
    cases op <;> cases pc <;> trivial
  own t i x k o hC he hk hstep _ hG hL := by
    obtain ⟨-, h, hfails⟩ := step_cases hstep
    refine ⟨h.lateOnly hfails (hC i x k he hk) hG hL, h.expiresLate hfails (hC i x k he hk) hG hL,
      fun j k' hk' => ?_⟩
    obtain ⟨op, pc⟩ := k'
    obtain rfl : pc = .start := h.spawned_start _ hk'
    cases op <;> trivial
  others t i x k o j k' hC he hk hstep hk' _ hG hL hL' := by
    obtain ⟨-, h, hfails⟩ := step_cases hstep
    exact h.expiresLate_other hfails (hC i x k he hk) hL'

section Run

variable {env : Env} {db : Db} {c' : Config Db Call} {ts : List (Transition Db Call Input)}

/-- The right of a dispatch to leave OFFERED: it is OFFERED, or is not there yet. -/
def Db.unanswered (id : DispatchId) (db : Db) : ℕ :=
  match db.dispatchStatus id with
  | none | some .offered => 1
  | _ => 0

/-- The dispatch that a committed `acceptOffer` accepts. -/
theorem acceptWrite_row {me : ℕ} {now : Time} {id : DispatchId} {masterId : UserId}
    {dispatch row : OrderDispatch} {order : Order} (hrow : db.dispatches[id]? = some row) :
    (acceptWrite db me now id masterId dispatch order).dispatches[id]? =
      some (row.accept now) := by
  simp only [acceptWrite, Db.unlock_dispatches, Db.createNotification_dispatches,
    Db.createHistory_dispatches, Db.setStatus_dispatches, Db.withdrawOthers_dispatches,
    List.getElem?_mapIdx, Db.updateDispatch_dispatches, Table.modify_of_row hrow]
  simp

theorem post_of_accepting {t : Transition Db Call Input} (ht : (orders env).Fires t) {i : ℕ}
    {x : Input} {id : DispatchId} {masterId : UserId} {dispatch : OrderDispatch} {order : Order}
    (he : t.event = .run i x)
    (hk : t.pre.calls[i]? = some ⟨.acceptOffer id masterId, .accepting dispatch order⟩)
    (hx : x.fail = false) :
    t.post.store = acceptWrite t.pre.store i x.now id masterId dispatch order := by
  obtain ⟨k, o, hi, h, hpost, -⟩ := stmt_of_event ht he
  obtain rfl := Option.some.inj (hk.symm.trans hi)
  rw [hpost, h.accept_eq hx]

theorem unanswered_le_one (db : Db) (id : DispatchId) : db.unanswered id ≤ 1 := by
  unfold Db.unanswered
  split <;> omega

/-- A change of the status uses up the right, and nothing gives it. -/
theorem changesStatus_le {t : Transition Db Call Input} (ht : (orders env).Fires t)
    (hC : t.Satisfies AcceptsOpen) (id : DispatchId) :
    (if changesStatus id t then 1 else 0) + t.post.store.unanswered id ≤
      t.pre.store.unanswered id := by
  have hsame : t.post.store.dispatchStatus id = t.pre.store.dispatchStatus id →
      (if changesStatus id t then 1 else 0) + t.post.store.unanswered id ≤
        t.pre.store.unanswered id := by
    intro heq
    simp [changesStatus, Db.unanswered, heq]
  rcases stmt_of_fires ht with ⟨k, he, -, hpost⟩ | ⟨i, x, k, o, he, hi, -, h, hfails, hpost⟩
  · exact hsame (by rw [hpost])
  · have hstore : t.post.store = o.store := by rw [hpost]
    cases hrow : t.pre.store.dispatches[id]? with
    | none =>
        have hnone : t.pre.store.dispatchStatus id = none := by simp [Db.dispatchStatus, hrow]
        have hle := unanswered_le_one t.post.store id
        simpa [changesStatus, Db.unanswered, hnone] using hle
    | some row =>
        obtain ⟨row', hrow', -⟩ := h.dispatch_stays hrow
        have hpre : t.pre.store.dispatchStatus id = some row.status := by
          simp [Db.dispatchStatus, hrow]
        have hpost' : t.post.store.dispatchStatus id = some row'.status := by
          simp [Db.dispatchStatus, hstore, hrow']
        rcases h.dispatch_change hfails (hC i x k he hi) hrow hrow' with
          rfl | ⟨hst, hst'⟩ | ⟨hst, hst'⟩
        · exact hsame (hpost'.trans hpre.symm)
        · have hbefore : t.pre.store.unanswered id = 1 := by simp [Db.unanswered, hpre, hst]
          have hafter : t.post.store.unanswered id = 0 := by
            simp only [Db.unanswered, hpost']
            split
            · rename_i heq
              simp at heq
            · rename_i heq
              exact absurd (Option.some.inj heq) hst'
            · rfl
          rw [hbefore, hafter]
          split <;> omega
        · exact hsame (by rw [hpost', hpre, hst, hst'])

/-- **Each dispatch is answered once if and only if every acceptance finds its dispatch open.** -/
theorem answeredOnce_iff (hrun : (orders env).Run ⟨db, []⟩ ts c') (h0 : db.LateOnly) :
    AnsweredOnce ts c' ↔ ∀ t ∈ ts, t.Satisfies AcceptsOpen := by
  constructor
  · intro honce t ht i x k he hk
    obtain ⟨op, pc⟩ := k
    cases pc with
    | accepting dispatch order =>
        cases op with
        | acceptOffer id masterId =>
            intro hx s hs hclosed
            obtain ⟨row, hrow, rfl⟩ := Option.map_eq_some_iff.mp hs
            have hkept := honce.kept t ht id row hrow hclosed
            -- The commit has written ACCEPTED over the closed dispatch.
            rw [post_of_accepting (hrun.fires t ht) he hk hx, acceptWrite_row hrow] at hkept
            have hst : row.status = .accepted := by
              rw [← Option.some.inj hkept]
              rfl
            simp [hst, DispatchStatus.Closed] at hclosed
        | _ => trivial
    | _ => cases op <;> trivial
  · intro hC
    have hholds := ((lateOutline env).holds_run hrun hC ⟨h0, fun i k hk => by simp at hk⟩).1
    refine ⟨fun id => ?_, fun t ht id row hrow hclosed => ?_, fun p hp hevent d hd hid hm hst => ?_⟩
    · have hcount := hrun.countP_add_le (fun c => c.store.unanswered id) (changesStatus id)
        fun t ht hfire => changesStatus_le hfire (hC t ht) id
      have hone : db.unanswered id ≤ 1 := by
        unfold Db.unanswered
        split <;> omega
      dsimp only at hcount
      omega
    · rcases stmt_of_fires (hrun.fires t ht) with
        ⟨k, he, -, hpost⟩ | ⟨i, x, k, o, he, hi, -, h, hfails, hpost⟩
      · rwa [hpost]
      · rw [hpost]
        exact h.closed_stays hfails (hC t ht i x k he hi) hrow hclosed
    · have hlate := hholds.1.late p hp hevent d.orderId hid
      have hexpired := hlate.expired d hd rfl hm.symm
      simp [hst] at hexpired

end Run

/-- Master 1 accepts in time, and the expiry job then finds the dispatch ACCEPTED. -/
def acceptInTime : List (Event Call Input) :=
  [.start ⟨.acceptOffer 0 1, .start⟩, .run 0 {}, .run 0 {}, .run 0 {}, .run 0 {}, .run 0 {},
    .start ⟨.handleOfferExpiry 0, .start⟩, .run 1 { now := 60000 }]

theorem lateOnly_oneOffer : oneOffer.LateOnly := by
  refine ⟨fun i j d d' hd hd' _ _ => ?_, fun p hp => by simp [oneOffer] at hp⟩
  have hi : i < 1 := (List.getElem?_eq_some_iff.mp hd).1
  have hj : j < 1 := (List.getElem?_eq_some_iff.mp hd').1
  exact (Nat.lt_one_iff.mp hi).trans (Nat.lt_one_iff.mp hj).symm

theorem answeredOnce_acceptInTime :
    AnsweredOnce ((orders .flat).trace ⟨oneOffer, []⟩ acceptInTime)
        ((orders .flat).after ⟨oneOffer, []⟩ acceptInTime) ↔
      ∀ t ∈ (orders .flat).trace ⟨oneOffer, []⟩ acceptInTime, t.Satisfies AcceptsOpen :=
  answeredOnce_iff ((orders .flat).run_trace _ _) lateOnly_oneOffer

/-- The calls that answer an offer or let it expire. -/
def Op.Answers : Op → Prop
  | .acceptOffer _ _ | .declineOffer _ _ | .handleOfferExpiry _ => True
  | _ => False

/-- The dispatch expires between the check and the commit of an acceptance. -/
def expireWhileAccepting : List (Event Call Input) :=
  [.start ⟨.acceptOffer 0 1, .start⟩, .run 0 {}, .run 0 {}, .run 0 {}, .run 0 { now := 60000 },
    .start ⟨.handleOfferExpiry 0, .start⟩, .run 1 { now := 60000 }, .run 0 { now := 60000 },
    .run 1 {}, .run 1 {}, .run 1 {}]

/-- The master is penalised for not answering and has accepted. -/
theorem not_answeredOnce_always :
    ¬ ∀ (env : Env) (db : Db) (ts : List (Transition Db Call Input)) (c' : Config Db Call),
      (orders env).Run ⟨db, []⟩ ts c' → db.LateOnly →
      (∀ t ∈ ts, ∀ k, t.event = .start k → k.op.Answers) → AnsweredOnce ts c' := by
  intro h
  have honce := h .flat oneOffer _ _ ((orders .flat).run_trace ⟨oneOffer, []⟩ expireWhileAccepting)
    lateOnly_oneOffer ?_
  · exact absurd (honce.once 0) (by decide +kernel)
  · intro t ht k he
    have hstart := (orders .flat).event_mem_of_mem_trace ht
    rw [he] at hstart
    simp only [expireWhileAccepting, List.mem_cons, Event.start.injEq, reduceCtorEq,
      List.not_mem_nil, or_false, false_or] at hstart
    rcases hstart with rfl | rfl <;> trivial

end Handly
