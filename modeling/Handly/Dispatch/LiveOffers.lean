import Handly.Dispatch.OpenOffers

/-!
# Live offers

An OFFERED dispatch is shown to its master, who may accept it, so its order should
still be searched for. `acceptOffer` sees to this when the order leaves SEARCHING:
it withdraws the other offers in the same transaction. The writes by which `cancel`
and `failSearch` end a search leave the dispatches alone, and `cascadeNext` inserts
an offer for an order that it has read earlier. The offers stay live exactly as long
as these writes find none open and these inserts find the order SEARCHING.
-/

namespace Handly

open Interleaving

/-- Every OFFERED dispatch is of a SEARCHING order, and `acceptOffer` refuses no offer that
`getCurrentOffer` shows. This is asked of every state, and not only once nothing is in
flight. -/
structure OffersLive (db : Db) : Prop where
  searching : ∀ dispatch ∈ db.dispatches, dispatch.status = .offered →
    db.statusOf dispatch.orderId = some .searching
  shown : ∀ now masterId dispatchId, getCurrentOffer db now masterId = some dispatchId →
    ∃ dispatch order, findOwnOffer db dispatchId masterId = .ok dispatch ∧
      db.orders[dispatch.orderId]? = some order ∧ acceptCheck now order dispatch = .ok ()

/-- The next statement does not strand an offer: unless it commits an `acceptOffer`, it
takes no order out of SEARCHING that has an open offer, and it makes no offer for an
order that is not SEARCHING. -/
structure Call.StrandsNone (k : Call) (db : Db) : Prop where
  ends : ∀ w, k.Writes w → w.masterId = none → w.status ≠ .searching →
    (∀ s ∈ w.whereStatus, s = .searching) → db.statusOf w.orderId = some .searching →
    db.openOffers w.orderId = 0
  offers : ∀ orderId attempt order rankSoFar picked,
    k.pc = .cascadeCreate orderId attempt order rankSoFar picked →
    alreadyOffered db orderId picked.masterId = false → db.statusOf orderId = some .searching

/-- The same of the statement that a transition runs, unless the statement fails. -/
def StrandsNone (t : Transition Db Call Input) : Prop :=
  t.Satisfies fun _ x k db => x.fail = false → k.StrandsNone db

/-! ### One state -/

/-- An offer that is shown can be accepted if its order is SEARCHING. -/
theorem acceptable_of_searching {db : Db}
    (hlive : ∀ dispatch ∈ db.dispatches, dispatch.status = .offered →
      db.statusOf dispatch.orderId = some .searching)
    {now : Time} {masterId : UserId} {dispatchId : DispatchId}
    (hshown : getCurrentOffer db now masterId = some dispatchId) :
    ∃ dispatch order, findOwnOffer db dispatchId masterId = .ok dispatch ∧
      db.orders[dispatch.orderId]? = some order ∧ acceptCheck now order dispatch = .ok () := by
  obtain ⟨⟨id, dispatch⟩, hfound, rfl⟩ := Option.map_eq_some_iff.mp hshown
  obtain ⟨hrow, hp⟩ := Table.findLastRow_eq_some hfound
  obtain ⟨hmaster, hoffered, hexpires⟩ := of_decide_eq_true hp
  have hsearching := hlive dispatch (List.mem_of_getElem? hrow) hoffered
  obtain ⟨order, horder, hstatus⟩ := Db.statusOf_eq_some.mp hsearching
  refine ⟨dispatch, order, ?_, horder, ?_⟩
  · simp [findOwnOffer, hrow, hmaster]
  · have hcan : canTransition order.status .assigned = true := canTransition_assigned.mpr hstatus
    have hopen : ¬ dispatch.expiresAt < now := not_lt.mpr hexpires.le
    simp [acceptCheck, hoffered, hopen, hcan]

/-- It is enough that orders with open offers are SEARCHING. -/
theorem offersLive_iff {db : Db} :
    OffersLive db ↔
      ∀ orderId, 0 < db.openOffers orderId → db.statusOf orderId = some .searching := by
  constructor
  · intro h orderId hopen
    obtain ⟨dispatch, hmem, rfl, hoffered⟩ := openOffers_pos_iff.mp hopen
    exact h.searching dispatch hmem hoffered
  · intro h
    have hsearching : ∀ dispatch ∈ db.dispatches, dispatch.status = .offered →
        db.statusOf dispatch.orderId = some .searching :=
      fun dispatch hmem hoffered =>
        h dispatch.orderId (openOffers_pos_iff.mpr ⟨dispatch, hmem, rfl, hoffered⟩)
    exact ⟨hsearching, fun _ _ _ => acceptable_of_searching hsearching⟩

/-! ### One statement -/

section Step

variable {env : Env} {me : ℕ} {x : Input} {k : Call} {db : Db} {o : Outcome Db Call}

/-- A statement that only reads although a write of `Order.status` is next has missed
the row. -/
theorem Reads.write_missed {op : Op} {pc pc' : Pc} (h : Reads env x db op pc pc') {w : JobWrite}
    (hw : Call.Writes ⟨op, pc⟩ w) :
    db.orders[w.orderId]? = none ∨ ∃ s ∈ w.whereStatus, db.statusOf w.orderId ≠ some s := by
  cases h with
  | updateDraftMissing hnone | submitMissing hnone | diagnoseMissing hnone =>
      cases hw
      exact Or.inl hnone
  | lifecycleLost hne | failSearchLost hne =>
      cases hw
      exact Or.inr ⟨_, rfl, hne⟩
  | cascadeStops henter | cascadeMissing henter | cascadeReads henter => cases henter <;> cases hw
  | failSearchStops henter | failSearchReads henter => cases henter <;> cases hw
  | _ => cases hw

/-- A write of `Order.status` whose `where` matches is carried out, and only
`acceptOffer` writes dispatches with it. -/
theorem Stmt.status_written (h : Stmt env me x db k o) (hfail : x.fail = false) {w : JobWrite}
    (hw : k.Writes w) {s : OrderStatus} (hs : db.statusOf w.orderId = some s)
    (hmatched : ∀ r ∈ w.whereStatus, r = s) (hmaster : w.masterId = none) :
    o.store.statusOf w.orderId = some w.status ∧ o.store.dispatches = db.dispatches := by
  obtain ⟨row, hrow, rfl⟩ := Db.statusOf_eq_some.mp hs
  have hwritten : ∀ {id : OrderId} {t : OrderStatus} {f : Order → Order},
      db.orders[id]? = some row → (db.setStatus me id t f).statusOf id = some t := by
    intro id t f hid
    simp [Db.statusOf, hid]
  cases h with
  | fails hx => simp [hx] at hfail
  | reads hr =>
      rcases hr.write_missed hw with hnone | ⟨r, hr, hne⟩
      · simp [hnone] at hrow
      · rw [hmatched r hr] at hne
        exact absurd hs hne
  | updateDraft =>
      cases hw with
      | updateDraft hinv =>
          refine ⟨?_, by simp⟩
          simp only [updateDraftWrite, hinv, if_true]
          exact hwritten hrow
  | lifecycle =>
      cases hw with
      | lifecycle =>
          refine ⟨?_, by simp⟩
          rw [Db.statusOf, GuardedTransition.write, (GuardedTransition.credit_frame _ _ _).1]
          exact hwritten hrow
  | accept =>
      cases hw with
      | accept => simp at hmaster
  | diagnose | submit | failSearchUpdate =>
      cases hw
      exact ⟨hwritten hrow, rfl⟩
  | acceptRollback hpc => rcases hpc with rfl | ⟨order, rfl⟩ <;> cases hw
  | _ => cases hw

/-- The insert of `cascadeNext` is carried out when the unique constraint allows it. -/
theorem Stmt.offer_inserted (h : Stmt env me x db k o) (hfail : x.fail = false)
    {orderId : OrderId} {attempt : Attempt} {order : Order} {rankSoFar : ℕ}
    {picked : EligibleCandidate}
    (hpc : k.pc = .cascadeCreate orderId attempt order rankSoFar picked)
    (hnew : alreadyOffered db orderId picked.masterId = false) :
    0 < o.store.openOffers orderId ∧ o.store.statusOf orderId = db.statusOf orderId := by
  obtain ⟨op, pc⟩ := k
  obtain rfl : pc = _ := hpc
  cases h with
  | fails hx => simp [hx] at hfail
  | reads hr =>
      cases hr with
      | cascadeStops henter | cascadeMissing henter | cascadeReads henter => cases henter
      | cascadeRetries hdup => simp [hnew] at hdup
      | failSearchStops henter | failSearchReads henter => cases henter
  | acceptRollback hpc => rcases hpc with hpc | ⟨order, hpc⟩ <;> cases hpc
  | cascadeInsert =>
      refine ⟨openOffers_pos_iff.mpr ?_, rfl⟩
      refine ⟨offerOf env x.now orderId order rankSoFar picked, ?_, rfl, rfl⟩
      simp

/-- Only the commit of an `acceptOffer` writes a master. -/
theorem accepting_of_writes {w : JobWrite} (hw : k.Writes w) (hmaster : w.masterId ≠ none) :
    ∃ dispatchId masterId dispatch order,
      k = ⟨.acceptOffer dispatchId masterId, .accepting dispatch order⟩ ∧
        w.orderId = dispatch.orderId := by
  cases hw with
  | accept => exact ⟨_, _, _, _, rfl, rfl⟩
  | _ => exact absurd rfl hmaster

/-- **One statement keeps the offers live if and only if it strands none.** -/
theorem offersLive_step (h : Stmt env me x db k o) (hk : k.Knows db me)
    (hfails : x.fail = true → o = k.goto (db.unlock me) (.threw .infrastructure))
    (hlive : OffersLive db) :
    OffersLive o.store ↔ (x.fail = false → k.StrandsNone db) := by
  rw [offersLive_iff] at hlive ⊢
  constructor
  · intro hlive' hfail
    constructor
    · intro w hw hmaster hne hmatched hs
      obtain ⟨hstatus, hdispatches⟩ := h.status_written hfail hw hs hmatched hmaster
      by_contra hopen
      have hsearching := hlive' w.orderId (by
        rw [openOffers_congr hdispatches]
        exact Nat.pos_of_ne_zero hopen)
      rw [hstatus] at hsearching
      exact hne (Option.some.inj hsearching)
    · intro orderId attempt order rankSoFar picked hpc hnew
      obtain ⟨hopen, hstatus⟩ := h.offer_inserted hfail hpc hnew
      rw [← hstatus]
      exact hlive' orderId hopen
  · intro hnone orderId hopen
    cases hx : x.fail with
    | true =>
        rw [hfails hx] at hopen ⊢
        exact hlive orderId hopen
    | false =>
        -- An order that was SEARCHING still is, unless its offers are gone.
        have hstays : db.statusOf orderId = some .searching →
            0 < db.openOffers orderId ∨ (∀ w, ¬ k.Writes w) →
            o.store.statusOf orderId = some .searching := by
          intro hs hpre
          rcases h.jobs.statusOf_before hs with
            hkept | ⟨w, job, hw, rfl, hjob, hstatus, hmatched, hwritten⟩
          · exact hkept
          rw [hwritten]
          by_contra hne
          have hne' : w.status ≠ .searching := fun he => hne (by rw [he])
          rcases hpre with hpos | hreads
          · by_cases hmaster : w.masterId = none
            · have hzero := (hnone hx).ends w hw hmaster hne'
                (fun s hs => (hmatched s hs).symm.trans hstatus) hs
              omega
            · obtain ⟨d, m, dispatch, order, rfl, hid⟩ := accepting_of_writes hw hmaster
              have hclosed : o.store.openOffers dispatch.orderId = 0 := by
                rw [h.accept_eq hx]
                exact openOffers_accept_self
              rw [hid, hclosed] at hopen
              exact absurd hopen (lt_irrefl 0)
          · exact hreads w hw
        cases h.openOffers orderId hk with
        | kept hnext hcount =>
            rw [hcount] at hopen
            exact hstays (hlive orderId hopen) (Or.inl hopen)
        | claimed hnext hcount =>
            have hpre : 0 < db.openOffers orderId := by omega
            exact hstays (hlive orderId hpre) (Or.inl hpre)
        | @offered attempt order rankSoFar picked hpoint hunique hnext hcount =>
            refine hstays ((hnone hx).offers _ _ _ _ _ hpoint hunique) (Or.inr ?_)
            intro w hw
            cases hw <;> cases hpoint
        | accepted hcommit hown hnext hstatus hcount =>
            rw [hcount] at hopen
            exact absurd hopen (lt_irrefl 0)

end Step

/-! ### Whole runs -/

section Run

variable {env : Env} {db : Db} {c' : Config Db Call} {ts : List (Transition Db Call Input)}

theorem offersLive_fires {t : Transition Db Call Input} (ht : (orders env).Fires t)
    (hknows : ∀ (i : ℕ) (k : Call), t.pre.calls[i]? = some k → k.Knows t.pre.store i)
    (hlive : OffersLive t.pre.store) : OffersLive t.post.store ↔ StrandsNone t := by
  rcases stmt_of_fires ht with ⟨k, he, -, hpost⟩ | ⟨i, x, k, o, he, hi, -, h, hfails, hpost⟩
  · rw [hpost]
    exact iff_of_true hlive (Transition.satisfies_start he)
  · rw [hpost, StrandsNone, Transition.satisfies_iff he hi]
    exact offersLive_step h (hknows i k hi) hfails hlive

/-- **The offers are live in every state that a run reaches if and only if none of its
statements strands one.** -/
theorem offersLive_run_iff (hrun : (orders env).Run ⟨db, []⟩ ts c') (h0 : OffersLive db) :
    (∀ t ∈ ts, OffersLive t.post.store) ↔ ∀ t ∈ ts, StrandsNone t := by
  have hknows := (knows_of_run hrun).2
  exact hrun.invariant_iff (fun c => OffersLive c.store) StrandsNone h0 fun t ht =>
    offersLive_fires (hrun.fires t ht) (hknows t ht)

end Run

/-! ### A cancelled order with an offer -/

/-- The calls that make offers, answer them or end a search. -/
def Op.MovesSearch : Op → Prop
  | .submit _ _ | .startDispatch _ | .cascadeNext _ _ | .acceptOffer _ _ | .declineOffer _ _
  | .handleOfferExpiry _ | .failSearch _ _ | .lifecycle (.cancel _ _) => True
  | _ => False

/-- The customer cancels while master 1 has an offer. -/
def cancelOffered : List (Event Call Input) :=
  [.start ⟨.lifecycle (.cancel 0 0), .start⟩, .run 0 {}, .run 0 {}, .run 0 {}]

theorem offersLive_oneOffer : OffersLive oneOffer := by
  rw [offersLive_iff]
  intro orderId hopen
  obtain ⟨dispatch, hmem, rfl, -⟩ := openOffers_pos_iff.mp hopen
  obtain rfl := List.mem_singleton.mp hmem
  rfl

theorem offersLive_run_iff_cancelOffered :
    (∀ t ∈ (orders .flat).trace ⟨oneOffer, []⟩ cancelOffered, OffersLive t.post.store) ↔
      ∀ t ∈ (orders .flat).trace ⟨oneOffer, []⟩ cancelOffered, StrandsNone t :=
  offersLive_run_iff ((orders .flat).run_trace _ _) offersLive_oneOffer

/-- The order is cancelled and nothing is in flight, but the offer is still OFFERED. -/
theorem not_offersLive_always :
    ¬ ∀ (env : Env) (db : Db) (ts : List (Transition Db Call Input)) (c' : Config Db Call),
      (orders env).Run ⟨db, []⟩ ts c' → OffersLive db →
      (∀ t ∈ ts, ∀ k, t.event = .start k → k.op.MovesSearch) →
      (∀ k ∈ c'.calls, k.Finished) → OffersLive c'.store := by
  intro h
  have hlive := h .flat oneOffer _ _ ((orders .flat).run_trace ⟨oneOffer, []⟩ cancelOffered)
    offersLive_oneOffer ?_ (by decide +kernel)
  · have hopen : ((orders .flat).after ⟨oneOffer, []⟩ cancelOffered).store.openOffers 0 = 1 := by
      decide +kernel
    have hstatus : ((orders .flat).after ⟨oneOffer, []⟩ cancelOffered).store.statusOf 0 =
        some .cancelledByCustomer := by
      decide +kernel
    have hsearching := offersLive_iff.mp hlive 0 (by rw [hopen]; exact Nat.one_pos)
    rw [hstatus] at hsearching
    exact absurd hsearching (by decide)
  · intro t ht k he
    have hstart := (orders .flat).event_mem_of_mem_trace ht
    rw [he] at hstart
    obtain rfl : k = ⟨.lifecycle (.cancel 0 0), .start⟩ := by simpa [cancelOffered] using hstart
    trivial

end Handly
