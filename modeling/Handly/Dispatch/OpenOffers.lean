import Handly.Orders.Knowledge

/-!
# Open offers

How the OFFERED dispatches of one order come and go. One is opened by the insert of
`cascadeNext` and closed by whoever claims it, and an `acceptOffer` closes all of the
order at once. `Call.cascades` says whose cascade a call will go on with: a call that
claims an offer is bound to run the next cascade.
-/

namespace Handly

open Interleaving

/-- The OFFERED dispatches of an order. -/
def Db.openOffers (db : Db) (orderId : OrderId) : ℕ :=
  db.dispatches.countP fun d => d.orderId = orderId ∧ d.status = .offered

/-- The order whose cascade the call will go on with. -/
def Call.cascades (k : Call) : Option OrderId :=
  match k.pc, k.op with
  | .start, .startDispatch orderId | .start, .cascadeNext orderId _ => some orderId
  | .claimed orderId, _ | .after _ (some orderId), _ | .cascade orderId _, _
  | .cascadeCount orderId _ _ _, _ | .cascadeQuery orderId _ _ _ _, _
  | .cascadeCreate orderId _ _ _ _, _ => some orderId
  | _, _ => none

section OpenOffers

variable {env : Env} {me : ℕ} {x : Input} {k : Call} {db : Db} {o : Outcome Db Call}
  {orderId : OrderId}

theorem openOffers_pos_iff :
    0 < db.openOffers orderId ↔
      ∃ d ∈ db.dispatches, d.orderId = orderId ∧ d.status = .offered := by
  simp [Db.openOffers, List.countP_pos_iff]

theorem openOffers_congr {db' : Db} (h : db'.dispatches = db.dispatches) :
    db'.openOffers orderId = db.openOffers orderId := by
  rw [Db.openOffers, h]
  rfl

variable (orderId) in
/-- Claiming an OFFERED dispatch takes it from the open ones. -/
theorem openOffers_claim {id : DispatchId} {row : OrderDispatch} {f : OrderDispatch → OrderDispatch}
    (hrow : db.dispatches[id]? = some row) (hst : row.status = .offered)
    (hf : (f row).status ≠ .offered) :
    (db.updateDispatch id f).openOffers orderId + (if row.orderId = orderId then 1 else 0) =
      db.openOffers orderId := by
  have hcount := Table.countP_modify
    (p := fun d : OrderDispatch => d.orderId = orderId ∧ d.status = .offered) (f := f) hrow
  simpa [hst, hf, Db.openOffers] using hcount

/-- An accepted order has no open offer. -/
theorem openOffers_accept_self {now : Time} {dispatchId : DispatchId} {masterId : UserId}
    {dispatch : OrderDispatch} {order : Order} :
    (acceptWrite db me now dispatchId masterId dispatch order).openOffers dispatch.orderId = 0 := by
  refine List.countP_eq_zero.mpr fun d hd => ?_
  obtain ⟨id, hid, rfl⟩ := List.mem_mapIdx.mp hd
  intro hopen
  simp only [Db.updateDispatch_dispatches, List.getElem_modify] at hopen
  by_cases hd : dispatchId = id
  · -- The accepted dispatch itself.
    simp [hd, OrderDispatch.accept] at hopen
  · -- Any other that was OFFERED has been withdrawn.
    simp only [if_neg hd, decide_eq_true_eq] at hopen
    split at hopen
    · simp at hopen
    · rename_i hnot
      exact hnot ⟨hopen.1, hopen.2, Ne.symm hd⟩

/-- An `acceptOffer` leaves the offers of other orders alone. -/
theorem openOffers_accept_other {now : Time} {dispatchId : DispatchId} {masterId : UserId}
    {dispatch row : OrderDispatch} {order : Order} (hrow : db.dispatches[dispatchId]? = some row)
    (hrowid : row.orderId = dispatch.orderId) (hid : dispatch.orderId ≠ orderId) :
    (acceptWrite db me now dispatchId masterId dispatch order).openOffers orderId =
      db.openOffers orderId := by
  have hwithdraw : (acceptWrite db me now dispatchId masterId dispatch order).openOffers orderId =
      (db.updateDispatch dispatchId (OrderDispatch.accept now)).openOffers orderId := by
    refine Table.countP_mapIdx_eq (fun id d => ?_) _
    split
    · rename_i hcond
      simp [hcond.1, hid]
    · rfl
  have haccept := Table.countP_modify (f := OrderDispatch.accept now)
    (p := fun d : OrderDispatch => d.orderId = orderId ∧ d.status = .offered) hrow
  rw [hwithdraw]
  simpa [Db.openOffers, hrowid, hid, OrderDispatch.accept] using haccept

/-- What one statement can do to the open offers of an order. -/
inductive OfferEffect (orderId : OrderId) (db : Db) (k : Call) (o : Outcome Db Call) : Prop
  | kept (next : o.call.cascades = some orderId → k.cascades = some orderId)
      (count : o.store.openOffers orderId = db.openOffers orderId)
  /-- An offer is claimed, and the call that claims it will cascade. -/
  | claimed (next : o.call.cascades = some orderId)
      (count : o.store.openOffers orderId + 1 = db.openOffers orderId)
  /-- The insert of `cascadeNext`. -/
  | offered {attempt order rankSoFar picked}
      (point : k.pc = .cascadeCreate orderId attempt order rankSoFar picked)
      (unique : alreadyOffered db orderId picked.masterId = false)
      (next : o.call.cascades = none)
      (count : o.store.openOffers orderId = db.openOffers orderId + 1)
  /-- The commit of `acceptOffer`. -/
  | accepted {dispatchId masterId dispatch order}
      (commit : k = ⟨.acceptOffer dispatchId masterId, .accepting dispatch order⟩)
      (own : dispatch.orderId = orderId)
      (next : o.call.cascades = none)
      (status : o.store.statusOf orderId = some .assigned)
      (count : o.store.openOffers orderId = 0)

/-- A call that only reads keeps its cascade or gives it up. -/
theorem cascades_of_reads {op : Op} {pc pc' : Pc} (h : Reads env x db op pc pc')
    (hk : Call.Knows db me ⟨op, pc⟩) (hnext : Call.cascades ⟨op, pc'⟩ = some orderId) :
    Call.cascades ⟨op, pc⟩ = some orderId := by
  cases h with
  | @expiryFull dispatchId orderId' full hrow =>
      obtain ⟨f, hf, rfl⟩ := hk
      obtain rfl : full.offer = f := by simpa [Db.offers, hrow] using hf
      exact hnext
  | cascadeReads henter => cases henter <;> exact hnext
  | cascades | cascadeCounts | cascadePicks | cascadeExpands | cascadeRetries => exact hnext
  | _ => simp [Call.cascades] at hnext

variable (orderId) in
/-- **What a statement does to the open offers of an order.** -/
theorem Stmt.openOffers (h : Stmt env me x db k o) (hk : k.Knows db me) :
    OfferEffect orderId db k o := by
  cases h with
  | reads hr => exact .kept (cascades_of_reads hr hk) rfl
  | updateDraft | lifecycle =>
      exact .kept (by simp [Call.cascades]) (openOffers_congr (by simp))
  | @accept dispatchId masterId dispatch order =>
      obtain ⟨⟨-, hoffer⟩, -, hrow, -⟩ := hk
      obtain ⟨row, hd, hrowid⟩ : ∃ row, db.dispatches[dispatchId]? = some row ∧
          row.offer = dispatch.offer := by
        simpa [Db.offers] using hoffer
      by_cases hid : dispatch.orderId = orderId
      · subst hid
        refine .accepted rfl rfl rfl ?_ openOffers_accept_self
        have hjob := Db.jobs_of_order hrow
        have hlt := (List.getElem?_eq_some_iff.mp hjob).1
        rw [Db.statusOf_eq_jobs, acceptWrite_jobs hrow, List.getElem?_set_self hlt]
        rfl
      · refine .kept (by simp [Call.cascades]) ?_
        exact openOffers_accept_other hd (congrArg Offer.orderId hrowid) hid
  | @decline dispatchId masterId dispatch row hrow hst =>
      have hcount := openOffers_claim orderId
        (f := fun d => { d with status := .declined, respondedAt := some x.now }) hrow hst (by simp)
      -- The dispatch that was read has the order of the row that is claimed.
      have hoffer : row.offer = dispatch.offer := by simpa [Db.offers, hrow] using hk.2
      have hid : row.orderId = dispatch.orderId := congrArg Offer.orderId hoffer
      by_cases hown : row.orderId = orderId
      · refine .claimed (by rw [← hown, hid]; rfl) ?_
        simpa [hown] using hcount
      · refine .kept (fun hnext => absurd (Option.some.inj hnext) (hid ▸ hown)) ?_
        simpa [hown] using hcount
  | @expiry dispatchId row hrow hst =>
      have hcount := openOffers_claim orderId
        (f := fun d => { d with status := .expired, respondedAt := some x.now }) hrow hst (by simp)
      by_cases hown : row.orderId = orderId
      · refine .claimed (by rw [← hown]; rfl) ?_
        simpa [hown] using hcount
      · refine .kept (fun hnext => absurd (Option.some.inj hnext) hown) ?_
        simpa [hown] using hcount
  | @followup op f todo next db' hf =>
      refine .kept (fun hnext => ?_) (openOffers_congr (Followup.run_frame hf).2.1)
      cases next <;> exact hnext
  | @cascadeInsert op orderId' attempt order rankSoFar picked hnew =>
      by_cases hown : orderId' = orderId
      · subst hown
        refine .offered rfl hnew rfl ?_
        simp [Db.openOffers, offerOf]
      · refine .kept (by simp [Call.cascades]) ?_
        simp [Db.openOffers, offerOf, hown]
  | cascadeEnqueue | failSearchUpdate | failSearchRecord | fails | createDraft | diagnose | submit
  | acceptLock | acceptRollback => exact .kept (by simp [Call.cascades]) rfl

end OpenOffers

/-- An order of customer 0 that is offered to master 1. -/
def oneOffer : Db where
  users := [⟨.active, .customer⟩, ⟨.active, .master⟩]
  masters :=
    [{ userId := 1, verificationStatus := .verified, trustTier := 0, ratingAvg := 5, jobsDone := 0
       isOnline := true }]
  categories := [{ basePriceMin := 100000, basePriceMax := 200000, active := true }]
  skills := [⟨1, 0⟩]
  serviceAreas := [⟨1, (0, 0), 5000⟩]
  orders :=
    [{ customerId := 0, categoryId := some 0, description := "", status := .searching
       serviceTier := .emergency, latitude := some 0, longitude := some 0
       complexity := some .simple }]
  dispatches :=
    [{ orderId := 0, masterId := 1, rankInCascade := 1, distanceM := 0, score := 1
       expiresAt := 60000 }]
  queue := [{ dispatchId := 0, runAt := 60000 }]

end Handly
