import Handly.Orders.TransitionTable

/-!
# The race for an order

Any number of masters may try to accept offers of one order while the search, its
expiry timers and the customer go on. `Winner` is the invariant that decides the
race: at most one dispatch of the order has been accepted, it alone is the counted
lead, its master is the order's master, and it is decided once and for all. Only
the commit of `acceptOffer` names a winner. It holds the lock of the order row, so
the order it read as SEARCHING still is, and no winner was named before.
-/

namespace Handly

open Interleaving

/-! ### Leads -/

/-- The part of a dispatch that the race is about. -/
structure Lead where
  orderId : OrderId
  accepted : Bool
  counted : Bool
  deriving DecidableEq

def OrderDispatch.lead (d : OrderDispatch) : Lead :=
  ⟨d.orderId, d.status = .accepted, d.countedAsLead⟩

def Db.leads (db : Db) : List Lead := db.dispatches.map OrderDispatch.lead

section Leads

variable {env : Env} {me : ℕ} {x : Input} {k : Call} {db : Db} {o : Outcome Db Call}

theorem leads_length : db.leads.length = db.offers.length := by
  simp [Db.leads, Db.offers]

theorem leads_of_dispatch {id : DispatchId} {d : OrderDispatch} (h : db.dispatches[id]? = some d) :
    db.leads[id]? = some d.lead := by
  simp [Db.leads, h]

/-- Claiming an OFFERED dispatch for another status than ACCEPTED is not seen. -/
theorem leads_claim {id : DispatchId} {row : OrderDispatch} {f : OrderDispatch → OrderDispatch}
    (hrow : db.dispatches[id]? = some row) (hf : (f row).lead = row.lead) :
    (db.updateDispatch id f).leads = db.leads :=
  Table.map_modify_of_row hrow hf

theorem leads_withdrawOthers (db : Db) (orderId : OrderId) (except : DispatchId) (now : Time) :
    (db.withdrawOthers orderId except now).leads = db.leads := by
  refine Table.map_mapIdx_eq (fun id row => ?_) _
  split
  · rename_i hcond
    simp [OrderDispatch.lead, hcond.2.1]
  · rfl

theorem leads_accept {now : Time} {dispatchId : DispatchId} {masterId : UserId}
    {dispatch row : OrderDispatch} {order : Order} (hrow : db.dispatches[dispatchId]? = some row) :
    (acceptWrite db me now dispatchId masterId dispatch order).leads =
      db.leads.set dispatchId ⟨row.orderId, true, true⟩ := by
  have hwithdraw := leads_withdrawOthers (db.updateDispatch dispatchId (OrderDispatch.accept now))
    dispatch.orderId dispatchId now
  have haccept : (db.updateDispatch dispatchId (OrderDispatch.accept now)).leads =
      db.leads.set dispatchId ⟨row.orderId, true, true⟩ := Table.map_modify hrow
  rw [← haccept, ← hwithdraw]
  rfl

/-- **What a statement does to the leads**, unless it commits an `acceptOffer`. -/
theorem Stmt.leads (h : Stmt env me x db k o)
    (hk : ∀ dispatchId masterId dispatch order,
      k ≠ ⟨.acceptOffer dispatchId masterId, .accepting dispatch order⟩) :
    o.store.leads = db.leads ∨
      ∃ orderId, o.store.leads = db.leads ++ [⟨orderId, false, false⟩] := by
  cases h with
  | accept => exact absurd rfl (hk _ _ _ _)
  | decline hrow hst | expiry hrow hst =>
      exact Or.inl (leads_claim hrow (by simp [OrderDispatch.lead, hst]))
  | followup hf =>
      obtain ⟨-, hd, -, -, -⟩ := Followup.run_frame hf
      exact Or.inl (by simp [Db.leads, hd])
  | updateDraft | lifecycle => exact Or.inl (by simp [Db.leads])
  | @cascadeInsert op orderId =>
      exact Or.inr ⟨orderId, by simp [Db.leads, offerOf, OrderDispatch.lead]⟩
  | fails | reads | createDraft | diagnose | submit | acceptLock | acceptRollback
  | cascadeEnqueue | failSearchUpdate | failSearchRecord => exact Or.inl rfl

end Leads

/-! ### The winner -/

/-- The writes of ASSIGNED to the order. -/
def Db.assignments (db : Db) (orderId : OrderId) : List StatusWrite :=
  db.statusWrites.filter fun w => w.orderId = orderId ∧ w.written = .assigned

/-- Dispatch `w` has won the order, or nobody has. -/
structure Winner (db : Db) (orderId : OrderId) (w : Option DispatchId) : Prop where
  found : ∃ job, db.jobs[orderId]? = some job
  leads : ∀ id l, db.leads[id]? = some l → l.orderId = orderId →
    (l.accepted = true ↔ w = some id) ∧ (l.counted = true ↔ w = some id)
  offer : ∀ id, w = some id → ∃ f, db.offers[id]? = some f ∧ f.orderId = orderId
  master : ∀ job, db.jobs[orderId]? = some job →
    job.masterId = w.bind fun id => db.offers[id]?.map Offer.masterId
  searching : ∀ job, db.jobs[orderId]? = some job → job.status = .searching → w = none
  once : (db.assignments orderId).length = w.toList.length

section Step

variable {env : Env} {me : ℕ} {x : Input} {k : Call} {db : Db} {o : Outcome Db Call}
  {orderId : OrderId} {w : Option DispatchId}

/-- What the writes of other calls than `acceptOffer` cannot do. -/
theorem write_keeps_race (hedit : ¬ k.op.IsEditing)
    (hk : ∀ dispatchId masterId dispatch order,
      k ≠ ⟨.acceptOffer dispatchId masterId, .accepting dispatch order⟩)
    {u : JobWrite} (hu : k.Writes u) :
    u.masterId = none ∧ u.status ≠ .assigned ∧ u.status ≠ .searching := by
  cases hu with
  | updateDraft | diagnose | submit => exact absurd trivial hedit
  | @lifecycle l order => cases l <;> simp [Lifecycle.spec]
  | accept => exact absurd rfl (hk _ _ _ _)
  | failSearch => simp

/-- The race looks at nothing else. -/
theorem Winner.congr {db' : Db} (hw : Winner db orderId w) (hleads : db'.leads = db.leads)
    (hoffers : db'.offers = db.offers) (hjobs : db'.jobs = db.jobs)
    (hlog : db'.statusWrites = db.statusWrites) : Winner db' orderId w where
  found := hjobs ▸ hw.found
  leads := hleads ▸ hw.leads
  offer := hoffers ▸ hw.offer
  master := by
    rw [hjobs, hoffers]
    exact hw.master
  searching := hjobs ▸ hw.searching
  once := by
    rw [Db.assignments, hlog]
    exact hw.once

/-- Any statement other than the commit of an `acceptOffer` keeps the winner. -/
theorem Winner.step_other (hw : Winner db orderId w) (h : Stmt env me x db k o)
    (hedit : ¬ k.op.IsEditing)
    (hk : ∀ dispatchId masterId dispatch order,
      k ≠ ⟨.acceptOffer dispatchId masterId, .accepting dispatch order⟩) :
    Winner o.store orderId w := by
  obtain ⟨job, hjob⟩ := hw.found
  -- The order's master stays, it does not enter SEARCHING, and nothing is assigned.
  have hafter : ∃ job', o.store.jobs[orderId]? = some job' ∧ job'.masterId = job.masterId ∧
      (job'.status = .searching → job.status = .searching) := by
    rcases h.jobs.job_before hjob with hsame | ⟨u, hu, -, -, hwritten, -⟩
    · exact ⟨job, hsame, rfl, id⟩
    · obtain ⟨hmaster, -, hsearching⟩ := write_keeps_race hedit hk hu
      refine ⟨u.apply job, hwritten, ?_, fun hs => absurd hs hsearching⟩
      simp [JobWrite.apply, hmaster]
  obtain ⟨job', hjob', hmaster', hsearching'⟩ := hafter
  have hlog : o.store.assignments orderId = db.assignments orderId := by
    rcases h.jobs with ⟨-, hlog⟩ | ⟨-, -, hlog⟩ | ⟨u, job, hu, -, -, -, hlog⟩
    · rw [Db.assignments, hlog]
      rfl
    · rw [Db.assignments, hlog]
      rfl
    · have hne := (write_keeps_race hedit hk hu).2.1
      simp [Db.assignments, hlog, JobWrite.entry, hne]
  -- The winner's offer is still there.
  have hbind : (w.bind fun id => o.store.offers[id]?.map Offer.masterId) =
      w.bind fun id => db.offers[id]?.map Offer.masterId := by
    cases w with
    | none => rfl
    | some id =>
        obtain ⟨f, hf, -⟩ := hw.offer id rfl
        simp [hf, h.offers_getElem? hf]
  refine ⟨⟨job', hjob'⟩, ?_, ?_, ?_, ?_, ?_⟩
  · intro id l hl hid
    rcases h.leads hk with hsame | ⟨orderId', hnew⟩
    · exact hw.leads id l (hsame ▸ hl) hid
    · rw [hnew] at hl
      by_cases hlt : id < db.leads.length
      · exact hw.leads id l (by rwa [List.getElem?_append_left hlt] at hl) hid
      · rw [List.getElem?_append_right (Nat.not_lt.mp hlt)] at hl
        -- The new dispatch is not the winner, whose offer exists already.
        have hnot : w ≠ some id := by
          intro hwid
          obtain ⟨f, hf, -⟩ := hw.offer id hwid
          rw [leads_length] at hlt
          exact hlt (List.getElem?_eq_some_iff.mp hf).1
        have hmem := List.mem_of_getElem? hl
        obtain rfl : l = ⟨orderId', false, false⟩ := by simpa using hmem
        simp [hnot]
  · intro id hid
    obtain ⟨f, hf, he⟩ := hw.offer id hid
    exact ⟨f, h.offers_getElem? hf, he⟩
  · intro job'' hjob''
    obtain rfl := Option.some.inj (hjob'.symm.trans hjob'')
    rw [hbind, hmaster', hw.master job hjob]
  · intro job'' hjob'' hs
    obtain rfl := Option.some.inj (hjob'.symm.trans hjob'')
    exact hw.searching job hjob (hsearching' hs)
  · rw [hlog, hw.once]

/-- The row that a committing `acceptOffer` updates belongs to the order it locked. -/
theorem accepting_row {dispatchId : DispatchId} {masterId : UserId} {dispatch : OrderDispatch}
    (hown : OwnOffer db dispatchId masterId dispatch) :
    ∃ row, db.dispatches[dispatchId]? = some row ∧ row.orderId = dispatch.orderId := by
  obtain ⟨row, hrow, hoffer⟩ : ∃ row, db.dispatches[dispatchId]? = some row ∧
      row.offer = dispatch.offer := by
    simpa [Db.offers] using hown.2
  exact ⟨row, hrow, congrArg Offer.orderId hoffer⟩

/-- The commit of an `acceptOffer` of another order. -/
theorem Winner.step_accept_other (hw : Winner db orderId w) {dispatchId : DispatchId}
    {masterId : UserId} {dispatch : OrderDispatch} {order : Order}
    (hk : Call.Knows db me ⟨.acceptOffer dispatchId masterId, .accepting dispatch order⟩)
    (now : Time) (hid : dispatch.orderId ≠ orderId) :
    Winner (acceptWrite db me now dispatchId masterId dispatch order) orderId w := by
  obtain ⟨hown, -, hrow, -⟩ := hk
  obtain ⟨row, hd, hrowid⟩ := accepting_row hown
  have hjobs : (acceptWrite db me now dispatchId masterId dispatch order).jobs[orderId]? =
      db.jobs[orderId]? := by
    rw [acceptWrite_jobs hrow, List.getElem?_set_ne hid]
  refine ⟨by rw [hjobs]; exact hw.found, ?_, ?_, ?_, by rw [hjobs]; exact hw.searching, ?_⟩
  · intro id l hl hlid
    rw [leads_accept hd, List.getElem?_set] at hl
    split at hl
    · -- The accepted row is not one of this order.
      split at hl
      · obtain rfl := Option.some.inj hl
        exact absurd (hrowid.symm.trans hlid) hid
      · simp at hl
    · exact hw.leads id l hl hlid
  · rw [acceptWrite_offers]
    exact hw.offer
  · rw [hjobs, acceptWrite_offers]
    exact hw.master
  · have honce := hw.once
    simp only [Db.assignments, acceptWrite] at honce ⊢
    simpa [hrow, hid] using honce

/-- The commit of an `acceptOffer` of this order names the winner, and there was none
before. -/
theorem Winner.step_accept (hw : Winner db orderId w) {dispatchId : DispatchId}
    {masterId : UserId} {dispatch : OrderDispatch} {order : Order}
    (hk : Call.Knows db me ⟨.acceptOffer dispatchId masterId, .accepting dispatch order⟩)
    (now : Time) (hid : dispatch.orderId = orderId) :
    w = none ∧ Winner (acceptWrite db me now dispatchId masterId dispatch order) orderId
      (some dispatchId) := by
  subst hid
  obtain ⟨hown, -, hrow, hsearching⟩ := hk
  obtain ⟨row, hd, hrowid⟩ := accepting_row hown
  obtain ⟨hmaster, hoffer⟩ := hown
  have hjob := Db.jobs_of_order hrow
  have hlt := (List.getElem?_eq_some_iff.mp hjob).1
  obtain rfl : w = none := hw.searching _ hjob hsearching
  refine ⟨rfl, ?_⟩
  refine ⟨⟨_, by rw [acceptWrite_jobs hrow, List.getElem?_set_self hlt]⟩, ?_, ?_, ?_, ?_, ?_⟩
  · intro id l hl hid
    rw [leads_accept hd, List.getElem?_set] at hl
    split at hl
    · rename_i he
      subst he
      split at hl
      · obtain rfl := Option.some.inj hl
        simp
      · simp at hl
    · rename_i hne
      obtain ⟨haccepted, hcounted⟩ := hw.leads id l hl hid
      simpa [hne, haccepted] using hcounted
  · intro id hid
    obtain rfl := Option.some.inj hid
    exact ⟨dispatch.offer, by rw [acceptWrite_offers]; exact hoffer, rfl⟩
  · intro job hj
    rw [acceptWrite_jobs hrow, List.getElem?_set_self hlt] at hj
    obtain rfl := Option.some.inj hj
    simp [acceptWrite_offers, hoffer, OrderDispatch.offer, hmaster]
  · intro job hj hs
    rw [acceptWrite_jobs hrow, List.getElem?_set_self hlt] at hj
    obtain rfl := Option.some.inj hj
    simp at hs
  · have hnone := hw.once
    simp only [Db.assignments, acceptWrite] at hnone ⊢
    simpa [hrow] using hnone

/-- **One step of the race**: a winner stays, and there is at most one to name. -/
theorem Winner.step (hw : Winner db orderId w) (h : Stmt env me x db k o)
    (hfails : x.fail = true → o = k.goto (db.unlock me) (.threw .infrastructure))
    (hk : k.Knows db me) (hedit : ¬ k.op.IsEditing) :
    ∃ w', Winner o.store orderId w' ∧ ∀ id, w = some id → w' = some id := by
  cases hx : x.fail with
  | true =>
      rw [hfails hx]
      exact ⟨w, hw.congr rfl rfl rfl rfl, fun _ => id⟩
  | false =>
      by_cases haccept : ∃ dispatchId masterId dispatch order,
          k = ⟨.acceptOffer dispatchId masterId, .accepting dispatch order⟩
      · obtain ⟨dispatchId, masterId, dispatch, order, rfl⟩ := haccept
        rw [h.accept_eq hx]
        by_cases hid : dispatch.orderId = orderId
        · obtain ⟨rfl, hw'⟩ := hw.step_accept hk x.now hid
          exact ⟨some dispatchId, hw', by simp⟩
        · exact ⟨w, hw.step_accept_other hk x.now hid, fun _ => id⟩
      · push Not at haccept
        exact ⟨w, hw.step_other h hedit haccept, fun _ => id⟩

/-- The call of `acceptOffer` that returns is the one whose commit is logged. -/
def AcceptLogged (db : Db) (me : ℕ) (k : Call) : Prop :=
  ∀ dispatchId masterId, k = ⟨.acceptOffer dispatchId masterId, .returned⟩ →
    ∃ e ∈ db.statusWrites, e.author = me ∧ e.written = .assigned ∧
      db.offers[dispatchId]?.map Offer.orderId = some e.orderId

theorem AcceptLogged.of_stmt (h : Stmt env me x db k o) {other : ℕ} {k' : Call}
    (hlogged : AcceptLogged db other k') : AcceptLogged o.store other k' := by
  intro dispatchId masterId hk'
  obtain ⟨e, he, hauthor, hwritten, hid⟩ := hlogged dispatchId masterId hk'
  obtain ⟨new, hnew, -⟩ := h.jobs.log
  obtain ⟨f, hf, hfid⟩ := Option.map_eq_some_iff.mp hid
  refine ⟨e, by rw [hnew]; exact List.mem_append_left _ he, hauthor, hwritten, ?_⟩
  rw [h.offers_getElem? hf, Option.map_some, hfid]

/-- `acceptOffer` returns only by its commit. -/
theorem acceptLogged_step (h : Stmt env me x db k o) (hk : k.Knows db me) (htrack : k.OnTrack) :
    AcceptLogged o.store me o.call := by
  intro dispatchId masterId hcall
  have hop := h.op_eq
  obtain ⟨op, pc⟩ := k
  rw [hcall] at hop
  obtain rfl : op = .acceptOffer dispatchId masterId := hop.symm
  cases h with
  | @accept _ _ dispatch order =>
      obtain ⟨⟨hm, hoffer⟩, -, hrow, -⟩ := hk
      refine ⟨⟨me, dispatch.orderId, order.status, .assigned, some masterId⟩, ?_, rfl, rfl, ?_⟩
      · simp [acceptWrite, hrow]
      · simp [acceptWrite_offers, hoffer, OrderDispatch.offer]
  | reads hr =>
      cases hr with
      | done => exact htrack.elim
      | cascadeStops henter => cases henter; exact htrack.elim
      | failSearchStops henter => cases henter; exact htrack.elim
      | failSearchLost => exact htrack.elim
      | _ => simp at hcall
  | _ => simp at hcall

end Step

/-! ### Whole runs -/

/-- The dispatch of the order is ACCEPTED. -/
def Db.Accepted (db : Db) (orderId : OrderId) (id : DispatchId) : Prop :=
  ∃ d, db.dispatches[id]? = some d ∧ d.orderId = orderId ∧ d.status = .accepted

/-- Exactly one master can win the order in this run. -/
structure OneWinner (orderId : OrderId) (ts : List (Transition Db Call Input))
    (c' : Config Db Call) : Prop where
  /-- At most one `acceptOffer` call for the order returns normally. -/
  returns : ∀ (i j : ℕ) (d d' : DispatchId) (m m' : UserId),
    c'.calls[i]? = some (Call.mk (.acceptOffer d m) .returned) →
    c'.calls[j]? = some (Call.mk (.acceptOffer d' m') .returned) →
    c'.store.offers[d]?.map Offer.orderId = some orderId →
    c'.store.offers[d']?.map Offer.orderId = some orderId → i = j
  /-- At most one dispatch of the order is ever ACCEPTED. -/
  accepted : ∀ t ∈ ts, ∀ t' ∈ ts, ∀ id id', t.post.store.Accepted orderId id →
    t'.post.store.Accepted orderId id' → id = id'
  /-- Whenever the order has a master, it is the master of the ACCEPTED dispatch, which
  alone is counted as a lead. -/
  master : ∀ t ∈ ts, ∀ order m, t.post.store.orders[orderId]? = some order →
    order.masterId = some m → ∃ id, t.post.store.Accepted orderId id ∧
      t.post.store.offers[id]?.map Offer.masterId = some m ∧
      ∀ id' d', t.post.store.dispatches[id']? = some d' → d'.orderId = orderId →
        (d'.countedAsLead = true ↔ id' = id)
  /-- A call of `acceptOffer` that throws has changed no order, dispatch or history
  row. -/
  throws : ∀ (i : ℕ) (d : DispatchId) (m : UserId) (e : ApiError),
    c'.calls[i]? = some (Call.mk (.acceptOffer d m) (.threw e)) →
    ∀ t ∈ ts, t.IsBy i → t.post.store.orders = t.pre.store.orders ∧
      t.post.store.dispatches = t.pre.store.dispatches ∧
      t.post.store.history = t.pre.store.history

section Run

variable {env : Env} {db : Db} {c' : Config Db Call} {ts : List (Transition Db Call Input)}
  {orderId : OrderId}

theorem Winner.accepted_iff {w : Option DispatchId} (hw : Winner db orderId w) {id : DispatchId}
    {d : OrderDispatch} (hd : db.dispatches[id]? = some d) (hid : d.orderId = orderId) :
    (d.status = .accepted ↔ w = some id) ∧ (d.countedAsLead = true ↔ w = some id) := by
  simpa [OrderDispatch.lead] using hw.leads id d.lead (leads_of_dispatch hd) hid

/-- The winner is an ACCEPTED dispatch. -/
theorem Winner.accepted {id : DispatchId} (hw : Winner db orderId (some id)) :
    db.Accepted orderId id := by
  obtain ⟨f, hf, hfid⟩ := hw.offer id rfl
  obtain ⟨d, hd, rfl⟩ : ∃ d, db.dispatches[id]? = some d ∧ d.offer = f := by
    simpa [Db.offers] using hf
  exact ⟨d, hd, hfid, (hw.accepted_iff hd hfid).1.mpr rfl⟩

/-- Nobody has won an order that is being searched for and has no lead. -/
theorem winner_none {order : Order} (horder : db.orders[orderId]? = some order)
    (hmaster : order.masterId = none)
    (hoffers : ∀ d ∈ db.dispatches, d.orderId = orderId →
      d.status ≠ .accepted ∧ d.countedAsLead = false)
    (hlog : db.statusWrites = []) : Winner db orderId none where
  found := ⟨order.job, Db.jobs_of_order horder⟩
  leads := by
    intro id l hl hid
    obtain ⟨d, hd, rfl⟩ : ∃ d, db.dispatches[id]? = some d ∧ d.lead = l := by
      simpa [Db.leads] using hl
    obtain ⟨hstatus, hcounted⟩ := hoffers d (List.mem_of_getElem? hd) hid
    simp [OrderDispatch.lead, hstatus, hcounted]
  offer := by simp
  master := by
    intro job hjob
    obtain rfl := Option.some.inj ((Db.jobs_of_order horder).symm.trans hjob)
    exact hmaster
  searching := fun _ _ _ => rfl
  once := by simp [Db.assignments, hlog]

theorem winner_fires {t : Transition Db Call Input} (ht : (orders env).Fires t)
    (hknows : ∀ (i : ℕ) (k : Call), t.pre.calls[i]? = some k → k.Knows t.pre.store i)
    (hedit : ∀ (i : ℕ) (k : Call), t.pre.calls[i]? = some k → ¬ k.op.IsEditing)
    {w : Option DispatchId} (hw : Winner t.pre.store orderId w) :
    ∃ w', Winner t.post.store orderId w' ∧ ∀ id, w = some id → w' = some id := by
  rcases stmt_of_fires ht with ⟨k, -, -, hpost⟩ | ⟨i, x, k, o, -, hi, -, h, hfails, hpost⟩
  · rw [hpost]
    exact ⟨w, hw, fun _ => id⟩
  · rw [hpost]
    exact hw.step h hfails (hknows i k hi) (hedit i k hi)

/-- Every state of the run has at most one winner, and a winner stays. -/
theorem winner_run (hrun : (orders env).Run ⟨db, []⟩ ts c') (hstarts : ∀ t ∈ ts, NoEditing t)
    (hw : Winner db orderId none) :
    (∃ w, Winner c'.store orderId w) ∧
      ∀ t ∈ ts, ∃ w, Winner t.post.store orderId w ∧
        ∀ id, w = some id → Winner c'.store orderId (some id) := by
  have hknows := (knows_of_run hrun).2
  have hedit := unedited_of_run hrun hstarts
  obtain ⟨hend, hall⟩ := hrun.invariant (fun c => ∃ w, Winner c.store orderId w) (fun t => t ∈ ts)
    (fun _ ht => ht) ⟨none, hw⟩ fun t ht hts ⟨w, hpre⟩ => by
      obtain ⟨w', hpost, -⟩ := winner_fires ht (hknows t hts) (hedit t hts) hpre
      exact ⟨w', hpost⟩
  refine ⟨hend, fun t ht => ?_⟩
  obtain ⟨-, w, hpost⟩ := hall t ht
  refine ⟨w, hpost, ?_⟩
  intro id heq
  obtain rfl := heq
  -- What was decided in this state is an invariant of the rest of the run.
  obtain ⟨before, after, rfl, -, hafter⟩ := hrun.split t ht
  refine (hafter.invariant (fun c => Winner c.store orderId (some id))
    (fun t' => t' ∈ before ++ t :: after) (fun t' h' => by simp [h']) hpost ?_).1
  intro t' ht' hts' hpre
  obtain ⟨w', hpost', hstays⟩ := winner_fires ht' (hknows t' hts') (hedit t' hts') hpre
  exact hstays id rfl ▸ hpost'

/-- What each call knows, and that a returned `acceptOffer` is in the log. -/
def acceptance (env : Env) : Outline (orders env) (fun _ => True) where
  G _ := True
  L db me k := k.Knows db me ∧ k.OnTrack ∧ AcceptLogged db me k
  start t i k hC he hentry hG := by
    refine ⟨(knowledge env).start t i k hC he hentry hG,
      (track env).start t i k hC he hentry hG, ?_⟩
    intro d m heq
    obtain rfl := heq
    simp [orders, Call.isStart] at hentry
  own t me x k o hC he hk hstep hpost hG hL := by
    obtain ⟨hknows, htrack, hlogged⟩ := hL
    obtain ⟨-, h, -⟩ := step_cases hstep
    obtain ⟨-, hknows', hspawn⟩ := (knowledge env).own t me x k o hC he hk hstep hpost hG hknows
    obtain ⟨-, htrack', hspawn'⟩ := (track env).own t me x k o hC he hk hstep hpost hG htrack
    refine ⟨trivial, ⟨hknows', htrack', acceptLogged_step h hknows htrack⟩, fun j k' hk' =>
      ⟨hspawn j k' hk', hspawn' j k' hk', ?_⟩⟩
    intro d m heq
    obtain rfl := heq
    exact absurd (h.spawned_start _ hk') (by simp)
  others t me x k o j k' _ he hk hstep hk' hne _ hL hL' := by
    obtain ⟨hknows, -, -⟩ := hL
    obtain ⟨hknows', htrack', hlogged'⟩ := hL'
    obtain ⟨-, h, -⟩ := step_cases hstep
    exact ⟨h.knows_other hknows (Ne.symm hne) hknows', htrack', hlogged'.of_stmt h⟩

/-- Two entries of the log that assign the same order are one. -/
theorem Winner.assignment_unique {w : Option DispatchId} (hw : Winner db orderId w)
    {e e' : StatusWrite} (he : e ∈ db.statusWrites) (he' : e' ∈ db.statusWrites)
    (hid : e.orderId = orderId) (hid' : e'.orderId = orderId) (hwritten : e.written = .assigned)
    (hwritten' : e'.written = .assigned) : e = e' := by
  have hmem : e ∈ db.assignments orderId := by
    simp [Db.assignments, he, hid, hwritten]
  have hmem' : e' ∈ db.assignments orderId := by
    simp [Db.assignments, he', hid', hwritten']
  have hlen : (db.assignments orderId).length ≤ 1 := by
    rw [hw.once]
    cases w <;> simp
  rcases hlist : db.assignments orderId with _ | ⟨a, _ | ⟨b, rest⟩⟩
  · simp [hlist] at hmem
  · rw [hlist, List.mem_singleton] at hmem hmem'
    rw [hmem, hmem']
  · simp [hlist] at hlen

/-- A statement of an `acceptOffer` that changes an order, a dispatch or the history is
the one by which it returns. -/
theorem accept_frame {me : ℕ} {x : Input} {o : Outcome Db Call} {d : DispatchId} {m : UserId}
    {pc : Pc} (h : Stmt env me x db ⟨.acceptOffer d m, pc⟩ o)
    (htrack : Call.OnTrack ⟨.acceptOffer d m, pc⟩) :
    o.call.pc = .returned ∨ (o.store.orders = db.orders ∧ o.store.dispatches = db.dispatches ∧
      o.store.history = db.history) := by
  cases h with
  | accept => exact Or.inl rfl
  | fails | reads | acceptLock | acceptRollback => exact Or.inr ⟨rfl, rfl, rfl⟩
  | followup | cascadeInsert | cascadeEnqueue | failSearchUpdate | failSearchRecord =>
      exact htrack.elim

/-- **Exactly one master wins an order.** -/
theorem oneWinner_of_run {order : Order} (hrun : (orders env).Run ⟨db, []⟩ ts c')
    (hstarts : ∀ t ∈ ts, NoEditing t) (horder : db.orders[orderId]? = some order)
    (hmaster : order.masterId = none)
    (hoffers : ∀ d ∈ db.dispatches, d.orderId = orderId →
      d.status ≠ .accepted ∧ d.countedAsLead = false)
    (hlog : db.statusWrites = []) : OneWinner orderId ts c' := by
  obtain ⟨⟨wend, hend⟩, hall⟩ :=
    winner_run hrun hstarts (winner_none horder hmaster hoffers hlog)
  refine ⟨?_, ?_, ?_, ?_⟩
  · intro i j d d' m m' hi hj hd hd'
    obtain ⟨hlast, -⟩ := (acceptance env).holds_run hrun (fun _ _ => trivial)
      ⟨trivial, fun i k hk => by simp at hk⟩
    obtain ⟨e, he, hauthor, hwritten, hid⟩ := (hlast.2 i _ hi).2.2 d m rfl
    obtain ⟨e', he', hauthor', hwritten', hid'⟩ := (hlast.2 j _ hj).2.2 d' m' rfl
    obtain rfl : e = e' := hend.assignment_unique he he'
      (Option.some.inj (hid.symm.trans hd)) (Option.some.inj (hid'.symm.trans hd'))
      hwritten hwritten'
    exact hauthor.symm.trans hauthor'
  · intro t ht t' ht' id id' hwinner hwinner'
    obtain ⟨d, hd, hid, haccepted⟩ := hwinner
    obtain ⟨d', hd', hid', haccepted'⟩ := hwinner'
    obtain ⟨w, hw, hstays⟩ := hall t ht
    obtain ⟨w', hw', hstays'⟩ := hall t' ht'
    have hlast := hstays id ((hw.accepted_iff hd hid).1.mp haccepted)
    have hlast' := hstays' id' ((hw'.accepted_iff hd' hid').1.mp haccepted')
    obtain ⟨d'', hd'', hid'', haccepted''⟩ := hlast.accepted
    exact (Option.some.inj ((hlast'.accepted_iff hd'' hid'').1.mp haccepted'')).symm
  · intro t ht order' m' horder' hm
    obtain ⟨w, hw, -⟩ := hall t ht
    have hjob := hw.master order'.job (Db.jobs_of_order horder')
    cases w with
    | none => simp [Order.job, hm] at hjob
    | some id =>
        refine ⟨id, hw.accepted, ?_, fun id' d' hd' hid' => ?_⟩
        · rw [← hm]
          exact hjob.symm
        · rw [(hw.accepted_iff hd' hid').2, Option.some.injEq, eq_comm]
  · intro i d m e hi t ht hby
    obtain ⟨x, he⟩ := hby
    obtain ⟨before, after, -, -, hafter⟩ := hrun.split t ht
    have htrack := (onTrack_of_run hrun).2 t ht
    obtain ⟨k, o, hk, h, hpost, hnext⟩ := stmt_of_event (hrun.fires t ht) he
    have hop := op_stays hafter hnext hi
    obtain ⟨op, pc⟩ := k
    obtain rfl : .acceptOffer d m = op := hop.trans h.op_eq
    rcases accept_frame h (htrack i _ hk) with hreturned | hframe
    · have hlast := finished_stays hafter hnext (by simp [Call.Finished, hreturned])
      rw [hi] at hlast
      simp [← Option.some.inj hlast] at hreturned
    · rw [hpost]
      exact hframe

end Run

/-- An order of customer 0 that is offered to the masters 1 and 2. -/
def twoOffers : Db where
  orders := [{ customerId := 0, categoryId := some 0, description := "", status := .searching }]
  dispatches :=
    [{ orderId := 0, masterId := 1, rankInCascade := 1, distanceM := 0, score := 1
       expiresAt := 1000 },
     { orderId := 0, masterId := 2, rankInCascade := 2, distanceM := 0, score := 1
       expiresAt := 1000 }]

/-- Both accept; master 1 gets the lock first. -/
def bothAccept : List (Event Call Input) :=
  [.start ⟨.acceptOffer 0 1, .start⟩, .start ⟨.acceptOffer 1 2, .start⟩, .run 0 {}, .run 1 {},
    .run 0 {}, .run 0 {}, .run 0 {}, .run 0 {}, .run 1 {}, .run 1 {}, .run 1 {}]

theorem oneWinner_bothAccept :
    OneWinner 0 ((orders .flat).trace ⟨twoOffers, []⟩ bothAccept)
      ((orders .flat).after ⟨twoOffers, []⟩ bothAccept) :=
  oneWinner_of_run ((orders .flat).run_trace _ _)
    (noEditing_of_mem_trace (by simp [bothAccept, Op.IsEditing])) rfl rfl
    (by simp [twoOffers]) rfl

end Handly
