import Handly.Dispatch.AnsweredOnce
import Handly.Dispatch.LiveOffers

/-!
# Late responses

`handleOfferExpiry` penalises the master of a dispatch that it still finds OFFERED. It looks
neither at the clock nor at the order, which the customer may have cancelled long before. The
penalty is fair if the job runs no sooner than `expiresAt`, and the order was still searched for
when a statement ran at that time or later.
-/

namespace Handly

open Interleaving

/-- An `acceptOffer` of the master would pass all its checks. -/
def Db.Accepts (db : Db) (now : Time) (id : DispatchId) (masterId : UserId) : Prop :=
  ∃ dispatch order, findOwnOffer db id masterId = .ok dispatch ∧
    db.orders[dispatch.orderId]? = some order ∧ acceptCheck now order dispatch = .ok ()

/-- From the dispatch on, no statement has run at the deadline or later. -/
def BeforeDeadline (id : DispatchId) (deadline : Time) (ts : List (Transition Db Call Input)) :
    Prop :=
  ∀ t ∈ ts, (t.post.store.dispatchStatus id).isSome →
    t.Satisfies fun _ x _ _ => x.now < deadline

instance {id : DispatchId} {deadline : Time} :
    DecidablePred (BeforeDeadline id deadline) := fun ts =>
  inferInstanceAs (Decidable (∀ t ∈ ts, _ → t.Satisfies _))

/-- A LATE_RESPONSE of the dispatch. -/
def OrderDispatch.isLate (d : OrderDispatch) (p : PenaltyRecord) : Bool :=
  p.eventType = .lateResponse ∧ p.masterId = d.masterId ∧ p.orderId = some d.orderId

/-- No master is penalised for an offer he could not take, nor twice for one offer. -/
structure PenalisedFairly (env : Env) (db : Db) (ts : List (Transition Db Call Input))
    (c' : Config Db Call) : Prop where
  /-- At every moment from the offer to its deadline the master could have accepted it. -/
  answerable : ∀ p ∈ c'.store.penalties.drop db.penalties.length, p.eventType = .lateResponse →
    ∃ (id : DispatchId) (d : OrderDispatch), c'.store.dispatches[id]? = some d ∧
      d.isLate p = true ∧ ∀ before after c, ts = before ++ after →
        (orders env).Run ⟨db, []⟩ before c → (orders env).Run c after c' →
        (c.store.dispatchStatus id).isSome → BeforeDeadline id d.expiresAt before →
        ∀ now ≤ d.expiresAt, c.store.Accepts now id d.masterId
  once : ∀ (id : DispatchId) (d : OrderDispatch), c'.store.dispatches[id]? = some d →
    (c'.store.penalties.drop db.penalties.length).countP d.isLate ≤ 1

/-- The dispatch is OFFERED and its order SEARCHING. -/
def Db.Answerable (db : Db) (id : DispatchId) : Prop :=
  ∃ d ∈ db.dispatches[id]?, d.status = .offered ∧ db.statusOf d.orderId = some .searching

instance {db : Db} {id : DispatchId} : Decidable (db.Answerable id) :=
  inferInstanceAs (Decidable (∃ d ∈ db.dispatches[id]?, _))

/-- A statement that runs at the deadline or later finds the dispatch answerable. -/
def FindsAnswerable (id : DispatchId) (deadline : Time) (t : Transition Db Call Input) : Prop :=
  match t.event with
  | .start _ => False
  | .run _ x => deadline ≤ x.now ∧ t.pre.store.Answerable id

/-- A `submit` that writes next finds its order SEARCHING already, or without an open offer. -/
def SubmitsUnoffered (_me : ℕ) (x : Input) (k : Call) (db : Db) : Prop :=
  match k.pc, k.op with
  | .guarded _, .submit _ orderId =>
      x.fail = false → 0 < db.openOffers orderId → db.statusOf orderId = some .searching
  | _, _ => True

/-- A `handleOfferExpiry` that claims its dispatch next claims one that was answerable at its
deadline or later. -/
def ClaimsAnswerable (ts : List (Transition Db Call Input)) (_me : ℕ) (x : Input) (k : Call)
    (db : Db) : Prop :=
  match k.pc, k.op with
  | .start, .handleOfferExpiry id =>
      x.fail = false → ∀ row ∈ db.dispatches[id]?, row.status = .offered →
        ∃ t ∈ ts, FindsAnswerable id row.expiresAt t
  | _, _ => True

section Statements

variable {env : Env} {me : ℕ} {x : Input} {k : Call} {db : Db} {o : Outcome Db Call}

theorem accepts_of_answerable {id : DispatchId} {d : OrderDispatch}
    (hd : db.dispatches[id]? = some d) (h : db.Answerable id) {now : Time}
    (hnow : now ≤ d.expiresAt) : db.Accepts now id d.masterId := by
  obtain ⟨d', hd', hst, hsearching⟩ := h
  obtain rfl := Option.some.inj (hd.symm.trans hd')
  obtain ⟨order, horder, hstatus⟩ := Db.statusOf_eq_some.mp hsearching
  refine ⟨d, order, by simp [findOwnOffer, hd], horder, ?_⟩
  have hcan : canTransition order.status .assigned = true := canTransition_assigned.mpr hstatus
  simp [acceptCheck, hst, not_lt.mpr hnow, hcan]

theorem answerable_of_accepts {now : Time} {id : DispatchId} {masterId : UserId}
    (h : db.Accepts now id masterId) : db.Answerable id := by
  obtain ⟨d, order, hown, horder, hcheck⟩ := h
  obtain ⟨hd, -⟩ := findOwnOffer_eq_ok hown
  obtain ⟨hst, -, hsearching⟩ := acceptCheck_eq_ok hcheck
  exact ⟨d, hd, hst, Db.statusOf_eq_some.mpr ⟨order, horder, hsearching⟩⟩

/-- The offer and the deadline of a dispatch never change, and it never becomes OFFERED again. -/
theorem Stmt.dispatch_kept (h : Stmt env me x db k o) {id : ℕ} {d d' : OrderDispatch}
    (hd : db.dispatches[id]? = some d) (hd' : o.store.dispatches[id]? = some d') :
    d'.offer = d.offer ∧ d'.expiresAt = d.expiresAt ∧
      (d'.status = .offered → d.status = .offered) := by
  cases h.dispatchEffect hd' with
  | same hsame =>
      obtain rfl := Option.some.inj (hd.symm.trans hsame)
      exact ⟨rfl, rfl, fun hst => hst⟩
  | inserted => simp at hd
  | accepted hsame =>
      obtain rfl := Option.some.inj (hd.symm.trans hsame)
      exact ⟨rfl, rfl, by simp [OrderDispatch.accept]⟩
  | closed hsame hst =>
      obtain rfl := Option.some.inj (hd.symm.trans hsame)
      exact ⟨rfl, rfl, fun _ => hst⟩

/-- Only a submit starts a search. -/
theorem submit_of_searching {w : JobWrite} (hw : k.Writes w) (hs : w.status = .searching) :
    ∃ customerId order, k = ⟨.submit customerId w.orderId, .guarded order⟩ := by
  cases hw with
  | submit => exact ⟨_, _, rfl⟩
  | @lifecycle l order => cases l <;> exact absurd hs (by simp [Lifecycle.spec])
  | _ => simp at hs

/-- A dispatch that is there and answerable after a statement was answerable before it. -/
theorem Stmt.answerable_before (h : Stmt env me x db k o)
    (hfails : x.fail = true → o = k.goto (db.unlock me) (.threw .infrastructure))
    (hC : SubmitsUnoffered me x k db) {id : ℕ} {d : OrderDispatch}
    (hd : db.dispatches[id]? = some d) (hlater : o.store.Answerable id) : db.Answerable id := by
  by_cases hx : x.fail = true
  · rw [hfails hx] at hlater
    exact hlater
  have hx : x.fail = false := by simpa using hx
  obtain ⟨d', hd', hst', hsearching⟩ := hlater
  obtain ⟨hoffer, -, hst⟩ := h.dispatch_kept hd hd'
  have hst : d.status = .offered := hst hst'
  refine ⟨d, hd, hst, ?_⟩
  have hid : d'.orderId = d.orderId := congrArg Offer.orderId hoffer
  rw [hid, Db.statusOf_eq_jobs, Option.map_eq_some_iff] at hsearching
  obtain ⟨job, hjob, hstatus⟩ := hsearching
  rcases h.jobs.job_after hjob with hsame | ⟨-, rfl⟩ | ⟨w, job', hw, hwid, hfound, -, rfl⟩
  · rw [Db.statusOf_eq_jobs, hsame]
    exact congrArg some hstatus
  · simp [Job.draft] at hstatus
  · -- The order has just been submitted, with the offer open.
    obtain ⟨customerId, order, rfl⟩ := submit_of_searching hw hstatus
    rw [← hwid]
    refine hC hx (openOffers_pos_iff.mpr ⟨d, List.mem_of_getElem? hd, hwid.symm, hst⟩)

/-! ### What a penalty is for -/

/-- The dispatch was answerable at its deadline or later. -/
def Db.WasAnswerable (ts : List (Transition Db Call Input)) (db : Db) (id : DispatchId)
    (d : OrderDispatch) : Prop :=
  db.dispatches[id]? = some d ∧ ∃ t ∈ ts, FindsAnswerable id d.expiresAt t

/-- The offer that a call is about to penalise was answerable. -/
def Call.PenalisesAnswerable (ts : List (Transition Db Call Input)) (db : Db) (k : Call) : Prop :=
  match k.pc, k.op with
  | .claimed _, .handleOfferExpiry id => ∃ d, db.WasAnswerable ts id d
  | .after todo _, _ => ∀ masterId orderId note,
      Followup.createPenalty masterId .lateResponse orderId note ∈ todo →
        ∃ id d, db.WasAnswerable ts id d ∧ d.masterId = masterId ∧ d.orderId = orderId
  | _, _ => True

/-- The penalties are those of the start and new ones. Every new LATE_RESPONSE is for an offer
that was answerable. -/
def Db.Penalised (ts : List (Transition Db Call Input)) (start : List PenaltyRecord) (db : Db) :
    Prop :=
  ∃ new, db.penalties = start ++ new ∧ ∀ p ∈ new, p.eventType = .lateResponse →
    ∃ id d, db.WasAnswerable ts id d ∧ d.isLate p = true

variable {ts : List (Transition Db Call Input)}

theorem Db.WasAnswerable.of_stmt (h : Stmt env me x db k o) {id : DispatchId} {d : OrderDispatch}
    (hwas : db.WasAnswerable ts id d) :
    ∃ d', o.store.WasAnswerable ts id d' ∧ d'.offer = d.offer := by
  obtain ⟨hd, hfinds⟩ := hwas
  obtain ⟨d', hd', hoffer⟩ := h.dispatch_stays hd
  obtain ⟨-, hdeadline, -⟩ := h.dispatch_kept hd hd'
  exact ⟨d', ⟨hd', hdeadline ▸ hfinds⟩, hoffer⟩

theorem Reads.penalisesAnswerable {op : Op} {pc pc' : Pc} (h : Reads env x db op pc pc')
    (hk : Call.PenalisesAnswerable ts db ⟨op, pc⟩) :
    Call.PenalisesAnswerable ts db ⟨op, pc'⟩ := by
  cases h with
  | @expiryFull id orderId full hfull =>
      obtain ⟨d, hwas⟩ := hk
      obtain rfl := Option.some.inj (hfull.symm.trans hwas.1)
      intro masterId orderId' note hmem
      obtain ⟨rfl, rfl, -⟩ : masterId = full.masterId ∧ orderId' = full.orderId ∧ note = none := by
        simpa [expiryFollowups, recordEvent] using hmem
      exact ⟨id, full, hwas, rfl, rfl⟩
  | _ => trivial

/-- A statement keeps what its call is about to penalise. -/
theorem Stmt.penalisesAnswerable (h : Stmt env me x db k o)
    (hfails : x.fail = true → o = k.goto (db.unlock me) (.threw .infrastructure))
    (hC : ClaimsAnswerable ts me x k db) (hk : k.PenalisesAnswerable ts db) :
    o.call.PenalisesAnswerable ts o.store := by
  by_cases hx : x.fail = true
  · rw [hfails hx]
    obtain ⟨op, pc⟩ := k
    cases op <;> trivial
  have hx : x.fail = false := by simpa using hx
  cases h with
  | reads hr => exact hr.penalisesAnswerable hk
  | @expiry id row hrow hst =>
      exact ⟨_, Table.modify_of_row hrow id, by simpa using hC hx row hrow hst⟩
  | @lifecycle l order =>
      intro masterId orderId note hmem
      exact absurd hmem l.no_lateResponse
  | @followup op f todo next db' hf =>
      intro masterId orderId note hmem
      obtain ⟨id, d, hwas, hm, hid⟩ := hk masterId orderId note (List.mem_cons_of_mem f hmem)
      rw [Db.WasAnswerable, ← (Followup.run_frame hf).2.1] at hwas
      exact ⟨id, d, hwas, hm, hid⟩
  | cascadeEnqueue | failSearchRecord =>
      intro masterId orderId note hmem
      simp [offerFollowups, failSearchFollowups] at hmem
  | _ => trivial

/-- A statement of another call keeps it. -/
theorem Stmt.penalisesAnswerable_other (h : Stmt env me x db k o) {k' : Call}
    (hk' : k'.PenalisesAnswerable ts db) : k'.PenalisesAnswerable ts o.store := by
  obtain ⟨op, pc⟩ := k'
  cases pc with
  | claimed orderId =>
      cases op with
      | handleOfferExpiry id =>
          obtain ⟨d, hwas⟩ := hk'
          obtain ⟨d', hwas', -⟩ := hwas.of_stmt h
          exact ⟨d', hwas'⟩
      | _ => trivial
  | after todo next =>
      intro masterId orderId note hmem
      obtain ⟨id, d, hwas, hm, hid⟩ := hk' masterId orderId note hmem
      obtain ⟨d', hwas', hoffer⟩ := hwas.of_stmt h
      exact ⟨id, d', hwas', (congrArg Offer.masterId hoffer).trans hm,
        (congrArg Offer.orderId hoffer).trans hid⟩
  | _ => cases op <;> trivial

theorem Stmt.penalised (h : Stmt env me x db k o) {start : List PenaltyRecord}
    (hG : db.Penalised ts start) (hk : k.PenalisesAnswerable ts db) :
    o.store.Penalised ts start := by
  obtain ⟨new, heq, hnew⟩ := hG
  have hold : ∀ p ∈ new, p.eventType = .lateResponse →
      ∃ id d, o.store.WasAnswerable ts id d ∧ d.isLate p = true := by
    intro p hp hevent
    obtain ⟨id, d, hwas, hlate⟩ := hnew p hp hevent
    obtain ⟨d', hwas', hoffer⟩ := hwas.of_stmt h
    have hm : d'.masterId = d.masterId := congrArg Offer.masterId hoffer
    have hid : d'.orderId = d.orderId := congrArg Offer.orderId hoffer
    exact ⟨id, d', hwas', by rwa [OrderDispatch.isLate, hm, hid]⟩
  rcases h.penalties with hsame | ⟨m, e, oid, note, todo, next, p, hpc, -, happend, hm, he, ho⟩
  · exact ⟨new, hsame.trans heq, hold⟩
  · refine ⟨new ++ [p], by rw [happend, heq, List.append_assoc], fun q hq hevent => ?_⟩
    rw [List.mem_append, List.mem_singleton] at hq
    rcases hq with hq | rfl
    · exact hold q hq hevent
    · obtain ⟨op, pc⟩ := k
      obtain rfl : pc = _ := hpc
      have hpending : Followup.createPenalty m .lateResponse oid note ∈
          Followup.createPenalty m e oid note :: todo := by
        simp [← he, hevent]
      obtain ⟨id, d, hwas, hdm, hdo⟩ := hk m oid note hpending
      obtain ⟨d', hwas', hoffer⟩ := hwas.of_stmt h
      have hm' : d'.masterId = d.masterId := congrArg Offer.masterId hoffer
      have hid' : d'.orderId = d.orderId := congrArg Offer.orderId hoffer
      exact ⟨id, d', hwas', by simp [OrderDispatch.isLate, hevent, hm, ho, hm', hid', hdm, hdo]⟩

/-! ### One penalty for one offer -/

/-- The next write is a LATE_RESPONSE of the dispatch. -/
def Followup.isLate (d : OrderDispatch) (f : Followup) : Bool :=
  match f with
  | .createPenalty masterId .lateResponse orderId _ =>
      masterId = d.masterId ∧ orderId = d.orderId
  | _ => false

/-- The LATE_RESPONSEs of a dispatch that the call will record. -/
def Call.latePending (id : DispatchId) (d : OrderDispatch) (k : Call) : ℕ :=
  match k.pc, k.op with
  | .claimed _, .handleOfferExpiry other => if other = id then 1 else 0
  | .after todo _, _ => todo.countP (Followup.isLate d)
  | _, _ => 0

/-- The LATE_RESPONSEs of a dispatch, and the one that may still come. -/
def Db.lateRoom (id : DispatchId) (d : OrderDispatch) (db : Db) : ℕ :=
  db.penalties.countP d.isLate + db.unanswered id

/-- Nothing makes a dispatch OFFERED that was not. -/
theorem Stmt.unanswered_le (h : Stmt env me x db k o) (id : DispatchId) :
    o.store.unanswered id ≤ db.unanswered id := by
  cases hrow : db.dispatches[id]? with
  | none =>
      have hnone : db.dispatchStatus id = none := by simp [Db.dispatchStatus, hrow]
      simpa [Db.unanswered, hnone] using unanswered_le_one o.store id
  | some d =>
      obtain ⟨d', hd', -⟩ := h.dispatch_stays hrow
      obtain ⟨-, -, hst⟩ := h.dispatch_kept hrow hd'
      have hpre : db.dispatchStatus id = some d.status := by simp [Db.dispatchStatus, hrow]
      have hpost : o.store.dispatchStatus id = some d'.status := by simp [Db.dispatchStatus, hd']
      simp only [Db.unanswered, hpre, hpost]
      cases hd'st : d'.status with
      | offered => simp [hst hd'st]
      | _ => exact Nat.zero_le _

/-- A claimed dispatch will not be answered any more. -/
theorem unanswered_expired {id : DispatchId} {row : OrderDispatch}
    {f : OrderDispatch → OrderDispatch} (hrow : db.dispatches[id]? = some row)
    (hst : row.status = .offered) (hf : (f row).status = .expired) :
    (db.updateDispatch id f).unanswered id + 1 ≤ db.unanswered id := by
  have hpre : db.dispatchStatus id = some .offered := by simp [Db.dispatchStatus, hrow, hst]
  have hpost : (db.updateDispatch id f).dispatchStatus id = some .expired := by
    simp [Db.dispatchStatus, Table.modify_of_row hrow, hf]
  simp [Db.unanswered, hpre, hpost]

/-- The followups of other calls are not LATE_RESPONSEs. -/
theorem Lifecycle.countP_isLate (l : Lifecycle) (order : Order) (d : OrderDispatch) :
    (l.spec.followups order).countP (Followup.isLate d) = 0 := by
  refine List.countP_eq_zero.mpr fun f hf hlate => ?_
  unfold Followup.isLate at hlate
  split at hlate
  · exact l.no_lateResponse hf
  · simp at hlate

/-- A claim trades the right to answer for a pending LATE_RESPONSE, and no other statement makes
one pending. -/
theorem Stmt.latePending_le (h : Stmt env me x db k o) {id : DispatchId} {d : OrderDispatch}
    (hunique : ∀ (other : DispatchId) (full : OrderDispatch), db.dispatches[other]? = some full →
      full.orderId = d.orderId → full.masterId = d.masterId → other = id) :
    o.store.unanswered id + o.call.latePending id d ≤ db.unanswered id + k.latePending id d := by
  have hunanswered := h.unanswered_le id
  cases h with
  | @expiry other row hrow hst =>
      by_cases hother : other = id
      · subst hother
        have hclaimed := unanswered_expired hrow hst
          (f := fun d => { d with status := .expired, respondedAt := some x.now }) rfl
        simpa [Call.latePending] using hclaimed
      · simpa [Call.latePending, hother] using hunanswered
  | @reads op pc pc' hr =>
      refine Nat.add_le_add_left ?_ _
      cases hr with
      | @expiryFull other orderId full hfull =>
          by_cases hlate : full.masterId = d.masterId ∧ full.orderId = d.orderId
          · obtain rfl := hunique other full hfull hlate.2 hlate.1
            simp [Call.latePending, expiryFollowups, recordEvent, Followup.isLate, hlate]
          · simp [Call.latePending, expiryFollowups, recordEvent, Followup.isLate, hlate]
      | _ => exact Nat.zero_le _
  | @followup op f todo next db' hf =>
      refine Nat.add_le_add hunanswered ?_
      simp only [Call.latePending, List.countP_cons]
      exact Nat.le_add_right _ _
  | @lifecycle l order =>
      refine Nat.add_le_add hunanswered ?_
      simp only [Call.latePending, l.countP_isLate]
      exact Nat.zero_le _
  | _ => exact Nat.add_le_add hunanswered (Nat.zero_le _)

/-- **The books of one statement**: what it records was pending. -/
theorem Stmt.lateRoom_le (h : Stmt env me x db k o) {id : DispatchId} {d : OrderDispatch}
    (hunique : ∀ (other : DispatchId) (full : OrderDispatch), db.dispatches[other]? = some full →
      full.orderId = d.orderId → full.masterId = d.masterId → other = id) :
    o.store.lateRoom id d + o.call.latePending id d + (o.spawned.map (Call.latePending id d)).sum ≤
      db.lateRoom id d + k.latePending id d := by
  have hspawned : (o.spawned.map (Call.latePending id d)).sum = 0 := by
    refine List.sum_eq_zero fun n hn => ?_
    obtain ⟨k', hk', rfl⟩ := List.mem_map.mp hn
    obtain ⟨op, pc⟩ := k'
    obtain rfl : pc = .start := h.spawned_start _ hk'
    rfl
  unfold Db.lateRoom
  rcases h.penalties with hsame | ⟨m, e, oid, note, todo, next, p, hpc, hpc', happend, hm, he, ho⟩
  · have hpending := h.latePending_le hunique
    rw [hsame]
    omega
  · have hunanswered := h.unanswered_le id
    have hrecorded : d.isLate p = Followup.isLate d (.createPenalty m e oid note) := by
      cases e <;> simp [OrderDispatch.isLate, Followup.isLate, hm, he, ho]
    have hsettled : k.latePending id d =
        o.call.latePending id d + if d.isLate p then 1 else 0 := by
      rw [hrecorded]
      simp only [Call.latePending, hpc, hpc', List.countP_cons]
    rw [happend, List.countP_append, List.countP_singleton]
    omega

end Statements

/-! ### Runs -/

/-- What is known of the penalties, over a run whose expiries claim answerable offers. -/
def penaltyOutline (env : Env) (start : List PenaltyRecord) (ts : List (Transition Db Call Input)) :
    Outline (orders env) fun t => t.Satisfies (ClaimsAnswerable ts) where
  G := Db.Penalised ts start
  L db _ k := k.PenalisesAnswerable ts db
  start t i k _ _ hentry _ := by
    obtain ⟨op, pc⟩ := k
    cases op <;> cases pc <;> trivial
  own t i x k o hC he hk hstep _ hG hL := by
    obtain ⟨-, h, hfails⟩ := step_cases hstep
    refine ⟨h.penalised hG hL, h.penalisesAnswerable hfails (hC i x k he hk) hL, fun j k' hk' => ?_⟩
    obtain ⟨op, pc⟩ := k'
    obtain rfl : pc = .start := h.spawned_start _ hk'
    cases op <;> trivial
  others t i x k o j k' hC he hk hstep hk' _ hG hL hL' := by
    obtain ⟨-, h, -⟩ := step_cases hstep
    exact h.penalisesAnswerable_other hL'

section Run

variable {env : Env} {db : Db} {c c' : Config Db Call} {ts : List (Transition Db Call Input)}

/-- A dispatch stays in a run, with its offer and its deadline. -/
theorem dispatch_kept_run (hrun : (orders env).Run c ts c') {id : ℕ} {d : OrderDispatch}
    (hd : c.store.dispatches[id]? = some d) :
    ∃ d', c'.store.dispatches[id]? = some d' ∧ d'.offer = d.offer ∧ d'.expiresAt = d.expiresAt := by
  refine (hrun.always (fun c => ∃ d', c.store.dispatches[id]? = some d' ∧ d'.offer = d.offer ∧
    d'.expiresAt = d.expiresAt) ⟨d, hd, rfl, rfl⟩ fun t ht hpre => ?_).1
  obtain ⟨d₁, hd₁, hoffer, hdeadline⟩ := hpre
  rcases stmt_of_fires ht with ⟨k, -, -, hpost⟩ | ⟨i, x, k, o, -, -, -, h, -, hpost⟩
  · rw [hpost]
    exact ⟨d₁, hd₁, hoffer, hdeadline⟩
  · rw [hpost]
    obtain ⟨d₂, hd₂, hoffer'⟩ := h.dispatch_stays hd₁
    obtain ⟨-, hdeadline', -⟩ := h.dispatch_kept hd₁ hd₂
    exact ⟨d₂, hd₂, hoffer'.trans hoffer, hdeadline'.trans hdeadline⟩

/-- A dispatch that is answerable at the end of a run was so all along. -/
theorem answerable_of_later (hrun : (orders env).Run c ts c')
    (hsubmits : ∀ t ∈ ts, t.Satisfies SubmitsUnoffered) {id : ℕ} {d : OrderDispatch}
    (hd : c.store.dispatches[id]? = some d) (hlater : c'.store.Answerable id) :
    c.store.Answerable id := by
  by_contra hnot
  have hnever := (hrun.invariant
    (fun c => (∃ d, c.store.dispatches[id]? = some d) ∧ ¬ c.store.Answerable id) _ hsubmits
    ⟨⟨d, hd⟩, hnot⟩ fun t ht hC hpre => ?_).1
  · exact hnever.2 hlater
  · obtain ⟨⟨d, hd⟩, hnot⟩ := hpre
    rcases stmt_of_fires ht with ⟨k, -, -, hpost⟩ | ⟨i, x, k, o, he, hi, -, h, hfails, hpost⟩
    · rw [hpost]
      exact ⟨⟨d, hd⟩, hnot⟩
    · rw [hpost]
      obtain ⟨d', hd', -⟩ := h.dispatch_stays hd
      exact ⟨⟨d', hd'⟩, fun hpost' => hnot (h.answerable_before hfails (hC i x k he hi) hd hpost')⟩

theorem offersUnique_of_run (hrun : (orders env).Run c ts c') (h0 : c.store.OffersUnique) :
    c'.store.OffersUnique := by
  refine (hrun.always (fun c => c.store.OffersUnique) h0 fun t ht hpre => ?_).1
  rcases stmt_of_fires ht with ⟨k, -, -, hpost⟩ | ⟨i, x, k, o, -, -, -, h, -, hpost⟩
  · rwa [hpost]
  · rw [hpost]
    exact h.offersUnique hpre

/-- At most one LATE_RESPONSE is added for an offer. -/
theorem countP_isLate_le (hrun : (orders env).Run ⟨db, []⟩ ts c') (h0 : db.OffersUnique)
    {id : DispatchId} {d : OrderDispatch} (hd : c'.store.dispatches[id]? = some d) :
    c'.store.penalties.countP d.isLate ≤ db.penalties.countP d.isLate + 1 := by
  have hunique := offersUnique_of_run hrun h0
  have hbooks := (potential_run_le (C := (· ∈ ts)) (Db.lateRoom id d) (Call.latePending id d)
    (fun t k _ _ hentry => ?_) (fun t i x k o ht hts he hi hstep => ?_) hrun (fun t ht => ht)
    (Nat.le_refl _)).1
  · have hroom : db.lateRoom id d ≤ db.penalties.countP d.isLate + 1 :=
      Nat.add_le_add_left (unanswered_le_one db id) _
    simp only [potential, Db.lateRoom, List.map_nil, List.sum_nil] at hbooks hroom
    omega
  · obtain ⟨op, pc⟩ := k
    cases pc <;> first | rfl | simp [orders, Call.isStart] at hentry
  · obtain ⟨-, h, -⟩ := step_cases hstep
    refine h.lateRoom_le fun other full hfull hid hm => ?_
    -- The unique constraint of the final table, to which both dispatches belong.
    obtain ⟨after, -, hrest⟩ := hrun.suffix hts
    obtain ⟨full', hfull', hoffer, -⟩ := dispatch_kept_run hrest hfull
    exact hunique other id full' d hfull' hd ((congrArg Offer.orderId hoffer).trans hid)
      ((congrArg Offer.masterId hoffer).trans hm)

/-- A statement before the deadline that finds the dispatch runs before the deadline. -/
theorem now_lt_of_beforeDeadline {t : Transition Db Call Input} (ht : (orders env).Fires t) {i : ℕ}
    {x : Input} (he : t.event = .run i x) {id : DispatchId} {deadline : Time}
    (hfound : t.pre.store.Answerable id)
    (hbefore : (t.post.store.dispatchStatus id).isSome →
      t.Satisfies fun _ x _ _ => x.now < deadline) : x.now < deadline := by
  obtain ⟨d, hd, -, -⟩ := hfound
  obtain ⟨k, o, hi, h, hpost, -⟩ := stmt_of_event ht he
  obtain ⟨d', hd', -⟩ := h.dispatch_stays hd
  have hthere : (t.post.store.dispatchStatus id).isSome := by
    simp [hpost, Db.dispatchStatus, hd']
  exact hbefore hthere i x k he hi

/-- **No master is penalised for an offer he could not take** in a run whose expiries claim
offers that were answerable at their deadline, and whose submits find no open offer. -/
theorem penalisedFairly_of_run (hrun : (orders env).Run ⟨db, []⟩ ts c') (h0 : db.OffersUnique)
    (hsubmits : ∀ t ∈ ts, t.Satisfies SubmitsUnoffered)
    (hclaims : ∀ t ∈ ts, t.Satisfies (ClaimsAnswerable ts)) : PenalisedFairly env db ts c' := by
  obtain ⟨new, heq, hnew⟩ := ((penaltyOutline env db.penalties ts).holds_run hrun hclaims
    ⟨⟨[], by simp, by simp⟩, fun i k hk => by simp at hk⟩).1.1
  have hdrop : c'.store.penalties.drop db.penalties.length = new := by rw [heq]; simp
  constructor
  · rw [hdrop]
    intro p hp hevent
    obtain ⟨id, d, ⟨hd, t, ht, hfinds⟩, hlate⟩ := hnew p hp hevent
    refine ⟨id, d, hd, hlate, fun before after c hts hbefore hafter hthere hdeadline now hnow => ?_⟩
    obtain ⟨d₁, hd₁⟩ : ∃ d₁, c.store.dispatches[id]? = some d₁ := by
      simpa [Db.dispatchStatus, Option.isSome_iff_exists] using hthere
    obtain ⟨d', hd', hoffer, hexpires⟩ := dispatch_kept_run hafter hd₁
    obtain rfl := Option.some.inj (hd.symm.trans hd')
    have hanswerable : c.store.Answerable id := by
      subst hts
      unfold FindsAnswerable at hfinds
      cases he : t.event with
      | start k => simp [he] at hfinds
      | run i x =>
          rw [he] at hfinds
          obtain ⟨htime, hfound⟩ := hfinds
          rcases List.mem_append.mp ht with hpast | hfuture
          · exact absurd htime (not_le.mpr
              (now_lt_of_beforeDeadline (hrun.fires t ht) he hfound (hdeadline t hpast)))
          · obtain ⟨mid, _, hmid, hrest, -⟩ := hafter.split t hfuture
            refine answerable_of_later hrest (fun s hs => hsubmits s ?_) hd₁ hfound
            exact List.mem_append_right _ (by rw [hmid]; exact List.mem_append_left _ hs)
    have haccepts := accepts_of_answerable hd₁ hanswerable (hexpires ▸ hnow)
    rwa [← show d.masterId = d₁.masterId from congrArg Offer.masterId hoffer] at haccepts
  · intro id d hd
    have hcount := countP_isLate_le hrun h0 hd
    rw [hdrop]
    rw [heq, List.countP_append] at hcount
    omega

end Run

/-- Master 1 lets his offer expire. -/
def letExpire : List (Event Call Input) :=
  [.start ⟨.handleOfferExpiry 0, .start⟩, .run 0 { now := 60000 }, .run 0 { now := 60000 },
    .run 0 { now := 60000 }, .run 0 { now := 60000 }]

instance {id : DispatchId} {deadline : Time} : DecidablePred (FindsAnswerable id deadline) :=
  fun t =>
    decidable_of_bool
      (match t.event with
        | .start _ => false
        | .run _ x => decide (deadline ≤ x.now ∧ t.pre.store.Answerable id))
      (by unfold FindsAnswerable; split <;> simp only [decide_eq_true_iff, Bool.false_eq_true])

instance (me : ℕ) (x : Input) (k : Call) (db : Db) : Decidable (SubmitsUnoffered me x k db) :=
  decidable_of_bool
    (match k.pc, k.op with
      | .guarded _, .submit _ orderId =>
          decide (x.fail = false → 0 < db.openOffers orderId →
            db.statusOf orderId = some .searching)
      | _, _ => true)
    (by unfold SubmitsUnoffered; split <;> simp only [decide_eq_true_iff])

instance {ts : List (Transition Db Call Input)} (me : ℕ) (x : Input) (k : Call) (db : Db) :
    Decidable (ClaimsAnswerable ts me x k db) :=
  decidable_of_bool
    (match k.pc, k.op with
      | .start, .handleOfferExpiry id =>
          decide (x.fail = false → ∀ row ∈ db.dispatches[id]?, row.status = .offered →
            ∃ t ∈ ts, FindsAnswerable id row.expiresAt t)
      | _, _ => true)
    (by unfold ClaimsAnswerable; split <;> simp only [decide_eq_true_iff])

theorem penalisedFairly_letExpire :
    PenalisedFairly .flat oneOffer ((orders .flat).trace ⟨oneOffer, []⟩ letExpire)
      ((orders .flat).after ⟨oneOffer, []⟩ letExpire) :=
  penalisedFairly_of_run ((orders .flat).run_trace _ _) lateOnly_oneOffer.unique
    (by decide +kernel) (by decide +kernel)

/-- The expiry job of the same offer, as the second call. -/
def expireOffer : List (Event Call Input) :=
  [.start ⟨.handleOfferExpiry 0, .start⟩, .run 1 { now := 60000 }, .run 1 { now := 60000 },
    .run 1 { now := 60000 }, .run 1 { now := 60000 }]

/-- The customer has cancelled the order before, and the master is penalised. -/
theorem not_penalisedFairly_always :
    ¬ ∀ (env : Env) (db : Db) (ts : List (Transition Db Call Input)) (c' : Config Db Call),
      (orders env).Run ⟨db, []⟩ ts c' → db.OffersUnique →
      (∀ t ∈ ts, ∀ k, t.event = .start k → k.op.MovesSearch) → PenalisedFairly env db ts c' := by
  intro h
  have hcancel := (orders .flat).run_trace ⟨oneOffer, []⟩ cancelOffered
  have hexpire := (orders .flat).run_trace ((orders .flat).after ⟨oneOffer, []⟩ cancelOffered)
    expireOffer
  have hfair := h .flat oneOffer _ _ (hcancel.append hexpire) lateOnly_oneOffer.unique ?_
  · have hmem : ∃ p ∈ ((orders .flat).after ((orders .flat).after ⟨oneOffer, []⟩ cancelOffered)
        expireOffer).store.penalties, p.eventType = .lateResponse := by
      decide +kernel
    obtain ⟨p, hp, hevent⟩ := hmem
    obtain ⟨id, d, hd, -, hmoments⟩ := hfair.answerable p hp hevent
    have hlen : ((orders .flat).after ((orders .flat).after ⟨oneOffer, []⟩ cancelOffered)
        expireOffer).store.dispatches.length = 1 := by
      decide +kernel
    obtain rfl : id = 0 := Nat.lt_one_iff.mp (hlen ▸ (List.getElem?_eq_some_iff.mp hd).1)
    have hdeadline : d.expiresAt = 60000 := by
      obtain ⟨d', hd', -, hexpires⟩ := dispatch_kept_run (hcancel.append hexpire)
        (show oneOffer.dispatches[0]? = some _ from rfl)
      obtain rfl := Option.some.inj (hd.symm.trans hd')
      exact hexpires
    -- The moment after the cancellation.
    have haccepts := hmoments _ _ _ rfl hcancel hexpire (by decide +kernel)
      (by rw [hdeadline]; decide +kernel) 0 (by rw [hdeadline]; decide)
    exact absurd (answerable_of_accepts haccepts) (by decide +kernel)
  · intro t ht k he
    rcases List.mem_append.mp ht with ht | ht
    · have hstart := (orders .flat).event_mem_of_mem_trace ht
      rw [he] at hstart
      obtain rfl : k = ⟨.lifecycle (.cancel 0 0), .start⟩ := by simpa [cancelOffered] using hstart
      trivial
    · have hstart := (orders .flat).event_mem_of_mem_trace ht
      rw [he] at hstart
      obtain rfl : k = ⟨.handleOfferExpiry 0, .start⟩ := by simpa [expireOffer] using hstart
      trivial

end Handly
