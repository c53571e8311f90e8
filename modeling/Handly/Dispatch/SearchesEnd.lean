import Handly.Dispatch.CascadeRetry
import Handly.Orders.Draining

/-!
# Every search can be ended

An offer is answered or it expires, and an expiry makes the next offer. Three facts together say
that a search is neither endless nor stuck. An order is offered to each master once, so offers of
it are made and answered a bounded number of times, whoever calls what. When no call is in
flight, a SEARCHING order has an open offer whose expiry job has been put into the queue. And
running such jobs, one after the other, ends the search.

The second and the third need that no failing step drops a search (`DropsNone`), nor the job of a
dispatch that it has just inserted. The queue is a log of the jobs that have been put into it. That
the worker has not given a job up after its last attempt is not said by it.
-/

namespace Handly

open Interleaving

/-! ### The books of a search -/

/-- A bound on how often offers of the order can still be made and answered: each master who has
not been offered it may get an offer, which may then be answered. -/
def Db.searchLeft (db : Db) (orderId : OrderId) : ℕ :=
  2 * db.undispatched orderId + db.openOffers orderId

/-- Offers of the order are made or answered in the transition. -/
def movesOffers (orderId : OrderId) (t : Transition Db Call Input) : Bool :=
  t.post.store.openOffers orderId ≠ t.pre.store.openOffers orderId

/-- The dispatch whose expiry job the call puts into the queue next. -/
def Call.enqueues (k : Call) : Option DispatchId :=
  match k.pc with
  | .cascadeEnqueue _ _ _ dispatchId => some dispatchId
  | _ => none

/-- The expiry job of every dispatch has been put into the queue, or a call is about to. -/
def JobsQueued (c : Config Db Call) : Prop :=
  ∀ id < c.store.dispatches.length, (∃ job ∈ c.store.queue, job.dispatchId = id) ∨
    ∃ (i : ℕ) (k : Call), c.calls[i]? = some k ∧ k.enqueues = some id

/-- The step of the transition does not fail between the insert of a dispatch and its job. What
becomes of the job in the queue is left open. -/
def LosesNoJob (t : Transition Db Call Input) : Prop :=
  ∀ i x k, t.event = .run i x → x.fail = true → t.pre.calls[i]? = some k → k.enqueues = none

/-- The environment starts a call. -/
def startsCall (t : Transition Db Call Input) : Bool := t.event matches .start _

/-- The calls run on the inputs that the world supplies, and those started are expiry jobs from
the queue. -/
def RunsJobs (xs : ℕ → Input) (ts : List (Transition Db Call Input)) : Prop :=
  ∀ (p : ℕ) (t : Transition Db Call Input), ts[p]? = some t →
    (∃ i, t.event = .run i (xs p)) ∨
      ∃ job ∈ t.pre.store.queue, t.event = .start ⟨.handleOfferExpiry job.dispatchId, .start⟩

/-- From here the search for the order is neither endless nor stuck. -/
structure SearchEnds (env : Env) (orderId : OrderId) (c : Config Db Call) : Prop where
  /-- Whoever calls what, offers of the order are made and answered at most so often. -/
  bounded : ∀ ts c', (orders env).Run c ts c' →
    ts.countP (movesOffers orderId) + c'.store.searchLeft orderId ≤ c.store.searchLeft orderId
  /-- At rest, a SEARCHING order has an open offer whose expiry job has been put into the queue. -/
  ready : ∀ ts c', (orders env).Run c ts c' → (∀ t ∈ ts, DropsNone t ∧ LosesNoJob t) →
    (∀ k ∈ c'.calls, k.Finished) → c'.store.statusOf orderId = some .searching →
    ∃ job ∈ c'.store.queue, ∃ d, c'.store.dispatches[job.dispatchId]? = some d ∧
      d.orderId = orderId ∧ d.status = .offered
  /-- Whatever the world supplies, if no step fails, then running at most so many expiry jobs
  ends the search. -/
  ends : ∀ xs : ℕ → Input, (∀ p, (xs p).fail = false) → ∃ ts c', (orders env).Run c ts c' ∧
    RunsJobs xs ts ∧ ts.countP startsCall ≤ c.store.searchLeft orderId ∧
    c'.store.statusOf orderId ≠ some .searching

section Statements

variable {env : Env} {me : ℕ} {x : Input} {k : Call} {db : Db} {o : Outcome Db Call}
  {orderId : OrderId}

/-! ### Offers are made and answered -/

/-- A master who has not been offered the order is counted. -/
theorem undispatchedBut_add_one_le {masterId : UserId} (hmem : masterId ∈ db.masterIds)
    (hfree : alreadyOffered db orderId masterId = false) :
    db.undispatchedBut orderId masterId + 1 ≤ db.undispatched orderId := by
  have hsplit := List.countP_eq_countP_filter_add db.masterIds
    (fun m => !alreadyOffered db orderId m) fun m => decide (m ≠ masterId)
  simp only [List.countP_filter] at hsplit
  rw [Db.undispatched, hsplit]
  refine Nat.add_le_add (le_of_eq ?_) (List.countP_pos_iff.mpr ⟨_, hmem, by simp [hfree]⟩)
  refine List.countP_congr fun m _ => ?_
  rw [Bool.and_comm]

/-- The insert of `cascadeNext` uses up a master. -/
theorem Stmt.undispatched_insert (h : Stmt env me x db k o) {masterId : UserId}
    (hmem : masterId ∈ db.masterIds) (hfree : alreadyOffered db orderId masterId = false)
    (hoffered : alreadyOffered o.store orderId masterId = true) :
    o.store.undispatched orderId + 1 ≤ db.undispatched orderId := by
  calc o.store.undispatched orderId + 1
      ≤ o.store.undispatchedBut orderId masterId + 1 :=
        Nat.add_le_add_right (undispatched_of_alreadyOffered hoffered) 1
    _ ≤ db.undispatchedBut orderId masterId + 1 :=
        Nat.add_le_add_right (h.countP_undispatched_le orderId fun m => m ≠ masterId) 1
    _ ≤ db.undispatched orderId := undispatchedBut_add_one_le hmem hfree

/-- After a statement that opens an offer, the picked master has been offered the order. -/
theorem Stmt.alreadyOffered_insert (h : Stmt env me x db k o) {attempt : Attempt} {order : Order}
    {rankSoFar : ℕ} {picked : EligibleCandidate}
    (hpc : k.pc = .cascadeCreate orderId attempt order rankSoFar picked)
    (hcount : o.store.openOffers orderId = db.openOffers orderId + 1) :
    alreadyOffered o.store orderId picked.masterId = true := by
  obtain ⟨op, pc⟩ := k
  obtain rfl : pc = .cascadeCreate orderId attempt order rankSoFar picked := hpc
  cases h with
  | cascadeInsert => simp [alreadyOffered, offerOf]
  | reads | fails => exact absurd hcount (Nat.ne_of_lt (Nat.lt_succ_self _))
  | acceptRollback hpc => rcases hpc with hpc | ⟨order, hpc⟩ <;> cases hpc

variable (orderId) in
/-- The books of one statement. -/
theorem Stmt.searchLeft_le (h : Stmt env me x db k o) (hk : k.Knows db me)
    (hexist : k.MastersExist db) :
    (if o.store.openOffers orderId ≠ db.openOffers orderId then 1 else 0) +
        o.store.searchLeft orderId ≤ db.searchLeft orderId := by
  have hle : o.store.undispatched orderId ≤ db.undispatched orderId := h.undispatched_le
  simp only [Db.searchLeft]
  cases h.openOffers orderId hk with
  | kept _ hcount =>
      rw [if_neg (not_not.mpr hcount)]
      omega
  | claimed _ hcount =>
      split <;> omega
  | @offered attempt order rankSoFar picked hpc hfree _ hcount =>
      have hmem : picked.masterId ∈ db.masterIds := by
        simpa [Call.MastersExist, hpc] using hexist
      have hlt := h.undispatched_insert hmem hfree (h.alreadyOffered_insert hpc hcount)
      split <;> omega
  | accepted _ _ _ _ hcount =>
      split <;> omega

/-! ### The queue -/

theorem Stmt.mem_queue (h : Stmt env me x db k o) {job : OfferExpiryJob} (hjob : job ∈ db.queue) :
    job ∈ o.store.queue := by
  cases h with
  | @updateDraft customerId orderId dto order =>
      show job ∈ (updateDraftWrite db me x.now customerId orderId dto order).queue
      unfold updateDraftWrite
      split <;> exact hjob
  | @lifecycle l order =>
      show job ∈ (l.spec.write db me x.now order).queue
      unfold GuardedTransition.write GuardedTransition.credit
      cases l.spec.credits order <;> exact hjob
  | followup hf =>
      rw [Followup.run_queue hf]
      exact hjob
  | cascadeEnqueue => exact List.mem_append_left _ hjob
  | accept =>
      simp only [acceptWrite, Db.unlock, Db.createNotification, Db.createHistory, Db.setStatus,
        Db.withdrawOthers, Db.updateDispatch]
      exact hjob
  | fails | reads | createDraft | diagnose | submit | acceptLock | acceptRollback | decline
  | expiry | cascadeInsert | failSearchUpdate | failSearchRecord => exact hjob

/-- A call that is to put a job into the queue does so, unless the statement fails. -/
theorem Stmt.enqueued (h : Stmt env me x db k o) (hfail : x.fail = false) {id : DispatchId}
    (hk : k.enqueues = some id) : ∃ job ∈ o.store.queue, job.dispatchId = id := by
  obtain ⟨op, pc⟩ := k
  cases pc with
  | cascadeEnqueue orderId order picked dispatchId =>
      obtain rfl : dispatchId = id := Option.some.inj hk
      cases h with
      | cascadeEnqueue => exact ⟨_, List.mem_append_right _ (List.mem_singleton.mpr rfl), rfl⟩
      | fails hx => simp [hx] at hfail
      | reads hr =>
          cases hr with
          | cascadeStops henter | cascadeMissing henter | cascadeReads henter
          | failSearchStops henter | failSearchReads henter => cases henter
      | acceptRollback hpc => rcases hpc with hpc | ⟨order, hpc⟩ <;> cases hpc
  | _ => simp [Call.enqueues] at hk

/-- A dispatch that is there after the statement was there before, or its call puts the job of it
into the queue next. -/
theorem Stmt.lt_length_or_enqueues (h : Stmt env me x db k o) {id : ℕ}
    (hid : id < o.store.dispatches.length) :
    id < db.dispatches.length ∨ o.call.enqueues = some id := by
  cases h with
  | cascadeInsert =>
      rw [Db.createDispatch_dispatches, List.length_append, List.length_singleton] at hid
      rcases Nat.lt_succ_iff_lt_or_eq.mp hid with hlt | rfl
      · exact Or.inl hlt
      · exact Or.inr rfl
  | followup hf =>
      rw [(Followup.run_frame hf).2.1] at hid
      exact Or.inl hid
  | accept => exact Or.inl (by simpa [acceptWrite] using hid)
  | updateDraft | lifecycle | decline | expiry => exact Or.inl (by simpa using hid)
  | fails | reads | createDraft | diagnose | submit | acceptLock | acceptRollback
  | cascadeEnqueue | failSearchUpdate | failSearchRecord => exact Or.inl hid

end Statements

/-! ### One transition -/

section Transitions

variable {env : Env} {t : Transition Db Call Input} {orderId : OrderId}

/-- A transition pays for the offer that it makes or answers. -/
theorem searchLeft_fires (ht : (orders env).Fires t)
    (hknows : ∀ (i : ℕ) (k : Call), t.pre.calls[i]? = some k → k.Knows t.pre.store i)
    (hexist : ∀ (i : ℕ) (k : Call), t.pre.calls[i]? = some k → k.MastersExist t.pre.store) :
    (if movesOffers orderId t then 1 else 0) + t.post.store.searchLeft orderId ≤
      t.pre.store.searchLeft orderId := by
  rcases stmt_of_fires ht with ⟨k, -, -, hpost⟩ | ⟨i, x, k, o, -, hk, -, h, -, hpost⟩
  · simp [movesOffers, hpost]
  · have hbooks := h.searchLeft_le orderId (hknows i k hk) (hexist i k hk)
    simpa [movesOffers, hpost] using hbooks

theorem jobsQueued_fires (ht : (orders env).Fires t) (hjobs : LosesNoJob t)
    (h : JobsQueued t.pre) : JobsQueued t.post := by
  rcases stmt_of_fires ht with ⟨k, -, -, hpost⟩ | ⟨i, x, k, o, he, hk, -, hstmt, -, hpost⟩
  · intro id hid
    rw [hpost] at hid ⊢
    rcases h id hid with hqueued | ⟨j, k', hk', henq⟩
    · exact Or.inl hqueued
    · refine Or.inr ⟨j, k', ?_, henq⟩
      rw [List.getElem?_append_left (List.getElem?_eq_some_iff.mp hk').1]
      exact hk'
  · have hlt := (List.getElem?_eq_some_iff.mp hk).1
    intro id hid
    rw [hpost] at hid ⊢
    rcases hstmt.lt_length_or_enqueues hid with hold | hnew
    · rcases h id hold with ⟨job, hjob, hjobid⟩ | ⟨j, k', hk', henq⟩
      · exact Or.inl ⟨job, hstmt.mem_queue hjob, hjobid⟩
      · by_cases hji : j = i
        · subst hji
          obtain rfl := Option.some.inj (hk.symm.trans hk')
          refine Or.inl (hstmt.enqueued ?_ henq)
          cases hx : x.fail with
          | false => rfl
          | true => simp [hjobs j x k he hx hk] at henq
        · refine Or.inr ⟨j, k', ?_, henq⟩
          rw [Machine.getElem?_set_append hlt, if_neg hji,
            if_pos (List.getElem?_eq_some_iff.mp hk').1]
          exact hk'
    · exact Or.inr ⟨i, o.call, by rw [Machine.getElem?_set_append hlt, if_pos rfl], hnew⟩

/-- A statement that does not fail drops nothing. -/
theorem drops_nothing (h : ∀ i x, t.event = .run i x → x.fail = false) :
    DropsNone t ∧ LosesNoJob t := by
  refine ⟨fun i x k _ he hx => ?_, fun i x k he hx => ?_⟩
  · simp [h i x he] at hx
  · simp [h i x he] at hx

end Transitions

/-! ### Whole runs -/

theorem RunsJobs.append {xs : ℕ → Input} {ts ts' : List (Transition Db Call Input)}
    (h : RunsJobs xs ts) (h' : RunsJobs (fun p => xs (ts.length + p)) ts') :
    RunsJobs xs (ts ++ ts') := by
  intro p t ht
  rcases Nat.lt_or_ge p ts.length with hlt | hge
  · rw [List.getElem?_append_left hlt] at ht
    exact h p t ht
  · rw [List.getElem?_append_right hge] at ht
    have hjob := h' (p - ts.length) t ht
    dsimp only at hjob
    rwa [Nat.add_sub_cancel' hge] at hjob

/-- On inputs that do not fail, nothing is dropped. -/
theorem RunsJobs.drops_nothing {xs : ℕ → Input} {ts : List (Transition Db Call Input)}
    (h : RunsJobs xs ts) (hxs : ∀ p, (xs p).fail = false) :
    ∀ t ∈ ts, DropsNone t ∧ LosesNoJob t := by
  intro t ht
  obtain ⟨p, hp⟩ := List.mem_iff_getElem?.mp ht
  refine Handly.drops_nothing fun i x he => ?_
  rcases h p t hp with ⟨i', he'⟩ | ⟨job, -, he'⟩
  · obtain ⟨-, rfl⟩ := Event.run.inj (he.symm.trans he')
    exact hxs p
  · simp [he] at he'

section Run

variable {env : Env} {db : Db} {c c' : Config Db Call} {ts ts' : List (Transition Db Call Input)}
  {orderId : OrderId}

variable (orderId) in
/-- Offers of the order are made and answered at most so often in the rest of a run. -/
theorem bounded_of_run (hmasters : db.MastersExist) (hrun : (orders env).Run ⟨db, []⟩ ts c)
    (hrun' : (orders env).Run c ts' c') :
    ts'.countP (movesOffers orderId) + c'.store.searchLeft orderId ≤
      c.store.searchLeft orderId := by
  have hall := hrun.append hrun'
  have hknows := (knows_of_run hall).2
  have hexist := mastersExist_of_run hall hmasters
  exact hrun'.countP_add_le (fun c => c.store.searchLeft orderId) (movesOffers orderId)
    fun t ht hfire => searchLeft_fires hfire (hknows t (List.mem_append_right _ ht))
      (hexist t (List.mem_append_right _ ht))

/-- At rest, a SEARCHING order has an open offer whose expiry job is in the queue. -/
theorem ready_of_run (h0 : SearchGoesOn ⟨db, []⟩) (hqueued : JobsQueued ⟨db, []⟩)
    (hmasters : db.MastersExist) (hrun : (orders env).Run ⟨db, []⟩ ts c)
    (hkept : ∀ t ∈ ts, DropsNone t ∧ LosesNoJob t) (hdone : ∀ k ∈ c.calls, k.Finished)
    (hst : c.store.statusOf orderId = some .searching) :
    ∃ job ∈ c.store.queue, ∃ d, c.store.dispatches[job.dispatchId]? = some d ∧
      d.orderId = orderId ∧ d.status = .offered := by
  have hknows := (knows_of_run hrun).2
  have hexist := mastersExist_of_run hrun hmasters
  have hgoes : ∀ t ∈ ts, SearchGoesOn t.post :=
    (hrun.invariant_iff SearchGoesOn DropsNone h0 fun t ht =>
      searchGoesOn_fires (hrun.fires t ht) (hknows t ht) (hexist t ht)).mpr
        fun t ht => (hkept t ht).1
  have hjobs : JobsQueued c :=
    (hrun.invariant JobsQueued LosesNoJob (fun t ht => (hkept t ht).2) hqueued
      fun t ht => jobsQueued_fires ht).1
  -- Nobody is left to go on with the order, so an offer of it is open.
  obtain ⟨d, hd, hid, hopen⟩ :=
    (cascadeSurvives_iff.mpr (hrun.last h0 hgoes)).settled hdone orderId hst
  obtain ⟨id, hrow⟩ := List.mem_iff_getElem?.mp hd
  -- Nor is anybody about to put its job into the queue, so it is there.
  rcases hjobs id (List.getElem?_eq_some_iff.mp hrow).1 with
    ⟨job, hjob, rfl⟩ | ⟨i, k, hk, henq⟩
  · exact ⟨job, hjob, d, hrow, hid, hopen⟩
  · obtain ⟨op, pc⟩ := k
    have hfinished := hdone _ (List.mem_of_getElem? hk)
    cases pc with
    | returned | threw => simp [Call.enqueues] at henq
    | _ => exact hfinished.elim

/-- An expiry job whose dispatch is OFFERED answers it with its first statement. -/
theorem exists_expiry (env : Env) {job : OfferExpiryJob} (hjob : job ∈ c.store.queue)
    {d : OrderDispatch} (hd : c.store.dispatches[job.dispatchId]? = some d)
    (hid : d.orderId = orderId) (hopen : d.status = .offered) (xs : ℕ → Input)
    (hxs : ∀ p, (xs p).fail = false) :
    ∃ ts c', (orders env).Run c ts c' ∧ RunsJobs xs ts ∧ ts.countP startsCall = 1 ∧
      ∃ t ∈ ts, movesOffers orderId t = true := by
  let k : Call := ⟨.handleOfferExpiry job.dispatchId, .start⟩
  let expire : OrderDispatch → OrderDispatch := fun d =>
    { d with status := .expired, respondedAt := some (xs 1).now }
  let c₁ : Config Db Call := ⟨c.store, c.calls ++ [k]⟩
  let c₂ : Config Db Call := ⟨c.store.updateDispatch job.dispatchId expire,
    c₁.calls.set c.calls.length ⟨k.op, .claimed d.orderId⟩ ++ []⟩
  let start : Transition Db Call Input := ⟨c, .start k, c₁⟩
  let claims : Transition Db Call Input := ⟨c₁, .run c.calls.length (xs 1), c₂⟩
  have hstart : (orders env).Fires start := rfl
  have hcall : c₁.calls[c.calls.length]? = some k := List.getElem?_concat_length
  have hstep : (orders env).step c.calls.length (xs 1) k c₁.store =
      some ⟨c.store.updateDispatch job.dispatchId expire, ⟨k.op, .claimed d.orderId⟩, []⟩ := by
    have hclaim : claim c.store job.dispatchId .expired (xs 1).now =
        some (d, c.store.updateDispatch job.dispatchId expire) := by
      simp [claim, hd, hopen, expire]
    show step env c.calls.length (xs 1) k c.store = _
    rw [step, if_neg (by simp [k, Call.Finished]), if_neg (by simp [hxs 1])]
    simp only [proceed, begin, k, hclaim]
    rfl
  have hclaims : (orders env).Fires claims := by
    show (orders env).fire c₁ (.run c.calls.length (xs 1)) = some c₂
    simp only [Machine.fire, hcall, hstep, Option.map_some]
    rfl
  refine ⟨[start, claims], c₂, hstart.run.append hclaims.run, fun p t ht => ?_, rfl, claims,
    by simp, ?_⟩
  · cases p with
    | zero =>
        obtain rfl : start = t := Option.some.inj ht
        exact Or.inr ⟨job, hjob, rfl⟩
    | succ p =>
        cases p with
        | zero =>
            obtain rfl : claims = t := Option.some.inj ht
            exact Or.inl ⟨_, rfl⟩
        | succ p => simp at ht
  · have hcount := openOffers_claim orderId (f := expire) hd hopen (by simp [expire])
    rw [if_pos hid] at hcount
    simp only [movesOffers, claims, c₂, c₁, decide_eq_true_eq]
    omega

/-- When nothing more comes in, the calls in flight finish. -/
theorem exists_rest (hfree : ∀ orderId, db.orderLock orderId = none)
    (hrun : (orders env).Run ⟨db, []⟩ ts c) (xs : ℕ → Input) :
    ∃ ts c', (orders env).Run c ts c' ∧ RunsJobs xs ts ∧ ts.countP startsCall = 0 ∧
      ∀ k ∈ c'.calls, k.Finished := by
  obtain ⟨ts', c', hrun', hinputs, hdone⟩ := ((orderLocks env).drains hfree hrun).completes xs
  refine ⟨ts', c', hrun', fun p t ht => Or.inl (hinputs p t ht), ?_, hdone⟩
  refine List.countP_eq_zero.mpr fun t ht => ?_
  obtain ⟨p, hp⟩ := List.mem_iff_getElem?.mp ht
  obtain ⟨i, he⟩ := hinputs p t hp
  simp [startsCall, he]

/-- Running expiry jobs ends the search, by induction on the offers that can still be made and
answered: the calls in flight come to rest, the job of the open offer claims it, and so on. -/
theorem exists_end (hfree : ∀ orderId, db.orderLock orderId = none) (h0 : SearchGoesOn ⟨db, []⟩)
    (hqueued : JobsQueued ⟨db, []⟩) (hmasters : db.MastersExist)
    (hrun : (orders env).Run ⟨db, []⟩ ts c) (hkept : ∀ t ∈ ts, DropsNone t ∧ LosesNoJob t)
    (xs : ℕ → Input) (hxs : ∀ p, (xs p).fail = false) :
    ∃ ts c', (orders env).Run c ts c' ∧ RunsJobs xs ts ∧
      ts.countP startsCall ≤ c.store.searchLeft orderId ∧
      c'.store.statusOf orderId ≠ some .searching := by
  induction hn : c.store.searchLeft orderId using Nat.strong_induction_on
    generalizing ts c xs with
  | _ n ih =>
      obtain ⟨ts₁, c₁, hrun₁, hjobs₁, hstarts₁, hdone⟩ := exists_rest hfree hrun xs
      have hall₁ := hrun.append hrun₁
      have hkept₁ := List.forall_mem_append.mpr ⟨hkept, hjobs₁.drops_nothing hxs⟩
      have hle₁ := bounded_of_run orderId hmasters hrun hrun₁
      by_cases hst : c₁.store.statusOf orderId = some .searching
      · obtain ⟨job, hjob, d, hd, hid, hopen⟩ :=
          ready_of_run h0 hqueued hmasters hall₁ hkept₁ hdone hst
        obtain ⟨ts₂, c₂, hrun₂, hjobs₂, hstarts₂, t, ht, hmoves⟩ :=
          exists_expiry env hjob hd hid hopen (fun p => xs (ts₁.length + p)) fun p => hxs _
        have hall₂ := hall₁.append hrun₂
        have hkept₂ := List.forall_mem_append.mpr
          ⟨hkept₁, hjobs₂.drops_nothing fun p => hxs _⟩
        have hle₂ := bounded_of_run orderId hmasters hall₁ hrun₂
        have hpos : 0 < ts₂.countP (movesOffers orderId) :=
          List.countP_pos_iff.mpr ⟨t, ht, hmoves⟩
        obtain ⟨ts₃, c₃, hrun₃, hjobs₃, hstarts₃, hend⟩ :=
          ih (c₂.store.searchLeft orderId) (by omega) hall₂ hkept₂
            (fun p => xs (ts₁.length + (ts₂.length + p))) (fun p => hxs _) rfl
        refine ⟨ts₁ ++ (ts₂ ++ ts₃), c₃, hrun₁.append (hrun₂.append hrun₃),
          hjobs₁.append (hjobs₂.append hjobs₃), ?_, hend⟩
        rw [List.countP_append, List.countP_append]
        omega
      · exact ⟨ts₁, c₁, hrun₁, hjobs₁, by omega, hst⟩

/-- **Every search can be ended.** After any run in which no failing step has dropped a search or
come between a dispatch and its job, offers of an order are made and answered a bounded number of
times, at rest a SEARCHING order has an open offer whose expiry job has been put into the queue,
and running such jobs ends the search. -/
theorem searches_end (hfree : ∀ orderId, db.orderLock orderId = none)
    (h0 : SearchGoesOn ⟨db, []⟩) (hqueued : JobsQueued ⟨db, []⟩) (hmasters : db.MastersExist)
    (hrun : (orders env).Run ⟨db, []⟩ ts c) (hkept : ∀ t ∈ ts, DropsNone t ∧ LosesNoJob t)
    (orderId : OrderId) : SearchEnds env orderId c where
  bounded _ _ hrun' := bounded_of_run orderId hmasters hrun hrun'
  ready _ _ hrun' hkept' := ready_of_run h0 hqueued hmasters (hrun.append hrun')
    (List.forall_mem_append.mpr ⟨hkept, hkept'⟩)
  ends xs hxs := exists_end hfree h0 hqueued hmasters hrun hkept xs hxs

end Run

/-! ### A search for two masters -/

theorem searchGoesOn_quotedForTwo : SearchGoesOn ⟨quotedForTwo, []⟩ := by
  intro orderId hst
  obtain ⟨order, horder, hsearching⟩ := Db.statusOf_eq_some.mp hst
  obtain rfl : orderId = 0 := by
    have hlt := (List.getElem?_eq_some_iff.mp horder).1
    exact Nat.lt_one_iff.mp hlt
  obtain rfl := Option.some.inj horder
  simp at hsearching

theorem submitOnce_calm : ∀ i x, Event.run i x ∈ submitOnce → x.fail = false := by
  intro i x hx
  have hinput : x = {} := by
    simp only [submitOnce, List.mem_cons, reduceCtorEq, Event.run.injEq, List.not_mem_nil] at hx
    tauto
  rw [hinput]

/-- The first of two masters has been offered the order. Three jobs at most end the search. -/
theorem searches_end_submitOnce :
    SearchEnds .flat 0 ((orders .flat).after ⟨quotedForTwo, []⟩ submitOnce) ∧
      ((orders .flat).after ⟨quotedForTwo, []⟩ submitOnce).store.searchLeft 0 = 3 := by
  have hqueued : JobsQueued ⟨quotedForTwo, []⟩ := by
    intro id hid
    simp [quotedForTwo] at hid
  refine ⟨searches_end (fun _ => rfl) searchGoesOn_quotedForTwo hqueued ⟨by decide, by decide⟩
    ((orders .flat).run_trace ⟨quotedForTwo, []⟩ submitOnce) (fun t ht => ?_) 0,
    by decide +kernel⟩
  exact drops_nothing fun i x he =>
    submitOnce_calm i x (he ▸ (orders .flat).event_mem_of_mem_trace ht)

end Handly
