import Handly.Dispatch.CascadeTermination
import Handly.Lib.Draining

/-!
# The order service comes to rest

A submit starts a search, a decline and an expiry start the next one, a search calls itself, and
`acceptOffer` makes whoever writes the order wait. Still, when no more calls come in, those in
flight finish, and no two of them wait for each other: a transaction locks one order row and
waits for nothing while it holds it.
-/

namespace Handly

open Interleaving

/-! ### Where a call can stand -/

/-- The call stands at a point of its own method. -/
def Call.Fits (k : Call) : Prop :=
  match k.pc, k.op with
  | .guarded _, .updateDraft _ _ _ | .guarded _, .diagnose _ _ | .guarded _, .submit _ _
  | .guarded _, .lifecycle _ | .diagnosing _ _, .diagnose _ _ | .quoted _ _ _ _, .diagnose _ _
  | .ownOffer _, .acceptOffer _ _ | .ownOffer _, .declineOffer _ _
  | .locked _, .acceptOffer _ _ | .lockedOrder _ _, .acceptOffer _ _
  | .accepting _ _, .acceptOffer _ _ | .claimed _, .handleOfferExpiry _ => True
  | .guarded _, _ | .diagnosing _ _, _ | .quoted _ _ _ _, _ | .ownOffer _, _ | .locked _, _
  | .lockedOrder _ _, _ | .accepting _ _, _ | .claimed _, _ => False
  | _, _ => True

/-- The transaction of `acceptOffer` has locked the order row. -/
def Call.Holding (k : Call) : Prop :=
  match k.pc, k.op with
  | .locked _, .acceptOffer _ _ | .lockedOrder _ _, .acceptOffer _ _
  | .accepting _ _, .acceptOffer _ _ => True
  | _, _ => False

/-! ### What is left to do -/

/-- A bound on the statements of one search. -/
def Db.searchWork (db : Db) : ℕ := 4 * (db.masterIds.length + 1) + 8

/-- A bound on the statements that the call and the searches it starts can still run. -/
def Call.work (k : Call) (db : Db) : ℕ :=
  match k.pc, k.op with
  | .start, .createDraft _ _ => 1
  | .start, .updateDraft _ _ _ => 2
  | .start, .diagnose _ _ => 4
  | .start, .submit _ _ | .start, .declineOffer _ _ => 2 + db.searchWork
  | .start, .lifecycle _ => 7
  | .start, .acceptOffer _ _ | .start, .failSearch _ _ => 5
  | .start, .handleOfferExpiry _ => 7 + db.searchWork
  | .guarded _, .updateDraft _ _ _ => 1
  | .guarded _, .diagnose _ _ => 3
  | .guarded order, .lifecycle l => 2 + (l.spec.followups order).length
  | .guarded _, _ => 1 + db.searchWork
  | .diagnosing _ _, _ | .lockedOrder _ _, _ => 2
  | .quoted _ _ _ _, _ | .accepting _ _, _ => 1
  | .ownOffer _, .acceptOffer _ _ => 4
  | .ownOffer _, _ => 1 + db.searchWork
  | .locked _, _ => 3
  | .claimed _, _ => 6 + db.searchWork
  | .after todo (some _), _ => todo.length + 1 + db.searchWork
  | _, _ => k.statementsLeft db

section Statements

variable {env : Env} {me : ℕ} {x : Input} {k : Call} {db : Db} {o : Outcome Db Call}

/-- The masters who have not been offered an order are some of all. -/
theorem search_le_searchWork (db : Db) (orderId : OrderId) :
    4 * (db.undispatched orderId + 1) + 8 ≤ db.searchWork := by
  have hle : db.undispatched orderId ≤ db.masterIds.length := List.countP_le_length
  rw [Db.searchWork]
  omega

/-- Past the first read of a search, the work is what is left of it. -/
theorem work_of_inCascade {orderId : OrderId} (hk : k.InCascade orderId) :
    k.work db = k.statementsLeft db := by
  obtain ⟨op, pc⟩ := k
  cases pc with
  | start => cases op <;> first | rfl | exact hk.elim
  | after todo next =>
      cases next with
      | none => rfl
      | some id => exact hk.elim
  | guarded | diagnosing | quoted | ownOffer | locked | lockedOrder | accepting | claimed =>
      exact hk.elim
  | _ => rfl

/-- No statement makes work for another call. -/
theorem Stmt.work_other (h : Stmt env me x db k o) (k' : Call) :
    k'.work o.store ≤ k'.work db := by
  have hsearch : o.store.searchWork = db.searchWork := by
    rw [Db.searchWork, h.masterIds, Db.searchWork]
  have hleft : k'.statementsLeft o.store ≤ k'.statementsLeft db := by
    have := h.recursionsLeft_other k'
    rw [Call.statementsLeft, Call.statementsLeft]
    omega
  unfold Call.work
  rw [hsearch]
  split <;> first | exact le_rfl | exact hleft

/-- A call that has not finished has work left. -/
theorem work_pos (db : Db) (hfit : k.Fits) (hfin : ¬ k.Finished) : 0 < k.work db := by
  obtain ⟨op, pc⟩ := k
  cases pc with
  | returned | threw => exact absurd trivial hfin
  | start => cases op <;> simp [Call.work, Call.statementsLeft, Pc.depth]
  | guarded => cases op <;> first | exact hfit.elim | (simp only [Call.work]; omega)
  | ownOffer => cases op <;> first | exact hfit.elim | (simp only [Call.work]; omega)
  | after todo next => cases next <;> simp [Call.work, Call.statementsLeft, Pc.depth]
  | _ => simp [Call.work, Call.statementsLeft, Pc.depth]

/-- A statement of a search pays from what is left of it. -/
theorem Stmt.pays_inCascade (h : Stmt env me x db k o) (hfin : ¬ k.Finished) {orderId : OrderId}
    (hk : k.InCascade orderId) (hspawned : o.spawned = []) :
    1 + o.call.work o.store + (o.spawned.map fun k' => k'.work o.store).sum ≤ k.work db := by
  rw [hspawned, work_of_inCascade hk, work_of_inCascade (h.inCascade hk)]
  simpa using (h.left hk hfin).2

/-- The followups of a guarded transition are at most four. -/
theorem Lifecycle.followups_length (l : Lifecycle) (order : Order) :
    (l.spec.followups order).length ≤ 4 := by
  cases l with
  | confirmCompletion =>
      simp only [Lifecycle.spec]
      split <;> simp
  | _ => simp [Lifecycle.spec, recordEvent]

/-- A statement that only reads pays for itself. -/
theorem Reads.pays {op : Op} {pc pc' : Pc} (h : Reads env x db op pc pc')
    (hfin : ¬ Call.Finished ⟨op, pc⟩) (hfit : Call.Fits ⟨op, pc⟩) :
    1 + Call.work ⟨op, pc'⟩ db ≤ Call.work ⟨op, pc⟩ db := by
  have hcascade : ∀ {orderId}, Call.InCascade orderId ⟨op, pc⟩ →
      1 + Call.work ⟨op, pc'⟩ db ≤ Call.work ⟨op, pc⟩ db := by
    intro orderId hk
    have hstmt : Stmt env 0 x db ⟨op, pc⟩ ⟨db, ⟨op, pc'⟩, []⟩ := .reads h
    have hpays := hstmt.pays_inCascade hfin hk rfl
    simpa using hpays
  cases h with
  | refused | updateDraftMissing | submitMissing | unquoted | diagnoseMissing | lifecycleLost
  | acceptNotOwn | declineNotOwn | createDraftRefused | followupThrows | declineNoop | expiryNoop
  | expiryMissing => exact work_pos db hfit hfin
  | @guarded op order hguard =>
      cases op with
      | updateDraft | diagnose | submit => simp only [Call.work]; omega
      | lifecycle l =>
          have hlen := l.followups_length order
          simp only [Call.work]
          omega
      | _ => simp [Op.guard] at hguard
  | categories | quoted | acceptOwn | acceptOrder | acceptFresh | declineOwn =>
      simp only [Call.work]
      omega
  | expiryFull =>
      simp only [Call.work, expiryFollowups, recordEvent, List.length_cons, List.length_nil]
      omega
  | done =>
      simp [Call.work, Call.statementsLeft, Call.recursionsLeft, Pc.depth]
  | @cascades op orderId =>
      have hle := search_le_searchWork db orderId
      simp only [Call.work, Call.statementsLeft, Call.recursionsLeft, Pc.depth,
        Attempt.escalations, List.length_nil]
      omega
  | cascadeStops henter | cascadeMissing henter | cascadeReads henter =>
      exact hcascade (henter.left db).2.2
  | failSearchStops henter | failSearchReads henter =>
      cases henter with
      | cascade => exact hcascade rfl
      | direct => simp [Call.work, Call.statementsLeft, Call.recursionsLeft, Pc.depth]
  | cascadeCounts | cascadePicks | cascadeExpands | cascadeExhausted | cascadeRetries
  | failSearchLost => exact hcascade rfl

/-- **A statement pays for itself**, and for the search that it starts. -/
theorem Stmt.pays (h : Stmt env me x db k o) (hfin : ¬ k.Finished) (hfit : k.Fits) :
    1 + o.call.work o.store + (o.spawned.map fun k' => k'.work o.store).sum ≤ k.work db := by
  have hsearch : o.store.searchWork = db.searchWork := by
    rw [Db.searchWork, h.masterIds, Db.searchWork]
  have hsearches : ∀ orderId, 4 * (o.store.undispatched orderId + 1) + 8 ≤ db.searchWork :=
    fun orderId => hsearch ▸ search_le_searchWork o.store orderId
  have hcascade := fun orderId => @Stmt.pays_inCascade env me x k db o h hfin orderId
  cases h with
  | reads hr => simpa using hr.pays hfin hfit
  | fails | createDraft | updateDraft | diagnose | acceptRollback | accept =>
      exact work_pos db hfit hfin
  | @submit customerId orderId =>
      have hle := hsearches orderId
      dsimp only at hle
      simp only [Call.work, Call.statementsLeft, Call.recursionsLeft, Pc.depth, List.map_cons,
        List.map_nil, List.sum_cons, List.sum_nil]
      omega
  | lifecycle =>
      simp only [Call.work, Call.statementsLeft, Call.recursionsLeft, Pc.depth, List.map_nil,
        List.sum_nil]
      omega
  | acceptLock =>
      simp only [Call.work, List.map_nil, List.sum_nil]
      omega
  | @decline dispatchId masterId dispatch =>
      have hle := hsearches dispatch.orderId
      dsimp only at hle
      simp only [Call.work, Call.statementsLeft, Call.recursionsLeft, Pc.depth,
        Attempt.escalations, List.map_nil, List.sum_nil]
      omega
  | expiry =>
      simp only [Call.work, hsearch, List.map_nil, List.sum_nil]
      omega
  | @followup op f todo next db' hf =>
      cases next with
      | none => exact hcascade 0 trivial rfl
      | some id =>
          simp only [Call.work, hsearch, List.length_cons, List.map_nil, List.sum_nil]
          omega
  | cascadeInsert | cascadeEnqueue | failSearchUpdate | failSearchRecord =>
      exact hcascade _ rfl rfl

/-! ### Points and locks -/

theorem Reads.fits {op : Op} {pc pc' : Pc} (h : Reads env x db op pc pc') :
    Call.Fits ⟨op, pc'⟩ := by
  cases h with
  | @guarded op order hguard =>
      cases op with
      | updateDraft | diagnose | submit | lifecycle => trivial
      | _ => simp [Op.guard] at hguard
  | _ => trivial

theorem Stmt.fits (h : Stmt env me x db k o) :
    o.call.Fits ∧ ∀ k' ∈ o.spawned, k'.Fits := by
  cases h with
  | reads hr => exact ⟨hr.fits, by simp⟩
  | submit => exact ⟨trivial, by simp [Call.Fits]⟩
  | _ => exact ⟨trivial, by simp⟩

/-- A read leaves the transaction where it is. -/
theorem Reads.holding {op : Op} {pc pc' : Pc} (h : Reads env x db op pc pc')
    (hpc : Call.Holding ⟨op, pc⟩) : Call.Holding ⟨op, pc'⟩ := by
  cases h with
  | acceptOrder | acceptFresh => trivial
  | cascadeStops henter | cascadeMissing henter | cascadeReads henter =>
      cases henter <;> exact hpc.elim
  | failSearchStops henter | failSearchReads henter => cases henter <;> exact hpc.elim
  | _ => exact hpc.elim

/-- What is locked after a statement was locked by another call before, or is locked by a call
inside its transaction. -/
theorem Stmt.lock_step (h : Stmt env me x db k o) {orderId : OrderId} {j : ℕ}
    (hself : ∀ orderId, db.orderLock orderId = some me → k.Holding)
    (hlock : o.store.orderLock orderId = some j) :
    HeldAfter db.orderLock me o.call.Holding orderId j := by
  cases h with
  | fails | acceptRollback | accept => exact heldAfter_released hlock
  | acceptLock => exact heldAfter_taken hself id trivial hlock
  | reads hr => exact heldAfter_inside hself hr.holding hlock
  | followup hf =>
      rw [(Followup.run_frame hf).2.2.2.2] at hlock
      exact heldAfter_kept hself id hlock
  | updateDraft | lifecycle => exact heldAfter_kept hself id (by simpa using hlock)
  | createDraft | diagnose | submit | decline | expiry | cascadeInsert | cascadeEnqueue
  | failSearchUpdate | failSearchRecord => exact heldAfter_kept hself id hlock

/-- The transaction of `acceptOffer` waits for nothing once it has its lock. -/
theorem step_of_holding (env : Env) (me : ℕ) (x : Input) (db : Db) (hk : k.Holding) :
    (step env me x k db).isSome := by
  obtain ⟨op, pc⟩ := k
  have hfin : ¬ Call.Finished ⟨op, pc⟩ := by
    cases pc <;> first | exact hk.elim | exact id
  rw [step, if_neg hfin]
  split
  · rfl
  · cases pc with
    | locked dispatch =>
        cases op with
        | acceptOffer dispatchId masterId =>
            simp only [proceed]
            split <;> rfl
        | _ => exact hk.elim
    | lockedOrder dispatch order =>
        cases op with
        | acceptOffer dispatchId masterId =>
            simp only [proceed]
            split
            · rfl
            · split <;> rfl
        | _ => exact hk.elim
    | accepting dispatch order => cases op <;> first | exact hk.elim | rfl
    | _ => exact hk.elim

theorem updateById_eq_none {orderId : OrderId} {write : Outcome Db Call}
    (h : updateById k db orderId write = none) : (db.orderLock orderId).isSome = true := by
  unfold updateById at h
  split at h
  · simp at h
  · split at h
    · assumption
    · simp at h

theorem updateIfStatus_eq_none {orderId : OrderId} {status : OrderStatus}
    {lost won : Outcome Db Call} (h : updateIfStatus db orderId status lost won = none) :
    (db.orderLock orderId).isSome = true := by
  unfold updateIfStatus at h
  split at h
  · split at h
    · assumption
    · simp at h
  · simp at h

/-- Only locked order rows are waited for. -/
theorem waits_for_lock (hfit : k.Fits) (hfin : ¬ k.Finished) (hnone : step env me x k db = none) :
    ∃ orderId, (db.orderLock orderId).isSome = true := by
  obtain ⟨op, pc⟩ := k
  have hholding : ¬ Call.Holding ⟨op, pc⟩ := by
    intro hk
    have hsome := step_of_holding env me x db hk
    simp [hnone] at hsome
  by_cases hk : ∃ orderId, Call.InCascade orderId ⟨op, pc⟩
  · obtain ⟨orderId, hk⟩ := hk
    exact ⟨orderId, proceeds_of_inCascade hk hfin hnone⟩
  · have hfail : x.fail = false := by
      cases hf : x.fail with
      | false => rfl
      | true => simp [step, hfin, hf] at hnone
    simp only [step, hfin, hfail, Bool.false_eq_true, if_false] at hnone
    cases pc with
    | guarded order =>
        cases op with
        | updateDraft | submit => exact ⟨_, updateById_eq_none hnone⟩
        | lifecycle => exact ⟨_, updateIfStatus_eq_none hnone⟩
        | diagnose => simp [proceed, afterGuard] at hnone
        | _ => exact hfit.elim
    | quoted =>
        cases op with
        | diagnose => exact ⟨_, updateById_eq_none hnone⟩
        | _ => exact hfit.elim
    | ownOffer dispatch =>
        cases op with
        | acceptOffer =>
            simp only [proceed] at hnone
            split at hnone
            · exact ⟨_, ‹_›⟩
            · simp at hnone
        | declineOffer =>
            simp only [proceed] at hnone
            split at hnone <;> simp at hnone
        | _ => exact hfit.elim
    | start =>
        cases op with
        | startDispatch orderId | cascadeNext orderId => exact absurd ⟨orderId, rfl⟩ hk
        | createDraft =>
            simp only [proceed, begin] at hnone
            split at hnone <;> simp at hnone
        | handleOfferExpiry =>
            simp only [proceed, begin] at hnone
            split at hnone <;> simp at hnone
        | _ => simp [proceed, begin, Op.guard] at hnone
    | diagnosing => cases op <;> first | exact hfit.elim | simp [proceed] at hnone
    | claimed =>
        cases op with
        | handleOfferExpiry =>
            simp only [proceed] at hnone
            split at hnone <;> simp at hnone
        | _ => exact hfit.elim
    | after todo next =>
        cases todo with
        | nil => cases next <;> simp [proceed] at hnone
        | cons f todo =>
            simp only [proceed] at hnone
            split at hnone <;> simp at hnone
    | locked | lockedOrder | accepting =>
        cases op <;> first | exact hfit.elim | exact absurd trivial hholding
    | returned | threw => exact absurd trivial hfin
    | cascade orderId | cascadeCount orderId | cascadeQuery orderId | cascadeCreate orderId
    | cascadeEnqueue orderId | failSearch orderId | failSearchWrite orderId
    | failSearchHistory orderId => exact absurd ⟨orderId, rfl⟩ hk

end Statements

/-- The locks of the order rows, and what the calls have left to do. -/
def orderLocks (env : Env) : LockDiscipline (orders env) OrderId where
  Finished := Call.Finished
  lock := Db.orderLock
  Holding := Call.Holding
  Fits := Call.Fits
  fits_start k hk := by
    obtain ⟨op, pc⟩ := k
    cases pc with
    | start => trivial
    | _ => simp [orders, Call.isStart] at hk
  fits_step _ _ _ _ _ _ hstep := (step_cases hstep).2.1.fits
  lock_step _ _ _ _ _ _ _ hstep hself hlock := (step_cases hstep).2.1.lock_step hself hlock
  holding_runs i x _ s hk := step_of_holding env i x s hk
  waits _ _ _ _ hfit hfin hnone := waits_for_lock hfit hfin hnone
  work := Call.work
  pays _ _ _ _ _ hfit hstep :=
    (step_cases hstep).2.1.pays (step_cases hstep).1 hfit
  others _ _ _ _ _ k' hstep := (step_cases hstep).2.1.work_other k'

/-- **The order service comes to rest.** Whatever calls have come in and however far they have
run, once no more are started they run a bounded number of statements, in every order; as long as
one is unfinished some call can go on, even if the world answers badly; and all can finish. -/
theorem orders_drain {env : Env} {db : Db} (hfree : ∀ orderId, db.orderLock orderId = none)
    {c : Config Db Call} {ts : List (Transition Db Call Input)}
    (hrun : (orders env).Run ⟨db, []⟩ ts c) :
    Drains (orders env) Call.Finished (c.calls.map fun k => k.work c.store).sum c :=
  (orderLocks env).drains hfree hrun

/-- Two searches for one order are under way. -/
def searchingTwice : List (Event Call Input) :=
  [.start ⟨.startDispatch 0, .start⟩, .start ⟨.cascadeNext 0 .one, .start⟩] ++
    cascadeTwice.take 5

theorem orders_drain_searchingTwice :
    Drains (orders .flat) Call.Finished
      (((orders .flat).after ⟨searchingForTwo, []⟩ searchingTwice).calls.map fun k =>
        k.work ((orders .flat).after ⟨searchingForTwo, []⟩ searchingTwice).store).sum
      ((orders .flat).after ⟨searchingForTwo, []⟩ searchingTwice) :=
  orders_drain (fun _ => rfl)
    ((orders .flat).run_trace ⟨searchingForTwo, []⟩ searchingTwice)

end Handly
