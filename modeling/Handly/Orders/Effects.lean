import Handly.Lib.Table
import Handly.Orders.Statements

/-!
# The effect of a statement on orders and dispatches

Most invariants only see the `Job` part of an order: its status, its master and
its final amount. `Stmt.jobs` says what a statement does to it, and in particular
which writes of `Order.status` exist (`Call.Writes`) and whether they are
conditioned on the status that the call read (`JobWrite.whereStatus`).
`Stmt.offers` says the same about the dispatch table.
-/

namespace Handly

open Interleaving

/-! ### Jobs -/

/-- The part of an order that the lifecycle is about. -/
structure Job where
  status : OrderStatus
  masterId : Option UserId
  finalAmount : Option ℤ
  deriving DecidableEq

def Order.job (o : Order) : Job := ⟨o.status, o.masterId, o.finalAmount⟩

/-- The job of a new draft. -/
def Job.draft : Job := ⟨.draft, none, none⟩

namespace Db

/-- The jobs of all orders. -/
def jobs (db : Db) : List Job := db.orders.map Order.job

theorem jobs_getElem? {db : Db} {id : OrderId} : db.jobs[id]? = db.orders[id]?.map Order.job := by
  simp [jobs]

theorem jobs_of_order {db : Db} {id : OrderId} {row : Order} (h : db.orders[id]? = some row) :
    db.jobs[id]? = some row.job := by
  simp [jobs, h]

theorem statusOf_eq_jobs (db : Db) (id : OrderId) :
    db.statusOf id = db.jobs[id]?.map Job.status := by
  rw [jobs_getElem?, Option.map_map]
  rfl

end Db

/-! ### Offers -/

/-- The part of a dispatch that never changes. -/
structure Offer where
  orderId : OrderId
  masterId : UserId
  rankInCascade : ℕ
  deriving DecidableEq

def OrderDispatch.offer (d : OrderDispatch) : Offer := ⟨d.orderId, d.masterId, d.rankInCascade⟩

/-- The offers of all dispatches. -/
def Db.offers (db : Db) : List Offer := db.dispatches.map OrderDispatch.offer

/-! ### Writes of `Order.status` -/

/-- A write of `Order.status`, as a call issues it. -/
structure JobWrite where
  orderId : OrderId
  status : OrderStatus
  /-- The status in the `where` of an `updateMany`. `none` stands for an
  `order.update` conditioned on the id alone. -/
  whereStatus : Option OrderStatus
  /-- A master or a final amount written with the status. -/
  masterId : Option UserId := none
  finalAmount : Option ℤ := none

/-- The job after the write. -/
def JobWrite.apply (w : JobWrite) (job : Job) : Job :=
  ⟨w.status, w.masterId <|> job.masterId, w.finalAmount <|> job.finalAmount⟩

/-- The amount that a lifecycle call writes. -/
def Lifecycle.finalAmount : Lifecycle → Option ℤ
  | .completeService _ _ finalAmount => some finalAmount
  | _ => none

/-- The next statement of the call is this write of `Order.status`, unless its
`where` matches no row. -/
inductive Call.Writes : Call → JobWrite → Prop
  | updateDraft {customerId orderId dto order} : invalidatesQuote order dto = true →
      Writes ⟨.updateDraft customerId orderId dto, .guarded order⟩
        ⟨orderId, .draft, none, none, none⟩
  | diagnose {customerId orderId order diagnosis categoryId quote} :
      Writes ⟨.diagnose customerId orderId, .quoted order diagnosis categoryId quote⟩
        ⟨orderId, .priced, none, none, none⟩
  | submit {customerId orderId order} :
      Writes ⟨.submit customerId orderId, .guarded order⟩ ⟨orderId, .searching, none, none, none⟩
  | lifecycle {l order} :
      Writes ⟨.lifecycle l, .guarded order⟩
        ⟨l.spec.orderId, l.spec.target, some order.status, none, l.finalAmount⟩
  | accept {dispatchId masterId dispatch order} :
      Writes ⟨.acceptOffer dispatchId masterId, .accepting dispatch order⟩
        ⟨dispatch.orderId, .assigned, none, some masterId, none⟩
  | failSearch {op orderId reason order} :
      Writes ⟨op, .failSearchWrite orderId reason order⟩
        ⟨orderId, .expired, some order.status, none, none⟩

/-- The log entry of a committed write. -/
def JobWrite.entry (w : JobWrite) (author : ℕ) (job : Job) : StatusWrite :=
  ⟨author, w.orderId, job.status, w.status, (w.apply job).masterId⟩

/-- What one statement can do to the jobs. -/
inductive JobEffect (me : ℕ) (db : Db) (k : Call) (db' : Db) : Prop
  | kept (jobs : db'.jobs = db.jobs) (log : db'.statusWrites = db.statusWrites)
  | created (op : ∃ customerId dto, k.op = .createDraft customerId dto)
      (jobs : db'.jobs = db.jobs ++ [Job.draft]) (log : db'.statusWrites = db.statusWrites)
  /-- The call's write of `Order.status` has matched the row. -/
  | wrote (w : JobWrite) (job : Job) (write : k.Writes w)
      (found : db.jobs[w.orderId]? = some job)
      (matched : ∀ s ∈ w.whereStatus, job.status = s)
      (jobs : db'.jobs = db.jobs.set w.orderId (w.apply job))
      (log : db'.statusWrites = db.statusWrites ++ [w.entry me job])

section Effects

variable {env : Env} {me : ℕ} {x : Input} {k : Call} {db : Db} {o : Outcome Db Call}

/-- The effect of a write of `Order.status` that finds its row. -/
theorem JobEffect.of_setStatus {w : JobWrite} {row : Order} {f : Order → Order} {db' : Db}
    (hwrite : k.Writes w) (hrow : db.orders[w.orderId]? = some row)
    (hmatched : ∀ s ∈ w.whereStatus, row.status = s)
    (hf : { (f row).job with status := w.status } = w.apply row.job)
    (horders : db'.orders = (db.setStatus me w.orderId w.status f).orders)
    (hlog : db'.statusWrites = (db.setStatus me w.orderId w.status f).statusWrites) :
    JobEffect me db k db' := by
  refine .wrote w row.job hwrite (Db.jobs_of_order hrow) hmatched ?_ ?_
  · rw [Db.jobs, horders, Db.setStatus_orders, Table.map_modify hrow, ← hf]
    rfl
  · rw [hlog, Db.setStatus_statusWrites, hrow, JobWrite.entry, ← hf]
    rfl

/-- The columns that a guarded transition writes with the status. -/
theorem Lifecycle.job_data (l : Lifecycle) (now : Time) (row : Order) :
    (l.spec.data now row).job = ⟨row.status, row.masterId, l.finalAmount <|> row.finalAmount⟩ := by
  cases l <;> rfl

/-- Crediting a master changes no other table. -/
theorem GuardedTransition.credit_frame (g : GuardedTransition) (order : Order) (db : Db) :
    (g.credit order db).orders = db.orders ∧ (g.credit order db).dispatches = db.dispatches ∧
      (g.credit order db).history = db.history ∧
      (g.credit order db).statusWrites = db.statusWrites ∧
      (g.credit order db).orderLock = db.orderLock := by
  unfold GuardedTransition.credit
  cases g.credits order <;> exact ⟨rfl, rfl, rfl, rfl, rfl⟩

/-- **What a statement does to the jobs.** -/
theorem Stmt.jobs (h : Stmt env me x db k o) : JobEffect me db k o.store := by
  cases h with
  | createDraft =>
      refine .created ⟨_, _, rfl⟩ ?_ rfl
      simp [Db.jobs, createDraftWrite, draftOf, Order.job, Job.draft]
  | @updateDraft customerId orderId dto order row hrow hlock =>
      cases hinv : invalidatesQuote order dto with
      | false =>
          refine .kept ?_ ?_
          · simp only [Db.jobs, updateDraftWrite, hinv, Bool.false_eq_true, if_false,
              Db.updateOrder_orders]
            exact Table.map_modify_eq (by intro row; rfl) _ _
          · simp [updateDraftWrite, hinv]
      | true =>
          refine .of_setStatus
            (f := fun row => { dto.apply row with priceMin := none, priceMax := none })
            (.updateDraft hinv) hrow (by simp) rfl ?_ ?_
          · simp [updateDraftWrite, hinv]
          · simp [updateDraftWrite, hinv]
  | diagnose hrow hlock => exact .of_setStatus .diagnose hrow (by simp) rfl rfl rfl
  | submit hrow hlock => exact .of_setStatus .submit hrow (by simp) rfl rfl rfl
  | @lifecycle l order row hrow hst hlock =>
      obtain ⟨ho, -, -, hlog, -⟩ := GuardedTransition.credit_frame l.spec order
        ((db.setStatus me l.spec.orderId l.spec.target (l.spec.data x.now)).createHistory
          { orderId := l.spec.orderId, fromStatus := some order.status, toStatus := l.spec.target,
            actorId := some l.spec.actorId, note := l.spec.note, createdAt := x.now })
      refine .of_setStatus (f := l.spec.data x.now) .lifecycle hrow (by simpa using hst) ?_ ho hlog
      rw [l.job_data]
      rfl
  | @accept dispatchId masterId dispatch order =>
      cases hrow : db.orders[dispatch.orderId]? with
      | none =>
          refine .kept ?_ ?_
          · have hlen : db.orders.length ≤ dispatch.orderId := by simpa using hrow
            simp [Db.jobs, acceptWrite, List.modify_eq_self hlen]
          · simp [acceptWrite, hrow]
      | some row =>
          exact .of_setStatus (f := fun row => { row with masterId := some masterId }) .accept hrow
            (by simp) rfl rfl rfl
  | followup hf =>
      obtain ⟨ho, -, -, hlog, -⟩ := Followup.run_frame hf
      exact .kept (by simp [Db.jobs, ho]) hlog
  | @failSearchUpdate op orderId reason order row hrow hst hlock =>
      refine .of_setStatus .failSearch hrow ?_ rfl rfl rfl
      simpa using hst
  | fails | reads | acceptLock | acceptRollback | decline | expiry | cascadeInsert
  | cascadeEnqueue | failSearchRecord => exact .kept rfl rfl

/-- The log only grows, and by writes of the call that ran. -/
theorem JobEffect.log {db' : Db} (h : JobEffect me db k db') :
    ∃ new, db'.statusWrites = db.statusWrites ++ new ∧ ∀ w ∈ new, w.author = me := by
  cases h with
  | kept _ log | created _ _ log => exact ⟨[], by simp [log], by simp⟩
  | wrote w job _ _ _ _ log => exact ⟨[w.entry me job], log, by simp [JobWrite.entry]⟩

/-- An entry of the log is an old one, or the call's write. -/
theorem JobEffect.mem_log {db' : Db} (h : JobEffect me db k db') {e : StatusWrite}
    (he : e ∈ db'.statusWrites) :
    e ∈ db.statusWrites ∨ ∃ w job, k.Writes w ∧ e = w.entry me job := by
  cases h with
  | kept _ log | created _ _ log => exact Or.inl (log ▸ he)
  | wrote w job write _ _ _ log =>
      rw [log] at he
      rcases List.mem_append.mp he with hold | hnew
      · exact Or.inl hold
      · exact Or.inr ⟨w, job, write, List.mem_singleton.mp hnew⟩

/-- The jobs after the commit of an `acceptOffer`. -/
theorem acceptWrite_jobs {now : Time} {dispatchId : DispatchId} {masterId : UserId}
    {dispatch : OrderDispatch} {order row : Order}
    (hrow : db.orders[dispatch.orderId]? = some row) :
    (acceptWrite db me now dispatchId masterId dispatch order).jobs =
      db.jobs.set dispatch.orderId ⟨.assigned, some masterId, row.finalAmount⟩ :=
  Table.map_modify hrow

/-- The jobs after a submit. -/
theorem submitWrite_jobs {now : Time} {customerId : UserId} {orderId : OrderId}
    {order row : Order} (hrow : db.orders[orderId]? = some row) :
    (submitWrite db me now customerId orderId order).jobs =
      db.jobs.set orderId ⟨.searching, row.masterId, row.finalAmount⟩ :=
  Table.map_modify hrow

/-- The jobs after a statement: one is as before, or a new draft, or written by the
call. -/
theorem JobEffect.job_after {db' : Db} (h : JobEffect me db k db') {id : OrderId} {job' : Job}
    (hjob : db'.jobs[id]? = some job') :
    db.jobs[id]? = some job' ∨
      ((∃ customerId dto, k.op = .createDraft customerId dto) ∧ job' = Job.draft) ∨
      ∃ w job, k.Writes w ∧ w.orderId = id ∧ db.jobs[id]? = some job ∧
        (∀ s ∈ w.whereStatus, job.status = s) ∧ job' = w.apply job := by
  cases h with
  | kept jobs _ => exact Or.inl (jobs ▸ hjob)
  | created op jobs _ =>
      rw [jobs] at hjob
      by_cases hid : id < db.jobs.length
      · exact Or.inl (by rwa [List.getElem?_append_left hid] at hjob)
      · rw [List.getElem?_append_right (Nat.not_lt.mp hid)] at hjob
        have hmem := List.mem_of_getElem? hjob
        exact Or.inr (Or.inl ⟨op, by simpa using hmem⟩)
  | wrote w job write found matched jobs _ =>
      rw [jobs, List.getElem?_set] at hjob
      split at hjob
      · rename_i hid
        subst hid
        have hlt := (List.getElem?_eq_some_iff.mp found).1
        rw [if_pos hlt] at hjob
        exact Or.inr (Or.inr ⟨w, job, write, rfl, found, matched, (Option.some.inj hjob).symm⟩)
      · exact Or.inl hjob

/-- A job after a statement: as before, or written by the call. -/
theorem JobEffect.job_before {db' : Db} (h : JobEffect me db k db') {id : OrderId} {job : Job}
    (hjob : db.jobs[id]? = some job) :
    db'.jobs[id]? = some job ∨
      ∃ w, k.Writes w ∧ w.orderId = id ∧ (∀ s ∈ w.whereStatus, job.status = s) ∧
        db'.jobs[id]? = some (w.apply job) ∧
        db'.statusWrites = db.statusWrites ++ [w.entry me job] := by
  have hlt := (List.getElem?_eq_some_iff.mp hjob).1
  cases h with
  | kept jobs _ => exact Or.inl (jobs ▸ hjob)
  | created _ jobs _ =>
      rw [jobs, List.getElem?_append_left hlt]
      exact Or.inl hjob
  | wrote w job' write found matched jobs log =>
      rw [jobs, List.getElem?_set]
      split
      · rename_i hid
        subst hid
        obtain rfl : job' = job := Option.some.inj (found.symm.trans hjob)
        rw [if_pos hlt]
        exact Or.inr ⟨w, write, rfl, matched, rfl, log⟩
      · exact Or.inl hjob

theorem JobEffect.statusOf_before {db' : Db} (h : JobEffect me db k db') {id : OrderId}
    {s : OrderStatus} (hs : db.statusOf id = some s) :
    db'.statusOf id = some s ∨
      ∃ w job, k.Writes w ∧ w.orderId = id ∧ db.jobs[id]? = some job ∧ job.status = s ∧
        (∀ r ∈ w.whereStatus, job.status = r) ∧ db'.statusOf id = some w.status := by
  rw [db.statusOf_eq_jobs, Option.map_eq_some_iff] at hs
  obtain ⟨job, hjob, rfl⟩ := hs
  simp only [Db.statusOf_eq_jobs]
  rcases h.job_before hjob with h | ⟨w, hw, hid, hmatched, h, -⟩
  · exact Or.inl (by rw [h]; rfl)
  · exact Or.inr ⟨w, job, hw, hid, hjob, rfl, hmatched, by rw [h]; rfl⟩

/-! ### Offers -/

@[simp]
theorem updateDraftWrite_dispatches {now : Time} {customerId : UserId} {orderId : OrderId}
    {dto : OrderUpdateInput} {order : Order} :
    (updateDraftWrite db me now customerId orderId dto order).dispatches = db.dispatches := by
  unfold updateDraftWrite
  split <;> rfl

@[simp]
theorem GuardedTransition.write_dispatches {g : GuardedTransition} {now : Time} {order : Order} :
    (g.write db me now order).dispatches = db.dispatches :=
  (g.credit_frame order _).2.1

theorem updateDispatch_offers {id : DispatchId} {f : OrderDispatch → OrderDispatch}
    (hf : ∀ d, (f d).offer = d.offer) : (db.updateDispatch id f).offers = db.offers :=
  Table.map_modify_eq hf _ _

theorem withdrawOthers_offers {orderId : OrderId} {except : DispatchId} {now : Time} :
    (db.withdrawOthers orderId except now).offers = db.offers :=
  Table.map_mapIdx_eq (fun _ row => by split <;> rfl) _

theorem acceptWrite_offers {now : Time} {dispatchId : DispatchId} {masterId : UserId}
    {dispatch : OrderDispatch} {order : Order} :
    (acceptWrite db me now dispatchId masterId dispatch order).offers = db.offers :=
  withdrawOthers_offers.trans (updateDispatch_offers (by intro d; rfl))

/-- **What a statement does to the offers**: it leaves them, or it is the insert of
`cascadeNext`. -/
theorem Stmt.offers (h : Stmt env me x db k o) :
    o.store.offers = db.offers ∨
      ∃ orderId attempt order rankSoFar picked,
        k.pc = .cascadeCreate orderId attempt order rankSoFar picked ∧
        o.store.offers = db.offers ++ [⟨orderId, picked.masterId, rankSoFar + 1⟩] := by
  cases h with
  | accept => exact Or.inl acceptWrite_offers
  | decline | expiry => exact Or.inl (updateDispatch_offers (by intro d; rfl))
  | followup hf =>
      obtain ⟨-, hd, -, -, -⟩ := Followup.run_frame hf
      exact Or.inl (by simp [Db.offers, hd])
  | updateDraft | lifecycle => exact Or.inl (by simp [Db.offers])
  | cascadeInsert =>
      exact Or.inr ⟨_, _, _, _, _, rfl, by simp [Db.offers, offerOf, OrderDispatch.offer]⟩
  | fails | reads | createDraft | diagnose | submit | acceptLock | acceptRollback
  | cascadeEnqueue | failSearchUpdate | failSearchRecord => exact Or.inl rfl

/-- An offer stays as it is. -/
theorem Stmt.offers_getElem? (h : Stmt env me x db k o) {id : DispatchId} {f : Offer}
    (hf : db.offers[id]? = some f) : o.store.offers[id]? = some f := by
  rcases h.offers with he | ⟨_, _, _, _, _, -, he⟩
  · rw [he]
    exact hf
  · rw [he, List.getElem?_append_left (List.getElem?_eq_some_iff.mp hf).1]
    exact hf

/-! ### Locks -/

@[simp]
theorem updateDraftWrite_orderLock {now : Time} {customerId : UserId} {orderId : OrderId}
    {dto : OrderUpdateInput} {order : Order} :
    (updateDraftWrite db me now customerId orderId dto order).orderLock = db.orderLock := by
  unfold updateDraftWrite
  split <;> rfl

@[simp]
theorem GuardedTransition.write_orderLock {g : GuardedTransition} {now : Time} {order : Order} :
    (g.write db me now order).orderLock = db.orderLock :=
  (g.credit_frame order _).2.2.2.2

theorem unlock_orderLock_eq_some {id : OrderId} {other : ℕ} :
    (db.unlock me).orderLock id = some other ↔ db.orderLock id = some other ∧ other ≠ me := by
  simp only [Db.unlock_orderLock]
  split
  · rename_i h
    simp [h, eq_comm]
  · rename_i h
    exact ⟨fun h' => ⟨h', fun he => h (he ▸ h')⟩, And.left⟩

/-- The statements of a call leave the locks of other calls alone. -/
theorem Stmt.orderLock (h : Stmt env me x db k o) {id : OrderId} {other : ℕ} (hne : other ≠ me)
    (hlock : db.orderLock id = some other) : o.store.orderLock id = some other := by
  cases h with
  | fails | acceptRollback => exact unlock_orderLock_eq_some.mpr ⟨hlock, hne⟩
  | accept => exact unlock_orderLock_eq_some.mpr ⟨hlock, hne⟩
  | acceptLock hfree =>
      rw [Db.lockOrder_orderLock, Function.update_of_ne]
      · exact hlock
      · intro heq
        obtain rfl := heq
        rw [hfree] at hlock
        simp at hlock
  | followup hf =>
      rw [(Followup.run_frame hf).2.2.2.2]
      exact hlock
  | updateDraft | lifecycle => simpa using hlock
  | reads | createDraft | diagnose | submit | decline | expiry | cascadeInsert | cascadeEnqueue
  | failSearchUpdate | failSearchRecord => exact hlock

end Effects

end Handly
