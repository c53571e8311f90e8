import Handly.Orders.Ledger

/-!
# What goes with a write of the status

A guarded transition writes the status, the history row and the master's counter in one
transaction. `Stmt.records` and `Stmt.credits` say that history and counters never get
out of step with the statuses, but for the history row that `failSearch` writes in a
second statement and owes until then.
-/

namespace Handly

open Interleaving

/-- A change of status: from where, and to where. -/
abbrev Change := Option OrderStatus × OrderStatus

/-- The changes that the history of an order records. -/
def Db.recorded (db : Db) (orderId : OrderId) : List Change :=
  (db.history.filter fun r => r.orderId = orderId).map fun r => (r.fromStatus, r.toStatus)

/-- The changes that were really made to the status of an order. -/
def Db.changes (db : Db) (orderId : OrderId) : List Change :=
  (db.writesOf orderId).map fun e => (some e.replaced, e.written)

/-- The change that a call has made and has yet to record. -/
def Call.owes (orderId : OrderId) (k : Call) : List Change :=
  match k.pc with
  | .failSearchHistory id _ order => if id = orderId then [(some order.status, .expired)] else []
  | _ => []

section History

variable {env : Env} {me : ℕ} {x : Input} {k : Call} {db : Db} {o : Outcome Db Call}
  {orderId : OrderId}

/-! ### History -/

theorem recorded_congr {db' : Db} (h : db'.history = db.history) :
    db'.recorded orderId = db.recorded orderId := by
  rw [Db.recorded, Db.recorded, h]

theorem changes_congr {db' : Db} (h : db'.statusWrites = db.statusWrites) :
    db'.changes orderId = db.changes orderId := by
  rw [Db.changes, Db.changes, Db.writesOf, Db.writesOf, h]

variable (db) in
theorem recorded_createHistory {r : OrderStatusHistory} :
    (db.createHistory r).recorded orderId =
      db.recorded orderId ++ if r.orderId = orderId then [(r.fromStatus, r.toStatus)] else [] := by
  by_cases hid : r.orderId = orderId <;> simp [Db.recorded, hid]

variable (db) in
theorem changes_setStatus {id : OrderId} {s : OrderStatus} {f : Order → Order} {row : Order}
    (hrow : db.orders[id]? = some row) :
    (db.setStatus me id s f).changes orderId =
      db.changes orderId ++ if id = orderId then [(some row.status, s)] else [] := by
  by_cases hid : id = orderId
  · subst hid
    simp [Db.changes, Db.writesOf, hrow]
  · simp [Db.changes, Db.writesOf, hrow, hid]

theorem Reads.owes {op : Op} {pc pc' : Pc} (h : Reads env x db op pc pc') :
    Call.owes orderId ⟨op, pc'⟩ = Call.owes orderId ⟨op, pc⟩ := by
  cases h with
  | cascadeStops henter | cascadeMissing henter | cascadeReads henter => cases henter <;> rfl
  | failSearchStops henter | failSearchReads henter => cases henter <;> rfl
  | _ => rfl

/-- **What is recorded is what was changed**, but for the row that `failSearch` owes. -/
theorem Stmt.records (h : Stmt env me x db k o) (hk : k.Knows db me) (hedit : ¬ k.op.IsEditing)
    (hlt : orderId < db.orders.length) (hfaults : x.fail = true → k.owes orderId = []) :
    ∃ rs cs, o.store.recorded orderId = db.recorded orderId ++ rs ∧
      o.store.changes orderId = db.changes orderId ++ cs ∧
      rs ++ o.call.owes orderId = cs ++ k.owes orderId := by
  cases h with
  | fails hx =>
      refine ⟨[], [], by simp [Db.recorded], by simp [Db.changes, Db.writesOf], ?_⟩
      rw [hfaults hx]
      rfl
  | reads hr => exact ⟨[], [], by simp, by simp, hr.owes⟩
  | createDraft =>
      -- The row is about the new order.
      refine ⟨[], [], ?_, by simp [Db.changes, Db.writesOf, createDraftWrite], rfl⟩
      have hne : db.orders.length ≠ orderId := hlt.ne'
      rw [createDraftWrite, recorded_createHistory, if_neg hne]
      rfl
  | updateDraft | diagnose | submit => exact absurd trivial hedit
  | @lifecycle l order row hrow hst =>
      obtain ⟨-, -, hhistory, hlog, -⟩ := GuardedTransition.credit_frame l.spec order
        ((db.setStatus me l.spec.orderId l.spec.target (l.spec.data x.now)).createHistory
          { orderId := l.spec.orderId, fromStatus := some order.status, toStatus := l.spec.target,
            actorId := some l.spec.actorId, note := l.spec.note, createdAt := x.now })
      let made : List Change :=
        if l.spec.orderId = orderId then [(some order.status, l.spec.target)] else []
      refine ⟨made, made, ?_, ?_, rfl⟩
      · rw [GuardedTransition.write, recorded_congr hhistory, recorded_createHistory]
        rfl
      · rw [GuardedTransition.write, changes_congr hlog]
        exact (changes_setStatus _ hrow).trans (by rw [hst])
  | @accept dispatchId masterId dispatch order =>
      obtain ⟨-, -, hrow, -⟩ := hk
      let made : List Change :=
        if dispatch.orderId = orderId then [(some order.status, .assigned)] else []
      refine ⟨made, made, ?_, ?_, rfl⟩
      · exact recorded_createHistory (((db.updateDispatch dispatchId
          (OrderDispatch.accept x.now)).withdrawOthers dispatch.orderId dispatchId x.now).setStatus
            me dispatch.orderId .assigned fun row => { row with masterId := some masterId })
      · exact changes_setStatus ((db.updateDispatch dispatchId
          (OrderDispatch.accept x.now)).withdrawOthers dispatch.orderId dispatchId x.now) hrow
  | @followup op f todo next db' hf =>
      obtain ⟨-, -, hhistory, hlog, -⟩ := Followup.run_frame hf
      refine ⟨[], [], ?_, ?_, rfl⟩
      · rw [recorded_congr hhistory, List.append_nil]
      · rw [changes_congr hlog, List.append_nil]
  | @failSearchUpdate op id reason order row hrow hst =>
      let made : List Change :=
        if id = orderId then [(some order.status, .expired)] else []
      refine ⟨[], made, by simp [Db.recorded, Handly.failSearchUpdate], ?_, ?_⟩
      · rw [Handly.failSearchUpdate, changes_setStatus _ hrow, hst]
      · simp [Call.owes, made]
  | @failSearchRecord op id reason order =>
      let made : List Change :=
        if id = orderId then [(some order.status, .expired)] else []
      refine ⟨made, [], recorded_createHistory _, ?_, ?_⟩
      · simp [Db.changes, Db.writesOf, Handly.failSearchRecord]
      · simp [Call.owes, made]
  | acceptRollback hpc =>
      refine ⟨[], [], by simp [Db.recorded], by simp [Db.changes, Db.writesOf], ?_⟩
      rcases hpc with rfl | ⟨order, rfl⟩ <;> rfl
  | acceptLock | decline | expiry | cascadeInsert | cascadeEnqueue =>
      exact ⟨[], [], by simp [Db.recorded], by simp [Db.changes, Db.writesOf], rfl⟩

end History

/-! ### Credits

`confirmCompletion` credits the master of the order that it read. The order it closes
still has that master, because a status that is read again belongs to the same state of
the order. -/

/-- What a lifecycle call that is about to write knows about its order: it has not gone
back since it was read, and if it has not gone on either, it has the same master. -/
def Call.Snapshot (k : Call) (db : Db) : Prop :=
  match k.pc, k.op with
  | .guarded order, .lifecycle l =>
      ∃ job, db.jobs[l.spec.orderId]? = some job ∧ order.status.progress ≤ job.status.progress ∧
        (job.status = order.status → job.masterId = order.masterId)
  | _, _ => True

/-- The number of jobs that a master's profile counts. -/
def Db.jobsDoneOf (db : Db) (m : UserId) : ℕ :=
  ((db.findMaster m).map MasterProfile.jobsDone).getD 0

/-- The number of the master's orders that are CLOSED. -/
def Db.closedOf (db : Db) (m : UserId) : ℕ :=
  db.jobs.countP fun job => job.status = .closed ∧ job.masterId = some m

section Credits

variable {env : Env} {me : ℕ} {x : Input} {k : Call} {db : Db} {o : Outcome Db Call}

theorem Reads.snapshot {op : Op} {pc pc' : Pc} (h : Reads env x db op pc pc') :
    Call.Snapshot ⟨op, pc'⟩ db := by
  cases h with
  | @guarded op order hguard =>
      cases op with
      | lifecycle l =>
          obtain ⟨hrow, -⟩ := GuardedTransition.guard_eq_ok (Option.some.inj hguard)
          exact ⟨order.job, Db.jobs_of_order hrow, le_rfl, fun _ => rfl⟩
      | _ => trivial
  | _ => trivial

theorem Stmt.snapshot (h : Stmt env me x db k o) : o.call.Snapshot o.store := by
  cases h with
  | reads hr => exact hr.snapshot
  | _ => trivial

/-- A guarded write of another call moves the order on. -/
theorem Stmt.snapshot_other (h : Stmt env me x db k o) (hk : k.Knows db me)
    (hedit : ¬ k.op.IsEditing) {k' : Call} (hk' : k'.Snapshot db) : k'.Snapshot o.store := by
  obtain ⟨op, pc⟩ := k'
  cases pc with
  | guarded order =>
      cases op with
      | lifecycle l =>
          obtain ⟨job, hjob, hle, hsame⟩ := hk'
          rcases h.jobs.order_cases hjob with ⟨hjob', -⟩ | ⟨w, hw, hid, hmatched, hjob', -⟩
          · exact ⟨job, hjob', hle, hsame⟩
          · have hfurther : job.status.progress < w.status.progress := by
              obtain ⟨hcan, hnot⟩ := guarded_write hk hedit hw (hid ▸ hjob) hmatched
              exact progress_lt_of_canTransition hcan hnot
            refine ⟨w.apply job, hjob', (hle.trans hfurther.le), fun hst => ?_⟩
            have hst' : w.status = order.status := hst
            rw [hst'] at hfurther
            exact absurd hfurther (not_lt.mpr hle)
      | _ => trivial
  | _ => trivial

theorem updateMaster_jobsDoneOf {id m : UserId} {f : MasterProfile → MasterProfile}
    (hf : ∀ p, (f p).userId = p.userId) :
    (db.updateMaster id f).jobsDoneOf m =
      if m = id then ((db.findMaster m).map fun p => (f p).jobsDone).getD 0
      else db.jobsDoneOf m := by
  have hfind : (db.updateMaster id f).findMaster m =
      (db.findMaster m).map fun p => if p.userId = id then f p else p := by
    rw [Db.findMaster, Db.updateMaster_masters, List.find?_map, Db.findMaster]
    congr 2
    funext p
    show decide ((if p.userId = id then f p else p).userId = m) = decide (p.userId = m)
    split
    · rw [hf]
    · rfl
  rw [Db.jobsDoneOf, hfind, Option.map_map]
  cases hfound : db.findMaster m with
  | none => simp [Db.jobsDoneOf, hfound]
  | some p =>
      have hid : p.userId = m := by simpa using List.find?_some hfound
      by_cases hm : m = id
      · simp [hm, hid.trans hm]
      · simp [hm, hid, Db.jobsDoneOf, hfound]

theorem jobsDoneOf_congr {db' : Db} (h : db'.masters = db.masters) (m : UserId) :
    db'.jobsDoneOf m = db.jobsDoneOf m := by
  rw [Db.jobsDoneOf, Db.jobsDoneOf, Db.findMaster, Db.findMaster, h]

/-- A followup counts no job. -/
theorem Followup.run_jobsDoneOf {f : Followup} {now : Time} {db' : Db}
    (h : f.run db now = .ok db') (m : UserId) : db'.jobsDoneOf m = db.jobsDoneOf m := by
  cases f with
  | recomputeTrustTier id =>
      simp only [Followup.run, Handly.recomputeTrustTier] at h
      split at h
      · simp at h
      · obtain rfl := Except.ok.inj h
        refine (updateMaster_jobsDoneOf (by intro p; rfl)).trans ?_
        split <;> rfl
  | notify | createPenalty | toOfferDto =>
      obtain rfl := Except.ok.inj h
      rfl

/-- The closed orders of a master after a write that follows the table. -/
theorem closedOf_set {db' : Db} {id : OrderId} {job job' : Job} (hjob : db.jobs[id]? = some job)
    (hjobs : db'.jobs = db.jobs.set id job') (hopen : job.status ≠ .closed) (m : UserId) :
    db'.closedOf m =
      db.closedOf m + if job'.status = .closed ∧ job'.masterId = some m then 1 else 0 := by
  have hcount := Table.countP_set (b := job')
    (p := fun job : Job => job.status = .closed ∧ job.masterId = some m) hjob
  rw [Db.closedOf, hjobs, Db.closedOf]
  simpa [hopen] using hcount

/-- A status that may be left is not CLOSED. -/
theorem ne_closed_of_canTransition {s t : OrderStatus} (h : canTransition s t = true) :
    s ≠ .closed := by
  intro heq
  obtain rfl := heq
  simp [canTransition, transitions] at h

/-- The orders after a guarded transition. -/
theorem lifecycleWrite_jobs (l : Lifecycle) (me : ℕ) (now : Time) (order : Order) {row : Order}
    (hrow : db.orders[l.spec.orderId]? = some row) :
    (l.spec.write db me now order).jobs = db.jobs.set l.spec.orderId
      ⟨l.spec.target, row.masterId, l.finalAmount <|> row.finalAmount⟩ := by
  have hdata := l.job_data now row
  rw [Db.jobs, GuardedTransition.write, (GuardedTransition.credit_frame _ _ _).1]
  refine (Table.map_modify hrow).trans ?_
  congr 1
  simp only [Order.job, Job.mk.injEq] at hdata ⊢
  exact ⟨trivial, hdata.2⟩

/-- The counters of a master after a guarded transition: only the one that closes an
order credits its master. -/
theorem lifecycleWrite_jobsDoneOf (l : Lifecycle) (me : ℕ) (now : Time) (order : Order)
    {m : UserId} (hm : m ∈ db.masterIds) :
    (l.spec.write db me now order).jobsDoneOf m =
      db.jobsDoneOf m + if l.spec.target = .closed ∧ order.masterId = some m then 1 else 0 := by
  have hfound : ∃ p, db.findMaster m = some p := by
    obtain ⟨p, hmem, hid⟩ := List.mem_map.mp hm
    exact Option.isSome_iff_exists.mp (List.find?_isSome.mpr ⟨p, hmem, by simpa using hid⟩)
  cases l with
  | confirmCompletion customerId orderId =>
      obtain ⟨p, hp⟩ := hfound
      simp only [GuardedTransition.write, GuardedTransition.credit, Lifecycle.spec, true_and]
      cases hmaster : order.masterId with
      | none =>
          rw [if_neg (by simp), Nat.add_zero]
          exact jobsDoneOf_congr rfl m
      | some id =>
          simp only [Option.some.injEq]
          refine (updateMaster_jobsDoneOf (by intro p; rfl)).trans ?_
          by_cases hid : m = id
          · subst hid
            have hsame : ∀ r : OrderStatusHistory, ((db.setStatus me orderId .closed
                fun row => row).createHistory r).findMaster m = some p := fun _ => hp
            simp [hsame, Db.jobsDoneOf, hp]
          · rw [if_neg hid, if_neg (Ne.symm hid), Nat.add_zero]
            exact jobsDoneOf_congr rfl m
  | cancel | startEnRoute | startService | completeService | cancelByMaster =>
      rw [if_neg (by simp [Lifecycle.spec]), Nat.add_zero]
      exact jobsDoneOf_congr rfl m

/-- **A master is credited exactly for the orders that close.** -/
theorem Stmt.credits (h : Stmt env me x db k o) (hk : k.Knows db me) (hedit : ¬ k.op.IsEditing)
    (hsnap : k.Snapshot db) {m : UserId} (hm : m ∈ db.masterIds) :
    o.store.jobsDoneOf m + db.closedOf m = db.jobsDoneOf m + o.store.closedOf m := by
  -- Statements of other calls than a guarded transition close nothing and credit nobody.
  have hother : o.store.jobsDoneOf m = db.jobsDoneOf m → (∀ w, k.Writes w → w.status ≠ .closed) →
      o.store.jobsDoneOf m + db.closedOf m = db.jobsDoneOf m + o.store.closedOf m := by
    intro hsame hopen
    have hclosed : o.store.closedOf m = db.closedOf m := by
      rcases h.jobs with ⟨hjobs, -⟩ | ⟨-, hjobs, -⟩ | ⟨w, job, hw, hjob, hmatched, hjobs, -⟩
      · rw [Db.closedOf, hjobs, Db.closedOf]
      · simp [Db.closedOf, hjobs, Job.draft]
      · obtain ⟨hcan, -⟩ := guarded_write hk hedit hw hjob hmatched
        rw [closedOf_set hjob hjobs (ne_closed_of_canTransition hcan)]
        simp [JobWrite.apply, hopen w hw]
    rw [hsame, hclosed]
  cases h with
  | updateDraft | diagnose | submit => exact absurd trivial hedit
  | @lifecycle l order row hrow hst =>
      obtain ⟨job, hjob, -, hmaster⟩ := hsnap
      obtain rfl : row.job = job := Option.some.inj ((Db.jobs_of_order hrow).symm.trans hjob)
      have hcan : canTransition order.status l.spec.target = true := hk
      have hopen : row.status ≠ .closed := hst ▸ ne_closed_of_canTransition hcan
      have hsame : row.masterId = order.masterId := hmaster hst
      have hclosed := closedOf_set hjob (lifecycleWrite_jobs l me x.now order hrow) hopen m
      have hcredited := lifecycleWrite_jobsDoneOf l me x.now order hm
      simp only [hsame] at hclosed
      rw [hclosed, hcredited]
      omega
  | accept =>
      refine hother (jobsDoneOf_congr (by simp [acceptWrite]) m) fun w hw => ?_
      cases hw
      simp
  | failSearchUpdate =>
      refine hother rfl fun w hw => ?_
      cases hw
      simp
  | followup hf => exact hother (Followup.run_jobsDoneOf hf m) fun w hw => by cases hw
  | @fails op pc hx => rfl
  | reads => rfl
  | acceptRollback => rfl
  | createDraft | acceptLock | decline | expiry | cascadeInsert | cascadeEnqueue
  | failSearchRecord => exact hother rfl fun w hw => by cases hw

end Credits

end Handly
