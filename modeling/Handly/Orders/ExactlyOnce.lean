import Handly.Orders.Bookkeeping

/-!
# Lifecycle actions take effect exactly once

Any number of duplicated and mixed calls may act on an order that has been submitted.
Each committed write has its own call and its own history row and leaves its own status
(`Ledger`, `Accounted`, `Stmt.records`), the master is credited for each order that
closes (`Stmt.credits`), and a call that loses leaves every row as it is.
-/

namespace Handly

open Interleaving

/-- The calls that act on a submitted order. -/
def Op.IsAction : Op → Prop
  | .lifecycle _ | .acceptOffer _ _ | .failSearch _ _ => True
  | _ => False

/-- The calls that throw when they do not succeed. A `failSearch` that loses returns. -/
def Op.ThrowsOnLoss : Op → Prop
  | .lifecycle _ | .acceptOffer _ _ => True
  | _ => False

/-- The call of `completeService` that has returned. -/
def Call.completed (masterId : UserId) (orderId : OrderId) (finalAmount : ℤ) : Call :=
  ⟨.lifecycle (.completeService masterId orderId finalAmount), .returned⟩

/-- What holds once the calls of a run from `db` have finished. A call has succeeded if it
is the author of a committed write. -/
structure ExactlyOnce (db : Db) (orderId : OrderId) (ts : List (Transition Db Call Input))
    (c' : Config Db Call) : Prop where
  /-- The successful calls, in commit order, each left a different status. -/
  statuses : ((c'.store.writesOf orderId).map StatusWrite.replaced).Nodup
  /-- A call succeeds at most once. -/
  once : ∀ (i : ℕ) (k : Call), c'.calls[i]? = some k → c'.store.authored i ≤ 1
  /-- The writes are by calls, each of its own order and status. -/
  made : ∀ e ∈ c'.store.statusWrites, ∃ k, c'.calls[e.author]? = some k ∧ k.op.Makes e
  /-- A call that has returned succeeded, and a call that has thrown did not. -/
  outcome : ∀ (i : ℕ) (k : Call), c'.calls[i]? = some k → k.op.ThrowsOnLoss →
    (c'.store.authored i = 1 ↔ k.pc = .returned)
  /-- The order has one new history row for each committed write, with the statuses that
  were replaced and written. -/
  history : (c'.store.recorded orderId).Perm (db.recorded orderId ++ c'.store.changes orderId)
  /-- `jobsDone` has grown by the number of the master's orders that entered CLOSED. -/
  jobsDone : ∀ m ∈ db.masterIds,
    c'.store.jobsDoneOf m + db.closedOf m = db.jobsDoneOf m + c'.store.closedOf m
  /-- A call that did not succeed has changed no row. -/
  unsuccessful : ∀ (i : ℕ) (k : Call), c'.calls[i]? = some k → k.op.IsAction →
    c'.store.authored i = 0 → ∀ t ∈ ts, t.IsBy i →
      ∃ lock, t.post.store = { t.pre.store with orderLock := lock }
  /-- The final amount is that of the successful `completeService`. -/
  finalAmount : ∀ order, db.orders[orderId]? = some order →
    ∃ order', c'.store.orders[orderId]? = some order' ∧
      (∀ (i : ℕ) (m : UserId) (amount : ℤ),
        c'.calls[i]? = some (Call.completed m orderId amount) → order'.finalAmount = some amount) ∧
      ((∀ (i : ℕ) (m : UserId) (amount : ℤ),
        c'.calls[i]? ≠ some (Call.completed m orderId amount)) →
          order'.finalAmount = order.finalAmount)

section Step

variable {env : Env} {me : ℕ} {x : Input} {k : Call} {db : Db} {o : Outcome Db Call}
  {orderId : OrderId}

/-- A call with no entry owes no history row. -/
theorem owes_eq_nil (h : k.Accounts 0) : k.owes orderId = [] := by
  obtain ⟨op, pc⟩ := k
  cases pc with
  | failSearchHistory => cases op <;> exact absurd h (by simp [Call.Accounts])
  | _ => rfl

/-- A finished call owes no history row. -/
theorem Call.Finished.owes_eq_nil (h : k.Finished) : k.owes orderId = [] := by
  obtain ⟨op, pc⟩ := k
  cases pc with
  | returned | threw => rfl
  | _ => exact h.elim

/-- **A statement of an action that makes no entry changes no row.** -/
theorem Stmt.changes_no_row (h : Stmt env me x db k o) (hop : k.op.IsAction) (hk : k.Knows db me)
    (htrack : k.OnTrack) (hn : k.Accounts (db.authored me)) (hnone : o.store.authored me = 0) :
    ∃ lock, o.store = { db with orderLock := lock } := by
  -- The log only grows, so the call had made no entry before either.
  have hzero : db.authored me = 0 := by
    rcases h.jobs.authored me with hsame | ⟨-, hmore, -⟩ <;> omega
  have hlogged : ∀ {e : StatusWrite}, e ∈ o.store.statusWrites → e.author ≠ me := by
    intro e he hauthor
    have := List.countP_eq_zero.mp hnone e he
    simp [hauthor] at this
  rw [hzero] at hn
  cases h with
  | fails | acceptRollback => exact ⟨_, rfl⟩
  | acceptLock => exact ⟨_, rfl⟩
  | reads => exact ⟨_, rfl⟩
  | @lifecycle l order row hrow =>
      refine absurd rfl (hlogged (e := ⟨me, l.spec.orderId, row.status, l.spec.target,
        (l.spec.data x.now row).masterId⟩) ?_)
      rw [GuardedTransition.write, (GuardedTransition.credit_frame _ _ _).2.2.2.1]
      simp [hrow]
  | @accept dispatchId masterId dispatch order =>
      obtain ⟨-, -, hrow, -⟩ := hk
      refine absurd rfl (hlogged (e := ⟨me, dispatch.orderId, order.status, .assigned,
        some masterId⟩) ?_)
      simp [acceptWrite, hrow]
  | @followup op f todo next =>
      cases op with
      | lifecycle => exact absurd hn (by simp [Call.Accounts])
      | acceptOffer => exact htrack.elim
      | failSearch =>
          cases next with
          | none => exact absurd hn (by simp [Call.Accounts])
          | some => exact htrack.elim
      | _ => exact hop.elim
  | @failSearchUpdate op orderId reason order row hrow =>
      refine absurd rfl (hlogged (e := ⟨me, orderId, row.status, .expired, row.masterId⟩) ?_)
      simp [Handly.failSearchUpdate, hrow]
  | @failSearchRecord op =>
      cases op <;> exact absurd hn (by simp [Call.Accounts])
  | @cascadeInsert op | @cascadeEnqueue op =>
      cases op with
      | lifecycle | acceptOffer | failSearch => exact htrack.elim
      | _ => exact hop.elim
  | createDraft | updateDraft | diagnose | submit | decline | expiry => exact hop.elim

/-- Only `completeService` writes COMPLETED, and it alone writes an amount. -/
theorem amount_of_writes {w : JobWrite} (hw : k.Writes w) :
    (w.status = .completed ∧ ∃ m amount, k.op = .lifecycle (.completeService m w.orderId amount) ∧
        w.finalAmount = some amount) ∨
      (w.status ≠ .completed ∧ w.finalAmount = none) := by
  cases hw with
  | @lifecycle l order =>
      cases l with
      | completeService m id amount => exact Or.inl ⟨rfl, m, amount, rfl, rfl⟩
      | _ => exact Or.inr ⟨by simp [Lifecycle.spec], rfl⟩
  | _ => exact Or.inr ⟨by simp, rfl⟩

end Step

/-! ### Whole runs -/

/-- The final amount of an order is that of the call whose write of COMPLETED is logged,
or as it was. -/
def AmountSettled (orderId : OrderId) (before : Option ℤ) (c : Config Db Call) : Prop :=
  ∃ job, c.store.jobs[orderId]? = some job ∧
    ((∀ e ∈ c.store.writesOf orderId, e.written ≠ .completed) → job.finalAmount = before) ∧
    ∀ e ∈ c.store.writesOf orderId, e.written = .completed → ∃ k m amount,
      c.calls[e.author]? = some k ∧ k.op = .lifecycle (.completeService m orderId amount) ∧
        job.finalAmount = some amount

/-- The snapshots of the calls. -/
def snapshots (env : Env) : Outline (orders env) NoEditing where
  G _ := True
  L db me k := k.Knows db me ∧ ¬ k.op.IsEditing ∧ k.Snapshot db
  start t i k hC he hentry _ := by
    refine ⟨(knowledge env).start t i k trivial he hentry trivial, hC k he, ?_⟩
    obtain ⟨op, pc⟩ := k
    cases pc <;> trivial
  own t me x k o hC he hk hstep hpost _ hL := by
    obtain ⟨hknows, hedit, hsnap⟩ := hL
    obtain ⟨-, h, -⟩ := step_cases hstep
    rw [h.spawned_eq_nil fun c id hop => hedit (hop ▸ trivial)]
    refine ⟨trivial, ⟨h.knows hknows, ?_, h.snapshot⟩, by simp⟩
    rw [h.op_eq]
    exact hedit
  others t me x k o j k' _ he hk hstep hk' hne _ hL hL' := by
    obtain ⟨hknows, hedit, -⟩ := hL
    obtain ⟨hknows', hedit', hsnap'⟩ := hL'
    obtain ⟨-, h, -⟩ := step_cases hstep
    exact ⟨h.knows_other hknows (Ne.symm hne) hknows', hedit', h.snapshot_other hknows hedit hsnap'⟩

section Run

variable {env : Env} {db : Db} {c' : Config Db Call} {ts : List (Transition Db Call Input)}
  {orderId : OrderId}

/-- Every change is recorded once the calls have finished. -/
theorem recorded_of_run (hrun : (orders env).Run ⟨db, []⟩ ts c') (hstarts : ∀ t ∈ ts, NoEditing t)
    (hfaults : ∀ t ∈ ts, FailsBeforeCommit t) (hmasters : db.MastersExist)
    (hlog : db.statusWrites = []) (hledger : Ledger db orderId)
    (hfinished : ∀ k ∈ c'.calls, k.Finished) :
    (c'.store.recorded orderId).Perm (db.recorded orderId ++ c'.store.changes orderId) := by
  have hknows := (knows_of_run hrun).2
  have hedit := unedited_of_run hrun hstarts
  have hledgers := (ledger_of_run hrun hstarts hledger).2
  have haccounted := (accounted_of_run hrun hstarts hfaults hmasters hlog).2
  let f : Db → Change → ℤ := fun s ch =>
    ((s.recorded orderId).count ch : ℤ) - (s.changes orderId).count ch
  let g : Call → Change → ℤ := fun k ch => ((k.owes orderId).count ch : ℤ)
  have hbalance : potential f g c' = potential f g ⟨db, []⟩ := by
    refine potential_run_eq (C := fun t => t ∈ ts) f g ?_ ?_ hrun fun _ ht => ht
    · intro t k hts he hentry
      obtain ⟨op, pc⟩ := k
      obtain rfl : pc = .start := by
        cases pc <;> first | rfl | simp [orders, Call.isStart] at hentry
      rfl
    · intro t i x k o ht hts he hi hstep
      obtain ⟨-, h, -⟩ := step_cases hstep
      obtain ⟨job, hjob, -⟩ := (hledgers t hts).current
      have hlt : orderId < t.pre.store.orders.length := by
        simpa [Db.jobs] using (List.getElem?_eq_some_iff.mp hjob).1
      -- A call that owes a history row has made an entry, so its statement does not fail.
      have howes : x.fail = true → k.owes orderId = [] := by
        intro hx
        have hzero := (Transition.satisfies_iff he hi).mp (hfaults t hts) hx
        exact owes_eq_nil (hzero ▸ (haccounted t hts).counts i k hi)
      obtain ⟨rs, cs, hrs, hcs, howed⟩ :=
        h.records (hknows t hts i k hi) (hedit t hts i k hi) hlt howes
      rw [h.spawned_eq_nil fun c id hop => hedit t hts i k hi (hop ▸ trivial)]
      funext ch
      have hcount := congrArg (List.count ch) howed
      simp only [List.count_append] at hcount
      simp only [f, g, hrs, hcs, List.count_append, Pi.add_apply, List.map_nil, List.sum_nil,
        Pi.zero_apply]
      push_cast
      omega
  have hdone : (c'.calls.map g).sum = 0 := by
    refine List.sum_eq_zero fun b hb => ?_
    obtain ⟨k, hk, rfl⟩ := List.mem_map.mp hb
    funext ch
    simp [g, (hfinished k hk).owes_eq_nil]
  rw [List.perm_iff_count]
  intro ch
  have hend := congrFun hbalance ch
  simp only [potential, hdone, add_zero, List.map_nil, List.sum_nil, f] at hend
  have hnone : (db.changes orderId).count ch = 0 := by simp [Db.changes, Db.writesOf, hlog]
  rw [List.count_append]
  omega

/-- Masters are credited for the orders that close. -/
theorem credits_of_run (hrun : (orders env).Run ⟨db, []⟩ ts c') (hstarts : ∀ t ∈ ts, NoEditing t)
    {m : UserId} (hm : m ∈ db.masterIds) :
    c'.store.jobsDoneOf m + db.closedOf m = db.jobsDoneOf m + c'.store.closedOf m := by
  obtain ⟨-, hsnaps⟩ := (snapshots env).holds_run hrun hstarts
    ⟨trivial, fun i k hk => by simp at hk⟩
  refine (hrun.invariant (fun c => c.store.masterIds = db.masterIds ∧
    c.store.jobsDoneOf m + db.closedOf m = db.jobsDoneOf m + c.store.closedOf m)
    (fun t => t ∈ ts) (fun _ ht => ht) ⟨rfl, rfl⟩ ?_).1.2
  intro t ht hts hboth
  obtain ⟨hids, hcredits⟩ := hboth
  rcases stmt_of_fires ht with ⟨k, -, -, hpost⟩ | ⟨i, x, k, o, -, hi, -, h, -, hpost⟩
  · rw [hpost]
    exact ⟨hids, hcredits⟩
  · obtain ⟨hknows, hedit, hsnap⟩ := (hsnaps t hts).1.2 i k hi
    have hstep := h.credits hknows hedit hsnap (m := m) (hids ▸ hm)
    rw [hpost]
    refine ⟨h.masterIds.trans hids, ?_⟩
    show o.store.jobsDoneOf m + db.closedOf m = db.jobsDoneOf m + o.store.closedOf m
    omega

/-- The amount of the order at the end. -/
theorem amount_of_run {order : Order} (hrun : (orders env).Run ⟨db, []⟩ ts c')
    (hstarts : ∀ t ∈ ts, NoEditing t) (hledger : Ledger db orderId)
    (horder : db.orders[orderId]? = some order) (hlog : db.statusWrites = []) :
    AmountSettled orderId order.finalAmount c' := by
  have hknows := (knows_of_run hrun).2
  have hedit := unedited_of_run hrun hstarts
  have hledgers := (ledger_of_run hrun hstarts hledger).2
  have h0 : AmountSettled orderId order.finalAmount ⟨db, []⟩ := by
    refine ⟨order.job, Db.jobs_of_order horder, fun _ => rfl, fun e he => ?_⟩
    simp [Db.writesOf, hlog] at he
  refine (hrun.invariant (AmountSettled orderId order.finalAmount) (fun t => t ∈ ts)
    (fun _ ht => ht) h0 ?_).1
  intro t ht hts hamount
  obtain ⟨job, hjob, hbefore, hsettled⟩ := hamount
  have hold : ∀ {amount : Option ℤ} (e : StatusWrite),
      (∃ k m amount', t.pre.calls[e.author]? = some k ∧
        k.op = .lifecycle (.completeService m orderId amount') ∧ amount = some amount') →
      ∃ k m amount', t.post.calls[e.author]? = some k ∧
        k.op = .lifecycle (.completeService m orderId amount') ∧ amount = some amount' := by
    intro amount e hcompletes
    obtain ⟨k, m, amount', hk, hop, hamount⟩ := hcompletes
    obtain ⟨k', hk', hop'⟩ := op_fires ht hk
    exact ⟨k', m, amount', hk', hop'.trans hop, hamount⟩
  rcases stmt_of_fires ht with ⟨k, -, -, hpost⟩ | ⟨i, x, k, o, -, hi, -, h, -, hpost⟩
  · have hstore : t.post.store = t.pre.store := by rw [hpost]
    refine ⟨job, hstore ▸ hjob, hstore ▸ hbefore, fun e he hwritten => hold e ?_⟩
    exact hsettled e (hstore ▸ he) hwritten
  · have hstore : t.post.store = o.store := by rw [hpost]
    rcases h.jobs.order_cases hjob with ⟨hjob', hwrites⟩ | ⟨w, hw, hid, hmatched, hjob', hwrites⟩
    · rw [← hstore] at hjob' hwrites
      refine ⟨job, hjob', hwrites ▸ hbefore, fun e he hwritten => hold e ?_⟩
      exact hsettled e (hwrites ▸ he) hwritten
    · rw [← hstore] at hjob' hwrites
      refine ⟨w.apply job, hjob', ?_⟩
      rw [hwrites]
      simp only [List.forall_mem_append, List.forall_mem_singleton]
      rcases amount_of_writes hw with ⟨hcompleted, m, amount, hop, hamount⟩ | ⟨hne, hnone⟩
      · -- The order is not COMPLETED yet, so no earlier entry says that it is.
        refine ⟨fun hearlier => absurd hcompleted hearlier.2, fun e he hwritten => ?_, fun _ => ?_⟩
        · obtain ⟨job', hjob'', -, hbound⟩ := (hledgers t hts).current
          obtain rfl := Option.some.inj (hjob.symm.trans hjob'')
          obtain ⟨hcan, hnot⟩ :=
            guarded_write (hknows t hts i k hi) (hedit t hts i k hi) hw (hid ▸ hjob) hmatched
          have hfurther := progress_lt_of_canTransition hcan hnot
          have hle := hbound e he
          rw [hwritten] at hle
          rw [hcompleted] at hfurther
          exact absurd hfurther (not_lt.mpr hle)
        · refine ⟨o.call, m, amount, ?_, ?_, ?_⟩
          · exact Machine.getElem?_of_post hi hpost
          · rw [h.op_eq, hop, hid]
          · simp [JobWrite.apply, hamount]
      · have hsame : (w.apply job).finalAmount = job.finalAmount := by simp [JobWrite.apply, hnone]
        rw [hsame]
        refine ⟨fun hearlier => hbefore hearlier.1, fun e he hwritten => ?_, fun hlast => ?_⟩
        · exact hold e (hsettled e he hwritten)
        · exact absurd hlast hne

/-- A finished action has returned if it succeeded, and thrown if it did not. -/
theorem outcome_of_accounts {k : Call} {n : ℕ} (hop : k.op.ThrowsOnLoss) (hfin : k.Finished)
    (hn : k.Accounts n) : n = 1 ↔ k.pc = .returned := by
  obtain ⟨op, pc⟩ := k
  cases pc with
  | returned =>
      cases op with
      | lifecycle | acceptOffer => exact iff_of_true hn rfl
      | _ => exact hop.elim
  | threw e =>
      have hzero : n = 0 := by
        cases op with
        | lifecycle | acceptOffer => exact hn
        | _ => exact hop.elim
      simp [hzero]
  | _ => exact hfin.elim

/-- An action without an entry at the end has changed no row on its way. -/
theorem unsuccessful_of_run (hrun : (orders env).Run ⟨db, []⟩ ts c')
    (haccounted : ∀ t ∈ ts, Accounted t.pre) {i : ℕ} {k : Call} (hk : c'.calls[i]? = some k)
    (hop : k.op.IsAction) (hnone : c'.store.authored i = 0) {t : Transition Db Call Input}
    (ht : t ∈ ts) (hby : t.IsBy i) :
    ∃ lock, t.post.store = { t.pre.store with orderLock := lock } := by
  obtain ⟨x, he⟩ := hby
  obtain ⟨before, after, -, -, hafter⟩ := hrun.split t ht
  have hknows := (knows_of_run hrun).2 t ht
  have htrack := (onTrack_of_run hrun).2 t ht
  obtain ⟨k', o, hi, h, hpost, hnext⟩ := stmt_of_event (hrun.fires t ht) he
  have hkop : k.op = k'.op := (op_stays hafter hnext hk).trans h.op_eq
  -- No entry at the end, so none now.
  have hnow : t.post.store.authored i = 0 := by
    have hle := (log_of_run hafter).sublist.countP_le (p := fun e => e.author = i)
    exact Nat.le_zero.mp (hle.trans hnone.le)
  rw [hpost] at hnow ⊢
  exact h.changes_no_row (hkop ▸ hop) (hknows i k' hi) (htrack i k' hi)
    ((haccounted t ht).counts i k' hi) hnow

/-- A `completeService` that has returned has written its amount. -/
theorem amount_of_completed (hacc : Accounted c') {i : ℕ} {m : UserId}
    {amount : ℤ} {job : Job} (hi : c'.calls[i]? = some (Call.completed m orderId amount))
    (hsettled : ∀ e ∈ c'.store.writesOf orderId, e.written = .completed → ∃ k m amount,
      c'.calls[e.author]? = some k ∧ k.op = .lifecycle (.completeService m orderId amount) ∧
        job.finalAmount = some amount) :
    job.finalAmount = some amount := by
  have hone : c'.store.authored i = 1 := hacc.counts i _ hi
  obtain ⟨e, he, hauthor⟩ := List.countP_pos_iff.mp (hone ▸ Nat.one_pos)
  obtain rfl : e.author = i := by simpa using hauthor
  obtain ⟨k, hk, hmakes⟩ := hacc.made e he
  obtain rfl := Option.some.inj (hi.symm.trans hk)
  obtain ⟨hid, hwritten⟩ := hmakes
  obtain ⟨k', m', amount', hk', hop, hamount⟩ := hsettled e (mem_writesOf.mpr ⟨he, hid⟩) hwritten
  obtain rfl := Option.some.inj (hi.symm.trans hk')
  have heq : amount = amount' := by
    simp only [Call.completed, Op.lifecycle.injEq, Lifecycle.completeService.injEq] at hop
    exact hop.2.2
  rw [heq]
  exact hamount

/-- The author of an entry of COMPLETED has returned. -/
theorem completed_of_entry (hacc : Accounted c') (hfinished : ∀ k ∈ c'.calls, k.Finished)
    {e : StatusWrite} (he : e ∈ c'.store.statusWrites) {k : Call} {m : UserId} {amount : ℤ}
    (hk : c'.calls[e.author]? = some k)
    (hop : k.op = .lifecycle (.completeService m orderId amount)) :
    c'.calls[e.author]? = some (Call.completed m orderId amount) := by
  have hpos : 0 < c'.store.authored e.author := List.countP_pos_iff.mpr ⟨e, he, by simp⟩
  have hone : c'.store.authored e.author = 1 := by
    have := (hacc.counts e.author k hk).le_one
    omega
  have hreturned := (outcome_of_accounts (by rw [hop]; trivial)
    (hfinished k (List.mem_of_getElem? hk)) (hacc.counts e.author k hk)).mp hone
  obtain ⟨op, pc⟩ := k
  obtain rfl : op = _ := hop
  obtain rfl : pc = _ := hreturned
  exact hk

/-- **Every lifecycle action takes effect exactly once.** -/
theorem exactlyOnce_of_run {order : Order} (hrun : (orders env).Run ⟨db, []⟩ ts c')
    (hstarts : ∀ t ∈ ts, NoEditing t) (hfaults : ∀ t ∈ ts, FailsBeforeCommit t)
    (hmasters : db.MastersExist) (hlog : db.statusWrites = [])
    (horder : db.orders[orderId]? = some order) (hsubmitted : ¬ order.status.Editable)
    (hfinished : ∀ k ∈ c'.calls, k.Finished) : ExactlyOnce db orderId ts c' := by
  have hledger : Ledger db orderId := by
    have hwrites : db.writesOf orderId = [] := by simp [Db.writesOf, hlog]
    refine ⟨⟨order.job, Db.jobs_of_order horder, hsubmitted, ?_⟩, ?_, ?_⟩ <;> simp [hwrites]
  obtain ⟨hend, -⟩ := ledger_of_run hrun hstarts hledger
  obtain ⟨hacc, haccPre⟩ := accounted_of_run hrun hstarts hfaults hmasters hlog
  refine ⟨hend.nodup, fun i k hk => (hacc.counts i k hk).le_one, hacc.made, ?_, ?_, ?_, ?_, ?_⟩
  · intro i k hk hop
    exact outcome_of_accounts hop (hfinished k (List.mem_of_getElem? hk)) (hacc.counts i k hk)
  · exact recorded_of_run hrun hstarts hfaults hmasters hlog hledger hfinished
  · exact fun m hm => credits_of_run hrun hstarts hm
  · exact fun i k hk hop hnone t ht hby => unsuccessful_of_run hrun haccPre hk hop hnone ht hby
  · intro order' horder'
    obtain rfl := Option.some.inj (horder.symm.trans horder')
    obtain ⟨job, hjob, hbefore, hsettled⟩ := amount_of_run hrun hstarts hledger horder hlog
    obtain ⟨last, hlast, rfl⟩ : ∃ last, c'.store.orders[orderId]? = some last ∧
        last.job = job := by
      simpa [Db.jobs] using hjob
    refine ⟨last, hlast, fun i m amount hi => amount_of_completed hacc hi hsettled, fun hnone => ?_⟩
    refine hbefore fun e he hwritten => ?_
    obtain ⟨k, m, amount, hk, hop, -⟩ := hsettled e he hwritten
    exact hnone e.author m amount
      (completed_of_entry hacc hfinished (mem_writesOf.mp he).1 hk hop)

end Run

instance : DecidablePred FailsBeforeCommit := fun t =>
  inferInstanceAs (Decidable (t.Satisfies _))

/-- An order that master 1 is working on. -/
def inProgressOrder : Db where
  users := [⟨.active, .customer⟩, ⟨.active, .master⟩]
  masters :=
    [{ userId := 1, verificationStatus := .verified, trustTier := 0, ratingAvg := 5, jobsDone := 0
       isOnline := true }]
  orders :=
    [{ customerId := 0, categoryId := some 0, description := "", status := .inProgress
       masterId := some 1, priceMin := some 100000, priceMax := some 200000 }]

/-- Two calls of `completeService` race with different amounts; the second to write loses.
Then the customer confirms twice. -/
def completeTwice : List (Event Call Input) :=
  [.start ⟨.lifecycle (.completeService 1 0 150000), .start⟩,
    .start ⟨.lifecycle (.completeService 1 0 160000), .start⟩, .run 0 {}, .run 1 {}, .run 1 {},
    .run 0 {}, .run 1 {}, .run 1 {}, .start ⟨.lifecycle (.confirmCompletion 0 0), .start⟩,
    .start ⟨.lifecycle (.confirmCompletion 0 0), .start⟩, .run 2 {}, .run 3 {}, .run 2 {},
    .run 3 {}, .run 2 {}, .run 2 {}, .run 2 {}]

theorem exactlyOnce_completeTwice :
    ExactlyOnce inProgressOrder 0 ((orders .flat).trace ⟨inProgressOrder, []⟩ completeTwice)
      ((orders .flat).after ⟨inProgressOrder, []⟩ completeTwice) :=
  exactlyOnce_of_run ((orders .flat).run_trace _ _)
    (noEditing_of_mem_trace (by simp [completeTwice, Op.IsEditing])) (by decide +kernel)
    ⟨by decide, by decide⟩ rfl rfl (by decide) (by decide +kernel)

end Handly
