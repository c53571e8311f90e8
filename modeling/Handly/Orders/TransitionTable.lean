import Handly.Orders.Knowledge

/-!
# The transition table as the authority over `Order.status`

The guarded transitions, `failSearch` and `acceptOffer` condition their write on
the status they read: by the `where` of an `updateMany`, or by the lock of the
order row. `updateDraft`, `diagnose` and `submit` check the status when they read
the order, and then write by id alone. The table governs a run exactly when each
of these writes still finds the order in a status that its check accepts.
-/

namespace Handly

open Interleaving

/-- The status writes of a run follow the table, and an order in a terminal status
stays there. -/
def TableGoverns (ts : List (Transition Db Call Input)) (c' : Config Db Call) : Prop :=
  (∀ w ∈ c'.store.statusWrites, canTransition w.replaced w.written = true) ∧
    ∀ t ∈ ts, ∀ orderId s, t.pre.store.statusOf orderId = some s → s.Terminal →
      c'.store.statusOf orderId = some s

/-- The write by id that a call issues next finds the order where the call's check
left it: PRICED for a submit and for an edit that drops the quote, DRAFT or PRICED
for a diagnosis. -/
def Call.FindsEditable (k : Call) (db : Db) : Prop :=
  match k.pc, k.op with
  | .guarded order, .updateDraft _ orderId dto =>
      invalidatesQuote order dto = true → ∀ s ∈ db.statusOf orderId, s = .priced
  | .quoted _ _ _ _, .diagnose _ orderId =>
      ∀ s ∈ db.statusOf orderId, s = .draft ∨ s = .priced
  | .guarded _, .submit _ orderId => ∀ s ∈ db.statusOf orderId, s = .priced
  | _, _ => True

instance (k : Call) (db : Db) : Decidable (k.FindsEditable db) := by
  unfold Call.FindsEditable
  split <;> infer_instance

/-- The same of the statement that a transition runs, unless the statement
fails. -/
def WriteFindsEditable (t : Transition Db Call Input) : Prop :=
  t.Satisfies fun _ x k db => x.fail = false → k.FindsEditable db

instance : DecidablePred WriteFindsEditable := fun t =>
  inferInstanceAs (Decidable (t.Satisfies _))

section Step

variable {env : Env} {me : ℕ} {x : Input} {k : Call} {db : Db} {o : Outcome Db Call}

/-- A guarded write follows the table because of what its call knows; a write by
id does if and only if it finds the order editable. -/
theorem canTransition_write_iff (hk : k.Knows db me) {w : JobWrite} {job : Job}
    (hw : k.Writes w) (hfound : db.jobs[w.orderId]? = some job)
    (hmatched : ∀ s ∈ w.whereStatus, job.status = s) :
    canTransition job.status w.status = true ↔ k.FindsEditable db := by
  have hstatus : db.statusOf w.orderId = some job.status := by
    rw [db.statusOf_eq_jobs, hfound]
    rfl
  cases hw with
  | updateDraft hinv => simp [Call.FindsEditable, hinv, hstatus, canTransition_draft]
  | diagnose => simp [Call.FindsEditable, hstatus, canTransition_priced]
  | submit => simp [Call.FindsEditable, hstatus, canTransition_searching]
  | @lifecycle l order =>
      have hsnapshot : job.status = order.status := hmatched _ rfl
      have hguard : canTransition order.status l.spec.target = true := hk
      simp [Call.FindsEditable, hsnapshot, hguard]
  | @accept dispatchId masterId dispatch order =>
      -- The order was read under the lock, so it is the row that is replaced.
      obtain ⟨-, -, hrow, hsearching⟩ := hk
      obtain rfl : order.job = job := by simpa [Db.jobs_of_order hrow] using hfound
      simp [Call.FindsEditable, canTransition_assigned, Order.job, hsearching]
  | @failSearch op orderId reason order =>
      have hsnapshot : job.status = order.status := hmatched _ rfl
      have hsearching : order.status = .searching := hk
      simp [Call.FindsEditable, canTransition_expired, hsnapshot, hsearching]

/-- A statement that leaves the log as it is had no write to issue, or no row to
write. -/
theorem findsEditable_of_kept (h : Stmt env me x db k o) (hfail : x.fail = false)
    (hlog : o.store.statusWrites = db.statusWrites) : k.FindsEditable db := by
  have hmissing : ∀ {id}, db.orders[id]? = none → ∀ s, s ∉ db.statusOf id := by
    intro id hnone s hs
    simp [Db.statusOf, hnone] at hs
  cases h with
  | fails hx => simp [hx] at hfail
  | reads hr =>
      cases hr with
      | updateDraftMissing hnone => exact fun _ s hs => absurd hs (hmissing hnone s)
      | submitMissing hnone | diagnoseMissing hnone =>
          exact fun s hs => absurd hs (hmissing hnone s)
      | cascadeStops henter | cascadeMissing henter | cascadeReads henter =>
          cases henter <;> trivial
      | failSearchStops henter | failSearchReads henter => cases henter <;> trivial
      | _ => trivial
  | @updateDraft customerId orderId dto order row hrow =>
      intro hinv
      simp [updateDraftWrite, hinv, hrow] at hlog
  | diagnose hrow => simp [diagnoseWrite, hrow] at hlog
  | submit hrow => simp [submitWrite, hrow] at hlog
  | acceptRollback hpc => rcases hpc with rfl | ⟨order, rfl⟩ <;> trivial
  | _ => trivial

/-- The entries that one statement appends to the log. -/
theorem log_step (h : Stmt env me x db k o) (hfail : x.fail = false) (hk : k.Knows db me) :
    ∃ new, o.store.statusWrites = db.statusWrites ++ new ∧
      ((∀ w ∈ new, canTransition w.replaced w.written = true) ↔ k.FindsEditable db) := by
  rcases h.jobs with ⟨-, hlog⟩ | ⟨-, -, hlog⟩ | ⟨w, job, hw, hfound, hmatched, -, hlog⟩
  · exact ⟨[], by simp [hlog], by simp [findsEditable_of_kept h hfail hlog]⟩
  · exact ⟨[], by simp [hlog], by simp [findsEditable_of_kept h hfail hlog]⟩
  · refine ⟨[w.entry me job], hlog, ?_⟩
    rw [List.forall_mem_singleton]
    exact canTransition_write_iff hk hw hfound hmatched

/-- A statement that finds the order editable where it must leaves a terminal status
as it is. -/
theorem terminal_step (h : Stmt env me x db k o) (hk : k.Knows db me)
    (hfinds : x.fail = false → k.FindsEditable db)
    (hfails : x.fail = true → o = k.goto (db.unlock me) (.threw .infrastructure)) {id : OrderId}
    {s : OrderStatus} (hs : db.statusOf id = some s) (hterminal : s.Terminal) :
    o.store.statusOf id = some s := by
  cases hx : x.fail with
  | true =>
      rw [hfails hx]
      exact hs
  | false =>
      rcases h.jobs.statusOf_before hs with hkept | ⟨w, job, hw, rfl, hjob, rfl, hmatched, -⟩
      · exact hkept
      · have hcan := (canTransition_write_iff hk hw hjob hmatched).mpr (hfinds hx)
        rw [not_canTransition_of_terminal hterminal] at hcan
        exact absurd hcan (by simp)

end Step

/-! ### Whole runs -/

section Run

variable {env : Env} {db : Db} {c' : Config Db Call} {ts : List (Transition Db Call Input)}

/-- The entries that one transition appends to the log. -/
theorem log_fires {t : Transition Db Call Input} (ht : (orders env).Fires t)
    (hknows : ∀ (i : ℕ) (k : Call), t.pre.calls[i]? = some k → k.Knows t.pre.store i) :
    ∃ new, t.post.store.statusWrites = t.pre.store.statusWrites ++ new ∧
      ((∀ w ∈ new, canTransition w.replaced w.written = true) ↔ WriteFindsEditable t) := by
  rcases stmt_of_fires ht with ⟨k, he, -, hpost⟩ | ⟨i, x, k, o, he, hi, -, h, hfails, hpost⟩
  · exact ⟨[], by simp [hpost], by simp [WriteFindsEditable, Transition.satisfies_start he]⟩
  · rw [hpost, WriteFindsEditable, Transition.satisfies_iff he hi]
    cases hx : x.fail with
    | true => exact ⟨[], by simp [hfails hx, Call.goto], by simp⟩
    | false => simpa using log_step h hx (hknows i k hi)

/-- An order in a terminal status stays there as long as the writes by id find their
orders editable. -/
theorem terminal_run (hrun : (orders env).Run ⟨db, []⟩ ts c')
    (hfinds : ∀ t ∈ ts, WriteFindsEditable t) {t : Transition Db Call Input} (ht : t ∈ ts)
    {id : OrderId} {s : OrderStatus} (hs : t.pre.store.statusOf id = some s)
    (hterminal : s.Terminal) : c'.store.statusOf id = some s := by
  have hknows := (knows_of_run hrun).2
  obtain ⟨after, hafter, hrest⟩ := hrun.suffix ht
  refine (hrest.invariant (fun c => c.store.statusOf id = some s) (fun t => t ∈ ts) hafter hs ?_).1
  intro t ht hts hpre
  rcases stmt_of_fires ht with ⟨k, -, -, hpost⟩ | ⟨i, x, k, o, he, hi, -, h, hfails, hpost⟩
  · rw [hpost]
    exact hpre
  · rw [hpost]
    have hfinds' := (Transition.satisfies_iff he hi).mp (hfinds t hts)
    exact terminal_step h (hknows t hts i k hi) hfinds' hfails hpre hterminal

/-- **The table governs a run if and only if every write by id finds its order
editable.** -/
theorem tableGoverns_iff (hrun : (orders env).Run ⟨db, []⟩ ts c') (hlog : db.statusWrites = []) :
    TableGoverns ts c' ↔ ∀ t ∈ ts, WriteFindsEditable t := by
  have hiff : (∀ w ∈ c'.store.statusWrites, canTransition w.replaced w.written = true) ↔
      ∀ t ∈ ts, WriteFindsEditable t := by
    rw [hrun.forall_log_iff Db.statusWrites _ WriteFindsEditable fun t ht =>
      log_fires (hrun.fires t ht) ((knows_of_run hrun).2 t ht)]
    simp [hlog]
  constructor
  · exact fun h => hiff.mp h.1
  · exact fun h => ⟨hiff.mpr h, fun t ht id s hs hterminal => terminal_run hrun h ht hs hterminal⟩

end Run

/-! ### A diagnosis that outlives its order -/

/-- One draft of customer 0. -/
def oneDraft : Db where
  categories := [{ basePriceMin := 100000, basePriceMax := 200000, active := true }]
  orders := [{ customerId := 0, categoryId := some 0, description := "" }]

/-- `diagnose` reads the draft and asks the AI; the customer cancels; the diagnosis
arrives. -/
def cancelDuringDiagnosis : List (Event Call Input) :=
  [.start ⟨.diagnose 0 0, .start⟩, .run 0 {}, .run 0 {}, .run 0 {},
    .start ⟨.lifecycle (.cancel 0 0), .start⟩, .run 1 {}, .run 1 {}, .run 0 {}]

theorem tableGoverns_iff_cancelDuringDiagnosis :
    TableGoverns ((orders .flat).trace ⟨oneDraft, []⟩ cancelDuringDiagnosis)
        ((orders .flat).after ⟨oneDraft, []⟩ cancelDuringDiagnosis) ↔
      ∀ t ∈ (orders .flat).trace ⟨oneDraft, []⟩ cancelDuringDiagnosis, WriteFindsEditable t :=
  tableGoverns_iff ((orders .flat).run_trace _ _) rfl

/-- The cancelled order is PRICED again. -/
theorem not_tableGoverns_always :
    ¬ ∀ (env : Env) (db : Db) (ts : List (Transition Db Call Input)) (c' : Config Db Call),
      (orders env).Run ⟨db, []⟩ ts c' → db.statusWrites = [] → TableGoverns ts c' := by
  intro h
  have hgoverns := (h .flat oneDraft _ _
    ((orders .flat).run_trace ⟨oneDraft, []⟩ cancelDuringDiagnosis) rfl).1
  have hwrites : ((orders .flat).after ⟨oneDraft, []⟩ cancelDuringDiagnosis).store.statusWrites =
      [⟨1, 0, .draft, .cancelledByCustomer, none⟩,
        ⟨0, 0, .cancelledByCustomer, .priced, none⟩] := by
    decide
  rw [hwrites] at hgoverns
  revert hgoverns
  decide

end Handly
