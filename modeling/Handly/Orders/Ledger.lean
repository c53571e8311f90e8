import Handly.Orders.Profiles
import Handly.Orders.TransitionTable

/-!
# The ledger of an order

In a run without editing calls every write of `Order.status` is guarded, so it moves
its order strictly further (`OrderStatus.progress`). The log of an order is then a
ledger in which no status is left twice. `Accounted` ties the log to the calls: which
call made an entry, and how many entries a call has made when it stands at a certain
point.
-/

namespace Handly

open Interleaving

/-- The committed writes of an order's status, oldest first. -/
def Db.writesOf (db : Db) (orderId : OrderId) : List StatusWrite :=
  db.statusWrites.filter fun e => e.orderId = orderId

/-- The number of committed writes by the call with index `i`. -/
def Db.authored (db : Db) (i : ℕ) : ℕ := db.statusWrites.countP fun e => e.author = i

section Step

variable {env : Env} {me : ℕ} {x : Input} {k : Call} {db : Db} {o : Outcome Db Call}
  {orderId : OrderId}

/-! ### One order's part of a statement -/

theorem mem_writesOf {e : StatusWrite} :
    e ∈ db.writesOf orderId ↔ e ∈ db.statusWrites ∧ e.orderId = orderId := by
  simp [Db.writesOf]

/-- What a statement does to one order and its part of the log. -/
theorem JobEffect.order_cases {db' : Db} (h : JobEffect me db k db') {job : Job}
    (hjob : db.jobs[orderId]? = some job) :
    (db'.jobs[orderId]? = some job ∧ db'.writesOf orderId = db.writesOf orderId) ∨
      ∃ w, k.Writes w ∧ w.orderId = orderId ∧ (∀ s ∈ w.whereStatus, job.status = s) ∧
        db'.jobs[orderId]? = some (w.apply job) ∧
        db'.writesOf orderId = db.writesOf orderId ++ [w.entry me job] := by
  have hlt := (List.getElem?_eq_some_iff.mp hjob).1
  cases h with
  | kept jobs log => exact Or.inl ⟨jobs ▸ hjob, by simp [Db.writesOf, log]⟩
  | created _ jobs log =>
      refine Or.inl ⟨?_, by simp [Db.writesOf, log]⟩
      rw [jobs, List.getElem?_append_left hlt]
      exact hjob
  | wrote w job' write found matched jobs log =>
      by_cases hid : w.orderId = orderId
      · subst hid
        obtain rfl : job' = job := Option.some.inj (found.symm.trans hjob)
        refine Or.inr ⟨w, write, rfl, matched, ?_, ?_⟩
        · rw [jobs, List.getElem?_set_self hlt]
        · simp [Db.writesOf, log, JobWrite.entry]
      · refine Or.inl ⟨?_, ?_⟩
        · rw [jobs, List.getElem?_set_ne hid]
          exact hjob
        · simp [Db.writesOf, log, JobWrite.entry, hid]

/-- A call that is not editing writes under a guard: its write follows the table, and
not back to the customer's draft. -/
theorem guarded_write (hk : k.Knows db me) (hedit : ¬ k.op.IsEditing) {w : JobWrite} {job : Job}
    (hw : k.Writes w) (hfound : db.jobs[w.orderId]? = some job)
    (hmatched : ∀ s ∈ w.whereStatus, job.status = s) :
    canTransition job.status w.status = true ∧ ¬ w.status.Editable := by
  have hfinds : k.FindsEditable db := by
    obtain ⟨op, pc⟩ := k
    cases op with
    | updateDraft | diagnose | submit => exact absurd trivial hedit
    | _ => cases pc <;> trivial
  refine ⟨(canTransition_write_iff hk hw hfound hmatched).mpr hfinds, ?_⟩
  cases hw with
  | updateDraft | diagnose | submit => exact absurd trivial hedit
  | @lifecycle l => cases l <;> simp [Lifecycle.spec, editable_iff]
  | accept | failSearch => simp [editable_iff]

/-! ### The ledger -/

/-- The order has been submitted, and each of its writes left it strictly further than
the one before. -/
structure Ledger (db : Db) (orderId : OrderId) : Prop where
  current : ∃ job, db.jobs[orderId]? = some job ∧ ¬ job.status.Editable ∧
    ∀ e ∈ db.writesOf orderId, e.written.progress ≤ job.status.progress
  forward : ∀ e ∈ db.writesOf orderId, e.replaced.progress < e.written.progress
  ordered : ((db.writesOf orderId).map fun e => e.replaced.progress).Pairwise (· < ·)

/-- A statement of a call that is not editing keeps the ledger. -/
theorem Ledger.step (hl : Ledger db orderId) (h : Stmt env me x db k o) (hk : k.Knows db me)
    (hedit : ¬ k.op.IsEditing) : Ledger o.store orderId := by
  obtain ⟨job, hjob, hsubmitted, hbound⟩ := hl.current
  rcases h.jobs.order_cases hjob with ⟨hjob', hwrites⟩ | ⟨w, hw, rfl, hmatched, hjob', hwrites⟩
  · exact ⟨⟨job, hjob', hsubmitted, hwrites ▸ hbound⟩, hwrites ▸ hl.forward, hwrites ▸ hl.ordered⟩
  · obtain ⟨hcan, hnot⟩ := guarded_write hk hedit hw hjob hmatched
    have hfurther : job.status.progress < w.status.progress :=
      progress_lt_of_canTransition hcan hnot
    refine ⟨⟨w.apply job, hjob', hnot, ?_⟩, ?_, ?_⟩
    · rw [hwrites, List.forall_mem_append, List.forall_mem_singleton]
      exact ⟨fun e he => (hbound e he).trans hfurther.le, le_rfl⟩
    · rw [hwrites, List.forall_mem_append, List.forall_mem_singleton]
      exact ⟨hl.forward, hfurther⟩
    · rw [hwrites, List.map_append, List.map_singleton, List.pairwise_append]
      refine ⟨hl.ordered, List.pairwise_singleton _ _, ?_⟩
      intro a ha b hb
      obtain ⟨e, he, rfl⟩ := List.mem_map.mp ha
      obtain rfl := List.mem_singleton.mp hb
      -- What an earlier entry left lies before what it wrote, and so before the present.
      calc e.replaced.progress < e.written.progress := hl.forward e he
        _ ≤ job.status.progress := hbound e he

/-- No status is left twice. -/
theorem Ledger.nodup (hl : Ledger db orderId) :
    ((db.writesOf orderId).map StatusWrite.replaced).Nodup := by
  have hprogress : (((db.writesOf orderId).map StatusWrite.replaced).map
      OrderStatus.progress).Nodup := by
    rw [List.map_map]
    exact hl.ordered.imp fun h => h.ne
  exact hprogress.of_map

/-! ### Entries and their calls -/

/-- What an entry of the log says about the call that made it. -/
def Op.Makes (op : Op) (e : StatusWrite) : Prop :=
  match op with
  | .lifecycle l => e.orderId = l.spec.orderId ∧ e.written = l.spec.target
  | .acceptOffer _ _ => e.written = .assigned
  | _ => e.written = .expired

/-- The number of entries that a call at this point has made. Only a search that goes on
in the background may end with or without one. -/
def Call.Accounts (k : Call) (n : ℕ) : Prop :=
  match k.op, k.pc with
  | .lifecycle _, .after _ _ | .lifecycle _, .returned | .acceptOffer _ _, .returned
  | .failSearch _ _, .after _ none | _, .failSearchHistory _ _ _ => n = 1
  | .lifecycle _, _ | .acceptOffer _ _, _ => n = 0
  | _, .after _ none | _, .returned => n ≤ 1
  | _, _ => n = 0

/-- The log is accounted for by the calls. -/
structure Accounted (c : Config Db Call) : Prop where
  made : ∀ e ∈ c.store.statusWrites, ∃ k, c.calls[e.author]? = some k ∧ k.op.Makes e
  counts : ∀ (i : ℕ) (k : Call), c.calls[i]? = some k → k.Accounts (c.store.authored i)

/-- An entry is made by the call that its author says. -/
theorem makes_of_writes (hedit : ¬ k.op.IsEditing) (htrack : k.OnTrack) {w : JobWrite}
    (hw : k.Writes w) (job : Job) : k.op.Makes (w.entry me job) := by
  cases hw with
  | updateDraft | diagnose | submit => exact absurd trivial hedit
  | lifecycle => exact ⟨rfl, rfl⟩
  | accept => rfl
  | @failSearch op =>
      cases op with
      | lifecycle | acceptOffer => exact htrack.elim
      | _ => rfl

/-- A statement makes at most one entry, of its own call. -/
theorem JobEffect.authored {db' : Db} (h : JobEffect me db k db') (i : ℕ) :
    db'.authored i = db.authored i ∨ (i = me ∧ db'.authored i = db.authored i + 1 ∧
      ∃ w, k.Writes w) := by
  cases h with
  | kept _ log | created _ _ log => exact Or.inl (by simp [Db.authored, log])
  | wrote w job write _ _ _ log =>
      by_cases hi : me = i
      · subst hi
        exact Or.inr ⟨rfl, by simp [Db.authored, log, JobWrite.entry], w, write⟩
      · exact Or.inl (by simp [Db.authored, log, JobWrite.entry, hi])

/-- No call has made two entries. -/
theorem Call.Accounts.le_one {n : ℕ} (h : k.Accounts n) : n ≤ 1 := by
  obtain ⟨op, pc⟩ := k
  unfold Call.Accounts at h
  split at h <;> omega

/-- A call that only reads makes no entry. -/
theorem Reads.accounts {op : Op} {pc pc' : Pc} {n : ℕ} (h : Reads env x db op pc pc')
    (htrack : Call.OnTrack ⟨op, pc⟩) (hexist : Call.MastersExist ⟨op, pc⟩ db)
    (hn : Call.Accounts ⟨op, pc⟩ n) : Call.Accounts ⟨op, pc'⟩ n := by
  have hnone : n = 0 → n ≤ 1 := fun h => h ▸ zero_le_one
  cases h with
  | @followupThrows _ f todo next e hf =>
      exact absurd hf (Followup.run_ne_error fun m hm => hexist m (by simp [hm]))
  | @done op =>
      cases op with
      | acceptOffer => exact htrack.elim
      | failSearch => exact Nat.le_of_eq hn
      | _ => exact hn
  | @refused op | @guarded op | @cascades op | @cascadeCounts op | @cascadePicks op
  | @cascadeExpands op | @cascadeExhausted op | @cascadeRetries op =>
      cases op <;> first | exact hn | exact htrack.elim
  | @failSearchLost op => cases op <;> first | exact htrack.elim | exact hnone hn
  | @cascadeStops op pc orderId attempt henter =>
      cases henter with
      | cascade => cases op <;> first | exact htrack.elim | exact hnone hn
      | startDispatch | cascadeNext => exact hnone hn
  | @cascadeMissing op _ _ _ henter | @cascadeReads op _ _ _ _ _ henter =>
      cases henter with
      | cascade => cases op <;> first | exact htrack.elim | exact hn
      | startDispatch | cascadeNext => exact hn
  | @failSearchStops op _ _ _ henter =>
      cases henter with
      | cascade => cases op <;> first | exact htrack.elim | exact hnone hn
      | direct => exact hnone hn
  | @failSearchReads op _ _ _ _ henter =>
      cases henter with
      | cascade => cases op <;> first | exact htrack.elim | exact hn
      | direct => exact hn
  | declineNoop | expiryNoop | expiryMissing => exact hnone hn
  | _ => exact hn

/-- The entries of the call that ran, if a statement fails only in a call that has made
none. -/
theorem Stmt.accounts (h : Stmt env me x db k o) (hk : k.Knows db me) (hedit : ¬ k.op.IsEditing)
    (htrack : k.OnTrack) (hexist : k.MastersExist db)
    (hfaults : x.fail = true → db.authored me = 0) (hn : k.Accounts (db.authored me)) :
    o.call.Accounts (o.store.authored me) := by
  have hentry : ∀ (db' : Db) {e : StatusWrite}, db'.statusWrites = db.statusWrites ++ [e] →
      e.author = me → db.authored me = 0 → db'.authored me = 1 := by
    intro db' e hlog hauthor hzero
    rw [Db.authored] at hzero ⊢
    rw [hlog, List.countP_append, hzero]
    simp [hauthor]
  have hsame : ∀ {db' : Db}, db'.statusWrites = db.statusWrites →
      db'.authored me = db.authored me := by
    intro db' hlog
    rw [Db.authored, Db.authored, hlog]
  cases h with
  | @fails op pc hx =>
      have hzero : (db.unlock me).authored me = 0 := hfaults hx
      rw [hzero]
      cases op <;> rfl
  | reads hr => exact hr.accounts htrack hexist hn
  | createDraft =>
      have hzero : db.authored me = 0 := hn
      rw [hsame (by simp [createDraftWrite]), hzero]
      exact zero_le_one
  | updateDraft | diagnose | submit => exact absurd trivial hedit
  | @lifecycle l order row hrow hst =>
      refine hentry _ (e := ⟨me, l.spec.orderId, row.status, l.spec.target,
        (l.spec.data x.now row).masterId⟩) ?_ rfl hn
      rw [GuardedTransition.write, (GuardedTransition.credit_frame _ _ _).2.2.2.1]
      simp [hrow]
  | @accept dispatchId masterId dispatch order =>
      obtain ⟨-, -, hrow, -⟩ := hk
      refine hentry _
        (e := ⟨me, dispatch.orderId, order.status, .assigned, some masterId⟩) ?_ rfl hn
      simp [acceptWrite, hrow]
  | acceptRollback hpc => rcases hpc with rfl | ⟨order, rfl⟩ <;> exact hn
  | @followup op f todo next db' hf =>
      rw [hsame (Followup.run_frame hf).2.2.2.1]
      cases op <;> cases next <;> exact hn
  | @cascadeInsert op orderId =>
      rw [hsame (by simp)]
      cases op <;> first | exact htrack.elim | exact hn
  | @cascadeEnqueue op =>
      rw [hsame (by simp)]
      cases op <;> first | exact htrack.elim | exact (Nat.le_of_eq hn).trans zero_le_one
  | @failSearchUpdate op orderId reason order row hrow =>
      have hzero : db.authored me = 0 := by
        cases op <;> first | exact htrack.elim | exact hn
      have hone := hentry (Handly.failSearchUpdate db me orderId)
        (e := ⟨me, orderId, row.status, .expired, row.masterId⟩)
        (by simp [Handly.failSearchUpdate, hrow]) rfl hzero
      rw [hone]
      cases op <;> rfl
  | @failSearchRecord op =>
      rw [hsame (by simp [Handly.failSearchRecord])]
      cases op <;> first | exact htrack.elim | exact Nat.le_of_eq hn | exact hn
  | acceptLock | decline | expiry => exact hn

end Step

/-! ### Whole runs -/

/-- A statement fails only in a call that has not committed a write of `Order.status`. -/
def FailsBeforeCommit (t : Transition Db Call Input) : Prop :=
  t.Satisfies fun i x _ db => x.fail = true → db.authored i = 0

section Run

variable {env : Env} {db : Db} {c' : Config Db Call} {ts : List (Transition Db Call Input)}

/-- The ledger of a submitted order is kept by a run without editing calls. -/
theorem ledger_of_run (hrun : (orders env).Run ⟨db, []⟩ ts c') (hstarts : ∀ t ∈ ts, NoEditing t)
    {orderId : OrderId} (hledger : Ledger db orderId) :
    Ledger c'.store orderId ∧ ∀ t ∈ ts, Ledger t.pre.store orderId := by
  have hknows := (knows_of_run hrun).2
  have hedit := unedited_of_run hrun hstarts
  obtain ⟨hend, hall⟩ := hrun.invariant (fun c => Ledger c.store orderId) (fun t => t ∈ ts)
    (fun _ ht => ht) hledger fun t ht hts hpre => by
      rcases stmt_of_fires ht with ⟨k, -, -, hpost⟩ | ⟨i, x, k, o, -, hi, -, h, -, hpost⟩
      · rw [hpost]
        exact hpre
      · rw [hpost]
        exact hpre.step h (hknows t hts i k hi) (hedit t hts i k hi)
  exact ⟨hend, fun t ht => (hall t ht).1⟩

/-- A call keeps its index and its method. -/
theorem op_fires {t : Transition Db Call Input} (ht : (orders env).Fires t) {i : ℕ} {k : Call}
    (hk : t.pre.calls[i]? = some k) : ∃ k', t.post.calls[i]? = some k' ∧ k'.op = k.op := by
  rcases ht.calls_getElem? hk with hsame | ⟨x, o, -, hstep, -, hran⟩
  · exact ⟨k, hsame, rfl⟩
  · exact ⟨o.call, hran, (step_cases hstep).2.1.op_eq⟩

/-- A new entry is made by the call that runs. -/
theorem made_fires {t : Transition Db Call Input} (ht : (orders env).Fires t)
    (hedit : ∀ (i : ℕ) (k : Call), t.pre.calls[i]? = some k → ¬ k.op.IsEditing)
    (htrack : ∀ (i : ℕ) (k : Call), t.pre.calls[i]? = some k → k.OnTrack)
    (hacc : Accounted t.pre) {e : StatusWrite} (he : e ∈ t.post.store.statusWrites) :
    ∃ k, t.post.calls[e.author]? = some k ∧ k.op.Makes e := by
  have hold : e ∈ t.pre.store.statusWrites → ∃ k, t.post.calls[e.author]? = some k ∧
      k.op.Makes e := by
    intro hmem
    obtain ⟨k, hk, hmakes⟩ := hacc.made e hmem
    obtain ⟨k', hk', hop⟩ := op_fires ht hk
    exact ⟨k', hk', hop ▸ hmakes⟩
  rcases stmt_of_fires ht with ⟨k, -, -, hpost⟩ | ⟨i, x, k, o, -, hi, -, h, -, hpost⟩
  · rw [hpost] at he
    exact hold he
  · rw [hpost] at he
    rcases h.jobs.mem_log he with hmem | ⟨w, job, hw, rfl⟩
    · exact hold hmem
    · refine ⟨o.call, ?_, ?_⟩
      · exact Machine.getElem?_of_post hi hpost
      · rw [h.op_eq]
        exact makes_of_writes (hedit i k hi) (htrack i k hi) hw job

/-- Every call has made the entries that it should. -/
theorem counts_fires {t : Transition Db Call Input} (ht : (orders env).Fires t)
    (hknows : ∀ (i : ℕ) (k : Call), t.pre.calls[i]? = some k → k.Knows t.pre.store i)
    (hedit : ∀ (i : ℕ) (k : Call), t.pre.calls[i]? = some k → ¬ k.op.IsEditing)
    (htrack : ∀ (i : ℕ) (k : Call), t.pre.calls[i]? = some k → k.OnTrack)
    (hexist : ∀ (i : ℕ) (k : Call), t.pre.calls[i]? = some k → k.MastersExist t.pre.store)
    (hfaults : FailsBeforeCommit t) (hacc : Accounted t.pre) {j : ℕ} {k' : Call}
    (hj : t.post.calls[j]? = some k') : k'.Accounts (t.post.store.authored j) := by
  rcases stmt_of_fires ht with ⟨k, he, hpc, hpost⟩ | ⟨i, x, k, o, he, hi, -, h, -, hpost⟩
  · rw [hpost] at hj ⊢
    by_cases hlt : j < t.pre.calls.length
    · exact hacc.counts j k' (by rwa [List.getElem?_append_left hlt] at hj)
    · -- Nothing has been written by the call that starts.
      have hzero : t.pre.store.authored j = 0 := by
        refine List.countP_eq_zero.mpr fun e hmem => ?_
        obtain ⟨k, hk, -⟩ := hacc.made e hmem
        have hauthor := (List.getElem?_eq_some_iff.mp hk).1
        simp only [decide_eq_true_eq]
        omega
      rw [List.getElem?_append_right (Nat.not_lt.mp hlt)] at hj
      obtain rfl : k' = k := by simpa using List.mem_of_getElem? hj
      obtain ⟨op, pc⟩ := k'
      obtain rfl : pc = .start := hpc
      rw [hzero]
      cases op <;> rfl
  · have hspawned : o.spawned = [] :=
      h.spawned_eq_nil fun c id hop => hedit i k hi (hop ▸ trivial)
    rw [hpost, hspawned, List.append_nil, List.getElem?_set] at hj
    rw [hpost]
    split at hj
    · rename_i hij
      subst hij
      rw [if_pos (List.getElem?_eq_some_iff.mp hi).1] at hj
      obtain rfl := Option.some.inj hj
      exact h.accounts (hknows i k hi) (hedit i k hi) (htrack i k hi) (hexist i k hi)
        ((Transition.satisfies_iff he hi).mp hfaults) (hacc.counts i k hi)
    · rename_i hij
      rcases h.jobs.authored j with hsame | ⟨hme, -, -⟩
      · rw [hsame]
        exact hacc.counts j k' hj
      · exact absurd hme.symm hij

/-- In a run without editing calls whose statements do not fail after a commit, the log
is accounted for. -/
theorem accounted_of_run (hrun : (orders env).Run ⟨db, []⟩ ts c')
    (hstarts : ∀ t ∈ ts, NoEditing t) (hfaults : ∀ t ∈ ts, FailsBeforeCommit t)
    (hmasters : db.MastersExist) (hlog : db.statusWrites = []) :
    Accounted c' ∧ ∀ t ∈ ts, Accounted t.pre := by
  have hknows := (knows_of_run hrun).2
  have hedit := unedited_of_run hrun hstarts
  have htrack := (onTrack_of_run hrun).2
  have hexist := mastersExist_of_run hrun hmasters
  obtain ⟨hend, hall⟩ := hrun.invariant Accounted (fun t => t ∈ ts) (fun _ ht => ht)
    ⟨fun e he => by simp [hlog] at he, fun i k hk => by simp at hk⟩ fun t ht hts hacc =>
      ⟨fun e he => made_fires ht (hedit t hts) (htrack t hts) hacc he,
        fun j k' hj => counts_fires ht (hknows t hts) (hedit t hts) (htrack t hts)
          (hexist t hts) (hfaults t hts) hacc hj⟩
  exact ⟨hend, fun t ht => (hall t ht).1⟩

/-- The log only grows. -/
theorem log_of_run {c c' : Config Db Call} {ts : List (Transition Db Call Input)}
    (hrun : (orders env).Run c ts c') : c.store.statusWrites <+: c'.store.statusWrites := by
  refine (hrun.always (fun d => c.store.statusWrites <+: d.store.statusWrites)
    List.prefix_rfl ?_).1
  intro t ht hprefix
  rcases stmt_of_fires ht with ⟨k, -, -, hpost⟩ | ⟨i, x, k, o, -, -, -, h, -, hpost⟩
  · rw [hpost]
    exact hprefix
  · rw [hpost]
    obtain ⟨new, hnew, -⟩ := h.jobs.log
    exact hprefix.trans ⟨new, hnew.symm⟩

end Run

end Handly
