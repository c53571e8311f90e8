import Handly.Orders.Bookkeeping
import Handly.Orders.Records
import Mathlib.Data.List.Chain

/-!
# Status and history

The history of an order is written with its status: by a nested create, or in the same
transaction. When calls run one at a time, a call records the change from the status that
is in the table, so the rows form a chain that ends at the status of the order. The one
exception is `failSearch`, whose history row is a statement of its own. After its update
status and history disagree, and they go on to disagree if the process stops there: a stop
is a statement that fails.
-/

namespace Handly

open Interleaving

/-- The history rows of the order lead from its creation as DRAFT to the status. -/
structure Db.Tracks (db : Db) (orderId : OrderId) (status : OrderStatus) : Prop where
  created : (db.recorded orderId).head? = some (none, .draft)
  chained : (db.recorded orderId).IsChain fun a b => b.1 = some a.2
  latest : (db.recorded orderId).getLast?.map Prod.snd = some status

/-- Status and history agree. -/
structure HistoryAgrees (db : Db) : Prop where
  tracks : ∀ orderId status, db.statusOf orderId = some status → db.Tracks orderId status
  /-- The foreign key of the history. -/
  refers : ∀ r ∈ db.history, r.orderId < db.orders.length

/-- The statement is not the update of `failSearch`. -/
def ExpiresNothing (_me : ℕ) (x : Input) (k : Call) (_db : Db) : Prop :=
  match k.pc with
  | .failSearchWrite _ _ _ => x.fail = true
  | _ => True

instance (me : ℕ) (x : Input) (k : Call) (db : Db) : Decidable (ExpiresNothing me x k db) :=
  decidable_of_bool (match k.pc with | .failSearchWrite _ _ _ => x.fail | _ => true)
    (by unfold ExpiresNothing; split <;> simp only)

/-- The call has not just expired an order. -/
def Call.HasRecorded (k : Call) : Prop :=
  match k.pc with
  | .failSearchHistory _ _ _ => False
  | _ => True

section Agreement

variable {env : Env} {me : ℕ} {x : Input} {k : Call} {db db' : Db} {o : Outcome Db Call}
  {orderId : OrderId}

/-- One more change continues the chain if it starts from the status reached so far. -/
theorem Db.Tracks.append {status next : OrderStatus} (h : db.Tracks orderId status)
    (hrecorded : db'.recorded orderId = db.recorded orderId ++ [(some status, next)]) :
    db'.Tracks orderId next := by
  obtain ⟨hcreated, hchained, hlatest⟩ := h
  obtain ⟨last, hlast, hstatus⟩ := Option.map_eq_some_iff.mp hlatest
  refine ⟨?_, ?_, ?_⟩
  · rw [hrecorded, List.head?_append, hcreated, Option.some_or]
  · rw [hrecorded]
    refine hchained.append (List.isChain_singleton _) fun a ha b hb => ?_
    obtain rfl : last = a := Option.some.inj (hlast.symm.trans ha)
    obtain rfl : (some status, next) = b := Option.some.inj hb
    rw [hstatus]
  · rw [hrecorded, List.getLast?_concat]
    rfl

/-- A statement that changes no status and writes no history. -/
theorem HistoryAgrees.congr (h : HistoryAgrees db) (hjobs : db'.jobs = db.jobs)
    (hhistory : db'.history = db.history) : HistoryAgrees db' := by
  have hlen : db'.orders.length = db.orders.length := by
    simpa [Db.jobs] using congrArg List.length hjobs
  refine ⟨fun orderId status hst => ?_, fun r hr => ?_⟩
  · rw [Db.statusOf_eq_jobs, hjobs, ← Db.statusOf_eq_jobs] at hst
    obtain ⟨hcreated, hchained, hlatest⟩ := h.tracks orderId status hst
    exact ⟨by rwa [recorded_congr hhistory], by rwa [recorded_congr hhistory],
      by rwa [recorded_congr hhistory]⟩
  · rw [hlen]
    exact h.refers r (hhistory ▸ hr)

/-- A write of the status together with its history row. -/
theorem HistoryAgrees.write (h : HistoryAgrees db) {row : Order} {r : OrderStatusHistory}
    {job : Job} (hrow : db.orders[r.orderId]? = some row) (hfrom : r.fromStatus = some row.status)
    (hjobs : db'.jobs = db.jobs.set r.orderId job) (hstatus : job.status = r.toStatus)
    (hhistory : db'.history = db.history ++ [r]) : HistoryAgrees db' := by
  have hlt : r.orderId < db.orders.length := (List.getElem?_eq_some_iff.mp hrow).1
  have hlen : db'.orders.length = db.orders.length := by
    simpa [Db.jobs] using congrArg List.length hjobs
  have hrecorded : ∀ id, db'.recorded id =
      db.recorded id ++ if r.orderId = id then [(r.fromStatus, r.toStatus)] else [] := by
    intro id
    have hcongr : db'.recorded id = (db.createHistory r).recorded id := recorded_congr hhistory
    exact hcongr.trans (recorded_createHistory db)
  refine ⟨fun id status hst => ?_, fun r' hr' => ?_⟩
  · have hrec := hrecorded id
    rw [Db.statusOf_eq_jobs, hjobs, List.getElem?_set] at hst
    by_cases hid : r.orderId = id
    · subst hid
      obtain rfl : r.toStatus = status := by
        simpa [Db.jobs, hlt, hstatus] using hst
      rw [if_pos rfl, hfrom] at hrec
      exact (h.tracks r.orderId row.status (by simp [Db.statusOf, hrow])).append hrec
    · rw [if_neg hid, ← Db.statusOf_eq_jobs] at hst
      rw [if_neg hid, List.append_nil] at hrec
      obtain ⟨hcreated, hchained, hlatest⟩ := h.tracks id status hst
      exact ⟨by rwa [hrec], by rwa [hrec], by rwa [hrec]⟩
  · rw [hlen]
    rw [hhistory] at hr'
    rcases List.mem_append.mp hr' with hold | hnew
    · exact h.refers r' hold
    · obtain rfl := List.mem_singleton.mp hnew
      exact hlt

theorem historyAgrees_createDraft (h : HistoryAgrees db) (now : Time) (customerId : UserId)
    (dto : OrderCreateInput) : HistoryAgrees (createDraftWrite db now customerId dto) := by
  have hrecorded : ∀ id, (createDraftWrite db now customerId dto).recorded id =
      db.recorded id ++ if db.orders.length = id then [(none, .draft)] else [] := fun id =>
    recorded_createHistory (db.createOrder (draftOf customerId dto))
  refine ⟨fun id status hst => ?_, fun r hr => ?_⟩
  · have hrec := hrecorded id
    obtain ⟨row, hrow, hstatus⟩ := Db.statusOf_eq_some.mp hst
    rcases Table.of_append hrow with hold | ⟨rfl, rfl⟩
    · have hne : db.orders.length ≠ id := (List.getElem?_eq_some_iff.mp hold).1.ne'
      rw [if_neg hne, List.append_nil] at hrec
      obtain ⟨hcreated, hchained, hlatest⟩ :=
        h.tracks id status (Db.statusOf_eq_some.mpr ⟨row, hold, hstatus⟩)
      exact ⟨by rwa [hrec], by rwa [hrec], by rwa [hrec]⟩
    · -- The new order has no history yet.
      have hnone : db.recorded db.orders.length = [] := by
        simp only [Db.recorded, List.map_eq_nil_iff, List.filter_eq_nil_iff, decide_eq_true_eq]
        exact fun r hr => (h.refers r hr).ne
      rw [if_pos rfl, hnone, List.nil_append] at hrec
      obtain rfl : .draft = status := hstatus
      exact ⟨by rw [hrec]; rfl, by rw [hrec]; exact List.isChain_singleton _, by rw [hrec]; rfl⟩
  · have hlen : (createDraftWrite db now customerId dto).orders.length = db.orders.length + 1 := by
      simp [createDraftWrite]
    rw [hlen]
    rcases List.mem_append.mp hr with hold | hnew
    · exact Nat.lt_succ_of_lt (h.refers r hold)
    · obtain rfl := List.mem_singleton.mp hnew
      exact Nat.lt_succ_self _

/-- **What a statement does to status and history**: they go on to agree, if it is not one of
`failSearch`'s two. -/
theorem Stmt.historyAgrees (h : Stmt env me x db k o) (hcur : k.Current db)
    (hexpires : ExpiresNothing me x k db) (hrecorded : k.HasRecorded)
    (hfails : x.fail = true → o = k.goto (db.unlock me) (.threw .infrastructure))
    (hI : HistoryAgrees db) : HistoryAgrees o.store := by
  cases h with
  | createDraft => exact historyAgrees_createDraft hI _ _ _
  | @updateDraft customerId orderId dto order row hrow hlock =>
      obtain rfl := Option.some.inj (hcur.1.symm.trans hrow)
      cases hinv : invalidatesQuote order dto with
      | false =>
          refine hI.congr ?_ (by simp [updateDraftWrite, hinv])
          simp only [Db.jobs, updateDraftWrite, hinv, Bool.false_eq_true, if_false,
            Db.updateOrder_orders]
          exact Table.map_modify_eq (by intro row; rfl) _ _
      | true =>
          have hpriced : order.status = .priced := by
            simp only [invalidatesQuote, Bool.and_eq_true, decide_eq_true_eq] at hinv
            exact hinv.1
          have hjobs : (updateDraftWrite db me x.now customerId orderId dto order).jobs =
              db.jobs.set orderId { order.job with status := .draft } := by
            simp only [updateDraftWrite, hinv, if_true, Db.jobs, Db.createHistory_orders,
              Db.setStatus_orders]
            exact Table.map_modify hrow
          exact hI.write (r := ⟨orderId, some .priced, .draft, some customerId,
            some "edited-after-quote", x.now⟩) hrow (by rw [hpriced]) hjobs rfl
            (by simp [updateDraftWrite, hinv])
  | @diagnose customerId orderId order diagnosis categoryId quote row hrow =>
      obtain rfl := Option.some.inj (hcur.1.1.symm.trans hrow)
      exact hI.write (r := ⟨orderId, _, .priced, some customerId, _, x.now⟩)
        hrow rfl (Table.map_modify hrow) rfl rfl
  | @submit customerId orderId order row hrow =>
      obtain rfl := Option.some.inj (hcur.1.symm.trans hrow)
      exact hI.write (r := ⟨orderId, _, .searching, some customerId, none, x.now⟩)
        hrow rfl (Table.map_modify hrow) rfl rfl
  | @lifecycle l order row hrow hst =>
      obtain ⟨-, -, hhistory, -⟩ := GuardedTransition.credit_frame l.spec order
        ((db.setStatus me l.spec.orderId l.spec.target (l.spec.data x.now)).createHistory
          { orderId := l.spec.orderId, fromStatus := some order.status, toStatus := l.spec.target,
            actorId := some l.spec.actorId, note := l.spec.note, createdAt := x.now })
      exact hI.write (r := ⟨l.spec.orderId, some order.status, l.spec.target,
        some l.spec.actorId, l.spec.note, x.now⟩) hrow (by rw [hst])
        (lifecycleWrite_jobs l me x.now order hrow) rfl hhistory
  | @accept dispatchId masterId dispatch order =>
      have hrow : db.orders[dispatch.orderId]? = some order := hcur.2.1
      exact hI.write (r := ⟨dispatch.orderId, some order.status, .assigned, some masterId, none,
        x.now⟩) hrow rfl (Table.map_modify hrow) rfl rfl
  | followup hf =>
      obtain ⟨horders, -, hhistory, -⟩ := Followup.run_frame hf
      exact hI.congr (by simp [Db.jobs, horders]) hhistory
  | failSearchUpdate =>
      have hx : x.fail = true := hexpires
      rw [hfails hx]
      exact hI.congr rfl rfl
  | failSearchRecord => exact hrecorded.elim
  | fails | reads | acceptLock | acceptRollback | decline | expiry | cascadeInsert
  | cascadeEnqueue => exact hI.congr rfl rfl

/-- A call that does not expire an order owes no history. -/
theorem Stmt.hasRecorded (h : Stmt env me x db k o) (hexpires : ExpiresNothing me x k db)
    (hfails : x.fail = true → o = k.goto (db.unlock me) (.threw .infrastructure)) :
    o.call.HasRecorded := by
  cases h with
  | reads hr => cases hr <;> trivial
  | failSearchUpdate =>
      have hx : x.fail = true := hexpires
      rw [hfails hx]
      trivial
  | _ => trivial

/-- After the update of `failSearch` status and history disagree. -/
theorem not_historyAgrees_expired (hI : HistoryAgrees db) {orderId : OrderId} {row : Order}
    (hrow : db.orders[orderId]? = some row) (hst : row.status = .searching) :
    ¬ HistoryAgrees (failSearchUpdate db me orderId) := by
  intro hI'
  have hbefore := (hI.tracks orderId .searching (by simp [Db.statusOf, hrow, hst])).latest
  have hafter := (hI'.tracks orderId .expired
    (by simp [Db.statusOf, failSearchUpdate, hrow])).latest
  have hsame : (failSearchUpdate db me orderId).recorded orderId = db.recorded orderId := rfl
  rw [hsame, hbefore] at hafter
  simp at hafter

end Agreement

/-! ### Whole runs -/

section Run

variable {env : Env} {db : Db} {c' : Config Db Call} {ts : List (Transition Db Call Input)}
  {t : Transition Db Call Input}

/-- Calls that run one at a time act on what they have read. -/
def currents (env : Env) : Outline (orders env) OneAtATime :=
  outline env _ (fun _ => True) (fun db _ k => k.Current db) (fun _ _ _ _ => trivial)
    (fun _ _ _ _ _ _ _ _ h _ _ hL => ⟨trivial, h.current hL⟩)
    (fun _ i x k _ j k' hC he hk hk' _ hne _ _ _ =>
      Call.current_of_idle (hC i x k he hk (k', j) (List.mem_zipIdx_iff_getElem?.mpr hk')
        (Ne.symm hne)))

/-- As long as nothing expires, no call owes history, and status and history agree. -/
def agreement (env : Env) :
    Outline (orders env) fun t => OneAtATime t ∧ t.Satisfies ExpiresNothing :=
  outline env _ HistoryAgrees (fun db _ k => k.Current db ∧ k.HasRecorded)
    (fun _ _ _ _ => ⟨trivial, trivial⟩)
    (fun _ i x k _ hC he hk h hfails hG hL =>
      ⟨h.historyAgrees hL.1 (hC.2 i x k he hk) hL.2 hfails hG,
        h.current hL.1, h.hasRecorded (hC.2 i x k he hk) hfails⟩)
    (fun _ i x k _ j k' hC he hk hk' _ hne _ _ hL => by
      have hidle := hC.1 i x k he hk (k', j) (List.mem_zipIdx_iff_getElem?.mpr hk') (Ne.symm hne)
      exact ⟨Call.current_of_idle hidle, hL.2⟩)

/-- A transition that keeps status and history in agreement expires nothing. -/
theorem expiresNothing_of_historyAgrees (ht : (orders env).Fires t)
    (hcur : ∀ (i : ℕ) (k : Call), t.pre.calls[i]? = some k → k.Current t.pre.store)
    (hpre : HistoryAgrees t.pre.store) (hpost : HistoryAgrees t.post.store) :
    t.Satisfies ExpiresNothing := by
  intro i x k he hk
  obtain ⟨k', o, hk', h, hafter, -⟩ := stmt_of_event ht he
  obtain rfl := Option.some.inj (hk.symm.trans hk')
  have hread := hcur i k hk
  obtain ⟨op, pc⟩ := k
  cases pc with
  | failSearchWrite orderId reason order =>
      show x.fail = true
      by_contra hx
      obtain ⟨hrow, hst⟩ : _ ∧ _ := hread
      rw [hafter] at hpost
      cases h with
      | fails hfail => exact hx hfail
      | reads hr =>
          cases hr with
          | failSearchLost hne => exact hne (by simp [Db.statusOf, hrow])
          | cascadeStops henter | cascadeMissing henter | cascadeReads henter
          | failSearchStops henter | failSearchReads henter => cases henter
      | acceptRollback hpc => simp at hpc
      | failSearchUpdate => exact not_historyAgrees_expired hpre hrow hst hpost
  | _ => trivial

/-- **When status and history agree in every committed state** of calls that run one after
another: exactly if `failSearch` expires no order. -/
theorem historyAgrees_iff (hrun : (orders env).Run ⟨db, []⟩ ts c')
    (hone : ∀ t ∈ ts, OneAtATime t) (h0 : HistoryAgrees db) :
    (∀ t ∈ ts, HistoryAgrees t.post.store) ↔ ∀ t ∈ ts, t.Satisfies ExpiresNothing := by
  constructor
  · intro hagrees t ht
    have hcur := (((currents env).holds_run hrun hone ⟨trivial, by simp⟩).2 t ht).1.2
    obtain ⟨before, after, rfl, hbefore, -⟩ := hrun.split t ht
    have hpre : HistoryAgrees t.pre.store :=
      hbefore.last (I := fun c => HistoryAgrees c.store) h0
        fun t' ht' => hagrees t' (List.mem_append_left _ ht')
    exact expiresNothing_of_historyAgrees (hrun.fires t ht) hcur hpre (hagrees t ht)
  · intro hexpires t ht
    have hall := ((agreement env).holds_run hrun (fun t ht => ⟨hone t ht, hexpires t ht⟩)
      ⟨h0, by simp⟩).2
    exact (hall t ht).2.1

end Run

theorem historyAgrees_oneMaster : HistoryAgrees oneMaster := by
  refine ⟨fun orderId status hst => ?_, fun r hr => ?_⟩
  · simp [Db.statusOf, oneMaster] at hst
  · simp [oneMaster] at hr

/-- An order that is made, quoted, searched for, accepted, completed and closed. -/
theorem historyAgrees_wholeLife :
    HistoryAgrees ((orders .flat).after ⟨oneMaster, []⟩ wholeLife).store := by
  have hrun := (orders .flat).run_trace ⟨oneMaster, []⟩ wholeLife
  exact hrun.last (I := fun c => HistoryAgrees c.store) historyAgrees_oneMaster
    ((historyAgrees_iff hrun (by decide +kernel) historyAgrees_oneMaster).mpr (by decide +kernel))

/-- A SEARCHING order without a category. -/
def searchingNowhere : Db where
  orders := [{ customerId := 0, categoryId := none, description := "", status := .searching }]
  history :=
    [⟨0, none, .draft, some 0, none, 0⟩, ⟨0, some .draft, .priced, some 0, none, 0⟩,
      ⟨0, some .priced, .searching, some 0, none, 0⟩]

theorem historyAgrees_searchingNowhere : HistoryAgrees searchingNowhere := by
  refine ⟨fun orderId status hst => ?_, by decide⟩
  obtain ⟨row, hrow, hstatus⟩ := Db.statusOf_eq_some.mp hst
  obtain rfl : orderId = 0 := Nat.lt_one_iff.mp (List.getElem?_eq_some_iff.mp hrow).1
  obtain rfl : .searching = status := by
    obtain rfl := Option.some.inj hrow
    exact hstatus
  exact ⟨rfl, by decide, rfl⟩

/-- The search is given up, and the process stops after the update of the order. -/
def stopAfterUpdate : List (Event Call Input) :=
  [.start ⟨.startDispatch 0, .start⟩, .run 0 {}, .run 0 {}, .run 0 {}, .run 0 { fail := true }]

/-- The order is EXPIRED, and its history ends at SEARCHING. -/
theorem not_historyAgrees_always :
    ¬ ∀ (env : Env) (db : Db) (c' : Config Db Call) (ts : List (Transition Db Call Input)),
      (orders env).Run ⟨db, []⟩ ts c' → (∀ t ∈ ts, OneAtATime t) → HistoryAgrees db →
        HistoryAgrees c'.store := by
  intro h
  have hagrees := h .flat searchingNowhere _ _
    ((orders .flat).run_trace ⟨searchingNowhere, []⟩ stopAfterUpdate) (by decide +kernel)
    historyAgrees_searchingNowhere
  have hlatest := (hagrees.tracks 0 .expired (by decide +kernel)).latest
  exact absurd hlatest (by decide +kernel)

end Handly
