import Handly.Orders.Records

/-!
# What users are told

`acceptOffer` writes its notification in the transaction that assigns the order. Every other
notification about an order is a statement after the commit that it reports: of a lifecycle
transaction, of the history row of `failSearch`, of the dispatch that `cascadeNext` inserts. A
call can stop in between, and any others run.

For each kind of notice the books balance over every run: what users are told, what calls still
owe them and what calls that threw have lost is what has happened (`told_of_run`).
-/

namespace Handly

open Interleaving

/-! ### Notices -/

/-- A turn in the life of an order that users are notified of. -/
inductive Turn
  | assigned | completed | closed | cancelledByMaster | searchFailed
  deriving DecidableEq

/-- The status that an order has after the turn. -/
def Turn.status : Turn → OrderStatus
  | assigned => .assigned
  | completed => .completed
  | closed => .closed
  | cancelledByMaster => .cancelledByMaster
  | searchFailed => .expired

def Turn.type : Turn → NotificationType
  | assigned => .orderAssigned
  | completed => .orderCompleted
  | closed => .orderClosed
  | cancelledByMaster => .orderCancelledByMaster
  | searchFailed => .orderSearchFailed

/-- What a notification reports: a turn of an order, or that a dispatch is offered. -/
inductive Notice
  | turn (turn : Turn) (orderId : OrderId)
  | offer (dispatchId : DispatchId)
  deriving DecidableEq

namespace Notice

/-- The notification reports it. -/
def isToldBy : Notice → Notification → Bool
  | turn t orderId, n => n.type = t.type ∧ n.orderId = some orderId
  | offer dispatchId, n => n.type = .offerReceived ∧ n.dispatchId = some dispatchId

/-- The history row records it. -/
def isEnteredBy : Notice → OrderStatusHistory → Bool
  | turn t orderId, h => h.orderId = orderId ∧ h.toStatus = t.status
  | offer _, _ => false

/-- The followup writes a notification that reports it. -/
def isOwedBy (notice : Notice) : Followup → Bool
  | .notify n => notice.isToldBy n
  | _ => false

/-- How often users have been told. -/
def told (notice : Notice) (db : Db) : ℕ := db.notifications.countP notice.isToldBy

/-- How often it has happened: a turn as often as the history says, an offer once its dispatch
is there. -/
def happened : Notice → Db → ℕ
  | turn t orderId, db => db.history.countP (turn t orderId).isEnteredBy
  | offer dispatchId, db => if dispatchId < db.dispatches.length then 1 else 0

/-- How often a call is still to tell. -/
def owed (notice : Notice) (k : Call) : ℕ :=
  match k.pc with
  | .after todo _ => todo.countP notice.isOwedBy
  | .cascadeEnqueue _ _ _ dispatchId => if notice = offer dispatchId then 1 else 0
  | _ => 0

end Notice

def Call.hasThrown (k : Call) : Bool := k.pc matches .threw _

/-- What a call does not tell any more, as it throws in this transition. -/
def Notice.lost (notice : Notice) (t : Transition Db Call Input) : ℕ :=
  if t.callerAfter.any Call.hasThrown then (t.caller.map notice.owed).getD 0 else 0

/-! ### One statement -/

/-- A call that goes on from its guard has passed the check of its method. -/
def Call.Passed (k : Call) : Prop :=
  match k.op, k.pc with
  | .lifecycle l, .guarded order => l.spec.check order = .ok ()
  | _, _ => True

theorem Call.passed_of_ne {k : Call} (h : ∀ order, k.pc ≠ .guarded order) : k.Passed := by
  obtain ⟨op, pc⟩ := k
  cases pc with
  | guarded order => exact absurd rfl (h order)
  | _ => cases op <;> trivial

section Statements

variable {env : Env} {me : ℕ} {x : Input} {k : Call} {db db' : Db} {o : Outcome Db Call}
  {notice : Notice}

theorem told_eq (h : db'.notifications = db.notifications) : notice.told db' = notice.told db := by
  rw [Notice.told, h, Notice.told]

theorem told_createNotification {n : Notification} :
    notice.told (db.createNotification n) = notice.told db + (notice.isToldBy n).toNat := by
  rw [Notice.told, Notice.told]
  show (db.notifications ++ [n]).countP notice.isToldBy = _
  rw [List.countP_append, List.countP_singleton]
  cases notice.isToldBy n <;> rfl

/-- History rows are added, and the dispatches keep their number. -/
theorem happened_eq (rows : List OrderStatusHistory) (hrows : db'.history = db.history ++ rows)
    (hlength : db'.dispatches.length = db.dispatches.length) :
    notice.happened db' = notice.happened db + rows.countP notice.isEnteredBy := by
  cases notice with
  | turn t orderId => rw [Notice.happened, hrows, List.countP_append, Notice.happened]
  | offer dispatchId =>
      have hnone : rows.countP (Notice.offer dispatchId).isEnteredBy = 0 := by
        rw [List.countP_eq_zero]
        simp [Notice.isEnteredBy]
      rw [Notice.happened, hlength, hnone, Notice.happened, Nat.add_zero]

/-- A status that users are not notified of. -/
theorem isEnteredBy_eq_false {h : OrderStatusHistory} (hst : ∀ t : Turn, h.toStatus ≠ t.status) :
    notice.isEnteredBy h = false := by
  cases notice with
  | turn t orderId => simp [Notice.isEnteredBy, hst t]
  | offer => rfl

theorem Followup.told {f : Followup} {now : Time} (h : f.run db now = .ok db') :
    notice.told db' = notice.told db + (notice.isOwedBy f).toNat := by
  cases f with
  | notify n =>
      obtain rfl := Except.ok.inj h
      exact told_createNotification
  | recomputeTrustTier masterId =>
      simp only [Followup.run, Handly.recomputeTrustTier] at h
      split at h
      · simp at h
      · obtain rfl := Except.ok.inj h
        exact told_eq rfl
  | createPenalty | toOfferDto =>
      obtain rfl := Except.ok.inj h
      exact told_eq rfl

/-- What a notification reports is what the history row records, when both are of one turn. -/
theorem isToldBy_eq_isEnteredBy {s : Turn} {n : Notification} {h : OrderStatusHistory}
    (htype : n.type = s.type) (hst : h.toStatus = s.status) (hid : n.orderId = some h.orderId) :
    notice.isToldBy n = notice.isEnteredBy h := by
  cases notice with
  | turn t orderId =>
      have hsame : s.type = t.type ↔ s.status = t.status := by cases s <;> cases t <;> decide
      simp only [Notice.isToldBy, Notice.isEnteredBy, htype, hst, hid, hsame, Option.some.injEq,
        and_comm]
  | offer dispatchId =>
      have hne : s.type ≠ .offerReceived := by cases s <;> decide
      simp [Notice.isToldBy, Notice.isEnteredBy, htype, hne]

theorem countP_isOwedBy_cons {f : Followup} {todo : List Followup} :
    (f :: todo).countP notice.isOwedBy =
      todo.countP notice.isOwedBy + (notice.isOwedBy f).toNat := by
  rw [List.countP_cons]
  cases notice.isOwedBy f <;> rfl

theorem countP_isEnteredBy_singleton {row : OrderStatusHistory} :
    [row].countP notice.isEnteredBy = (notice.isEnteredBy row).toNat := by
  rw [List.countP_singleton]
  cases notice.isEnteredBy row <;> rfl

/-- A notification of another type is not owed. -/
theorem isOwedBy_eq_false {n : Notification} (hturn : ∀ t : Turn, n.type ≠ t.type)
    (hoffer : n.type ≠ .offerReceived) : notice.isOwedBy (.notify n) = false := by
  cases notice with
  | turn t orderId => simp [Notice.isOwedBy, Notice.isToldBy, hturn t]
  | offer => simp [Notice.isOwedBy, Notice.isToldBy, hoffer]

/-- A penalty reports neither a turn nor an offer. -/
theorem recordEvent_tells {masterId : UserId} {eventType : PenaltyEventType} {orderId : OrderId}
    {note : Option String} :
    (recordEvent masterId eventType orderId note).countP notice.isOwedBy = 0 := by
  have hnotify : ∀ n : Notification, n.type = .penaltyIssued →
      notice.isOwedBy (.notify n) = false := fun n hn =>
    isOwedBy_eq_false (fun t => by rw [hn]; cases t <;> decide) (by rw [hn]; decide)
  simp only [recordEvent, countP_isOwedBy_cons]
  rw [hnotify _ rfl]
  rfl

/-- What a method tells after its transaction is the turn that the transaction records. -/
theorem followups_tell {l : Lifecycle} {order : Order} (hcheck : l.spec.check order = .ok ())
    {h : OrderStatusHistory} (hid : h.orderId = l.spec.orderId) (hst : h.toStatus = l.spec.target) :
    (l.spec.followups order).countP notice.isOwedBy = (notice.isEnteredBy h).toNat := by
  have hsilent : (∀ t : Turn, h.toStatus ≠ t.status) → 0 = (notice.isEnteredBy h).toNat := by
    intro hne
    rw [isEnteredBy_eq_false hne]
    rfl
  -- The first followup tells the turn, and the others tell nothing.
  have htells : ∀ (t : Turn) (n : Notification) (rest : List Followup), h.toStatus = t.status →
      n.type = t.type → n.orderId = some h.orderId → rest.countP notice.isOwedBy = 0 →
      (.notify n :: rest : List Followup).countP notice.isOwedBy =
        (notice.isEnteredBy h).toNat := by
    intro t n rest hst htype hid hrest
    rw [countP_isOwedBy_cons, hrest, Nat.zero_add]
    exact congrArg Bool.toNat (isToldBy_eq_isEnteredBy htype hst hid)
  have hid' := congrArg some hid.symm
  cases l with
  | cancel | startEnRoute | startService =>
      exact hsilent fun t => by rw [hst]; cases t <;> simp [Lifecycle.spec, Turn.status]
  | completeService masterId orderId finalAmount =>
      exact htells .completed _ [] hst rfl hid' rfl
  | confirmCompletion customerId orderId =>
      simp only [Lifecycle.spec] at hcheck ⊢
      cases hmaster : order.masterId with
      | none => simp [hmaster] at hcheck
      | some masterId =>
          exact htells .closed _ [.recomputeTrustTier masterId] hst rfl hid' (by rfl)
  | cancelByMaster masterId orderId reason =>
      exact htells .cancelledByMaster _ _ hst rfl hid' recordEvent_tells

/-- The followups of an expired offer report neither a turn nor an offer. -/
theorem expiryFollowups_tell {full : OrderDispatch} :
    (expiryFollowups full).countP notice.isOwedBy = 0 := by
  rw [expiryFollowups, countP_isOwedBy_cons, recordEvent_tells,
    isOwedBy_eq_false (fun t => by cases t <;> simp [Turn.type]) (by simp)]
  rfl

theorem failSearchFollowups_tell {orderId : OrderId} {order : Order} {h : OrderStatusHistory}
    (hid : h.orderId = orderId) (hst : h.toStatus = .expired) :
    (failSearchFollowups orderId order).countP notice.isOwedBy = (notice.isEnteredBy h).toNat := by
  rw [failSearchFollowups, countP_isOwedBy_cons, List.countP_nil, Nat.zero_add]
  exact congrArg Bool.toNat
    (isToldBy_eq_isEnteredBy (s := Turn.searchFailed) rfl hst (congrArg some hid.symm))

theorem offerFollowups_tell {orderId : OrderId} {order : Order} {picked : EligibleCandidate}
    {dispatchId : DispatchId} :
    (offerFollowups orderId order picked dispatchId).countP notice.isOwedBy =
      if notice = .offer dispatchId then 1 else 0 := by
  rw [offerFollowups, countP_isOwedBy_cons, countP_isOwedBy_cons, List.countP_nil, Nat.zero_add]
  cases notice with
  | turn t orderId => cases t <;> simp [Notice.isOwedBy, Notice.isToldBy, Turn.type]
  | offer id =>
      by_cases hid : dispatchId = id
      · simp [Notice.isOwedBy, Notice.isToldBy, hid]
      · simp [Notice.isOwedBy, Notice.isToldBy, hid, Ne.symm hid]

/-- The books of one statement: what is told, owed and lost after it has happened, too. -/
def Notice.Balances (notice : Notice) (db : Db) (k : Call) (o : Outcome Db Call) : Prop :=
  notice.told o.store + notice.owed o.call + (if o.call.hasThrown then notice.owed k else 0) +
      notice.happened db =
    notice.told db + notice.owed k + notice.happened o.store

/-- A statement that tells nothing, and after which its call owes what the statement records. -/
theorem balances_of_rows {k' : Call} {spawned : List Call} (rows : List OrderStatusHistory)
    (hnotifications : db'.notifications = db.notifications)
    (hrows : db'.history = db.history ++ rows)
    (hlength : db'.dispatches.length = db.dispatches.length)
    (howed : notice.owed k' + (if k'.hasThrown then notice.owed k else 0) =
      notice.owed k + rows.countP notice.isEnteredBy) :
    notice.Balances db k ⟨db', k', spawned⟩ := by
  rw [Notice.Balances, told_eq hnotifications, happened_eq rows hrows hlength]
  dsimp only
  omega

/-- A statement that neither tells nor records anything. -/
theorem balances_of_eq {k' : Call} {spawned : List Call}
    (hnotifications : db'.notifications = db.notifications) (hhistory : db'.history = db.history)
    (hlength : db'.dispatches.length = db.dispatches.length)
    (howed : notice.owed k' + (if k'.hasThrown then notice.owed k else 0) = notice.owed k) :
    notice.Balances db k ⟨db', k', spawned⟩ :=
  balances_of_rows [] hnotifications (by rw [hhistory, List.append_nil]) hlength
    (by simpa using howed)

/-- A statement that records a status of which nobody is notified. -/
theorem balances_of_row {k' : Call} {spawned : List Call} {row : OrderStatusHistory}
    (hnotifications : db'.notifications = db.notifications)
    (hrows : db'.history = db.history ++ [row])
    (hlength : db'.dispatches.length = db.dispatches.length)
    (hst : ∀ t : Turn, row.toStatus ≠ t.status) (hk : notice.owed k = 0)
    (hk' : notice.owed k' = 0) : notice.Balances db k ⟨db', k', spawned⟩ :=
  balances_of_rows [row] hnotifications hrows hlength
    (by simp [hk, hk', isEnteredBy_eq_false hst])

theorem Reads.balances {op : Op} {pc pc' : Pc} (h : Reads env x db op pc pc') :
    notice.Balances db ⟨op, pc⟩ ⟨db, ⟨op, pc'⟩, []⟩ := by
  refine balances_of_eq rfl rfl rfl ?_
  cases h with
  | followupThrows => simp [Notice.owed, Call.hasThrown]
  | done | cascades => rfl
  | expiryFull => exact congrArg (· + 0) expiryFollowups_tell
  | cascadeStops henter | cascadeMissing henter | cascadeReads henter =>
      cases henter <;> rfl
  | failSearchStops henter | failSearchReads henter => cases henter <;> rfl
  | _ => rfl

/-- The notification of `acceptOffer` and the assignment are written together. -/
theorem balances_accept {dispatchId : DispatchId} {masterId : UserId} {dispatch : OrderDispatch}
    {order : Order} :
    notice.Balances db ⟨.acceptOffer dispatchId masterId, .accepting dispatch order⟩
      ⟨acceptWrite db me x.now dispatchId masterId dispatch order,
        ⟨.acceptOffer dispatchId masterId, .returned⟩, []⟩ := by
  let row : OrderStatusHistory :=
    { orderId := dispatch.orderId, fromStatus := some order.status, toStatus := .assigned,
      actorId := some masterId, note := none, createdAt := x.now }
  let n : Notification :=
    { userId := order.customerId, type := .orderAssigned, title := "Usta tayinlandi"
      body := "Sizga mos usta topildi va buyurtmangizni qabul qildi."
      orderId := some dispatch.orderId }
  have htold : notice.told (acceptWrite db me x.now dispatchId masterId dispatch order) =
      notice.told db + (notice.isToldBy n).toNat := told_createNotification
  have hhappened : notice.happened (acceptWrite db me x.now dispatchId masterId dispatch order) =
      notice.happened db + [row].countP notice.isEnteredBy :=
    happened_eq [row] rfl (by simp [acceptWrite])
  have hsame : notice.isToldBy n = notice.isEnteredBy row :=
    isToldBy_eq_isEnteredBy (s := Turn.assigned) rfl rfl rfl
  rw [Notice.Balances, htold, hhappened, hsame, countP_isEnteredBy_singleton]
  show _ + 0 + 0 + _ = _ + 0 + _
  omega

/-- The call that has inserted a dispatch owes its offer. -/
theorem balances_cascadeInsert {op : Op} {orderId : OrderId} {attempt : Attempt} {order : Order}
    {rankSoFar : ℕ} {picked : EligibleCandidate} {row : OrderDispatch} :
    notice.Balances db ⟨op, .cascadeCreate orderId attempt order rankSoFar picked⟩
      ⟨db.createDispatch row, ⟨op, .cascadeEnqueue orderId order picked db.dispatches.length⟩,
        []⟩ := by
  have htold : notice.told (db.createDispatch row) = notice.told db := told_eq rfl
  rw [Notice.Balances, htold]
  show _ + (if notice = .offer db.dispatches.length then 1 else 0) + 0 + _ = _ + 0 + _
  cases notice with
  | turn t id => rfl
  | offer id =>
      simp only [Notice.happened, Db.createDispatch_dispatches, List.length_append,
        List.length_singleton, Notice.offer.injEq]
      rcases Nat.lt_trichotomy id db.dispatches.length with hlt | heq | hgt
      · simp [hlt, hlt.ne, Nat.lt_succ_of_lt hlt]
      · simp [heq]
      · simp [hgt.ne', hgt.not_gt, Nat.not_lt.mpr hgt]

/-- The books of one statement. -/
theorem Stmt.balances (h : Stmt env me x db k o) (hk : k.Passed) (notice : Notice) :
    notice.Balances db k o := by
  cases h with
  | fails => exact balances_of_eq rfl rfl rfl (by simp [Notice.owed, Call.hasThrown])
  | reads hr => exact hr.balances
  | createDraft | submit | diagnose =>
      exact balances_of_row rfl rfl rfl (by intro t; cases t <;> simp [Turn.status]) rfl rfl
  | @updateDraft customerId orderId dto order =>
      rw [updateDraftWrite]
      split
      · exact balances_of_row rfl rfl rfl (by intro t; cases t <;> simp [Turn.status]) rfl rfl
      · exact balances_of_eq rfl rfl rfl rfl
  | @lifecycle l order row hrow hst hlock =>
      obtain ⟨-, hdispatches, hhistory, -, -⟩ := GuardedTransition.credit_frame l.spec order
        ((db.setStatus me l.spec.orderId l.spec.target (l.spec.data x.now)).createHistory
          { orderId := l.spec.orderId, fromStatus := some order.status, toStatus := l.spec.target,
            actorId := some l.spec.actorId, note := l.spec.note, createdAt := x.now })
      refine balances_of_rows [_] ?_ hhistory (congrArg List.length hdispatches) ?_
      · rw [GuardedTransition.write, GuardedTransition.credit]
        cases l.spec.credits order <;> rfl
      · rw [countP_isEnteredBy_singleton, ← followups_tell hk rfl rfl]
        exact Nat.add_comm _ _
  | acceptLock | failSearchUpdate => exact balances_of_eq rfl rfl rfl rfl
  | acceptRollback hpc =>
      rcases hpc with rfl | ⟨order, rfl⟩ <;> exact balances_of_eq rfl rfl rfl rfl
  | accept => exact balances_accept
  | decline | expiry => exact balances_of_eq rfl rfl (List.length_modify ..) rfl
  | @followup op f todo next db' hf =>
      obtain ⟨-, hdispatches, hhistory, -, -⟩ := Followup.run_frame hf
      rw [Notice.Balances, Followup.told hf, happened_eq []
        (by rw [hhistory, List.append_nil]) (congrArg List.length hdispatches)]
      show _ + _ + List.countP _ todo + 0 + _ = _ + List.countP _ (f :: todo) + (_ + 0)
      rw [countP_isOwedBy_cons]
      omega
  | cascadeInsert => exact balances_cascadeInsert
  | cascadeEnqueue =>
      refine balances_of_eq rfl rfl rfl ?_
      simp only [Notice.owed, offerFollowups_tell]
      rfl
  | failSearchRecord =>
      refine balances_of_rows [_] rfl rfl rfl ?_
      rw [countP_isEnteredBy_singleton, ← failSearchFollowups_tell rfl rfl]
      exact Nat.add_comm _ _

/-- The guard of a method establishes that its check has passed. -/
theorem Stmt.passed (h : Stmt env me x db k o) : o.call.Passed := by
  cases h with
  | @reads op pc pc' hr =>
      cases hr with
      | guarded hguard =>
          cases op with
          | lifecycle l => exact (GuardedTransition.guard_eq_ok (Option.some.inj hguard)).2.2.2
          | _ => trivial
      | _ => exact Call.passed_of_ne (by simp)
  | _ => exact Call.passed_of_ne (by simp)

end Statements

/-! ### Whole runs -/

/-- Every call that goes on from its guard has passed the check of its method. -/
def passed (env : Env) : Outline (orders env) (fun _ => True) :=
  outline env _ (fun _ => True) (fun _ _ k => k.Passed)
    (fun _ _ op _ => by cases op <;> trivial)
    (fun _ _ _ _ _ _ _ _ h _ _ _ => ⟨trivial, h.passed⟩)
    (fun _ _ _ _ _ _ _ _ _ _ _ _ _ _ _ hk' => hk')

theorem Notice.owed_start (notice : Notice) {k : Call} (hpc : k.pc = .start) :
    notice.owed k = 0 := by
  rw [Notice.owed, hpc]

/-- The books of one transition. -/
theorem Notice.balances_of_fires {env : Env} {t : Transition Db Call Input}
    (ht : (orders env).Fires t)
    (hpassed : ∀ (i : ℕ) (k : Call), t.pre.calls[i]? = some k → k.Passed) (notice : Notice) :
    potential notice.told notice.owed t.post + notice.lost t + notice.happened t.pre.store =
      potential notice.told notice.owed t.pre + notice.happened t.post.store := by
  rcases stmt_of_fires ht with ⟨k, he, hpc, hpost⟩ | ⟨i, x, k, o, he, hk, -, h, -, hpost⟩
  · have hlost : notice.lost t = 0 := by simp [Notice.lost, Transition.callerAfter, he]
    rw [hlost, hpost]
    simp [potential, notice.owed_start hpc]
  · have hbalances := h.balances (hpassed i k hk) notice
    have hset := sum_map_set (g := notice.owed) hk o.call
    have hspawned : (o.spawned.map notice.owed).sum = 0 := by
      refine List.sum_eq_zero fun n hn => ?_
      obtain ⟨k', hk', rfl⟩ := List.mem_map.mp hn
      exact notice.owed_start (h.spawned_start k' hk')
    have hlost : notice.lost t = if o.call.hasThrown then notice.owed k else 0 := by
      have hafter : t.callerAfter = some o.call := by
        rw [Transition.callerAfter, he]
        exact Machine.getElem?_of_post hk hpost
      rw [Notice.lost, hafter, Transition.caller_eq he hk]
      rfl
    rw [Notice.Balances] at hbalances
    rw [hlost, hpost]
    simp only [potential, List.map_append, List.sum_append, hspawned]
    omega

/-- **What users are told.** For each kind of notice, over every run of any number of calls:
what users have been told, what the calls in flight still owe and what the calls that threw
have lost is what has happened. -/
theorem told_of_run {env : Env} {db : Db} {c' : Config Db Call}
    {ts : List (Transition Db Call Input)} (hrun : (orders env).Run ⟨db, []⟩ ts c')
    (notice : Notice) :
    notice.told c'.store + (c'.calls.map notice.owed).sum + (ts.map notice.lost).sum +
        notice.happened db =
      notice.told db + notice.happened c'.store := by
  obtain ⟨-, hall⟩ := (passed env).holds_run hrun (fun _ _ => trivial)
    ⟨trivial, fun i k hk => by simp at hk⟩
  exact hrun.add_sum_eq (potential notice.told notice.owed) (fun c => notice.happened c.store)
    notice.lost fun t ht hfire => Notice.balances_of_fires hfire (hall t ht).1.2 notice

/-- After a whole life, the master has been told that the order is closed. -/
theorem told_wholeLife :
    (Notice.turn .closed 0).told ((orders .flat).after ⟨oneMaster, []⟩ wholeLife).store +
        (((orders .flat).after ⟨oneMaster, []⟩ wholeLife).calls.map
          (Notice.turn .closed 0).owed).sum +
        (((orders .flat).trace ⟨oneMaster, []⟩ wholeLife).map (Notice.turn .closed 0).lost).sum +
        (Notice.turn .closed 0).happened oneMaster =
      (Notice.turn .closed 0).told oneMaster +
        (Notice.turn .closed 0).happened ((orders .flat).after ⟨oneMaster, []⟩ wholeLife).store ∧
      (Notice.turn .closed 0).told ((orders .flat).after ⟨oneMaster, []⟩ wholeLife).store = 1 :=
  ⟨told_of_run ((orders .flat).run_trace _ _) (.turn .closed 0), by decide +kernel⟩

end Handly
