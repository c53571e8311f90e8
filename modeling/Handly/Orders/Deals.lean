import Handly.Dispatch.CascadeTermination
import Handly.Lib.Refinement
import Handly.Orders.Records
import Handly.Orders.TransitionTable

/-!
# An order as a deal between its parties

What an order is for, apart from how the services keep it: a customer states a request and gets
a price band for it; a master to whom it has been offered takes it, and then he alone moves it
on; the price he ends up with lies in the band; the customer closes it. Each step belongs to a
party, and nobody else may take it.

The calls of the services act on what they have read some statements ago. `deals_of_run` says
that they take these steps all the same, and each for the party that has called, whenever the
writes by id find their orders editable.
-/

namespace Handly

open Interleaving

/-! ### The deal -/

structure Deal where
  customer : UserId
  status : OrderStatus
  master : Option UserId
  priceMin : Option ℤ
  priceMax : Option ℤ
  finalAmount : Option ℤ
  /-- The masters to whom the order has been offered, in turn. -/
  offered : List UserId

/-- Who takes a step. -/
inductive Party
  | user (id : UserId)
  /-- The search for a master. -/
  | dispatcher
  deriving DecidableEq

namespace Deal

/-- A new request. -/
def new (customer : UserId) : Deal :=
  { customer, status := .draft, master := none, priceMin := none, priceMax := none
    finalAmount := none, offered := [] }

/-- The steps of a deal, with the party that takes them. -/
inductive Step : Party → Deal → Deal → Prop
  /-- The request changes, and the price does not fit any more. -/
  | reopen {d : Deal} : d.status = .priced →
      Step (.user d.customer) d { d with status := .draft, priceMin := none, priceMax := none }
  | quote {d : Deal} {lo hi : ℤ} : d.status = .draft ∨ d.status = .priced →
      Step (.user d.customer) d
        { d with status := .priced, priceMin := some lo, priceMax := some hi }
  /-- The customer agrees to the band. -/
  | submit {d : Deal} : d.status = .priced →
      Step (.user d.customer) d { d with status := .searching }
  | offer {d : Deal} {m : UserId} : ¬ d.status.Editable → m ∉ d.offered →
      Step .dispatcher d { d with offered := d.offered ++ [m] }
  | expire {d : Deal} : d.status = .searching →
      Step .dispatcher d { d with status := .expired }
  | accept {d : Deal} {m : UserId} : d.status = .searching → m ∈ d.offered →
      Step (.user m) d { d with status := .assigned, master := some m }
  | setOut {d : Deal} {m : UserId} : d.status = .assigned → d.master = some m →
      Step (.user m) d { d with status := .enRoute }
  | begin {d : Deal} {m : UserId} : d.status = .enRoute → d.master = some m →
      Step (.user m) d { d with status := .inProgress }
  | complete {d : Deal} {m : UserId} {amount : ℤ} : d.status = .inProgress → d.master = some m →
      (∀ lo ∈ d.priceMin, ∀ hi ∈ d.priceMax, lo ≤ amount ∧ amount ≤ hi) →
      Step (.user m) d { d with status := .completed, finalAmount := some amount }
  | close {d : Deal} {m : UserId} : d.status = .completed → d.master = some m →
      Step (.user d.customer) d { d with status := .closed }
  | cancel {d : Deal} : d.status ∈ [.draft, .priced, .searching, .assigned, .enRoute] →
      Step (.user d.customer) d { d with status := .cancelledByCustomer }
  | giveUp {d : Deal} {m : UserId} : d.status = .assigned ∨ d.status = .enRoute →
      d.master = some m → Step (.user m) d { d with status := .cancelledByMaster }

/-- What every deal satisfies that has come along these steps. -/
structure Sound (d : Deal) : Prop where
  /-- From SEARCHING on the customer has agreed to a band. -/
  agreed : d.status ∉ [.draft, .cancelledByCustomer] → d.priceMin.isSome ∧ d.priceMax.isSome
  /-- Whoever works on the order has been offered it, and nobody does before. -/
  chosen : ∀ m ∈ d.master, m ∈ d.offered
  vacant : d.status ∈ [.draft, .priced, .searching, .expired] → d.master = none
  worked : d.status ∈ [.assigned, .enRoute, .inProgress, .completed, .closed, .cancelledByMaster] →
    d.master.isSome
  /-- There is a final amount when the work is done, and it lies in the band. -/
  billed : d.finalAmount.isSome ↔ d.status ∈ [.completed, .closed]
  inBand : ∀ amount ∈ d.finalAmount, ∀ lo ∈ d.priceMin, ∀ hi ∈ d.priceMax,
    lo ≤ amount ∧ amount ≤ hi

theorem sound_new (customer : UserId) : (new customer).Sound := by
  constructor <;> simp [new]

theorem Step.sound {p : Party} {d d' : Deal} (h : Step p d d') (hd : d.Sound) : d'.Sound := by
  obtain ⟨hagreed, hchosen, hvacant, hworked, hbilled, hin⟩ := hd
  have hunbilled : d.status ∉ [.completed, .closed] → d.finalAmount = none := fun hnot => by
    simpa [hnot] using hbilled
  cases h with
  | offer hsubmitted hnew =>
      exact ⟨hagreed, fun m hm => List.mem_append_left _ (hchosen m hm), hvacant, hworked, hbilled,
        hin⟩
  | complete hst hm hamount =>
      have hband := hagreed (by simp [hst])
      exact ⟨fun _ => hband, hchosen, by simp, by simp [hm], by simp,
        by simpa using hamount⟩
  | close hst hm =>
      have hband := hagreed (by simp [hst])
      exact ⟨fun _ => hband, hchosen, by simp, by simp [hm], by simpa [hst] using hbilled, hin⟩
  | accept hst hoffered =>
      have hband := hagreed (by simp [hst])
      have hnone := hunbilled (by simp [hst])
      exact ⟨fun _ => hband, by simpa using hoffered, by simp, by simp, by simp [hnone], hin⟩
  | cancel hst =>
      have hnone := hunbilled (by intro h; simp at h hst; grind)
      exact ⟨by simp, hchosen, by simp, by simp, by simp [hnone], hin⟩
  | reopen hst =>
      have hnone := hunbilled (by simp [hst])
      exact ⟨by simp, hchosen, fun _ => hvacant (by simp [hst]), by simp, by simp [hnone],
        by simp [hnone]⟩
  | quote hst =>
      have hnone := hunbilled (by rcases hst with h | h <;> simp [h])
      have hfree := hvacant (by rcases hst with h | h <;> simp [h])
      exact ⟨by simp, hchosen, fun _ => hfree, by simp, by simp [hnone], by simp [hnone]⟩
  | submit hst | expire hst =>
      have hband := hagreed (by simp [hst])
      have hnone := hunbilled (by simp [hst])
      have hfree := hvacant (by simp [hst])
      exact ⟨fun _ => hband, hchosen, fun _ => hfree, by simp, by simp [hnone], hin⟩
  | setOut hst hm | begin hst hm =>
      have hband := hagreed (by simp [hst])
      have hnone := hunbilled (by simp [hst])
      exact ⟨fun _ => hband, hchosen, by simp, by simp [hm], by simp [hnone], hin⟩
  | giveUp hst hm =>
      have hband := hagreed (by rcases hst with h | h <;> simp [h])
      have hnone := hunbilled (by rcases hst with h | h <;> simp [h])
      exact ⟨fun _ => hband, hchosen, by simp, by simp [hm], by simp [hnone], hin⟩

end Deal

/-! ### The deals of the tables -/

/-- The masters to whom an order has been offered. -/
def Db.offeredTo (db : Db) (id : OrderId) : List UserId :=
  (db.offers.filter fun f => f.orderId = id).map Offer.masterId

/-- What an order row says about its deal. -/
def Order.deal (row : Order) (offered : List UserId) : Deal :=
  { customer := row.customerId, status := row.status, master := row.masterId
    priceMin := row.priceMin, priceMax := row.priceMax, finalAmount := row.finalAmount, offered }

/-- The deal of an order. -/
def Db.deal (db : Db) (id : OrderId) : Option Deal :=
  db.orders[id]?.map fun row => row.deal (db.offeredTo id)

/-- On whose behalf a method is called. -/
def Op.party : Op → Party
  | .createDraft customerId _ | .updateDraft customerId _ _ | .diagnose customerId _
  | .submit customerId _ => .user customerId
  | .lifecycle l => .user l.spec.actorId
  | .acceptOffer _ masterId | .declineOffer _ masterId => .user masterId
  | .handleOfferExpiry _ | .startDispatch _ | .cascadeNext _ _ | .failSearch _ _ => .dispatcher

/-- On whose behalf the next statement of a call is run: what a search does, it does for the
dispatcher, whoever's decline has started it. -/
def Call.party (k : Call) : Party :=
  match k.pc with
  | .cascadeCreate _ _ _ _ _ | .failSearchWrite _ _ _ => .dispatcher
  | _ => k.op.party

/-- The party of a transition. -/
def dealParty (t : Transition Db Call Input) : Option Party := t.caller.map Call.party

/-! ### What becomes of an order that was read -/

/-- What a deal is about between its submission and its end. -/
def Order.terms (row : Order) : OrderStatus × Option UserId × Option ℤ × Option ℤ :=
  (row.status, row.masterId, row.priceMin, row.priceMax)

/-- The row `row` can have become `row'` since it was read: the customer's own draft in any way,
and a submitted order by going further only. -/
def Order.Precedes (row row' : Order) : Prop :=
  row'.customerId = row.customerId ∧
    (row.status.Editable ∨ row'.terms = row.terms ∨ row.status.progress < row'.status.progress)

theorem Order.Precedes.refl (row : Order) : row.Precedes row := ⟨rfl, Or.inr (Or.inl rfl)⟩

theorem progress_of_editable {s : OrderStatus} (h : s.Editable) : s.progress = 0 := by
  rcases editable_iff.mp h with rfl | rfl <;> rfl

theorem Order.Precedes.trans {row row' row'' : Order} (h : row.Precedes row')
    (h' : row'.Precedes row'') : row.Precedes row'' := by
  obtain ⟨hcustomer, hrow⟩ := h
  obtain ⟨hcustomer', hrow'⟩ := h'
  refine ⟨hcustomer'.trans hcustomer, ?_⟩
  rcases hrow with hedit | hterms | hlt
  · exact Or.inl hedit
  · have hst : row'.status = row.status := congrArg Prod.fst hterms
    rcases hrow' with hedit | hterms' | hlt
    · exact Or.inl (hst ▸ hedit)
    · exact Or.inr (Or.inl (hterms'.trans hterms))
    · exact Or.inr (Or.inr (hst ▸ hlt))
  · rcases hrow' with hedit | hterms' | hlt'
    · have := progress_of_editable hedit
      omega
    · have hst : row''.status = row'.status := congrArg Prod.fst hterms'
      exact Or.inr (Or.inr (hst ▸ hlt))
    · exact Or.inr (Or.inr (hlt.trans hlt'))

section Statements

variable {env : Env} {me : ℕ} {x : Input} {k : Call} {db : Db} {o : Outcome Db Call}

theorem not_editable_target (l : Lifecycle) : ¬ l.spec.target.Editable := by
  cases l <;> simp [Lifecycle.spec, OrderStatus.Editable, editableStatuses]

/-- What a statement makes of a row. -/
theorem OrderEffect.precedes {id : OrderId} {row row' : Order} (h : OrderEffect x db k id row')
    (hk : k.Knows db me) (hfinds : k.FindsEditable db) (hrow : db.orders[id]? = some row) :
    row.Precedes row' := by
  have hstatus : ∀ {s}, db.statusOf id = some s → row.status = s := fun hs =>
    Option.some.inj ((by simp [Db.statusOf, hrow] : db.statusOf id = some row.status).symm.trans hs)
  have hself : row.status ∈ db.statusOf id := by simp [Db.statusOf, hrow]
  cases h with
  | same hsame =>
      obtain rfl := Option.some.inj (hrow.symm.trans hsame)
      exact .refl row
  | created =>
      rw [List.getElem?_eq_none le_rfl] at hrow
      simp at hrow
  | edited hsame =>
      obtain rfl := Option.some.inj (hrow.symm.trans hsame)
      exact ⟨rfl, Or.inr (Or.inl rfl)⟩
  | reopened _ hsame hinv =>
      obtain rfl := Option.some.inj (hrow.symm.trans hsame)
      exact ⟨rfl, Or.inl (editable_iff.mpr (Or.inr (hfinds hinv _ hself)))⟩
  | diagnosed _ hsame =>
      obtain rfl := Option.some.inj (hrow.symm.trans hsame)
      exact ⟨rfl, Or.inl (editable_iff.mpr (hfinds _ hself))⟩
  | submitted _ hsame =>
      obtain rfl := Option.some.inj (hrow.symm.trans hsame)
      exact ⟨rfl, Or.inl (editable_iff.mpr (Or.inr (hfinds _ hself)))⟩
  | @moved l order _ hsame hst =>
      obtain rfl := Option.some.inj (hrow.symm.trans hsame)
      have hcan : canTransition order.status l.spec.target = true := hk
      refine ⟨by cases l <;> rfl, Or.inr (Or.inr ?_)⟩
      rw [hst]
      exact progress_lt_of_canTransition hcan (not_editable_target l)
  | assigned _ hsame =>
      obtain ⟨-, -, hread, hsearching⟩ := hk
      obtain rfl := Option.some.inj (hrow.symm.trans hsame)
      obtain rfl := Option.some.inj (hrow.symm.trans hread)
      refine ⟨rfl, Or.inr (Or.inr ?_)⟩
      rw [hsearching]
      show OrderStatus.searching.progress < OrderStatus.assigned.progress
      decide
  | @expired op _ reason order _ hsame hst =>
      obtain rfl := Option.some.inj (hrow.symm.trans hsame)
      have hsearching : order.status = .searching := hk
      refine ⟨rfl, Or.inr (Or.inr ?_)⟩
      rw [hst, hsearching]
      show OrderStatus.searching.progress < OrderStatus.expired.progress
      decide

/-- A row is not lost, and goes on from where it was. -/
theorem Stmt.precedes (h : Stmt env me x db k o) (hk : k.Knows db me)
    (hfinds : x.fail = false → k.FindsEditable db)
    (hfails : x.fail = true → o = k.goto (db.unlock me) (.threw .infrastructure)) {id : OrderId}
    {row : Order} (hrow : db.orders[id]? = some row) :
    ∃ row', o.store.orders[id]? = some row' ∧ row.Precedes row' := by
  cases hx : x.fail with
  | true =>
      rw [hfails hx]
      exact ⟨row, hrow, .refl row⟩
  | false =>
      have hsome : ∃ row', o.store.orders[id]? = some row' := by
        rcases h.jobs.job_before (Db.jobs_of_order hrow) with hjob | ⟨_, -, -, -, hjob, -⟩ <;>
          (rw [Db.jobs_getElem?, Option.map_eq_some_iff] at hjob
           obtain ⟨row', hrow', -⟩ := hjob
           exact ⟨row', hrow'⟩)
      obtain ⟨row', hrow'⟩ := hsome
      exact ⟨row', hrow', (h.orderEffect hrow').precedes hk (hfinds hx) hrow⟩

/-! ### What a call is entitled to -/

/-- The order is there, and its customer is this one. -/
def Db.OwnedBy (db : Db) (id : OrderId) (customerId : UserId) : Prop :=
  ∃ row, db.orders[id]? = some row ∧ row.customerId = customerId

/-- The order is there, and has been submitted. -/
def Db.Submitted (db : Db) (id : OrderId) : Prop :=
  ∃ row, db.orders[id]? = some row ∧ ¬ row.status.Editable

/-- What the checks of a call still mean at its current point. -/
def Call.Entitled (db : Db) (k : Call) : Prop :=
  match k.pc, k.op with
  | .guarded _, .updateDraft customerId orderId _ | .guarded _, .diagnose customerId orderId
  | .diagnosing _ _, .diagnose customerId orderId
  | .quoted _ _ _ _, .diagnose customerId orderId
  | .guarded _, .submit customerId orderId => db.OwnedBy orderId customerId
  | .guarded order, .lifecycle l => l.spec.owner.Owns order ∧ l.spec.check order = .ok () ∧
      ∃ row, db.orders[l.spec.orderId]? = some row ∧ order.Precedes row
  | .cascadeCount orderId _ _ _, _ | .cascadeQuery orderId _ _ _ _, _
  | .cascadeCreate orderId _ _ _ _, _ => db.Submitted orderId
  | _, _ => True

/-- A check that begins with `getOwned` lets only the customer through. -/
theorem ownedBy_of_guard {customerId : UserId} {orderId : OrderId} {order : Order}
    {f : Order → Except ApiError Order}
    (h : (getOwned db customerId orderId >>= f) = .ok order) : db.OwnedBy orderId customerId := by
  obtain ⟨row, hrow, -⟩ := Checks.bind_eq_ok.mp h
  exact ⟨row, getOwned_eq_ok hrow⟩

theorem Reads.entitled {op : Op} {pc pc' : Pc} (h : Reads env x db op pc pc')
    (hk : Call.Entitled db ⟨op, pc⟩) : Call.Entitled db ⟨op, pc'⟩ := by
  cases h with
  | @guarded op order hguard =>
      cases op with
      | updateDraft | diagnose | submit => exact ownedBy_of_guard (Option.some.inj hguard)
      | lifecycle l =>
          obtain ⟨hrow, howns, -, hcheck⟩ :=
            GuardedTransition.guard_eq_ok (Option.some.inj hguard)
          exact ⟨howns, hcheck, order, hrow, .refl order⟩
      | _ => simp [Op.guard] at hguard
  | categories | quoted | cascadeCounts | cascadePicks => exact hk
  | cascadeReads _ hrow hst => exact ⟨_, hrow, by rw [hst]; decide⟩
  | _ => trivial

theorem Stmt.entitled (h : Stmt env me x db k o) (hk : k.Entitled db) :
    o.call.Entitled o.store := by
  cases h with
  | reads hr => exact hr.entitled hk
  | _ => trivial

/-- What the others do leaves a call entitled. -/
theorem Call.Entitled.of_precedes {db' : Db} (hk : k.Entitled db)
    (hrows : ∀ {id : ℕ} {row : Order}, db.orders[id]? = some row →
      ∃ row', db'.orders[id]? = some row' ∧ row.Precedes row') : k.Entitled db' := by
  have howned : ∀ {id c}, db.OwnedBy id c → db'.OwnedBy id c := by
    intro id c howned
    obtain ⟨row, hrow, hc⟩ := howned
    obtain ⟨row', hrow', hprecedes⟩ := hrows hrow
    exact ⟨row', hrow', hprecedes.1.trans hc⟩
  have hsubmitted : ∀ {id}, db.Submitted id → db'.Submitted id := by
    intro id hsubmitted
    obtain ⟨row, hrow, hst⟩ := hsubmitted
    obtain ⟨row', hrow', -, hedit | hterms | hlt⟩ := hrows hrow
    · exact absurd hedit hst
    · have hsame : row'.status = row.status := congrArg Prod.fst hterms
      exact ⟨row', hrow', hsame ▸ hst⟩
    · refine ⟨row', hrow', fun hedit => ?_⟩
      have := progress_of_editable hedit
      omega
  obtain ⟨op, pc⟩ := k
  cases pc with
  | guarded order =>
      cases op with
      | updateDraft | diagnose | submit => exact howned hk
      | lifecycle l =>
          obtain ⟨howns, hcheck, row, hrow, hprecedes⟩ := hk
          obtain ⟨row', hrow', hnext⟩ := hrows hrow
          exact ⟨howns, hcheck, row', hrow', hprecedes.trans hnext⟩
      | _ => trivial
  | diagnosing | quoted => cases op <;> first | exact howned hk | trivial
  | cascadeCount | cascadeQuery | cascadeCreate => exact hsubmitted hk
  | _ => trivial

/-! ### Steps -/

theorem canTransition_cancelledByCustomer {s : OrderStatus} :
    canTransition s .cancelledByCustomer = true ↔
      s ∈ [.draft, .priced, .searching, .assigned, .enRoute] := by
  cases s <;> decide

/-- **A guarded transition is a step of its deal**, by the party that has called. -/
theorem Deal.Step.of_lifecycle {l : Lifecycle} {order row : Order} {now : Time}
    {offered : List UserId} (hcan : canTransition order.status l.spec.target = true)
    (howns : l.spec.owner.Owns order) (hcheck : l.spec.check order = .ok ())
    (hprecedes : order.Precedes row) (hst : row.status = order.status) :
    Deal.Step (.user l.spec.actorId) (row.deal offered)
      (({ l.spec.data now row with status := l.spec.target } : Order).deal offered) := by
  obtain ⟨hcustomer, hrest⟩ := hprecedes
  -- Once the order is submitted, the row is still the one that the check has seen.
  have hsame : ¬ order.status.Editable → row.masterId = order.masterId ∧
      row.priceMin = order.priceMin ∧ row.priceMax = order.priceMax := by
    intro hedit
    rcases hrest with h | hterms | hlt
    · exact absurd h hedit
    · simp only [Order.terms, Prod.mk.injEq] at hterms
      exact hterms.2
    · rw [hst] at hlt
      exact absurd hlt (lt_irrefl _)
  have hdealStatus : (row.deal offered).status = order.status := hst
  cases l with
  | cancel customerId orderId =>
      obtain rfl : row.customerId = customerId := hcustomer.trans howns
      exact .cancel (d := row.deal offered)
        (hdealStatus ▸ canTransition_cancelledByCustomer.mp hcan)
  | startEnRoute masterId orderId =>
      have hassigned := canTransition_enRoute.mp hcan
      have hmaster := (hsame (by rw [hassigned]; decide)).1.trans howns
      exact .setOut (d := row.deal offered) (hdealStatus.trans hassigned) hmaster
  | startService masterId orderId =>
      have henRoute := canTransition_inProgress.mp hcan
      have hmaster := (hsame (by rw [henRoute]; decide)).1.trans howns
      exact .begin (d := row.deal offered) (hdealStatus.trans henRoute) hmaster
  | completeService masterId orderId finalAmount =>
      have hworking := canTransition_completed.mp hcan
      obtain ⟨hm, hlo, hhi⟩ := hsame (by rw [hworking]; decide)
      have hband : ∀ lo ∈ row.priceMin, ∀ hi ∈ row.priceMax,
          lo ≤ finalAmount ∧ finalAmount ≤ hi := by
        intro lo hlo' hi hhi'
        exact finalAmountCheck_eq_ok hcheck (hlo ▸ hlo') (hhi ▸ hhi')
      exact .complete (d := row.deal offered) (hdealStatus.trans hworking) (hm.trans howns) hband
  | confirmCompletion customerId orderId =>
      obtain rfl : row.customerId = customerId := hcustomer.trans howns
      have hcompleted := canTransition_closed.mp hcan
      obtain ⟨m, hm⟩ : ∃ m, order.masterId = some m := by
        cases hm : order.masterId with
        | none => simp [Lifecycle.spec, hm] at hcheck
        | some m => exact ⟨m, rfl⟩
      have hmaster := (hsame (by rw [hcompleted]; decide)).1.trans hm
      exact .close (d := row.deal offered) (hdealStatus.trans hcompleted) hmaster
  | cancelByMaster masterId orderId reason =>
      have hcoming := canTransition_cancelledByMaster.mp hcan
      have hmaster := (hsame (by rcases hcoming with h | h <;> rw [h] <;> decide)).1.trans howns
      exact .giveUp (d := row.deal offered) (by rwa [hdealStatus]) hmaster

theorem mem_offeredTo {id : OrderId} {m : UserId} :
    m ∈ db.offeredTo id ↔ ∃ f ∈ db.offers, f.orderId = id ∧ f.masterId = m := by
  simp [Db.offeredTo, and_assoc]

theorem offeredTo_congr {db' : Db} (h : db'.offers = db.offers) (id : OrderId) :
    db'.offeredTo id = db.offeredTo id := by
  rw [Db.offeredTo, h, Db.offeredTo]

/-- **A write of an order row is a step of its deal.** -/
theorem OrderEffect.deal_step {id : OrderId} {row row' : Order} (h : OrderEffect x db k id row')
    (hk : k.Knows db me) (hent : k.Entitled db) (hfinds : k.FindsEditable db)
    (hrow : db.orders[id]? = some row) :
    row'.deal (db.offeredTo id) = row.deal (db.offeredTo id) ∨
      Deal.Step k.party (row.deal (db.offeredTo id)) (row'.deal (db.offeredTo id)) := by
  have hself : row.status ∈ db.statusOf id := by simp [Db.statusOf, hrow]
  have howner : ∀ {c}, db.OwnedBy id c → row.customerId = c := by
    intro c howned
    obtain ⟨row₁, hrow₁, hc⟩ := howned
    obtain rfl := Option.some.inj (hrow.symm.trans hrow₁)
    exact hc
  cases h with
  | same hsame =>
      obtain rfl := Option.some.inj (hrow.symm.trans hsame)
      exact Or.inl rfl
  | created =>
      rw [List.getElem?_eq_none le_rfl] at hrow
      simp at hrow
  | edited hsame =>
      obtain rfl := Option.some.inj (hrow.symm.trans hsame)
      exact Or.inl rfl
  | @reopened customerId _ dto order _ hsame hinv =>
      obtain rfl := Option.some.inj (hrow.symm.trans hsame)
      obtain rfl := howner hent
      exact Or.inr (.reopen (d := row.deal _) (hfinds hinv _ hself))
  | @diagnosed customerId _ order diagnosis categoryId quote _ hsame =>
      obtain rfl := Option.some.inj (hrow.symm.trans hsame)
      obtain rfl := howner hent
      exact Or.inr (.quote (d := row.deal _) (hfinds _ hself))
  | @submitted customerId _ order scheduledAt _ hsame =>
      obtain rfl := Option.some.inj (hrow.symm.trans hsame)
      obtain rfl := howner hent
      exact Or.inr (.submit (d := row.deal _) (hfinds _ hself))
  | @moved l order _ hsame hst =>
      obtain rfl := Option.some.inj (hrow.symm.trans hsame)
      obtain ⟨howns, hcheck, row₁, hrow₁, hprecedes⟩ := hent
      obtain rfl := Option.some.inj (hrow.symm.trans hrow₁)
      exact Or.inr (.of_lifecycle hk howns hcheck hprecedes hst)
  | @assigned dispatchId masterId dispatch order _ hsame =>
      obtain ⟨⟨hm, hoffer⟩, -, hread, hsearching⟩ := hk
      obtain rfl := Option.some.inj (hrow.symm.trans hsame)
      obtain rfl := Option.some.inj (hrow.symm.trans hread)
      exact Or.inr (.accept (d := row.deal _) hsearching
        (mem_offeredTo.mpr ⟨_, List.mem_of_getElem? hoffer, rfl, hm⟩))
  | @expired op _ reason order _ hsame hst =>
      obtain rfl := Option.some.inj (hrow.symm.trans hsame)
      exact Or.inr (.expire (d := row.deal _) (hst.trans hk))

/-- An offer is a step of the deal of a submitted order. -/
theorem createDispatch_deal {id orderId : OrderId} {row : Order} {dispatch : OrderDispatch}
    (hrow : db.orders[id]? = some row) (hsubmitted : db.Submitted orderId)
    (horder : dispatch.orderId = orderId)
    (hnew : alreadyOffered db orderId dispatch.masterId = false) :
    row.deal ((db.createDispatch dispatch).offeredTo id) = row.deal (db.offeredTo id) ∨
      Deal.Step .dispatcher (row.deal (db.offeredTo id))
        (row.deal ((db.createDispatch dispatch).offeredTo id)) := by
  have hoffered : (db.createDispatch dispatch).offeredTo id =
      db.offeredTo id ++ if orderId = id then [dispatch.masterId] else [] := by
    rw [← horder]
    simp only [Db.offeredTo, Db.offers, Db.createDispatch_dispatches, List.map_append,
      List.filter_append, List.map_cons, List.map_nil, List.filter_cons, OrderDispatch.offer,
      decide_eq_true_eq, List.filter_nil]
    split <;> simp
  rw [hoffered]
  split
  · rename_i hid
    subst hid
    obtain ⟨row', hrow', hst⟩ := hsubmitted
    obtain rfl := Option.some.inj (hrow.symm.trans hrow')
    refine Or.inr (.offer (d := row.deal _) hst fun hmem => ?_)
    obtain ⟨f, hf, hfid, hfm⟩ := mem_offeredTo.mp hmem
    rw [alreadyOffered_eq_offers] at hnew
    have hany : (db.offers.any fun f =>
        f.orderId = orderId ∧ f.masterId = dispatch.masterId) = true :=
      List.any_eq_true.mpr ⟨f, hf, by simp [hfid, hfm]⟩
    rw [hnew] at hany
    exact Bool.false_ne_true hany
  · exact Or.inl (by rw [List.append_nil])

/-- **A statement leaves a deal as it is, or takes one of its steps.** -/
theorem Stmt.deal_step (h : Stmt env me x db k o) (hk : k.Knows db me) (hent : k.Entitled db)
    (hfinds : x.fail = false → k.FindsEditable db)
    (hfails : x.fail = true → o = k.goto (db.unlock me) (.threw .infrastructure)) {id : OrderId}
    {d : Deal} (hd : db.deal id = some d) :
    ∃ d', o.store.deal id = some d' ∧ (d' = d ∨ Deal.Step k.party d d') := by
  obtain ⟨row, hrow, rfl⟩ := Option.map_eq_some_iff.mp hd
  cases hx : x.fail with
  | true =>
      rw [hfails hx]
      exact ⟨_, hd, Or.inl rfl⟩
  | false =>
      obtain ⟨row', hrow', -⟩ := h.precedes hk hfinds hfails hrow
      have hmove := (h.orderEffect hrow').deal_step hk hent (hfinds hx) hrow
      refine ⟨row'.deal (o.store.offeredTo id), by rw [Db.deal, hrow']; rfl, ?_⟩
      rcases h.offers with hoffers | ⟨orderId, attempt, order, rankSoFar, picked, hpc, -⟩
      · rw [offeredTo_congr hoffers]
        exact hmove
      · obtain ⟨op, pc⟩ := k
        obtain rfl : pc = .cascadeCreate orderId attempt order rankSoFar picked := hpc
        cases h with
        | fails hfail => simp [hx] at hfail
        | reads => exact hmove
        | acceptRollback hpc => rcases hpc with hpc | ⟨_, hpc⟩ <;> cases hpc
        | cascadeInsert hfree =>
            obtain rfl := Option.some.inj (hrow.symm.trans hrow')
            exact createDispatch_deal hrow hent rfl hfree

/-- Every offer is for an order that there is. -/
def Db.OffersScoped (db : Db) : Prop := ∀ f ∈ db.offers, f.orderId < db.orders.length

theorem Stmt.offersScoped (h : Stmt env me x db k o) (hk : k.Knows db me) (hent : k.Entitled db)
    (hfinds : x.fail = false → k.FindsEditable db)
    (hfails : x.fail = true → o = k.goto (db.unlock me) (.threw .infrastructure))
    (hscoped : db.OffersScoped) : o.store.OffersScoped := by
  -- No row is lost.
  have hstays : ∀ {id : ℕ}, id < db.orders.length → id < o.store.orders.length := by
    intro id hid
    obtain ⟨row', hrow', -⟩ := h.precedes hk hfinds hfails (List.getElem?_eq_getElem hid)
    exact (List.getElem?_eq_some_iff.mp hrow').1
  intro f hf
  rcases h.offers with hoffers | ⟨orderId, attempt, order, rankSoFar, picked, hpc, hoffers⟩
  · exact hstays (hscoped f (hoffers ▸ hf))
  · rw [hoffers] at hf
    rcases List.mem_append.mp hf with hold | hnew
    · exact hstays (hscoped f hold)
    · rw [List.mem_singleton.mp hnew]
      have hsubmitted : db.Submitted orderId := by
        simpa [Call.Entitled, hpc] using hent
      obtain ⟨row, hrow, -⟩ := hsubmitted
      exact hstays (List.getElem?_eq_some_iff.mp hrow).1

/-- A deal begins with the request of its customer. -/
theorem Stmt.deal_new (h : Stmt env me x db k o) (hscoped : db.OffersScoped) {id : OrderId}
    {d' : Deal} (hnone : db.deal id = none) (hd' : o.store.deal id = some d') :
    ∃ customer, d' = Deal.new customer := by
  obtain ⟨row', hrow', rfl⟩ := Option.map_eq_some_iff.mp hd'
  have hmissing : db.orders[id]? = none := by
    simpa [Db.deal] using hnone
  have heffect := h.orderEffect hrow'
  cases heffect with
  | @created customerId dto =>
      have hoffers : o.store.offers = db.offers := by
        rcases h.offers with hoffers | ⟨_, _, _, _, _, hpc, -⟩
        · exact hoffers
        · cases hpc
      have hnobody : o.store.offeredTo db.orders.length = [] := by
        rw [offeredTo_congr hoffers, List.eq_nil_iff_forall_not_mem]
        intro m hm
        obtain ⟨f, hf, hid, -⟩ := mem_offeredTo.mp hm
        exact absurd hid (Nat.ne_of_lt (hscoped f hf))
      exact ⟨customerId, by rw [hnobody]; rfl⟩
  | same hrow | edited hrow | reopened _ hrow | diagnosed _ hrow | submitted _ hrow
  | moved _ hrow | assigned _ hrow | expired _ hrow => simp [hmissing] at hrow

end Statements

/-! ### Whole runs -/

/-- What the calls know and are entitled to, when the writes by id find their orders
editable. -/
def entitlement (env : Env) : Outline (orders env) WriteFindsEditable where
  G := Db.OffersScoped
  L db me k := k.Knows db me ∧ k.Entitled db
  start t me k _ _ hentry _ := by
    obtain ⟨op, pc⟩ := k
    cases pc with
    | start => exact ⟨by cases op <;> trivial, by cases op <;> trivial⟩
    | _ => simp [orders, Call.isStart] at hentry
  own t me x k o hC he hk hstep _ hG hL := by
    obtain ⟨-, h, hfails⟩ := step_cases hstep
    have hfinds := (Transition.satisfies_iff he hk).mp hC
    refine ⟨h.offersScoped hL.1 hL.2 hfinds hfails hG, ⟨h.knows hL.1, h.entitled hL.2⟩, ?_⟩
    intro j k' hk'
    obtain ⟨op, pc⟩ := k'
    obtain rfl : pc = .start := h.spawned_start _ hk'
    exact ⟨by cases op <;> trivial, by cases op <;> trivial⟩
  others t me x k o j k' hC he hk hstep hk' hne _ hL hL' := by
    obtain ⟨-, h, hfails⟩ := step_cases hstep
    have hfinds := (Transition.satisfies_iff he hk).mp hC
    exact ⟨h.knows_other hL.1 (Ne.symm hne) hL'.1,
      hL'.2.of_precedes fun hrow => h.precedes hL.1 hfinds hfails hrow⟩

section Run

variable {env : Env} {db : Db} {c' : Config Db Call} {ts : List (Transition Db Call Input)}

/-- The order has come along the steps of a deal, from where it stood when the run began or from
the request of its customer; the steps were taken in this order, each by its party. -/
structure Honours (db : Db) (ts : List (Transition Db Call Input)) (id : OrderId) (d' : Deal) :
    Prop where
  path : ∃ d parties,
    (db.deal id = some d ∨ db.deal id = none ∧ ∃ customer, d = Deal.new customer) ∧
      Path Deal.Step d parties d' ∧ parties.Sublist (ts.filterMap dealParty)
  sound : d'.Sound

/-- What a transition does to the deal of an order. -/
theorem deal_fires {t : Transition Db Call Input} (ht : (orders env).Fires t)
    (hfinds : WriteFindsEditable t) (hpre : (entitlement env).Holds t.pre) (id : OrderId) :
    (∀ d, t.pre.store.deal id = some d → ∃ d', t.post.store.deal id = some d' ∧
      (d' = d ∨ ∃ p, dealParty t = some p ∧ Deal.Step p d d')) ∧
    (∀ d', t.pre.store.deal id = none → t.post.store.deal id = some d' →
      ∃ customer, d' = Deal.new customer) := by
  obtain ⟨hscoped, hcalls⟩ := hpre
  rcases stmt_of_fires ht with ⟨k, he, -, hpost⟩ | ⟨i, x, k, o, he, hi, -, h, hfails, hpost⟩
  · rw [hpost]
    exact ⟨fun d hd => ⟨d, hd, Or.inl rfl⟩, fun d' hnone hd' => by simp [hnone] at hd'⟩
  · obtain ⟨hknows, hentitled⟩ := hcalls i k hi
    rw [hpost]
    refine ⟨fun d hd => ?_, fun d' hnone hd' => h.deal_new hscoped hnone hd'⟩
    obtain ⟨d', hd', hmove⟩ := h.deal_step hknows hentitled
      ((Transition.satisfies_iff he hi).mp hfinds) hfails hd
    refine ⟨d', hd', hmove.imp_right fun hstep => ⟨k.party, ?_, hstep⟩⟩
    simp [dealParty, Transition.caller_eq he hi]

/-- **The services honour every deal.** Whatever calls run at once, as long as the writes by id
find their orders editable, each order comes along the steps of a deal. Nobody takes a step that
is not his, and the price is agreed before the search and kept after it. -/
theorem deals_of_run (hrun : (orders env).Run ⟨db, []⟩ ts c') (hscoped : db.OffersScoped)
    (hsound : ∀ id d, db.deal id = some d → d.Sound) (hfinds : ∀ t ∈ ts, WriteFindsEditable t)
    {id : OrderId} {d' : Deal} (hd' : c'.store.deal id = some d') : Honours db ts id d' := by
  obtain ⟨-, hholds⟩ := (entitlement env).holds_run hrun hfinds
    ⟨hscoped, fun i k hk => by simp at hk⟩
  have hsteps := fun t ht => deal_fires (hrun.fires t ht) (hfinds t ht) (hholds t ht).1 id
  obtain ⟨d, parties, hd, hpath, hparties⟩ :=
    hrun.path (fun db => db.deal id) (fun d => ∃ customer, d = Deal.new customer) dealParty
      (fun t ht => (hsteps t ht).1) (fun t ht => (hsteps t ht).2) hd'
  refine ⟨⟨d, parties, hd, hpath, hparties⟩, ?_⟩
  refine hpath.invariant (I := Deal.Sound) (fun p d d' hstep h => hstep.sound h) ?_
  rcases hd with hd | ⟨-, customer, rfl⟩
  · exact hsound id d hd
  · exact Deal.sound_new customer

theorem deals_wholeLife :
    ∃ d', ((orders .flat).after ⟨oneMaster, []⟩ wholeLife).store.deal 0 = some d' ∧
      d'.status = .closed ∧
        Honours oneMaster ((orders .flat).trace ⟨oneMaster, []⟩ wholeLife) 0 d' := by
  have hclosed : (((orders .flat).after ⟨oneMaster, []⟩ wholeLife).store.deal 0).any
      (fun d => d.status = .closed) := by
    decide +kernel
  obtain ⟨d', hd', hst⟩ := (Option.any_eq_true _ _).mp hclosed
  exact ⟨d', hd', by simpa using hst,
    deals_of_run ((orders .flat).run_trace _ _) (fun f hf => by simp [Db.offers, oneMaster] at hf)
      (fun id d hd => by simp [Db.deal, oneMaster] at hd) (by decide +kernel) hd'⟩

end Run

end Handly
