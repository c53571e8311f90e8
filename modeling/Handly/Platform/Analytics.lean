import Handly.Orders.Records
import Mathlib.Data.Finset.Card
import Mathlib.Data.Finset.SDiff

/-!
# The admin overview

`AdminAnalyticsService.overview`, as far as it reads orders, their history and the masters. The
match success rate is documented as the share of ASSIGNED among the orders that left SEARCHING in
the range. The code takes those that entered ASSIGNED from the history, by the instant of the
entry, and the EXPIRED ones from `orders`, by the instant of their creation: an order is counted
in the denominator of the range it was made in, also where it expired in another.
-/

namespace Handly

open Interleaving

/-- The query `Range`: an end that is absent filters nothing. -/
structure DateRange where
  dateFrom : Option Time := none
  dateTo : Option Time := none

/-- `dateRangeWhere`, and the conditions of the raw queries: both ends are inclusive. -/
def DateRange.covers (range : DateRange) (t : Time) : Bool :=
  (range.dateFrom.all fun dateFrom => dateFrom ≤ t) && range.dateTo.all fun dateTo => t ≤ dateTo

/-- `Order.createdAt`. The nested create writes the order and the history row that it starts
from at one instant. -/
def Db.createdAt (db : Db) (id : OrderId) : Option Time :=
  (db.history.find? fun h => h.orderId = id ∧ h.fromStatus = none).map OrderStatusHistory.createdAt

/-- The orders created in the range whose row passes the filter. -/
def Db.ordersCreatedIn (db : Db) (range : DateRange) (filter : Order → Bool) : Finset OrderId :=
  (Finset.range db.orders.length).filter fun id =>
    db.orders[id]?.any filter && (db.createdAt id).any range.covers

/-- `COUNT(DISTINCT h."orderId")` is the number of these: the orders that entered the status in
the range. -/
def Db.enteredIn (db : Db) (range : DateRange) (status : OrderStatus) : Finset OrderId :=
  ((db.history.filter fun h => h.toStatus = status ∧ range.covers h.createdAt).map
    OrderStatusHistory.orderId).toFinset

/-- `AVG(EXTRACT(EPOCH FROM h."createdAt" - o."createdAt"))` over the entries into the status in
the range, joined with their orders. -/
def Db.avgSecondsTo (db : Db) (range : DateRange) (status : OrderStatus) : Option ℚ :=
  let entries := db.history.filter fun h => h.toStatus = status ∧ range.covers h.createdAt
  let seconds := entries.filterMap fun h =>
    (db.createdAt h.orderId).map fun created => ((h.createdAt - created : ℤ) : ℚ) / 1000
  if seconds = [] then none else some (seconds.sum / seconds.length)

/-- `matchSuccessRate` out of the two counts. -/
def matchRate (ordersAssigned ordersExpired : ℕ) : Option ℚ :=
  let matchDenominator := ordersAssigned + ordersExpired
  if 0 < matchDenominator then some ((ordersAssigned : ℚ) / (matchDenominator : ℕ)) else none

/-- The fields of `AdminAnalyticsOverviewDto` that come from these tables. -/
structure AdminAnalyticsOverview where
  ordersCreated : ℕ
  ordersCompleted : ℕ
  ordersCancelled : ℕ
  ordersExpired : ℕ
  activeMasters : ℕ
  activeCustomers : ℕ
  mastersOnlineNow : ℕ
  avgCompletionTimeSeconds : Option ℚ
  avgAssignmentTimeSeconds : Option ℚ
  matchSuccessRate : Option ℚ

/-- `AdminAnalyticsService.overview` -/
def overview (db : Db) (range : DateRange) : AdminAnalyticsOverview :=
  let count (filter : Order → Bool) := (db.ordersCreatedIn range filter).card
  let distinct (column : Order → Option UserId) :=
    ((db.ordersCreatedIn range fun o => (column o).isSome).image
      fun id => db.orders[id]?.bind column).card
  let ordersExpired := count fun o => o.status = .expired
  { ordersCreated := count fun _ => true
    ordersCompleted := count fun o => o.status = .closed
    ordersCancelled := count fun o => o.status ∈ [.cancelledByCustomer, .cancelledByMaster]
    ordersExpired
    activeMasters := distinct fun o => o.masterId
    activeCustomers := distinct fun o => some o.customerId
    mastersOnlineNow := db.masters.countP fun m => m.isOnline
    avgCompletionTimeSeconds := db.avgSecondsTo range .completed
    avgAssignmentTimeSeconds := db.avgSecondsTo range .assigned
    matchSuccessRate := matchRate (db.enteredIn range .assigned).card ordersExpired }

/-- The rate as it is documented: of the orders that entered ASSIGNED or EXPIRED in the range. -/
structure MeasuresCohort (db : Db) (range : DateRange) (rate : Option ℚ) : Prop where
  undefined : rate = none ↔ db.enteredIn range .assigned = ∅ ∧ db.enteredIn range .expired = ∅
  ratio : ∀ r ∈ rate, r = ((db.enteredIn range .assigned).card : ℚ) /
    ((db.enteredIn range .assigned).card + (db.enteredIn range .expired).card)

/-! ### The instant of creation

Only the creation of an order writes a history row that starts from nothing, so an order keeps
its instant. -/

/-- Exactly the orders have an instant of creation. -/
def Db.Opened (db : Db) : Prop := ∀ id, (db.createdAt id).isSome ↔ id < db.orders.length

section CreatedAt

variable {env : Env} {me : ℕ} {x : Input} {k : Call} {db : Db} {o : Outcome Db Call}
  {id : OrderId}

theorem createdAt_congr {db' : Db} (h : db'.history = db.history) :
    db'.createdAt id = db.createdAt id := by
  rw [Db.createdAt, Db.createdAt, h]

/-- A row that starts from a status is not one of creation. -/
theorem createdAt_createHistory {r : OrderStatusHistory} (h : r.fromStatus ≠ none) :
    (db.createHistory r).createdAt id = db.createdAt id := by
  have hnone : [r].find? (fun h => h.orderId = id ∧ h.fromStatus = none) = none := by
    simp [h]
  rw [Db.createdAt, Db.createHistory_history, List.find?_append, hnone, Option.or_none]
  rfl

/-- The new order is created now, and the others keep their instants. -/
theorem createdAt_createDraft (hopened : db.Opened) {now : Time} {customerId : UserId}
    {dto : OrderCreateInput} :
    (createDraftWrite db now customerId dto).createdAt id =
      if id = db.orders.length then some now else db.createdAt id := by
  have hwrite : (createDraftWrite db now customerId dto).createdAt id =
      (db.createdAt id).or (if db.orders.length = id then some now else none) := by
    rw [Db.createdAt, createDraftWrite, Db.createHistory_history, List.find?_append,
      Option.map_or]
    by_cases hid : db.orders.length = id <;> simp [hid, Db.createdAt]
  rw [hwrite]
  by_cases hid : id = db.orders.length
  · have hnone : db.createdAt id = none := by
      have hnot : ¬ (db.createdAt id).isSome := fun h => (hid ▸ (hopened id).mp h).false
      simpa using hnot
    rw [hnone, if_pos hid, if_pos hid.symm, Option.none_or]
  · rw [if_neg hid, if_neg (Ne.symm hid), Option.or_none]

/-- **What a statement does to the instants of creation**: it keeps them and the number of
orders, unless it creates one. -/
theorem Stmt.createdAt (h : Stmt env me x db k o) :
    (o.store.orders.length = db.orders.length ∧ ∀ id, o.store.createdAt id = db.createdAt id) ∨
      ∃ customerId dto, o.store = createDraftWrite db x.now customerId dto := by
  cases h with
  | createDraft => exact Or.inr ⟨_, _, rfl⟩
  | @updateDraft customerId orderId dto order =>
      refine Or.inl ?_
      cases hinv : invalidatesQuote order dto with
      | false => simp [updateDraftWrite, hinv, Db.createdAt]
      | true =>
          refine ⟨by simp [updateDraftWrite, hinv], fun id => ?_⟩
          simp only [updateDraftWrite, hinv, if_true]
          exact createdAt_createHistory (by simp)
  | diagnose => exact Or.inl ⟨by simp [diagnoseWrite], fun id => createdAt_createHistory (by simp)⟩
  | submit => exact Or.inl ⟨by simp [submitWrite], fun id => createdAt_createHistory (by simp)⟩
  | @lifecycle l order =>
      obtain ⟨horders, -, hhistory, -⟩ := GuardedTransition.credit_frame l.spec order
        ((db.setStatus me l.spec.orderId l.spec.target (l.spec.data x.now)).createHistory
          { orderId := l.spec.orderId, fromStatus := some order.status, toStatus := l.spec.target,
            actorId := some l.spec.actorId, note := l.spec.note, createdAt := x.now })
      refine Or.inl ⟨?_, fun id => ?_⟩
      · rw [GuardedTransition.write, horders]
        simp
      · rw [GuardedTransition.write, createdAt_congr hhistory]
        exact createdAt_createHistory (by simp)
  | accept => exact Or.inl ⟨by simp [acceptWrite], fun id => createdAt_createHistory (by simp)⟩
  | followup hf =>
      obtain ⟨horders, -, hhistory, -⟩ := Followup.run_frame hf
      exact Or.inl ⟨by rw [horders], fun id => createdAt_congr hhistory⟩
  | failSearchUpdate =>
      exact Or.inl ⟨by simp [Handly.failSearchUpdate], fun id => createdAt_congr rfl⟩
  | failSearchRecord =>
      exact Or.inl ⟨by simp [Handly.failSearchRecord], fun id => createdAt_createHistory (by simp)⟩
  | fails | reads | acceptLock | acceptRollback | decline | expiry | cascadeInsert
  | cascadeEnqueue => exact Or.inl ⟨rfl, fun id => rfl⟩

/-- Every order goes on to have one instant of creation. -/
theorem Stmt.opened (h : Stmt env me x db k o) (hopened : db.Opened) :
    o.store.Opened ∧ ∀ id t, db.createdAt id = some t → o.store.createdAt id = some t := by
  rcases h.createdAt with ⟨hlen, hkept⟩ | ⟨customerId, dto, hwrite⟩
  · exact ⟨fun id => by rw [hkept, hlen]; exact hopened id, fun id t ht => by rw [hkept, ht]⟩
  · have hcreated : ∀ id, o.store.createdAt id =
        if id = db.orders.length then some x.now else db.createdAt id := fun id => by
      rw [hwrite]
      exact createdAt_createDraft hopened
    have hlen : o.store.orders.length = db.orders.length + 1 := by
      rw [hwrite]
      simp [createDraftWrite]
    refine ⟨fun id => ?_, fun id t ht => ?_⟩
    · rw [hcreated, hlen, Nat.lt_succ_iff_lt_or_eq]
      by_cases hid : id = db.orders.length
      · simp [hid]
      · simp [hid, hopened id]
    · have hlt : id < db.orders.length := (hopened id).mp (by rw [ht]; rfl)
      rw [hcreated, if_neg hlt.ne, ht]

end CreatedAt

/-- **An order has one instant of creation in the whole run.** -/
theorem createdAt_of_run {env : Env} {db : Db} {c' : Config Db Call}
    {ts : List (Transition Db Call Input)} (hrun : (orders env).Run ⟨db, []⟩ ts c')
    (hopened : db.Opened) :
    c'.store.Opened ∧ ∀ id t, db.createdAt id = some t → c'.store.createdAt id = some t := by
  refine (hrun.always (fun c => c.store.Opened ∧ ∀ id t, db.createdAt id = some t →
    c.store.createdAt id = some t) ⟨hopened, fun _ _ ht => ht⟩ fun t ht hI => ?_).1
  rcases stmt_of_fires ht with ⟨k, -, -, hpost⟩ | ⟨i, x, k, o, -, -, -, h, -, hpost⟩
  · rw [hpost]
    exact hI
  · obtain ⟨hopened', hkept⟩ := h.opened hI.1
    rw [hpost]
    exact ⟨hopened', fun id t ht => hkept id t (hI.2 id t ht)⟩

/-! ### The rate -/

section Rate

variable (db : Db) (range : DateRange)

/-- The orders that the code counts as expired in the range. -/
def Db.countedExpired : Finset OrderId := db.ordersCreatedIn range fun o => o.status = .expired

/-- The orders that were both created and expired in the range. -/
def Db.expiredInside : Finset OrderId := db.countedExpired range ∩ db.enteredIn range .expired

/-- The EXPIRED orders that were created in the range and expired outside it. -/
def Db.expiredOutside : Finset OrderId := db.countedExpired range \ db.enteredIn range .expired

/-- The orders that expired in the range and were created outside it, or are EXPIRED no more. -/
def Db.createdOutside : Finset OrderId := db.enteredIn range .expired \ db.countedExpired range

/-- The quotient is the documented one exactly if the second counts agree, or the first is zero
and the second are both zero or both positive. -/
theorem matchRate_iff {assigned counted expired : ℕ} :
    ((matchRate assigned counted = none ↔ assigned = 0 ∧ expired = 0) ∧
      ∀ r ∈ matchRate assigned counted, r = (assigned : ℚ) / (assigned + expired)) ↔
      (0 < assigned → counted = expired) ∧ (assigned = 0 → (0 < counted ↔ 0 < expired)) := by
  rcases Nat.eq_zero_or_pos assigned with rfl | hpos
  · have hzero : ∀ r ∈ matchRate 0 counted, r = ((0 : ℕ) : ℚ) / ((0 : ℕ) + expired) := by
      intro r hr
      simp only [matchRate] at hr
      split at hr
      · obtain rfl := Option.some.inj hr
        simp
      · cases hr
    have hnone : matchRate 0 counted = none ↔ counted = 0 := by
      simp [matchRate]
    rw [hnone]
    constructor
    · rintro ⟨hiff, -⟩
      exact ⟨fun h => absurd h (lt_irrefl 0), fun _ => by omega⟩
    · rintro ⟨-, hiff⟩
      have hiff := hiff rfl
      exact ⟨by omega, hzero⟩
  · have hrate : matchRate assigned counted =
        some ((assigned : ℚ) / ((assigned : ℚ) + counted)) := by
      rw [matchRate, if_pos (Nat.add_pos_left hpos counted), Nat.cast_add]
    have hne : (assigned : ℚ) ≠ 0 := Nat.cast_ne_zero.mpr hpos.ne'
    have hratio : (∀ r ∈ matchRate assigned counted, r = (assigned : ℚ) / (assigned + expired)) ↔
        counted = expired := by
      rw [hrate]
      simp [div_eq_mul_inv, hne]
    rw [hratio, hrate]
    constructor
    · rintro ⟨-, heq⟩
      exact ⟨fun _ => heq, fun h => absurd h hpos.ne'⟩
    · rintro ⟨heq, -⟩
      exact ⟨⟨fun h => by simp at h, fun h => absurd h.1 hpos.ne'⟩, heq hpos⟩

/-- As many orders are counted in excess as are missed exactly if the two numbers agree. -/
theorem card_sdiff_eq_iff {s t : Finset OrderId} :
    (s \ t).card = (t \ s).card ↔ s.card = t.card := by
  have hs := Finset.card_sdiff_add_card_inter s t
  have ht := Finset.card_sdiff_add_card_inter t s
  rw [Finset.inter_comm] at ht
  omega

/-- Two sets are empty together exactly if they meet, or their differences are empty together. -/
theorem nonempty_iff_nonempty {s t : Finset OrderId} :
    ((s ∩ t).Nonempty ∨ ((s \ t).Nonempty ↔ (t \ s).Nonempty)) ↔ (s.Nonempty ↔ t.Nonempty) := by
  have hs := Finset.card_sdiff_add_card_inter s t
  have ht := Finset.card_sdiff_add_card_inter t s
  rw [Finset.inter_comm] at ht
  simp only [← Finset.card_pos]
  omega

/-- **When the match success rate measures one cohort.** If an order entered ASSIGNED in the
range: exactly if the orders created in it that expired outside are as many as those that
expired in it and were created outside. If none did: exactly if an order was both created and
expired in the range, or the orders of these two kinds are missing together. -/
theorem measuresCohort_iff :
    MeasuresCohort db range (overview db range).matchSuccessRate ↔
      ((db.enteredIn range .assigned).Nonempty →
        (db.expiredOutside range).card = (db.createdOutside range).card) ∧
      (db.enteredIn range .assigned = ∅ → (db.expiredInside range).Nonempty ∨
        ((db.expiredOutside range).Nonempty ↔ (db.createdOutside range).Nonempty)) := by
  have hrate : (overview db range).matchSuccessRate =
      matchRate (db.enteredIn range .assigned).card (db.countedExpired range).card := rfl
  rw [Db.expiredInside, Db.expiredOutside, Db.createdOutside, nonempty_iff_nonempty,
    card_sdiff_eq_iff, ← Finset.card_eq_zero, ← Finset.card_pos, ← Finset.card_pos,
    ← Finset.card_pos, ← matchRate_iff, ← hrate]
  constructor
  · rintro ⟨hnone, hratio⟩
    exact ⟨by simpa only [Finset.card_eq_zero] using hnone, hratio⟩
  · rintro ⟨hnone, hratio⟩
    exact ⟨by simpa only [Finset.card_eq_zero] using hnone, hratio⟩

end Rate

/-- A category, a customer and no master. -/
def noMaster : Db where
  users := [⟨.active, .customer⟩]
  categories := [{ basePriceMin := 100000, basePriceMax := 200000, active := true }]

theorem opened_noMaster : noMaster.Opened := by
  intro id
  simp [Db.createdAt, noMaster]

/-- An order is made and submitted at 0, and its search is given up at 100. -/
def searchInVain : List (Event Call Input) :=
  List.flatten
    [runCall 0 1 (.createDraft 0 { categoryId := some 0, description := "" }),
      runCall 1 2 (.updateDraft 0 0
        { serviceTier := some .emergency, latitude := some 0, longitude := some 0 }),
      runCall 2 4 (.diagnose 0 0), runCall 3 2 (.submit 0 0),
      List.replicate 12 (.run 4 { now := 100 })]

/-- In the range from 50 on one order has expired, and the rate is null. -/
theorem not_measuresCohort_searchInVain :
    ¬ ∀ (env : Env) (db : Db) (c' : Config Db Call) (ts : List (Transition Db Call Input))
      (range : DateRange), (orders env).Run ⟨db, []⟩ ts c' → db.Opened →
        MeasuresCohort c'.store range (overview c'.store range).matchSuccessRate := by
  intro h
  have hcohort := h .flat noMaster _ _ { dateFrom := some 50 }
    ((orders .flat).run_trace ⟨noMaster, []⟩ searchInVain) opened_noMaster
  have hempty := (hcohort.undefined.mp (by decide +kernel)).2
  exact absurd hempty (by decide +kernel)

end Handly
