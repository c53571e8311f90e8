import Handly.Orders.Rows
import Handly.Platform.Components

/-!
# Only qualified masters are assigned

The eligibility query asks whether a master is ACTIVE and VERIFIED and trusted enough for the
complexity of the order. `acceptOffer` does not ask again: it checks the offer and the status of
the order. So the master who is assigned was qualified when the query ran, and he still is
exactly if nothing has taken that away since.

The qualification is carried along by assertions: from the query to the pick that
`cascadeNext` inserts, from there to the OFFERED dispatch, and from the check of the dispatch to
the commit.
-/

namespace Handly.Platform

open Interleaving

/-- The master may be assigned to an order of this complexity. -/
def Store.Qualified (s : Store) (masterId : UserId) (complexity : Option Complexity) : Prop :=
  (∃ user ∈ s.accounts.users[masterId]?, user.status = .active) ∧
    ∃ m ∈ s.db.masters, m.userId = masterId ∧ m.verificationStatus = .verified ∧
      requiredTierForComplexity complexity ≤ m.trustTier

/-- The same of an order with its current complexity. -/
def Store.QualifiedFor (s : Store) (p : OrderId × UserId) : Prop :=
  ∃ order ∈ s.db.orders[p.1]?, s.Qualified p.2 order.complexity

instance (s : Store) (p : OrderId × UserId) : Decidable (s.QualifiedFor p) :=
  inferInstanceAs (Decidable (∃ order ∈ s.db.orders[p.1]?,
    (∃ user ∈ s.accounts.users[p.2]?, user.status = .active) ∧
      ∃ m ∈ s.db.masters, m.userId = p.2 ∧ m.verificationStatus = .verified ∧
        requiredTierForComplexity order.complexity ≤ m.trustTier))

/-- In this transition the order becomes ASSIGNED to the master. -/
def Assigns (p : OrderId × UserId) (t : Transition Store AnyCall AnyInput) : Prop :=
  (∀ order ∈ t.pre.store.db.orders[p.1]?, order.status ≠ .assigned) ∧
    ∃ order ∈ t.post.store.db.orders[p.1]?, order.status = .assigned ∧ order.masterId = some p.2

instance (p : OrderId × UserId) (t : Transition Store AnyCall AnyInput) : Decidable (Assigns p t) :=
  inferInstanceAs (Decidable ((∀ order ∈ t.pre.store.db.orders[p.1]?, order.status ≠ .assigned) ∧
    ∃ order ∈ t.post.store.db.orders[p.1]?, order.status = .assigned ∧ order.masterId = some p.2))

/-- Every master that an order is assigned to in the run is qualified for it at that commit. -/
def AssignsQualified (ts : List (Transition Store AnyCall AnyInput)) : Prop :=
  ∀ t ∈ ts, ∀ p, Assigns p t → t.post.store.QualifiedFor p

/-! ### When it holds -/

/-- The offers that are OFFERED: order and master. -/
def Store.offered (s : Store) : List (OrderId × UserId) :=
  (s.db.dispatches.filter fun d => d.status = .offered).map fun d => (d.orderId, d.masterId)

/-- The offer that the call is about to make or to accept: its master was picked by the query,
or its dispatch passed the checks. -/
def inHand : AnyCall → Option (OrderId × UserId)
  | ⟨.orders, ⟨_, .cascadeCreate orderId _ _ _ picked⟩⟩ => some (orderId, picked.masterId)
  | ⟨.orders, ⟨.acceptOffer _ masterId, .accepting dispatch _⟩⟩ => some (dispatch.orderId, masterId)
  | _ => none

/-- The offers that can still become assignments. -/
def pending (c : Config Store AnyCall) : List (OrderId × UserId) :=
  c.store.offered ++ c.calls.filterMap inHand

/-- The order, with its complexity, that the call has read for an eligibility query that it has
not run yet. -/
def querying : AnyCall → Option (OrderId × Option Complexity)
  | ⟨.orders, ⟨_, .cascadeCount orderId _ order _⟩⟩ => some (orderId, order.complexity)
  | ⟨.orders, ⟨_, .cascadeQuery orderId _ order _ _⟩⟩ => some (orderId, order.complexity)
  | _ => none

def Store.complexityOf (s : Store) (orderId : OrderId) : Option (Option Complexity) :=
  s.db.orders[orderId]?.map Order.complexity

/-- The transition takes the qualification for no pending offer away, and it does not change the
complexity of an order between the read and the query of a cascade. -/
structure KeepsQualified (t : Transition Store AnyCall AnyInput) : Prop where
  qualified : ∀ p ∈ pending t.pre, t.pre.store.QualifiedFor p → t.post.store.QualifiedFor p
  complexity : ∀ q ∈ t.pre.calls.filterMap querying,
    t.post.store.complexityOf q.1 = t.pre.store.complexityOf q.1

instance : DecidablePred KeepsQualified := fun t =>
  decidable_of_iff
    ((∀ p ∈ pending t.pre, t.pre.store.QualifiedFor p → t.post.store.QualifiedFor p) ∧
      ∀ q ∈ t.pre.calls.filterMap querying,
        t.post.store.complexityOf q.1 = t.pre.store.complexityOf q.1)
    ⟨fun h => ⟨h.1, h.2⟩, fun h => ⟨h.qualified, h.complexity⟩⟩

/-- Every open offer is to a master who is qualified. -/
def Store.OffersQualified (s : Store) : Prop := ∀ p ∈ s.offered, s.QualifiedFor p

/-- A call that has an offer in hand knows that its master is qualified, and one that runs the
query next the complexity of the order. -/
def HoldsQualified (s : Store) (k : AnyCall) : Prop :=
  (∀ p ∈ inHand k, s.QualifiedFor p) ∧
    ∀ q ∈ querying k, s.complexityOf q.1 = some q.2

/-- What a call knows of the orders. -/
def Known (s : Store) (i : ℕ) : AnyCall → Prop
  | ⟨.orders, k⟩ => k.Knows s.ordersPart i
  | _ => True

section Statements

variable {env : Env} {me : ℕ} {x : Handly.Input} {k : Handly.Call} {s : Store}
  {o : Outcome Handly.Db Handly.Call}

/-- **The query** finds masters who are qualified for the complexity it was asked with. -/
theorem qualified_of_candidate {now : Time} {orderId : OrderId} {attempt : Attempt} {order : Order}
    {categoryId : CategoryId} {picked : EligibleCandidate}
    (h : picked ∈ cascadeCandidates env s.ordersPart now orderId attempt order categoryId) :
    s.Qualified picked.masterId order.complexity := by
  obtain ⟨m, hm, hid, helig⟩ := eligible_of_mem h
  simp only [masterEligible, Bool.and_eq_true, decide_eq_true_eq] at helig
  obtain ⟨⟨⟨⟨⟨⟨⟨huser, -⟩, hverified⟩, -⟩, htier⟩, -⟩, -⟩, -⟩ := helig
  refine ⟨?_, m, hm, hid, hverified, htier⟩
  rw [← hid]
  obtain ⟨user, huser, hactive⟩ := (Option.any_eq_true _ _).mp huser
  simp only [Store.ordersPart, List.getElem?_map, Option.map_eq_some_iff] at huser
  obtain ⟨row, hrow, rfl⟩ := huser
  exact ⟨row, hrow, by simpa using hactive⟩

/-- The master of a candidate is qualified for the order whose complexity was read. -/
theorem qualifiedFor_of_candidate {now : Time} {orderId : OrderId} {attempt : Attempt}
    {order : Order} {categoryId : CategoryId} {picked : EligibleCandidate}
    (hread : s.complexityOf orderId = some order.complexity)
    (h : picked ∈ cascadeCandidates env s.ordersPart now orderId attempt order categoryId) :
    s.QualifiedFor (orderId, picked.masterId) := by
  obtain ⟨row, hrow, hcomplexity⟩ := Option.map_eq_some_iff.mp hread
  exact ⟨row, hrow, hcomplexity ▸ qualified_of_candidate h⟩

theorem mem_offered {p : OrderId × UserId} :
    p ∈ s.offered ↔ ∃ d ∈ s.db.dispatches, d.status = .offered ∧ (d.orderId, d.masterId) = p := by
  simp [Store.offered, and_assoc]

/-- A read establishes what its call holds next. -/
theorem holds_of_reads {op : Handly.Op} {pc pc' : Handly.Pc}
    (h : Reads env x s.ordersPart op pc pc') (hG : s.OffersQualified)
    (hknows : Handly.Call.Knows s.ordersPart me ⟨op, pc⟩)
    (hholds : HoldsQualified s ⟨.orders, ⟨op, pc⟩⟩) : HoldsQualified s ⟨.orders, ⟨op, pc'⟩⟩ := by
  obtain ⟨hhand, hquery⟩ := hholds
  cases h with
  | @cascadeReads _ _ orderId attempt order categoryId henter hrow hst =>
      refine ⟨by simp [inHand], fun q hq => ?_⟩
      obtain rfl := Option.some.inj hq
      exact congrArg (Option.map Order.complexity) hrow
  | cascadeCounts => exact ⟨by simp [inHand], fun q hq => hquery q hq⟩
  | cascadePicks hmem =>
      refine ⟨fun p hp => ?_, by simp [querying]⟩
      obtain rfl := Option.some.inj hp
      exact qualifiedFor_of_candidate (hquery _ rfl) hmem
  | @acceptFresh dispatchId masterId dispatch order fresh hrow hcheck =>
      refine ⟨fun p hp => ?_, by simp [querying]⟩
      obtain rfl := Option.some.inj hp
      -- The fresh row is a version of the dispatch that was read first.
      obtain ⟨⟨hmaster, hoffer⟩, -⟩ := hknows
      have hsame : fresh.offer = dispatch.offer := by
        simpa [Db.offers, hrow] using hoffer
      have horder : fresh.orderId = dispatch.orderId := congrArg Offer.orderId hsame
      have hfresh : fresh.masterId = masterId := (congrArg Offer.masterId hsame).trans hmaster
      refine hG _ (mem_offered.mpr ⟨fresh, List.mem_of_getElem? hrow, ?_, ?_⟩)
      · exact (acceptCheck_eq_ok hcheck).1
      · rw [horder, hfresh]
  | _ => exact ⟨by simp [inHand], by simp [querying]⟩

/-- So does every statement. -/
theorem holds_of_stmt (h : Stmt env me x s.ordersPart k o) (hG : s.OffersQualified)
    (hknows : k.Knows s.ordersPart me) (hholds : HoldsQualified s ⟨.orders, k⟩) :
    HoldsQualified (s.setOrdersPart o.store) ⟨.orders, o.call⟩ := by
  cases h with
  | reads hr => exact holds_of_reads hr hG hknows hholds
  | _ => exact ⟨by simp [inHand], by simp [querying]⟩

/-- An open offer after a statement was open before it, or the call had it in hand. -/
theorem offered_after (h : Stmt env me x s.ordersPart k o) {p : OrderId × UserId}
    (hp : p ∈ (s.setOrdersPart o.store).offered) :
    p ∈ s.offered ∨ inHand ⟨.orders, k⟩ = some p := by
  obtain ⟨d, hd, hst, rfl⟩ := mem_offered.mp hp
  obtain ⟨id, hid⟩ := List.getElem?_of_mem hd
  cases h.dispatchEffect hid with
  | same hrow => exact Or.inl (mem_offered.mpr ⟨d, List.mem_of_getElem? hrow, hst, rfl⟩)
  | inserted => exact Or.inr rfl
  | accepted => simp [OrderDispatch.accept] at hst
  | closed _ _ _ hne => exact absurd hst hne

/-- Only `acceptOffer` makes an order ASSIGNED, and it had the offer in hand. -/
theorem inHand_of_assigned (h : Stmt env me x s.ordersPart k o) {p : OrderId × UserId}
    (hbefore : ∀ order ∈ s.db.orders[p.1]?, order.status ≠ .assigned) {order : Order}
    (hrow : o.store.orders[p.1]? = some order) (hst : order.status = .assigned)
    (hmaster : order.masterId = some p.2) : inHand ⟨.orders, k⟩ = some p := by
  obtain ⟨orderId, masterId⟩ := p
  cases h.orderEffect hrow with
  | same hsame => exact absurd hst (hbefore _ hsame)
  | @edited _ _ _ _ row hsame => exact absurd hst (hbefore row hsame)
  | @moved l => cases l <;> simp [Lifecycle.spec] at hst
  | assigned row hsame =>
      obtain rfl := Option.some.inj hmaster
      rfl
  | created | reopened | diagnosed | submitted | expired => simp [draftOf] at hst

/-- What a call knows of the orders outlives a statement that writes none of them. -/
theorem knows_of_frame {db db' : Handly.Db} (horders : db'.orders = db.orders)
    (hdispatches : db'.dispatches = db.dispatches) (hlock : db'.orderLock = db.orderLock)
    (hk : k.Knows db me) : k.Knows db' me := by
  have hoffers : db'.offers = db.offers := congrArg (List.map OrderDispatch.offer) hdispatches
  unfold Handly.Call.Knows OwnOffer at hk ⊢
  rw [horders, hoffers, hlock]
  exact hk

end Statements

/-! ### A whole run -/

section Run

variable {env : Env} {aenv : Auth.Env} {s : Store} {c' : Config Store AnyCall}
  {ts : List (Transition Store AnyCall AnyInput)} {t : Transition Store AnyCall AnyInput}

/-- A call of another component has no offer in hand. -/
theorem known_of_ne {c : Component} (hc : c ≠ .orders) (k : c.Call) (i : ℕ) :
    HoldsQualified s ⟨c, k⟩ ∧ Known s i ⟨c, k⟩ := by
  cases c with
  | orders => exact absurd rfl hc
  | _ => exact ⟨⟨by simp [inHand], by simp [querying]⟩, trivial⟩

/-- A statement that keeps the qualifications keeps what another call holds. -/
theorem holds_other (hC : KeepsQualified t) {j : ℕ} {k : AnyCall} (hk : t.pre.calls[j]? = some k)
    (hholds : HoldsQualified t.pre.store k) : HoldsQualified t.post.store k := by
  have hmem := List.mem_of_getElem? hk
  refine ⟨fun p hp => ?_, fun q hq => ?_⟩
  · refine hC.qualified p ?_ (hholds.1 p hp)
    exact List.mem_append_right _ (List.mem_filterMap.mpr ⟨k, hmem, hp⟩)
  · rw [hC.complexity q (List.mem_filterMap.mpr ⟨k, hmem, hq⟩)]
    exact hholds.2 q hq

/-- The open offers stay qualified. -/
theorem offersQualified_step (hC : KeepsQualified t) (hG : t.pre.store.OffersQualified)
    {i : ℕ} {k : AnyCall} (hk : t.pre.calls[i]? = some k) (hholds : HoldsQualified t.pre.store k)
    (hoffered : ∀ p ∈ t.post.store.offered, p ∈ t.pre.store.offered ∨ inHand k = some p) :
    t.post.store.OffersQualified := by
  intro p hp
  rcases hoffered p hp with hold | hnew
  · exact hC.qualified p (List.mem_append_left _ hold) (hG p hold)
  · exact (holds_other hC hk hholds).1 p hnew

/-- What an order call knows outlives the statements of the others. -/
theorem knows_other {i : ℕ} {c : Component} {x : c.Input} {k : c.Call} {o : Outcome Store c.Call}
    (h : (component env aenv c).step i x k s = some o) (hk : Known s i ⟨c, k⟩) {j : ℕ} (hne : i ≠ j)
    {k' : Handly.Call} (hk' : k'.Knows s.ordersPart j) : k'.Knows o.store.ordersPart j := by
  by_cases hc : c = .orders
  · subst hc
    obtain ⟨o', hstmt, -, rfl⟩ := orders_cases h
    exact knows_of_frame rfl rfl rfl (hstmt.knows_other hk hne.symm hk')
  · obtain ⟨horders, hdispatches, hlock, -⟩ := component_frame hc h
    exact knows_of_frame horders hdispatches hlock hk'

/-- A statement establishes what its call holds and knows next, and accounts for the open
offers. -/
theorem known_own {i : ℕ} {c : Component} {x : c.Input} {k : c.Call} {o : Outcome Store c.Call}
    (h : (component env aenv c).step i x k s = some o) (hG : s.OffersQualified)
    (hholds : HoldsQualified s ⟨c, k⟩) (hknown : Known s i ⟨c, k⟩) :
    (∀ p ∈ o.store.offered, p ∈ s.offered ∨ inHand ⟨c, k⟩ = some p) ∧
      (HoldsQualified o.store ⟨c, o.call⟩ ∧ Known o.store i ⟨c, o.call⟩) ∧
      ∀ k' ∈ o.spawned, (component env aenv c).entry k' = true := by
  by_cases hc : c = .orders
  · subst hc
    obtain ⟨o', hstmt, -, rfl⟩ := orders_cases h
    refine ⟨fun p hp => offered_after hstmt hp, ⟨holds_of_stmt hstmt hG hknown hholds, ?_⟩, ?_⟩
    · exact knows_of_frame rfl rfl rfl (hstmt.knows hknown)
    · intro k' hk'
      simp [component, Machine.onPart, orders, Handly.Call.isStart, hstmt.spawned_start k' hk']
  · obtain ⟨-, hdispatches, -, hspawned⟩ := component_frame hc h
    refine ⟨fun p hp => Or.inl ?_, known_of_ne hc _ _, by simp [hspawned]⟩
    rw [Store.offered, hdispatches] at hp
    exact hp

/-- The outline of a run that keeps the qualifications. -/
def qualifying (env : Env) (aenv : Auth.Env) :
    Outline (platform env aenv) fun t => KeepsQualified t ∧ (platform env aenv).Fires t :=
  .sigma (component env aenv) _ Store.OffersQualified
    (fun s i k => HoldsQualified s k ∧ Known s i k)
    (by
      intro s i c k hentry hG
      by_cases hc : c = .orders
      · subst hc
        obtain ⟨op, pc⟩ := k
        cases pc with
        | start => exact ⟨⟨by simp [inHand], by simp [querying]⟩, trivial⟩
        | _ => simp [component, Machine.onPart, orders, Handly.Call.isStart] at hentry
      · exact known_of_ne hc k i)
    (by
      intro t i c x k o hC he hk hstep hpost hG hL
      obtain ⟨hoffered, hown, hspawned⟩ := known_own hstep hG hL.1 hL.2
      have hstore : t.post.store = o.store := by rw [hpost]
      rw [← hstore] at hoffered
      refine ⟨?_, hown, hspawned⟩
      rw [← hstore]
      exact offersQualified_step hC.1 hG hk hL.1 hoffered)
    (by
      intro t i c x k o j c' k' hC he hk hstep hk' hne hG hL hL'
      obtain ⟨hkeeps, hfires⟩ := hC
      refine ⟨?_, ?_⟩
      · rw [← Machine.sigma_post hfires he hk hstep]
        exact holds_other hkeeps hk' hL'.1
      · by_cases hc : c' = .orders
        · subst hc
          exact knows_other hstep hL.2 hne hL'.2
        · exact (known_of_ne hc k' j).2)

/-- **Only qualified masters are assigned**, in a run in which nothing takes the qualification
for a pending offer away. -/
theorem assignsQualified_of_run (hrun : (platform env aenv).Run ⟨s, []⟩ ts c')
    (hs : s.OffersQualified) (hC : ∀ t ∈ ts, KeepsQualified t) : AssignsQualified ts := by
  have hholds := ((qualifying env aenv).holds_run hrun
    (fun t ht => ⟨hC t ht, hrun.fires t ht⟩) ⟨hs, by simp⟩).2
  intro t ht p hassigns
  obtain ⟨hbefore, order, hrow, hst, hmaster⟩ := hassigns
  -- Otherwise the order was ASSIGNED before.
  have hmoved : t.post.store.db.orders ≠ t.pre.store.db.orders := by
    intro heq
    rw [heq] at hrow
    exact hbefore order hrow hst
  rcases Machine.sigma_fires (hrun.fires t ht) with
    ⟨c, k, -, -, hpost⟩ | ⟨i, c, x, k, o, he, hk, hstep, hpost⟩
  · exact absurd (by rw [hpost]) hmoved
  · by_cases hc : c = .orders
    · subst hc
      obtain ⟨o', hstmt, -, rfl⟩ := orders_cases hstep
      rw [hpost] at hrow
      have hhand := inHand_of_assigned hstmt hbefore hrow hst hmaster
      exact (holds_other (hC t ht) hk ((hholds t ht).1.2 i _ hk).1).1 p hhand
    · rw [hpost] at hmoved
      exact absurd (component_frame hc hstep).1 hmoved

end Run

/-- A call is started as number `i` and runs `n` statements, all on the same input. -/
def play (i n : ℕ) (c : Component) (k : c.Call) (x : c.Input) : List (Event AnyCall AnyInput) :=
  .start ⟨c, k⟩ :: List.replicate n (.run i ⟨c, x⟩)

/-- Order 0 of customer 0 is SEARCHING. Of the masters 1 and 2, 1 is qualified for it. -/
def searchingOrder : Store :=
  { accounts :=
      { users := [.customer, .master, .master].map fun role =>
          { phone := "", passwordHash := "", role, status := .active, referralCode := ""
            locale := .uz } }
    db :=
      { masters := [{ userId := 1, verificationStatus := .verified, trustTier := 0, ratingAvg := 0
                      jobsDone := 0, isOnline := true }]
        skills := [{ masterId := 1, categoryId := 0 }]
        serviceAreas := [{ masterId := 1, centerPoint := (0, 0), radiusM := 1000 }]
        orders := [{ customerId := 0, categoryId := some 0, description := "", status := .searching
                     latitude := some 0, longitude := some 0, complexity := some .simple }] } }

theorem searchingOrder_offersQualified : searchingOrder.OffersQualified := by
  intro p hp
  simp [searchingOrder, Store.offered] at hp

/-- The order is offered to master 1, the user is suspended, and master 1 is about to commit his
acceptance. -/
def suspendedWhileOffered (userId : UserId) : List (Event AnyCall AnyInput) :=
  List.flatten
    [play 0 8 .orders ⟨.startDispatch 0, .start⟩ {},
      play 1 4 .accounts ⟨.suspend userId 9 "", .start⟩ {},
      play 2 4 .orders ⟨.acceptOffer 0 1, .start⟩ {}]

theorem assignsQualified_otherSuspended :
    AssignsQualified ((platform .flat Auth.plainHashes).trace ⟨searchingOrder, []⟩
      (suspendedWhileOffered 2 ++ [.run 2 ⟨.orders, {}⟩])) :=
  assignsQualified_of_run ((platform .flat Auth.plainHashes).run_trace _ _)
    searchingOrder_offersQualified (by decide +kernel)

/-- A master who is suspended while an offer to him is open is assigned when he accepts it. -/
theorem not_assignsQualified_always :
    ¬ ∀ (env : Env) (aenv : Auth.Env) (s : Store)
        (ts : List (Transition Store AnyCall AnyInput)) (c' : Config Store AnyCall),
      (platform env aenv).Run ⟨s, []⟩ ts c' → s.OffersQualified → AssignsQualified ts := by
  intro h
  have hqualified := h .flat Auth.plainHashes searchingOrder _ _
    (.snoc ⟨_, .run 2 ⟨.orders, {}⟩, _⟩
      ((platform .flat Auth.plainHashes).run_trace _ (suspendedWhileOffered 1)) rfl
      ((platform .flat Auth.plainHashes).fires_after (by decide +kernel)))
    searchingOrder_offersQualified
  have hassigned := hqualified _ (List.mem_append_right _ List.mem_cons_self) (0, 1)
    (by decide +kernel)
  exact absurd hassigned (by decide +kernel)

end Handly.Platform
