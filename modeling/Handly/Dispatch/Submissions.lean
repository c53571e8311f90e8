import Handly.Orders.Rows
import Handly.Orders.Knowledge

/-!
# What `submit` hands to the dispatch

`submit` asks for an address text or a location, `cascadeNext` for a category and a location.
The category is there, because only `diagnose` makes an order PRICED. The coordinates are there
exactly if an edit has given them: with an address text alone the order is submitted, and its
search fails before it has looked for a master.
-/

namespace Handly

open Interleaving

/-- The columns of the location of an order. -/
inductive Coordinate
  | latitude | longitude

/-- The coordinate that an order has. -/
def Coordinate.of : Coordinate → Order → Option ℚ
  | latitude => Order.latitude
  | longitude => Order.longitude

/-- The coordinate that an edit gives. -/
def Coordinate.given : Coordinate → OrderUpdateInput → Option ℚ
  | latitude => OrderUpdateInput.latitude
  | longitude => OrderUpdateInput.longitude

/-- The write that follows the checks of the call takes effect in this transition. -/
def Succeeds (op : Op) (t : Transition Db Call Input) : Prop :=
  (∃ order, t.caller = some ⟨op, .guarded order⟩) ∧ t.callerAfter = some ⟨op, .returned⟩

/-- Call `i` finds no master in a pass over the order. -/
def PassEmpty (env : Env) (orderId : OrderId) (attempt : Attempt) (i : ℕ)
    (t : Transition Db Call Input) : Prop :=
  ∃ x op order categoryId rankSoFar, t.event = .run i x ∧
    t.pre.calls[i]? = some ⟨op, .cascadeQuery orderId attempt order categoryId rankSoFar⟩ ∧
    cascadeCandidates env t.pre.store x.now orderId attempt order categoryId = []

/-- Call `i` gives up the search for the order. -/
def GivesUp (orderId : OrderId) (reason : String) (i : ℕ) (t : Transition Db Call Input) : Prop :=
  t.IsBy i ∧ ∃ op, t.post.calls[i]? = some ⟨op, .failSearch orderId reason⟩

/-- The order has a category and both coordinates. -/
def Db.Searchable (db : Db) (orderId : OrderId) : Prop :=
  ∃ order ∈ db.orders[orderId]?, order.categoryId.isSome ∧ ∀ c : Coordinate, (c.of order).isSome

/-- What `submit` accepts, the dispatch can search for. -/
structure SubmitsSearchable (env : Env) (ts : List (Transition Db Call Input)) : Prop where
  /-- Every order is submitted with a category and both coordinates. -/
  complete : ∀ t ∈ ts, ∀ customerId orderId, Succeeds (.submit customerId orderId) t →
    t.post.store.Searchable orderId
  /-- From then on a search for it is given up only after two passes without a master (one, for
  a `cascadeNext` that starts with the second). -/
  exhausted : ∀ before t after customerId orderId, ts = before ++ t :: after →
    Succeeds (.submit customerId orderId) t → ∀ t' ∈ after, ∀ reason i,
      GivesUp orderId reason i t' →
        reason = "pool exhausted after radius expansion" ∧ PassEmpty env orderId .two i t' ∧
          ((∃ t₁ ∈ ts, PassEmpty env orderId .one i t₁) ∨
            t'.pre.calls[i]?.map Call.op = some (.cascadeNext orderId .two))

/-- The coordinate was there at the start, or an `updateDraft` has given it. -/
def Supplied (c : Coordinate) (db : Db) (before : List (Transition Db Call Input))
    (orderId : OrderId) : Prop :=
  (∃ order ∈ db.orders[orderId]?, (c.of order).isSome) ∨
    ∃ t ∈ before, ∃ customerId dto, (c.given dto).isSome ∧
      Succeeds (.updateDraft customerId orderId dto) t

/-- A PRICED order has a category. -/
def Db.PricedCategorised (db : Db) : Prop :=
  ∀ row ∈ db.orders, row.status = .priced → row.categoryId.isSome

section Statements

variable {env : Env} {me : ℕ} {x : Input} {k : Call} {db : Db} {o : Outcome Db Call}

theorem Coordinate.of_apply (c : Coordinate) (dto : OrderUpdateInput) (row : Order) :
    c.of (dto.apply row) = (c.given dto <|> c.of row) := by
  cases c <;> rfl

theorem Lifecycle.data_columns (l : Lifecycle) (now : Time) (row : Order) :
    (l.spec.data now row).categoryId = row.categoryId ∧
      ∀ c : Coordinate, c.of (l.spec.data now row) = c.of row := by
  refine ⟨by cases l <;> rfl, fun c => ?_⟩
  cases c <;> cases l <;> rfl

/-- An order stays. -/
theorem Stmt.order_stays (h : Stmt env me x db k o) {id : ℕ} {row : Order}
    (hrow : db.orders[id]? = some row) : ∃ row', o.store.orders[id]? = some row' := by
  have hjob : ∃ job', o.store.jobs[id]? = some job' := by
    rcases h.jobs.job_before (Db.jobs_of_order hrow) with hkept | ⟨w, -, -, -, hwrote, -⟩
    · exact ⟨_, hkept⟩
    · exact ⟨_, hwrote⟩
  obtain ⟨job', hjob'⟩ := hjob
  rw [Db.jobs_getElem?, Option.map_eq_some_iff] at hjob'
  obtain ⟨row', hrow', -⟩ := hjob'
  exact ⟨row', hrow'⟩

/-- **Where a coordinate comes from**: the row before, or the edit that has just succeeded. -/
theorem OrderEffect.coordinate {k : Call} {id : OrderId} {row row' : Order}
    (h : OrderEffect x db k id row') (hrow : db.orders[id]? = some row) (c : Coordinate) :
    c.of row' = c.of row ∨ ∃ customerId dto order,
      k = ⟨.updateDraft customerId id dto, .guarded order⟩ ∧
        c.of row' = (c.given dto <|> c.of row) := by
  cases h with
  | same hsame =>
      obtain rfl := Option.some.inj (hrow.symm.trans hsame)
      exact Or.inl rfl
  | created => simp at hrow
  | edited hsame =>
      obtain rfl := Option.some.inj (hrow.symm.trans hsame)
      exact Or.inr ⟨_, _, _, rfl, c.of_apply _ _⟩
  | reopened row₀ hsame =>
      obtain rfl := Option.some.inj (hrow.symm.trans hsame)
      refine Or.inr ⟨_, _, _, rfl, ?_⟩
      cases c <;> rfl
  | diagnosed row₀ hsame | submitted row₀ hsame | assigned row₀ hsame | expired row₀ hsame =>
      obtain rfl := Option.some.inj (hrow.symm.trans hsame)
      left
      cases c <;> rfl
  | @moved l order row₀ hsame =>
      obtain rfl := Option.some.inj (hrow.symm.trans hsame)
      left
      rw [← (l.data_columns x.now row).2 c]
      cases c <;> rfl

/-- A coordinate that an order has it keeps. -/
theorem Stmt.coordinate_kept (h : Stmt env me x db k o) {c : Coordinate} {id : ℕ} {row : Order}
    (hrow : db.orders[id]? = some row) (hsome : (c.of row).isSome) :
    ∃ row', o.store.orders[id]? = some row' ∧ (c.of row').isSome := by
  obtain ⟨row', hrow'⟩ := h.order_stays hrow
  refine ⟨row', hrow', ?_⟩
  rcases (h.orderEffect hrow').coordinate hrow c with heq | ⟨_, dto, _, -, heq⟩
  · rwa [heq]
  · rw [heq]
    cases c.given dto with
    | none => exact hsome
    | some q => rfl

theorem categoryId_apply {dto : OrderUpdateInput} {row : Order} (h : row.categoryId.isSome) :
    (dto.apply row).categoryId.isSome := by
  show (dto.categoryId <|> row.categoryId).isSome
  cases dto.categoryId with
  | none => exact h
  | some categoryId => rfl

/-- A category that an order has it keeps. -/
theorem OrderEffect.category_kept {id : OrderId} {row row' : Order} (h : OrderEffect x db k id row')
    (hrow : db.orders[id]? = some row) (hsome : row.categoryId.isSome) :
    row'.categoryId.isSome := by
  cases h with
  | same hsame =>
      obtain rfl := Option.some.inj (hrow.symm.trans hsame)
      exact hsome
  | created => simp at hrow
  | edited hsame | reopened row₀ hsame =>
      obtain rfl := Option.some.inj (hrow.symm.trans hsame)
      exact categoryId_apply hsome
  | diagnosed => rfl
  | submitted row₀ hsame | assigned row₀ hsame | expired row₀ hsame =>
      obtain rfl := Option.some.inj (hrow.symm.trans hsame)
      exact hsome
  | @moved l order row₀ hsame =>
      obtain rfl := Option.some.inj (hrow.symm.trans hsame)
      show (l.spec.data x.now row).categoryId.isSome
      rwa [(l.data_columns x.now row).1]

/-- Only a diagnosis makes an order PRICED. -/
theorem OrderEffect.pricedCategorised {id : OrderId} {row' : Order}
    (h : OrderEffect x db k id row') (hG : db.PricedCategorised) (hst : row'.status = .priced) :
    row'.categoryId.isSome := by
  cases h with
  | same hsame => exact hG row' (List.mem_of_getElem? hsame) hst
  | edited hsame => exact categoryId_apply (hG _ (List.mem_of_getElem? hsame) hst)
  | diagnosed => rfl
  | @moved l => cases l <;> exact absurd hst (by simp [Lifecycle.spec])
  | created | reopened | submitted | assigned | expired => exact absurd hst (by simp [draftOf])

theorem Stmt.pricedCategorised (h : Stmt env me x db k o) (hG : db.PricedCategorised) :
    o.store.PricedCategorised := by
  intro row hrow hst
  obtain ⟨id, hid⟩ := List.getElem?_of_mem hrow
  exact (h.orderEffect hid).pricedCategorised hG hst

/-- The order that a `submit` is about to submit has a category. -/
def Call.SubmitsCategorised (db : Db) (k : Call) : Prop :=
  match k.pc, k.op with
  | .guarded _, .submit _ orderId => ∃ row ∈ db.orders[orderId]?, row.categoryId.isSome
  | _, _ => True

theorem Stmt.category_kept (h : Stmt env me x db k o) {id : ℕ}
    (hrow : ∃ row ∈ db.orders[id]?, row.categoryId.isSome) :
    ∃ row ∈ o.store.orders[id]?, row.categoryId.isSome := by
  obtain ⟨row, hrow, hsome⟩ := hrow
  obtain ⟨row', hrow'⟩ := h.order_stays hrow
  exact ⟨row', hrow', (h.orderEffect hrow').category_kept hrow hsome⟩

theorem Stmt.searchable_kept (h : Stmt env me x db k o) {id : ℕ} (hid : db.Searchable id) :
    o.store.Searchable id := by
  obtain ⟨row, hrow, hcategory, hcoordinates⟩ := hid
  obtain ⟨row', hrow', hcategory'⟩ := h.category_kept ⟨row, hrow, hcategory⟩
  refine ⟨row', hrow', hcategory', fun c => ?_⟩
  obtain ⟨row'', hrow'', hsome⟩ := h.coordinate_kept hrow (hcoordinates c)
  rwa [Option.some.inj (hrow'.symm.trans hrow'')]

theorem Db.Searchable.complete {id : OrderId} (h : db.Searchable id) :
    ¬ ∀ order ∈ db.orders[id]?, order.categoryId = none ∨ order.location = none := by
  obtain ⟨row, hrow, hcategory, hcoordinates⟩ := h
  obtain ⟨lat, hlat⟩ := Option.isSome_iff_exists.mp (hcoordinates .latitude)
  obtain ⟨lng, hlng⟩ := Option.isSome_iff_exists.mp (hcoordinates .longitude)
  intro hmissing
  rcases hmissing row hrow with hnone | hnone
  · simp [hnone] at hcategory
  · simp only [Coordinate.of] at hlat hlng
    simp [Order.location, hlat, hlng] at hnone

theorem Stmt.submitsCategorised_other (h : Stmt env me x db k o) {k' : Call}
    (hk' : k'.SubmitsCategorised db) : k'.SubmitsCategorised o.store := by
  obtain ⟨op, pc⟩ := k'
  cases pc with
  | guarded order =>
      cases op with
      | submit customerId orderId => exact h.category_kept hk'
      | _ => trivial
  | _ => cases op <;> trivial

theorem Stmt.submitsCategorised (h : Stmt env me x db k o) (hG : db.PricedCategorised)
    (hk : k.SubmitsCategorised db) : o.call.SubmitsCategorised o.store := by
  cases h with
  | @reads op pc pc' hr =>
      cases hr with
      | @guarded _ order hguard =>
          cases op with
          | submit customerId orderId =>
              obtain ⟨hrow, hst⟩ := submitGuard_eq_ok (Option.some.inj hguard)
              exact ⟨order, hrow, hG order (List.mem_of_getElem? hrow) hst⟩
          | _ => trivial
      | _ => trivial
  | _ => trivial

/-- An `updateDraft` that has passed its checks writes what it was given, or throws. -/
theorem Stmt.updateDraft_cases {customerId : UserId} {orderId : OrderId} {dto : OrderUpdateInput}
    {order : Order} (h : Stmt env me x db ⟨.updateDraft customerId orderId dto, .guarded order⟩ o) :
    (o.store.orders = db.orders ∧ o.call.pc ≠ .returned) ∨
      (∃ row, db.orders[orderId]? = some row) ∧
        o.call = ⟨.updateDraft customerId orderId dto, .returned⟩ ∧
        o.store = updateDraftWrite db me x.now customerId orderId dto order := by
  cases h with
  | fails => exact Or.inl ⟨rfl, by simp⟩
  | reads hr =>
      cases hr with
      | updateDraftMissing => exact Or.inl ⟨rfl, by simp⟩
      | cascadeStops henter | cascadeMissing henter | cascadeReads henter => cases henter
      | failSearchStops henter | failSearchReads henter => cases henter
  | updateDraft hrow => exact Or.inr ⟨⟨_, hrow⟩, rfl, rfl⟩

theorem Coordinate.given_updateDraft {c : Coordinate} {dto : OrderUpdateInput}
    (hgiven : (c.given dto).isSome) {now : Time} {customerId : UserId} {orderId : OrderId}
    {order row : Order} (hrow : db.orders[orderId]? = some row) :
    ∃ row' ∈ (updateDraftWrite db me now customerId orderId dto order).orders[orderId]?,
      (c.of row').isSome := by
  obtain ⟨q, hq⟩ := Option.isSome_iff_exists.mp hgiven
  have happly : (c.of (dto.apply row)).isSome := by
    rw [c.of_apply, hq]
    rfl
  cases hinv : invalidatesQuote order dto with
  | true =>
      refine ⟨{ dto.apply row with status := .draft, priceMin := none, priceMax := none }, ?_, ?_⟩
      · simp only [updateDraftWrite, hinv, if_true]
        exact (Table.modify_of_row hrow orderId).trans (congrArg some (if_pos rfl))
      · cases c <;> exact happly
  | false =>
      refine ⟨dto.apply row, ?_, happly⟩
      simp only [updateDraftWrite, hinv, Bool.false_eq_true, if_false]
      exact (Table.modify_of_row hrow orderId).trans (congrArg some (if_pos rfl))

end Statements

/-! ### Giving up a search -/

/-- The order over which the call makes its second pass. -/
def Call.secondPass (k : Call) : Option OrderId :=
  match k.pc with
  | .cascade orderId .two | .cascadeCount orderId .two _ _ | .cascadeQuery orderId .two _ _ _
  | .cascadeCreate orderId .two _ _ _ => some orderId
  | _ => none

/-- A second pass follows an empty first one, unless the call has started with it. -/
theorem Stmt.secondPass {env : Env} {me : ℕ} {x : Input} {k : Call} {db : Db}
    {o : Outcome Db Call} (h : Stmt env me x db k o) {orderId : OrderId}
    (hpass : o.call.secondPass = some orderId) :
    k.secondPass = some orderId ∨ k.op = .cascadeNext orderId .two ∨
      ∃ order categoryId rankSoFar, k.pc = .cascadeQuery orderId .one order categoryId rankSoFar ∧
        cascadeCandidates env db x.now orderId .one order categoryId = [] := by
  cases h with
  | reads hr =>
      cases hr with
      | @cascadeReads _ pc _ attempt _ _ henter =>
          cases attempt with
          | one => simp [Call.secondPass] at hpass
          | two =>
              cases henter with
              | cascade => exact Or.inl hpass
              | cascadeNext =>
                  obtain rfl := Option.some.inj hpass
                  exact Or.inr (Or.inl rfl)
      | @cascadeCounts _ _ attempt | @cascadePicks _ _ attempt | @cascadeRetries _ _ attempt =>
          left
          cases attempt <;> exact hpass
      | cascadeExpands hempty =>
          obtain rfl := Option.some.inj hpass
          exact Or.inr (Or.inr ⟨_, _, _, rfl, hempty⟩)
      | _ => simp [Call.secondPass] at hpass
  | _ => simp [Call.secondPass] at hpass

section Runs

variable {env : Env} {db : Db} {c' : Config Db Call} {ts : List (Transition Db Call Input)}
  {t : Transition Db Call Input}

/-- A cascade gives up after an empty second pass, or because the order lacks something. -/
theorem GivesUp.cases (ht : (orders env).Fires t) {orderId : OrderId} {reason : String} {i : ℕ}
    (h : GivesUp orderId reason i t) :
    (reason = "pool exhausted after radius expansion" ∧ PassEmpty env orderId .two i t ∧
        t.pre.calls[i]?.bind Call.secondPass = some orderId) ∨
      ∀ order ∈ t.pre.store.orders[orderId]?, order.categoryId = none ∨ order.location = none := by
  obtain ⟨⟨x, he⟩, op, hpc⟩ := h
  obtain ⟨k, o, hi, h, hpost, hself⟩ := stmt_of_event ht he
  have hcall : o.call = ⟨op, .failSearch orderId reason⟩ :=
    Option.some.inj (hself.symm.trans hpc)
  cases h with
  | reads hr =>
      simp only [Call.mk.injEq] at hcall
      obtain ⟨rfl, rfl⟩ := hcall
      cases hr with
      | cascadeMissing henter _ hmissing => exact Or.inr hmissing
      | cascadeExhausted hempty =>
          refine Or.inl ⟨rfl, ⟨x, _, _, _, _, he, hi, hempty⟩, ?_⟩
          rw [hi]
          rfl
  | _ => simp at hcall

/-- What is known of second passes. -/
def secondPassOutline (env : Env) (ts : List (Transition Db Call Input)) :
    Outline (orders env) fun t => t ∈ ts :=
  outline env _ (fun _ => True)
    (fun _ i k => ∀ orderId, k.secondPass = some orderId →
      (∃ t ∈ ts, PassEmpty env orderId .one i t) ∨ k.op = .cascadeNext orderId .two)
    (fun _ _ _ _ orderId hpass => by simp [Call.secondPass] at hpass)
    (fun t i x k o hts he hk h _ _ hL => by
      refine ⟨trivial, fun orderId hpass => ?_⟩
      rcases h.secondPass hpass with hsame | hop | ⟨order, categoryId, rankSoFar, hpc, hempty⟩
      · rw [h.op_eq]
        exact hL orderId hsame
      · exact Or.inr (h.op_eq.trans hop)
      · obtain ⟨op, pc⟩ := k
        obtain rfl : pc = _ := hpc
        exact Or.inl ⟨t, hts, x, op, order, categoryId, rankSoFar, he, hk, hempty⟩)
    (fun _ _ _ _ _ _ _ _ _ _ _ _ _ _ _ hL' => hL')

/-- What is known of the categories. -/
def categoryOutline (env : Env) : Outline (orders env) fun _ => True :=
  outline env _ Db.PricedCategorised (fun db _ k => k.SubmitsCategorised db)
    (fun _ _ op _ => by cases op <;> trivial)
    (fun _ _ _ _ _ _ _ _ h _ hG hL => ⟨h.pricedCategorised hG, h.submitsCategorised hG hL⟩)
    (fun _ _ _ _ _ _ _ _ _ _ _ h _ _ _ hL' => h.submitsCategorised_other hL')

/-- An order has a coordinate after a transition if it had it before, or an edit gives it. -/
theorem coordinate_fires (ht : (orders env).Fires t) (c : Coordinate) (orderId : OrderId) :
    (∃ row ∈ t.post.store.orders[orderId]?, (c.of row).isSome) ↔
      (∃ row ∈ t.pre.store.orders[orderId]?, (c.of row).isSome) ∨
        ∃ customerId dto, (c.given dto).isSome ∧
          Succeeds (.updateDraft customerId orderId dto) t := by
  rcases stmt_of_fires ht with ⟨k, he, -, hpost⟩ | ⟨i, x, k, o, he, hi, -, h, -, hpost⟩
  · have hnone : ∀ op, ¬ Succeeds op t := by
      intro op hsucceeds
      obtain ⟨⟨order, hcaller⟩, -⟩ := hsucceeds
      simp [Transition.caller, he] at hcaller
    simp [hpost, hnone]
  have hstore : t.post.store = o.store := by rw [hpost]
  have hcaller := Transition.caller_eq he hi
  have hafter : t.callerAfter = some o.call := by
    simp only [Transition.callerAfter, he]
    exact Machine.getElem?_of_post hi hpost
  rw [hstore]
  constructor
  · intro hpostrow
    obtain ⟨row', hrow', hsome⟩ := hpostrow
    cases hrow : t.pre.store.orders[orderId]? with
    | none =>
        -- A new draft has no coordinates.
        cases h.orderEffect hrow' with
        | created => cases c <;> simp [draftOf, Coordinate.of] at hsome
        | same hsame | edited hsame | reopened _ hsame | diagnosed _ hsame | submitted _ hsame
        | moved _ hsame | assigned _ hsame | expired _ hsame => simp [hrow] at hsame
    | some row =>
        rcases (h.orderEffect hrow').coordinate hrow c with heq | ⟨customerId, dto, order, rfl, heq⟩
        · exact Or.inl ⟨row, rfl, by rwa [← heq]⟩
        rcases h.updateDraft_cases with ⟨hsame, -⟩ | ⟨-, hcall, -⟩
        · rw [hsame] at hrow'
          exact Or.inl ⟨row', hrow.symm.trans hrow', hsome⟩
        · cases hgiven : c.given dto with
          | none => exact Or.inl ⟨row, rfl, by rwa [heq, hgiven] at hsome⟩
          | some q =>
              refine Or.inr ⟨customerId, dto, by rw [hgiven]; rfl, ⟨order, hcaller⟩, ?_⟩
              rw [hafter, hcall]
  · intro hbefore
    rcases hbefore with ⟨row, hrow, hsome⟩ | ⟨customerId, dto, hgiven, ⟨order, hupdate⟩, hreturned⟩
    · exact h.coordinate_kept hrow hsome
    · obtain rfl := Option.some.inj (hcaller.symm.trans hupdate)
      have hcall := Option.some.inj (hafter.symm.trans hreturned)
      rcases h.updateDraft_cases with ⟨-, hpc⟩ | ⟨⟨row, hrow⟩, -, hwrite⟩
      · exact absurd (by rw [hcall]) hpc
      · rw [hwrite]
        exact Coordinate.given_updateDraft hgiven hrow

/-- An order has a coordinate if and only if it has been supplied. -/
theorem coordinate_iff_supplied {c₀ : Config Db Call} (hrun : (orders env).Run c₀ ts c')
    (c : Coordinate) (orderId : OrderId) :
    (∃ row ∈ c'.store.orders[orderId]?, (c.of row).isSome) ↔
      Supplied c c₀.store ts orderId := by
  induction hrun with
  | nil => simp [Supplied]
  | snoc t hrun hpre hfire ih =>
      rw [coordinate_fires hfire c orderId, hpre, ih]
      simp only [Supplied, List.mem_append, List.mem_singleton, or_and_right, exists_or,
        exists_eq_left, or_assoc]

/-- A `submit` gives no coordinate. -/
theorem supplied_submit {c : Coordinate} {before : List (Transition Db Call Input)}
    {customerId : UserId} {orderId : OrderId} (hsubmit : Succeeds (.submit customerId orderId) t) :
    Supplied c db (before ++ [t]) orderId ↔ Supplied c db before orderId := by
  have hnot : ∀ customer dto, ¬ Succeeds (.updateDraft customer orderId dto) t := by
    intro customer dto hupdate
    obtain ⟨⟨order, hcaller⟩, -⟩ := hsubmit
    obtain ⟨⟨order', hcaller'⟩, -⟩ := hupdate
    simp [hcaller] at hcaller'
  simp only [Supplied, List.mem_append, List.mem_singleton, or_and_right, exists_or,
    exists_eq_left, hnot, and_false, exists_false, or_false]

theorem searchable_run {c₀ : Config Db Call} (hrun : (orders env).Run c₀ ts c') {id : OrderId}
    (hid : c₀.store.Searchable id) : c'.store.Searchable id := by
  refine (hrun.always (fun c => c.store.Searchable id) hid fun t ht hpre => ?_).1
  rcases stmt_of_fires ht with ⟨k, -, -, hpost⟩ | ⟨i, x, k, o, -, -, -, h, -, hpost⟩
  · rwa [hpost]
  · rw [hpost]
    exact h.searchable_kept hpre

/-- An order that is submitted with both coordinates can be searched for. -/
theorem searchable_of_submit (ht : (orders env).Fires t) {customerId : UserId} {orderId : OrderId}
    (hsubmit : Succeeds (.submit customerId orderId) t)
    (hcategories : (categoryOutline env).Holds t.pre)
    (hcoordinates : ∀ c : Coordinate,
      ∃ row ∈ t.pre.store.orders[orderId]?, (c.of row).isSome) :
    t.post.store.Searchable orderId := by
  obtain ⟨⟨order, hcaller⟩, -⟩ := hsubmit
  refine searchable_run ht.run ?_
  rcases ht.cases with ⟨k, he, -⟩ | ⟨i, x, k, o, he, hi, -, -⟩
  · simp [Transition.caller, he] at hcaller
  · rw [Transition.caller_eq he hi] at hcaller
    obtain rfl := Option.some.inj hcaller
    obtain ⟨row, hrow, hcategory⟩ := hcategories.2 i _ hi
    refine ⟨row, hrow, hcategory, fun c => ?_⟩
    obtain ⟨row', hrow', hsome⟩ := hcoordinates c
    rwa [Option.some.inj (hrow.symm.trans hrow')]

/-- **What `submit` accepts can be searched for if and only if both coordinates were supplied
before.** -/
theorem submitsSearchable_iff (hrun : (orders env).Run ⟨db, []⟩ ts c')
    (h0 : db.PricedCategorised) :
    SubmitsSearchable env ts ↔
      ∀ before t after customerId orderId, ts = before ++ t :: after →
        Succeeds (.submit customerId orderId) t → ∀ c, Supplied c db before orderId := by
  have hcategories := ((categoryOutline env).holds_run hrun (fun _ _ => trivial)
    ⟨h0, fun i k hk => by simp at hk⟩).2
  have hsecond := ((secondPassOutline env ts).holds_run hrun (fun _ ht => ht)
    ⟨trivial, fun i k hk => by simp at hk⟩).2
  constructor
  · intro h before t after customerId orderId hts hsubmit c
    subst hts
    obtain ⟨hbefore, -⟩ := hrun.of_append_cons
    obtain ⟨order, horder, -, hcoordinates⟩ :=
      h.complete t (by simp) customerId orderId hsubmit
    have hpost : (orders env).Run ⟨db, []⟩ (before ++ [t]) t.post :=
      .snoc t hbefore rfl (hrun.fires t (by simp))
    rw [← supplied_submit hsubmit, ← coordinate_iff_supplied hpost]
    exact ⟨order, horder, hcoordinates c⟩
  · intro h
    have hsearchable : ∀ before t after customerId orderId, ts = before ++ t :: after →
        Succeeds (.submit customerId orderId) t → t.post.store.Searchable orderId := by
      intro before t after customerId orderId hts hsubmit
      have hsupplied := h before t after customerId orderId hts hsubmit
      have ht : t ∈ ts := by simp [hts]
      obtain ⟨hbefore, -⟩ := (hts ▸ hrun).of_append_cons
      refine searchable_of_submit (hrun.fires t ht) hsubmit (hcategories t ht).1 fun c => ?_
      exact (coordinate_iff_supplied hbefore c orderId).mpr (hsupplied c)
    refine ⟨fun t ht customerId orderId hsubmit => ?_, ?_⟩
    · obtain ⟨before, after, hts, -, -⟩ := hrun.split t ht
      exact hsearchable before t after customerId orderId hts hsubmit
    · intro before t after customerId orderId hts hsubmit t' ht' reason i hgives
      have hpost := hsearchable before t after customerId orderId hts hsubmit
      obtain ⟨-, hafter⟩ := (hts ▸ hrun).of_append_cons
      obtain ⟨mid, _, -, hmid, -⟩ := hafter.split t' ht'
      have hts' : t' ∈ ts := by simp [hts, ht']
      rcases hgives.cases (hrun.fires t' hts') with ⟨hreason, hempty, hpass⟩ | hmissing
      · refine ⟨hreason, hempty, ?_⟩
        obtain ⟨k, hk, hkpass⟩ := Option.bind_eq_some_iff.mp hpass
        rw [hk]
        exact ((hsecond t' hts').1.2 i k hk orderId hkpass).imp_right (congrArg some)
      · exact absurd hmissing (searchable_run hmid hpost).complete

end Runs

/-! ### An address without a location -/

/-- One category and no order. -/
def noOrders : Db where
  categories := [{ basePriceMin := 100000, basePriceMax := 200000, active := true }]

/-- Customer 0 drafts an order, fills it in, has it diagnosed and lets `submit` read it. -/
def fillIn (dto : OrderUpdateInput) : List (Event Call Input) :=
  [.start ⟨.createDraft 0 { categoryId := some 0, description := "" }, .start⟩, .run 0 {},
    .start ⟨.updateDraft 0 0 dto, .start⟩, .run 1 {}, .run 1 {},
    .start ⟨.diagnose 0 0, .start⟩, .run 2 {}, .run 2 {}, .run 2 {}, .run 2 {},
    .start ⟨.submit 0 0, .start⟩, .run 3 {}]

/-- The customer has let the browser find the location. -/
def withLocation : OrderUpdateInput :=
  { serviceTier := some .emergency, latitude := some 41, longitude := some 69 }

theorem pricedCategorised_noOrders : noOrders.PricedCategorised := by
  intro row hrow
  simp [noOrders] at hrow

theorem submitsSearchable_iff_withLocation :
    SubmitsSearchable .flat
        ((orders .flat).trace ⟨noOrders, []⟩ (fillIn withLocation ++ [.run 3 {}])) ↔
      ∀ before t after customerId orderId,
        (orders .flat).trace ⟨noOrders, []⟩ (fillIn withLocation ++ [.run 3 {}]) =
          before ++ t :: after →
        Succeeds (.submit customerId orderId) t → ∀ c, Supplied c noOrders before orderId :=
  submitsSearchable_iff ((orders .flat).run_trace _ _) pricedCategorised_noOrders

/-- The customer has typed the address. -/
def withAddress : OrderUpdateInput :=
  { serviceTier := some .emergency, addressText := some "Chilonzor 14" }

instance {customerId : UserId} {orderId : OrderId} {t : Transition Db Call Input} :
    Decidable (Succeeds (.submit customerId orderId) t) :=
  decidable_of_bool
    (match t.caller, t.callerAfter with
      | some ⟨.submit c id, .guarded _⟩, some ⟨.submit c' id', .returned⟩ =>
          decide ((c = customerId ∧ id = orderId) ∧ c' = customerId ∧ id' = orderId)
      | _, _ => false)
    (by
      unfold Succeeds
      split
      · rename_i hbefore hafter
        simp [hbefore, hafter]
      · rename_i hno
        refine iff_of_false (by simp) fun h => ?_
        obtain ⟨⟨order, hbefore⟩, hafter⟩ := h
        exact hno _ _ _ _ _ hbefore hafter)

instance {orderId : OrderId} {reason : String} {i : ℕ} {t : Transition Db Call Input} :
    Decidable (GivesUp orderId reason i t) :=
  decidable_of_bool
    (match t.event, t.post.calls[i]? with
      | .run j _, some ⟨_, .failSearch id why⟩ => decide (j = i ∧ id = orderId ∧ why = reason)
      | _, _ => false)
    (by
      unfold GivesUp Transition.IsBy
      split
      · rename_i hevent hcall
        simp [hevent, hcall]
      · rename_i hno
        refine iff_of_false (by simp) fun h => ?_
        obtain ⟨⟨x, hevent⟩, op, hcall⟩ := h
        exact hno _ _ _ _ _ hevent hcall)

/-- The calls by which a customer writes and submits an order. -/
def Op.Drafts : Op → Prop
  | .createDraft _ _ | .updateDraft _ _ _ | .diagnose _ _ | .submit _ _ => True
  | _ => False

/-- The order is submitted, and its search fails without a single pass. -/
theorem not_submitsSearchable_always :
    ¬ ∀ (env : Env) (db : Db) (ts : List (Transition Db Call Input)) (c' : Config Db Call),
      (orders env).Run ⟨db, []⟩ ts c' → db.PricedCategorised →
      (∀ t ∈ ts, ∀ k, t.event = .start k → k.op.Drafts) → SubmitsSearchable env ts := by
  intro h
  let filled := (orders .flat).after ⟨noOrders, []⟩ (fillIn withAddress)
  let submitted := (orders .flat).after filled [.run 3 {}]
  let failed := (orders .flat).after submitted [.run 4 {}]
  have hsubmit : (orders .flat).Fires ⟨filled, .run 3 {}, submitted⟩ :=
    (orders .flat).fires_after (by decide +kernel)
  have hfail : (orders .flat).Fires ⟨submitted, .run 4 {}, failed⟩ :=
    (orders .flat).fires_after (by decide +kernel)
  have hsearchable := h .flat noOrders _ _
    (((orders .flat).run_trace ⟨noOrders, []⟩ (fillIn withAddress)).append
      (hsubmit.run.append hfail.run)) pricedCategorised_noOrders ?_
  · have hreason := (hsearchable.exhausted _ _ _ 0 0 rfl (by decide +kernel) _
      (List.mem_singleton_self _) "missing category or location" 4 (by decide +kernel)).1
    exact absurd hreason (by decide)
  · intro t ht k he
    rcases List.mem_append.mp ht with ht | ht
    · have hstart := (orders .flat).event_mem_of_mem_trace ht
      rw [he] at hstart
      simp only [fillIn, List.mem_cons, Event.start.injEq, reduceCtorEq, List.not_mem_nil,
        or_false, false_or] at hstart
      rcases hstart with rfl | rfl | rfl | rfl <;> trivial
    · simp only [List.cons_append, List.nil_append, List.mem_cons, List.not_mem_nil,
        or_false] at ht
      rcases ht with rfl | rfl <;> simp at he

end Handly
