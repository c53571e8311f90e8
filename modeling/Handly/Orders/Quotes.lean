import Handly.Orders.Knowledge
import Handly.Orders.Rows

/-!
# The quote of an order

`diagnose` computes the quote from the order it read before it asked the AI, and writes it
by id. `updateDraft` decides from its own read whether an edit drops the quote. So an edit
that lands between the two reads and writes leaves an order whose prices are those of
another tier or category, or whose complexity was diagnosed from another description.
-/

namespace Handly

open Interleaving

/-- What the customer asks for: the columns that a quote depends on. -/
def Order.asked (row : Order) : Option CategoryId × String × ServiceTier :=
  (row.categoryId, row.description, row.serviceTier)

/-- What `diagnose` answers. -/
def Order.answered (row : Order) :
    Option Complexity × Option String × Option ℤ × Option ℤ × ℤ :=
  (row.complexity, row.diagnosedFrom, row.priceMin, row.priceMax, row.platformFee)

/-- The order carries the quote for what it now asks, and its complexity was diagnosed from
its current description. -/
def Order.Quoted (categories : List ServiceCategory) (row : Order) : Prop :=
  ∃ categoryId c complexity quote,
    row.categoryId = some categoryId ∧ categories[categoryId]? = some c ∧
    quote = computeQuote c.basePriceMin c.basePriceMax complexity row.serviceTier ∧
    row.answered = (some complexity, some row.description, some quote.priceMin,
      some quote.priceMax, quote.platformFee)

/-- Every PRICED or SEARCHING order carries the quote for what it now asks. -/
def QuotesCurrent (db : Db) : Prop :=
  ∀ row ∈ db.orders, row.status = .priced ∨ row.status = .searching → row.Quoted db.categories

/-- The update of an editing call finds what its read has relied on: an edit that keeps the
quote finds no quote or does not change what is asked, a diagnosis finds the description and
the tier that it was made for, and a submit finds a quote. -/
def FindsAsked (_me : ℕ) (x : Input) (k : Call) (db : Db) : Prop :=
  x.fail = false →
    (match k.pc, k.op with
      | .guarded order, .updateDraft _ orderId dto => invalidatesQuote order dto ||
          db.orders[orderId]?.all fun row => row.priceMin = none ∨ (dto.apply row).asked = row.asked
      | .quoted order _ _ _, .diagnose _ orderId =>
          db.orders[orderId]?.all fun row =>
            row.description = order.description ∧ row.serviceTier = order.serviceTier
      | .guarded _, .submit _ orderId => db.orders[orderId]?.all fun row => row.priceMin.isSome
      | _, _ => true : Bool)

instance (me : ℕ) (x : Input) (k : Call) (db : Db) : Decidable (FindsAsked me x k db) :=
  inferInstanceAs (Decidable (_ → _))

/-! ### The invariant -/

/-- An order has the quote for what it asks, or none. -/
def Order.WellQuoted (categories : List ServiceCategory) (row : Order) : Prop :=
  row.Quoted categories ∨
    row.priceMin = none ∧ row.status ≠ .priced ∧ row.status ≠ .searching

/-- The quote that a `diagnose` call has computed. -/
def Call.Quotes (db : Db) (k : Call) : Prop :=
  match k.pc with
  | .diagnosing _ categories => categories = db.categories
  | .quoted order diagnosis categoryId quote => ∃ c, db.categories[categoryId]? = some c ∧
      quote = computeQuote c.basePriceMin c.basePriceMax diagnosis.complexity order.serviceTier
  | _ => True

section Quotes

variable {env : Env} {me : ℕ} {x : Input} {k : Call} {db : Db} {o : Outcome Db Call}

theorem Order.Quoted.congr {categories : List ServiceCategory} {row row' : Order}
    (h : row.Quoted categories) (hasked : row'.asked = row.asked)
    (hanswered : row'.answered = row.answered) : row'.Quoted categories := by
  obtain ⟨categoryId, c, complexity, quote, hcategory, hc, hquote, hanswer⟩ := h
  simp only [Order.asked, Prod.mk.injEq] at hasked
  obtain ⟨hcat, hdesc, htier⟩ := hasked
  refine ⟨categoryId, c, complexity, quote, hcat.trans hcategory, hc, ?_, ?_⟩
  · rw [htier]
    exact hquote
  · rw [hanswered, hdesc]
    exact hanswer

theorem Order.Quoted.priceMin_ne_none {categories : List ServiceCategory} {row : Order}
    (h : row.Quoted categories) : row.priceMin ≠ none := by
  obtain ⟨_, _, _, quote, -, -, -, hanswer⟩ := h
  simp only [Order.answered, Prod.mk.injEq] at hanswer
  simp [hanswer.2.2.1]

/-- A write of a status other than PRICED and SEARCHING that leaves the quote alone. -/
theorem Order.WellQuoted.congr {categories : List ServiceCategory} {row row' : Order}
    (h : row.WellQuoted categories) (hasked : row'.asked = row.asked)
    (hanswered : row'.answered = row.answered)
    (hst : row'.status ≠ .priced ∧ row'.status ≠ .searching) : row'.WellQuoted categories := by
  rcases h with hquoted | ⟨hnone, -⟩
  · exact Or.inl (hquoted.congr hasked hanswered)
  · simp only [Order.answered, Prod.mk.injEq] at hanswered
    exact Or.inr ⟨hanswered.2.2.1.trans hnone, hst⟩

theorem quoteFor_eq_ok {categories : List ServiceCategory} {order : Order} {diagnosis : Diagnosis}
    {categoryId : CategoryId} {quote : Quote}
    (h : quoteFor categories order diagnosis = .ok (categoryId, quote)) :
    ∃ c, categories[categoryId]? = some c ∧ quote =
      computeQuote c.basePriceMin c.basePriceMax diagnosis.complexity order.serviceTier := by
  unfold quoteFor at h
  split at h
  · simp at h
  · split at h
    · simp at h
    · rename_i c hc
      obtain ⟨rfl, rfl⟩ := Prod.mk.inj (Except.ok.inj h)
      exact ⟨c, (Option.filter_eq_some_iff.mp hc).1, rfl⟩

theorem Stmt.quotes (h : Stmt env me x db k o) (hk : k.Quotes db) : o.call.Quotes o.store := by
  cases h with
  | reads hr =>
      cases hr with
      | categories => exact rfl
      | quoted hquote =>
          obtain rfl := hk
          exact quoteFor_eq_ok hquote
      | _ => trivial
  | _ => trivial

theorem Stmt.quotes_other (h : Stmt env me x db k o) {k' : Call} (hk' : k'.Quotes db) :
    k'.Quotes o.store := by
  unfold Call.Quotes
  rw [h.categories_eq]
  exact hk'

/-- One statement that meets the condition. -/
theorem OrderEffect.wellQuoted {id : OrderId} {row' : Order} (h : OrderEffect x db k id row')
    (hx : x.fail = false) (hC : FindsAsked me x k db) (hk : k.Quotes db)
    (hrows : ∀ (id : ℕ) (row : Order), db.orders[id]? = some row → row.WellQuoted db.categories) :
    row'.WellQuoted db.categories := by
  have hC := hC hx
  cases h with
  | same hrow => exact hrows _ _ hrow
  | created => exact Or.inr ⟨rfl, by simp [draftOf], by simp [draftOf]⟩
  | @edited customerId id dto order row hrow hinv =>
      simp only [hinv, Bool.false_or, hrow, Option.all_some, decide_eq_true_eq] at hC
      rcases hrows _ _ hrow with hquoted | hnone
      · have hasked := hC.resolve_left hquoted.priceMin_ne_none
        exact Or.inl (hquoted.congr hasked rfl)
      · exact Or.inr hnone
  | reopened => exact Or.inr ⟨rfl, by simp, by simp⟩
  | @diagnosed _ _ _ diagnosis categoryId quote row hrow =>
      obtain ⟨c, hc, hquote⟩ := hk
      simp only [hrow, Option.all_some, decide_eq_true_eq] at hC
      obtain ⟨hdesc, htier⟩ := hC
      refine Or.inl ⟨categoryId, c, diagnosis.complexity, quote, rfl, hc, ?_, ?_⟩
      · show _ = computeQuote c.basePriceMin c.basePriceMax _ row.serviceTier
        rw [htier]
        exact hquote
      · simp [Order.answered, hdesc]
  | submitted row hrow =>
      simp only [hrow, Option.all_some] at hC
      rcases hrows _ _ hrow with hquoted | ⟨hnone, -⟩
      · exact Or.inl (hquoted.congr rfl rfl)
      · simp [hnone] at hC
  | @moved l order row hrow =>
      refine (hrows _ _ hrow).congr ?_ ?_ ?_
      · cases l <;> rfl
      · cases l <;> rfl
      · cases l <;> simp [Lifecycle.spec]
  | assigned row hrow | expired row hrow => exact (hrows _ _ hrow).congr rfl rfl (by simp)

end Quotes

section Run

variable {env : Env} {db : Db} {c' : Config Db Call} {ts : List (Transition Db Call Input)}

/-- Every order has the quote for what it asks, or none. -/
def quotes (env : Env) : Outline (orders env) fun t => t.Satisfies FindsAsked :=
  outline env _
    (fun db => ∀ (id : ℕ) (row : Order), db.orders[id]? = some row → row.WellQuoted db.categories)
    (fun db _ k => k.Quotes db)
    (fun _ _ _ _ => trivial)
    (fun _ i x k _ hC he hk h hfails hG hL => by
      refine ⟨fun id row' hrow' => ?_, h.quotes hL⟩
      rw [h.categories_eq]
      by_cases hx : x.fail = true
      · obtain rfl := hfails hx
        exact hG id row' hrow'
      · exact (h.orderEffect hrow').wellQuoted (by simpa using hx) (hC i x k he hk) hL hG)
    (fun _ _ _ _ _ _ _ _ _ _ _ h _ _ _ hL' => h.quotes_other hL')

/-- **A quoted order carries the quote for what it now asks** where the updates of editing
calls find what their reads have relied on. -/
theorem quotesCurrent_of_run (hrun : (orders env).Run ⟨db, []⟩ ts c') (horders : db.orders = [])
    (hC : ∀ t ∈ ts, t.Satisfies FindsAsked) : QuotesCurrent c'.store := by
  obtain ⟨⟨hrows, -⟩, -⟩ := (quotes env).holds_run hrun hC
    ⟨fun id row hrow => by simp [horders] at hrow, by simp⟩
  intro row hmem hst
  obtain ⟨id, hrow⟩ := List.mem_iff_getElem?.mp hmem
  rcases hrows id row hrow with hquoted | ⟨-, hpriced, hsearching⟩
  · exact hquoted
  · rcases hst with hst | hst
    · exact absurd hst hpriced
    · exact absurd hst hsearching

end Run

/-! ### An edit that diagnose does not see -/

/-- One category, and no orders. -/
def oneCategory : Db where
  categories := [{ basePriceMin := 100000, basePriceMax := 200000, active := true }]

/-- The customer edits the tier of a quoted order, has it diagnosed again and submits it. -/
def editThenSubmit : List (Event Call Input) :=
  [.start ⟨.createDraft 0 { categoryId := some 0, description := "" }, .start⟩, .run 0 {},
    .start ⟨.diagnose 0 0, .start⟩, .run 1 {}, .run 1 {}, .run 1 {}, .run 1 {},
    .start ⟨.updateDraft 0 0 { serviceTier := some .emergency, addressText := some "a" }, .start⟩,
    .run 2 {}, .run 2 {},
    .start ⟨.diagnose 0 0, .start⟩, .run 3 {}, .run 3 {}, .run 3 {}, .run 3 {},
    .start ⟨.submit 0 0, .start⟩, .run 4 {}, .run 4 {}]

theorem quotesCurrent_editThenSubmit :
    QuotesCurrent ((orders .flat).after ⟨oneCategory, []⟩ editThenSubmit).store :=
  quotesCurrent_of_run ((orders .flat).run_trace _ _) rfl (by decide +kernel)

/-- The customer edits the tier while the AI is asked. -/
def editDuringDiagnosis : List (Event Call Input) :=
  [.start ⟨.createDraft 0 { categoryId := some 0, description := "" }, .start⟩, .run 0 {},
    .start ⟨.diagnose 0 0, .start⟩, .run 1 {}, .run 1 {}, .run 1 {},
    .start ⟨.updateDraft 0 0 { serviceTier := some .emergency }, .start⟩, .run 2 {}, .run 2 {},
    .run 1 {}]

/-- The order is EMERGENCY and carries the quote of a SCHEDULED one. -/
theorem not_quotesCurrent_always :
    ¬ ∀ (env : Env) (db : Db) (ts : List (Transition Db Call Input)) (c' : Config Db Call),
      (orders env).Run ⟨db, []⟩ ts c' → db.orders = [] → QuotesCurrent c'.store := by
  intro h
  have hcurrent := h .flat oneCategory _ _ ((orders .flat).run_trace _ editDuringDiagnosis) rfl
  have hstale : ∃ row ∈ ((orders .flat).after ⟨oneCategory, []⟩ editDuringDiagnosis).store.orders,
      row.status = .priced ∧ row.serviceTier = .emergency ∧ row.platformFee = 0 := by
    decide +kernel
  obtain ⟨row, hmem, hst, htier, hfee⟩ := hstale
  obtain ⟨_, c, complexity, quote, -, -, hquote, hanswer⟩ := hcurrent row hmem (Or.inl hst)
  simp only [Order.answered, Prod.mk.injEq] at hanswer
  have hemergency : row.platformFee = 30000 := by
    rw [hanswer.2.2.2.2, hquote, htier]
    rfl
  omega

end Handly
