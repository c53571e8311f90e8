import Handly.Lib.CursorWalk
import Handly.Contracts

/-!
# Cursor pagination

Seven list endpoints share one scheme. They fetch one row more than a page holds,
return the key of that extra row as `nextCursor`, and read the next page with
Prisma's `cursor` at that row and `skip: 1`. The extra row is on neither page: a
walk loses one row at every page boundary, and is complete exactly when everything
fits on the first page.
-/

namespace Handly

open CursorWalk

/-- The rows that an endpoint's `where` selects, in the order of its `orderBy`. -/
structure Listing (α : Type) where
  rows : List α
  id : α → ℕ
  /-- The column of the `orderBy`: `createdAt`, and `succeededAt` for the earnings. -/
  orderedBy : α → Time
  /-- `id` is the primary key. -/
  nodup : (rows.map id).Nodup
  /-- The order is descending. -/
  newestFirst : rows.Pairwise fun a b => orderedBy b < orderedBy a

variable {α : Type}

/-- `findMany({ take, ...(cursor ? { cursor: { id: cursor }, skip: 1 } : {}) })` -/
def Listing.findMany (l : Listing α) (take : ℕ) : Option ℕ → List α
  | none => l.rows.take take
  | some cursor => ((fromCursor l.id cursor l.rows).drop 1).take take

/-- The body that the endpoints share, with their page size. -/
def listPage (take : ℕ) (l : Listing α) (cursor : Option ℕ) : Page α ℕ :=
  let rows := l.findMany (take + 1) cursor
  { items := rows.take take, nextCursor := rows[take]?.map l.id }

inductive Endpoint
  | ordersList | jobHistory | masterEarnings | notificationsList | auditList | adminUsersList
  | adminOrdersList

/-- `const take` of each endpoint. -/
def Endpoint.take : Endpoint → ℕ
  | .ordersList | .jobHistory | .masterEarnings | .notificationsList => 20
  | .auditList | .adminUsersList | .adminOrdersList => 30

/-- One request to an endpoint. The summary that `getMasterEarnings` adds does not
depend on the cursor. -/
def Endpoint.page (e : Endpoint) (l : Listing α) : Option ℕ → Page α ℕ := listPage e.take l

/-- Following `nextCursor` from the first page until it is null returns every row
once, in order. -/
def WalkComplete (e : Endpoint) (l : Listing α) : Prop :=
  ∃ items, Walk (e.page l) none items ∧ items = l.rows

/-! ### One page -/

/-- The page that starts at a position. -/
def pageAt (take : ℕ) (l : Listing α) (start : ℕ) : Page α ℕ :=
  { items := (l.rows.drop start).take take, nextCursor := l.rows[start + take]?.map l.id }

theorem listPage_none (take : ℕ) (l : Listing α) : listPage take l none = pageAt take l 0 := by
  simp [listPage, pageAt, Listing.findMany, List.take_take]

/-- The page after the row at position `p` starts behind that row. -/
theorem listPage_some {take : ℕ} {l : Listing α} {p : ℕ} {a : α} (ha : l.rows[p]? = some a) :
    listPage take l (some (l.id a)) = pageAt take l (p + 1) := by
  have hrows : l.findMany (take + 1) (some (l.id a)) = (l.rows.drop (p + 1)).take (take + 1) := by
    rw [Listing.findMany, fromCursor_eq_drop l.nodup ha, List.drop_drop]
  simp only [listPage, hrows, pageAt, List.take_take]
  simp

/-! ### Walks -/

/-- Whatever a walk collects from a position on, it collects once and in order. -/
theorem walk_sublist {take : ℕ} {l : Listing α} {c : Option ℕ} {items : List α}
    (h : Walk (listPage take l) c items) {start : ℕ}
    (hc : listPage take l c = pageAt take l start) :
    items.Sublist (l.rows.drop start) := by
  induction h generalizing start with
  | last _ =>
      rw [hc]
      exact List.take_sublist _ _
  | @next c c' rest hnext _ ih =>
      rw [hc] at hnext ⊢
      obtain ⟨a, ha, rfl⟩ := Option.map_eq_some_iff.mp hnext
      have hrest := ih (listPage_some ha)
      have hsplit : l.rows.drop start =
          (l.rows.drop start).take take ++ l.rows.drop (start + take) := by
        rw [← List.drop_drop, List.take_append_drop]
      rw [hsplit]
      have hskip : (l.rows.drop (start + take + 1)).Sublist (l.rows.drop (start + take)) := by
        rw [← List.drop_drop (i := 1)]
        exact List.drop_sublist _ _
      exact (List.Sublist.refl _).append (hrest.trans hskip)

/-- Every walk ends: a page starts further on than the one before it. -/
theorem exists_walk (take : ℕ) (l : Listing α) {c : Option ℕ} {start : ℕ}
    (hc : listPage take l c = pageAt take l start) : ∃ items, Walk (listPage take l) c items := by
  induction hn : l.rows.length - start using Nat.strong_induction_on generalizing c start with
  | _ n ih =>
      cases hnext : (listPage take l c).nextCursor with
      | none => exact ⟨_, .last hnext⟩
      | some c' =>
          have hpos := hnext
          rw [hc] at hpos
          obtain ⟨a, ha, rfl⟩ := Option.map_eq_some_iff.mp hpos
          have hlt := (List.getElem?_eq_some_iff.mp ha).1
          obtain ⟨rest, hrest⟩ := ih _ (by omega) (listPage_some ha) rfl
          exact ⟨_, .next hnext hrest⟩

/-- **A walk ends and repeats nothing, and it is complete if and only if the first
page holds everything.** -/
theorem walkComplete_iff (e : Endpoint) (l : Listing α) :
    (∃ items, Walk (e.page l) none items ∧ items.Sublist l.rows) ∧
      (WalkComplete e l ↔ l.rows.length ≤ e.take) := by
  have hfirst := listPage_none e.take l
  refine ⟨?_, ?_⟩
  · obtain ⟨items, hwalk⟩ := exists_walk e.take l hfirst
    exact ⟨items, hwalk, walk_sublist hwalk hfirst⟩
  constructor
  · intro hcomplete
    obtain ⟨items, hwalk, hitems⟩ := hcomplete
    by_contra hlong
    rw [not_le] at hlong
    -- The row behind the first page becomes the cursor, and the second page skips it.
    obtain ⟨a, ha⟩ : ∃ a, l.rows[e.take]? = some a := ⟨_, List.getElem?_eq_getElem hlong⟩
    cases hwalk with
    | last hnone =>
        rw [Endpoint.page, hfirst] at hnone
        simp [pageAt, ha] at hnone
    | @next _ c' rest hnext hrest =>
        rw [Endpoint.page, hfirst] at hnext
        obtain rfl : l.id a = c' := by simpa [pageAt, ha] using hnext
        have hlen := (walk_sublist hrest (listPage_some ha)).length_le
        rw [Endpoint.page, hfirst] at hitems
        have htotal := congrArg List.length hitems
        simp only [pageAt, List.length_append, List.length_take, List.length_drop] at htotal hlen
        omega
  · intro hshort
    refine ⟨_, .last ?_, ?_⟩
    · rw [Endpoint.page, hfirst, pageAt]
      simpa using hshort
    · rw [Endpoint.page, hfirst, pageAt]
      simpa using hshort

/-- 21 rows, with 20 to a page. -/
def oneTooMany : Listing ℕ where
  rows := List.range 21
  id := id
  orderedBy n := -n
  nodup := by decide
  newestFirst := by decide

/-- The row with id 20 is on no page. -/
theorem not_walkComplete_always :
    ¬ ∀ (e : Endpoint) (l : Listing ℕ), WalkComplete e l := by
  intro h
  obtain ⟨items, hwalk, hitems⟩ := h .ordersList oneTooMany
  have hsecond : Walk (Endpoint.page .ordersList oneTooMany) (some 20) [] := .last rfl
  have hwalk' : Walk (Endpoint.page .ordersList oneTooMany) none (List.range 20) :=
    .next rfl hsecond
  rw [hwalk.unique hwalk'] at hitems
  exact absurd hitems (by decide)

end Handly
