import Mathlib.Data.List.Nodup

/-!
# Cursor walks

A keyed list is read in pages: a page is some rows together with the key of the
row at which the next request should continue. `Walk` follows these keys from a
first request to the page that names no further one, and collects the rows.
-/

namespace CursorWalk

variable {α κ : Type*}

structure Page (α κ : Type*) where
  items : List α
  nextCursor : Option κ

/-- The rows from the one with the given key onward. -/
def fromCursor [DecidableEq κ] (key : α → κ) (cursor : κ) (rows : List α) : List α :=
  rows.dropWhile fun a => key a ≠ cursor

/-- With distinct keys, the row at position `p` starts the list that is left after
dropping `p` rows. -/
theorem fromCursor_eq_drop [DecidableEq κ] {key : α → κ} {rows : List α}
    (h : (rows.map key).Nodup) {p : ℕ} {a : α} (ha : rows[p]? = some a) :
    fromCursor key (key a) rows = rows.drop p := by
  induction rows generalizing p with
  | nil => simp at ha
  | cons r rows ih =>
      rw [List.map_cons, List.nodup_cons] at h
      cases p with
      | zero =>
          obtain rfl : r = a := by simpa using ha
          simp [fromCursor]
      | succ p =>
          have ha' : rows[p]? = some a := by simpa using ha
          have hne : key r ≠ key a := by
            intro he
            exact h.1 (he ▸ List.mem_map_of_mem (List.mem_of_getElem? ha'))
          have hdrop : fromCursor key (key a) (r :: rows) = fromCursor key (key a) rows := by
            simp [fromCursor, hne]
          rw [hdrop, ih h.2 ha', List.drop_succ_cons]

/-- Following the cursors from a request on collects these rows. -/
inductive Walk (page : Option κ → Page α κ) : Option κ → List α → Prop
  | last {c : Option κ} : (page c).nextCursor = none → Walk page c (page c).items
  | next {c : Option κ} {c' : κ} {rest : List α} : (page c).nextCursor = some c' →
      Walk page (some c') rest → Walk page c ((page c).items ++ rest)

/-- A request has at most one walk. -/
theorem Walk.unique {page : Option κ → Page α κ} {c : Option κ} {items items' : List α}
    (h : Walk page c items) (h' : Walk page c items') : items = items' := by
  induction h generalizing items' with
  | last hnone =>
      cases h' with
      | last => rfl
      | next hsome => simp [hnone] at hsome
  | next hsome _ ih =>
      cases h' with
      | last hnone => simp [hsome] at hnone
      | next hsome' hrest =>
          obtain rfl := Option.some.inj (hsome.symm.trans hsome')
          rw [ih hrest]

end CursorWalk
