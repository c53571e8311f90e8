import Mathlib.Data.List.Destutter
import Mathlib.Data.List.Sort
import Mathlib.Order.Defs.LinearOrder

/-!
# Fragments of SQL

Two things that a query language does differently from a functional one.

*Truth values* are three: a comparison with `NULL` is unknown. `WHERE` keeps a row if its
condition is true, so on conditions built from `AND` and `OR` alone the third value
behaves like false (`holds_and`, `holds_or`).

*Order* is a relation between the rows and the answer, as rows that compare equal may
come in any order. `DISTINCT ON (key) … ORDER BY key, value` sorts the rows and keeps the
first of each group; whatever the ties, what is kept is one row of least value for each
key (`DistinctOn`).
-/

namespace Sql

/-! ### Truth values -/

/-- `none` is unknown. -/
abbrev Truth := Option Bool

namespace Truth

def and : Truth → Truth → Truth
  | some false, _ | _, some false => some false
  | some true, some true => some true
  | _, _ => none

def or : Truth → Truth → Truth
  | some true, _ | _, some true => some true
  | some false, some false => some false
  | _, _ => none

/-- What `WHERE` and `COALESCE(…, false)` make of a truth value. -/
def holds (t : Truth) : Bool := t.getD false

@[simp] theorem holds_some (b : Bool) : holds (some b) = b := rfl

@[simp] theorem holds_none : holds none = false := rfl

@[simp] theorem holds_and (s t : Truth) : (s.and t).holds = (s.holds && t.holds) := by
  rcases s with _ | _ | _ <;> rcases t with _ | _ | _ <;> rfl

@[simp] theorem holds_or (s t : Truth) : (s.or t).holds = (s.holds || t.holds) := by
  rcases s with _ | _ | _ <;> rcases t with _ | _ | _ <;> rfl

end Truth

/-- A comparison of two columns, unknown if one of them is `NULL`. -/
def compare {α : Type*} (R : α → α → Bool) (x y : Option α) : Truth :=
  match x, y with
  | some a, some b => some (R a b)
  | _, _ => none

@[simp] theorem holds_compare_some {α : Type*} (R : α → α → Bool) (x : Option α) (b : α) :
    (compare R x (some b)).holds = x.any fun a => R a b := by
  cases x <;> rfl

/-! ### Joins -/

section Join

variable {α κ : Type*}

/-- The right-hand sides that a `LEFT JOIN` pairs with one row: its matches, or `NULL` if
it has none. -/
def leftJoin (found : List α) : List (Option α) :=
  if found.isEmpty then [none] else found.map some

/-- On a unique key, a `LEFT JOIN` finds one row or none. -/
theorem leftJoin_filter [DecidableEq κ] {key : α → κ} {rows : List α} (h : (rows.map key).Nodup)
    (k : κ) : leftJoin (rows.filter fun a => key a = k) = [rows.find? fun a => key a = k] := by
  induction rows with
  | nil => rfl
  | cons a rows ih =>
      obtain ⟨hfresh, hrest⟩ := List.nodup_cons.mp h
      by_cases ha : key a = k
      · have hnone : (rows.filter fun b => key b = k) = [] := by
          refine List.filter_eq_nil_iff.mpr fun b hb hbk => hfresh ?_
          rw [ha, ← of_decide_eq_true hbk]
          exact List.mem_map_of_mem hb
        simp [leftJoin, ha, hnone]
      · simpa [ha] using ih hrest

end Join

/-! ### Order -/

section Order

variable {α : Type*}

/-- The answer consists of the rows in some order by `le`. -/
def OrderBy (le : α → α → Prop) (rows answer : List α) : Prop :=
  answer.Perm rows ∧ answer.Pairwise le

variable {κ β : Type*} [LinearOrder κ] [LinearOrder β] {key : α → κ} {val : α → β}

/-- `ORDER BY key, val` -/
def Lex (key : α → κ) (val : α → β) (a b : α) : Prop :=
  key a < key b ∨ (key a = key b ∧ val a ≤ val b)

/-- The second row begins a new group. -/
def KeyChanges (key : α → κ) (a b : α) : Prop := key a ≠ key b

instance (key : α → κ) : DecidableRel (KeyChanges key) :=
  fun a b => inferInstanceAs (Decidable (key a ≠ key b))

/-- `DISTINCT ON (key) … ORDER BY key, val`: of each run of rows with one key, the first. -/
def DistinctOn (key : α → κ) (val : α → β) (rows answer : List α) : Prop :=
  ∃ sorted, OrderBy (Lex key val) rows sorted ∧ answer = sorted.destutter (KeyChanges key)

/-- What is kept of sorted rows: for each key one row, of least value. -/
structure Closest (key : α → κ) (val : α → β) (rows answer : List α) : Prop where
  subset : ∀ a ∈ answer, a ∈ rows
  least : ∀ a ∈ answer, ∀ b ∈ rows, key b = key a → val a ≤ val b
  total : ∀ b ∈ rows, ∃ a ∈ answer, key a = key b
  nodup : (answer.map key).Nodup

/-- Keeping the first of each run, when the rows after `a` are sorted and none of them
comes before it. -/
theorem closest_destutter' {a : α} {rows : List α} (h : (a :: rows).Pairwise (Lex key val)) :
    Closest key val (a :: rows) (rows.destutter' (KeyChanges key) a) := by
  induction rows generalizing a with
  | nil =>
      exact ⟨by simp, by simp, by simp, by simp⟩
  | cons b rows ih =>
      obtain ⟨hfirst, hrest⟩ := List.pairwise_cons.mp h
      by_cases hkey : KeyChanges key a b
      · -- `a` ends its run: every later key is greater.
        have hgt : ∀ c ∈ b :: rows, key a < key c := by
          intro c hc
          have hab : key a < key b := (hfirst b List.mem_cons_self).resolve_right fun h => hkey h.1
          rcases List.mem_cons.mp hc with rfl | hc
          · exact hab
          · rcases (List.pairwise_cons.mp hrest).1 c hc with hbc | ⟨hbc, -⟩
            · exact hab.trans hbc
            · exact hbc ▸ hab
        have hclosest := ih hrest
        rw [List.destutter'_cons_pos _ hkey]
        refine ⟨fun c hc => ?_, fun c hc d hd hdc => ?_, fun d hd => ?_, ?_⟩
        · rcases List.mem_cons.mp hc with rfl | hc
          · exact List.mem_cons_self
          · exact List.mem_cons_of_mem _ (hclosest.subset c hc)
        · rcases List.mem_cons.mp hc with rfl | hc'
          · rcases List.mem_cons.mp hd with rfl | hd'
            · exact le_rfl
            · exact absurd hdc (hgt d hd').ne'
          · rcases List.mem_cons.mp hd with rfl | hd'
            · exact absurd hdc (hgt c (hclosest.subset c hc')).ne
            · exact hclosest.least c hc' d hd' hdc
        · rcases List.mem_cons.mp hd with rfl | hd
          · exact ⟨d, List.mem_cons_self, rfl⟩
          · obtain ⟨c, hc, hcd⟩ := hclosest.total d hd
            exact ⟨c, List.mem_cons_of_mem _ hc, hcd⟩
        · rw [List.map_cons, List.nodup_cons]
          refine ⟨fun hmem => ?_, hclosest.nodup⟩
          obtain ⟨c, hc, hca⟩ := List.mem_map.mp hmem
          exact absurd hca (hgt c (hclosest.subset c hc)).ne'
      · -- `b` is in the run of `a`, which has no greater value.
        have heq : key a = key b := not_ne_iff.mp hkey
        have hab : val a ≤ val b := by
          rcases hfirst b List.mem_cons_self with hlt | ⟨-, hle⟩
          · exact absurd heq hlt.ne
          · exact hle
        have hclosest := ih (List.pairwise_cons.mpr
          ⟨fun c hc => hfirst c (List.mem_cons_of_mem _ hc), (List.pairwise_cons.mp hrest).2⟩)
        rw [List.destutter'_cons_neg _ hkey]
        refine ⟨fun c hc => ?_, fun c hc d hd hdc => ?_, fun d hd => ?_, hclosest.nodup⟩
        · rcases List.mem_cons.mp (hclosest.subset c hc) with rfl | hc
          · exact List.mem_cons_self
          · exact List.mem_cons_of_mem _ (List.mem_cons_of_mem _ hc)
        · rcases List.mem_cons.mp hd with rfl | hd
          · exact hclosest.least c hc d List.mem_cons_self hdc
          · rcases List.mem_cons.mp hd with rfl | hd
            · exact (hclosest.least c hc a List.mem_cons_self (heq.trans hdc)).trans hab
            · exact hclosest.least c hc d (List.mem_cons_of_mem _ hd) hdc
        · rcases List.mem_cons.mp hd with rfl | hd
          · exact hclosest.total d List.mem_cons_self
          · rcases List.mem_cons.mp hd with rfl | hd
            · obtain ⟨c, hc, hca⟩ := hclosest.total a List.mem_cons_self
              exact ⟨c, hc, hca.trans heq⟩
            · exact hclosest.total d (List.mem_cons_of_mem _ hd)

/-- **`DISTINCT ON`**, whatever the ties. -/
theorem DistinctOn.closest {rows answer : List α} (h : DistinctOn key val rows answer) :
    Closest key val rows answer := by
  obtain ⟨sorted, ⟨hperm, hsorted⟩, rfl⟩ := h
  cases sorted with
  | nil =>
      obtain rfl := hperm.nil_eq
      exact ⟨by simp, by simp, by simp, by simp⟩
  | cons a sorted =>
      have hclosest := closest_destutter' hsorted
      exact ⟨fun c hc => hperm.mem_iff.mp (hclosest.subset c hc),
        fun c hc d hd => hclosest.least c hc d (hperm.mem_iff.mpr hd),
        fun d hd => hclosest.total d (hperm.mem_iff.mpr hd), hclosest.nodup⟩

/-- There always is an answer. -/
theorem exists_distinctOn (key : α → κ) (val : α → β) (rows : List α) :
    ∃ answer, DistinctOn key val rows answer := by
  classical
  have htotal : Std.Total (Lex key val) := by
    refine ⟨fun a b => ?_⟩
    rcases lt_trichotomy (key a) (key b) with h | h | h
    · exact Or.inl (Or.inl h)
    · rcases le_total (val a) (val b) with h' | h'
      · exact Or.inl (Or.inr ⟨h, h'⟩)
      · exact Or.inr (Or.inr ⟨h.symm, h'⟩)
    · exact Or.inr (Or.inl h)
  have htrans : IsTrans α (Lex key val) := by
    refine ⟨fun a b c hab hbc => ?_⟩
    rcases hab with hab | ⟨hab, hab'⟩ <;> rcases hbc with hbc | ⟨hbc, hbc'⟩
    · exact Or.inl (hab.trans hbc)
    · exact Or.inl (hbc ▸ hab)
    · exact Or.inl (hab ▸ hbc)
    · exact Or.inr ⟨hab.trans hbc, hab'.trans hbc'⟩
  exact ⟨_, rows.insertionSort (Lex key val),
    ⟨List.perm_insertionSort _ _, List.pairwise_insertionSort _ _⟩, rfl⟩

end Order

end Sql
