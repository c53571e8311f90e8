import Mathlib.Data.Finset.Card
import Mathlib.Data.List.Range

/-!
# Tables at READ COMMITTED

A row has the version that is committed and, while a transaction in flight has written it, the
version of that transaction, which holds the lock of the row until it ends. A transaction sees
its own versions and what is committed besides (`view`). A statement takes the rows it is about
from such a view (`snapshot`) and then writes them one after another: it waits for a row that
another transaction holds, and passes over one that is gone or no longer matches when its turn
comes (`updateRow`). A commit makes the view of the transaction the committed contents.

A row is known by its position. A deleted row keeps it, and a new one gets the next.
-/

namespace ReadCommitted

variable {α : Type*}

/-- The committed versions, and the versions in flight with the transactions that wrote them.
`none` is no row: one that is deleted, or not inserted yet. -/
structure Table (α : Type*) where
  size : ℕ
  committed : ℕ → Option α
  held : ℕ → Option (ℕ × Option α)
  /-- Nothing is at the positions that have not been given. -/
  vacant : ∀ i, size ≤ i → committed i = none ∧ held i = none

namespace Table

/-- Some rows, all of them committed. -/
def ofList (rows : List α) : Table α where
  size := rows.length
  committed i := rows[i]?
  held _ := none
  vacant _ hi := ⟨List.getElem?_eq_none hi, rfl⟩

variable (T : Table α) (me : ℕ)

/-- What the transaction `me` sees of a row. -/
def view (i : ℕ) : Option α :=
  match T.held i with
  | some (tx, version) => if tx = me then version else T.committed i
  | none => T.committed i

/-- The transaction has the version of the row in flight. -/
def Holds (i : ℕ) (version : Option α) : Prop := T.held i = some (me, version)

/-- No other transaction holds the row. -/
def Free (i : ℕ) : Prop := ∀ p ∈ T.held i, p.1 = me

instance (i : ℕ) : Decidable (T.Free me i) := inferInstanceAs (Decidable (∀ p ∈ T.held i, p.1 = me))

/-- The committed rows that match. -/
def rows (p : α → Bool) : List α := (List.range T.size).filterMap fun i => (T.committed i).filter p

/-- The matching rows that the transaction sees. -/
def visible (p : α → Bool) : List α :=
  (List.range T.size).filterMap fun i => (T.view me i).filter p

/-! ### Writes -/

/-- The transaction writes a row. -/
def write (i : ℕ) (version : Option α) : Table α where
  size := T.size
  committed := T.committed
  held j := if j = i ∧ i < T.size then some (me, version) else T.held j
  vacant j hj := by
    refine ⟨(T.vacant j hj).1, ?_⟩
    rw [if_neg (by omega)]
    exact (T.vacant j hj).2

/-- The transaction inserts a row. -/
def insert (a : α) : Table α where
  size := T.size + 1
  committed := T.committed
  held j := if j = T.size then some (me, some a) else T.held j
  vacant j hj := by
    refine ⟨(T.vacant j (by omega)).1, ?_⟩
    rw [if_neg (by omega)]
    exact (T.vacant j (by omega)).2

/-- The locks of the transaction are released, and the versions that are committed are these. -/
def release (committed : ℕ → Option α)
    (hvacant : ∀ i, T.size ≤ i → committed i = none) : Table α where
  size := T.size
  committed := committed
  held i := (T.held i).filter fun p => p.1 ≠ me
  vacant i hi := ⟨hvacant i hi, by rw [(T.vacant i hi).2, Option.filter_none]⟩

theorem view_vacant {i : ℕ} (hi : T.size ≤ i) : T.view me i = none := by
  rw [view, (T.vacant i hi).2]
  exact (T.vacant i hi).1

/-- What the transaction sees becomes what is committed. -/
def commit : Table α := T.release me (T.view me) fun _ hi => T.view_vacant me hi

/-- What the transaction has written is dropped. -/
def rollback : Table α := T.release me T.committed fun i hi => (T.vacant i hi).1

/-! ### Statements -/

/-- The rows that a statement about `p` is going to write. -/
def snapshot (p : α → Bool) : List ℕ := (List.range T.size).filter fun i => (T.view me i).any p

/-- The statement writes one row of its snapshot: none while it waits. -/
def updateRow (p : α → Bool) (f : α → Option α) (i : ℕ) : Option (Table α) :=
  if T.Free me i then
    some (match T.view me i with
      | some a => if p a then T.write me i (f a) else T
      | none => T)
  else none

/-- Another transaction has a row in flight that matches, or held one when it matched. -/
def Contended (p : α → Bool) : Prop :=
  ∃ i < T.size, ¬ T.Free me i ∧
    ((T.committed i).any p = true ∨ (T.held i).any (fun h => h.2.any p) = true)

instance (p : α → Bool) : Decidable (T.Contended me p) :=
  inferInstanceAs (Decidable (∃ i < T.size, _ ∧ _))

/-- `INSERT … ON CONFLICT DO NOTHING` of one row, where a conflict is a row with `p`. -/
def insertUnless (p : α → Bool) (a : α) : Option (Table α) :=
  if T.Contended me p then none
  else some (if (T.snapshot me p).isEmpty then T.insert me a else T)

/-- `INSERT … ON CONFLICT DO UPDATE` of one row, where a conflict is a row with `p`. -/
def upsert (p : α → Bool) (create : α) (update : α → α) : Option (Table α) :=
  if T.Contended me p then none
  else some (match (T.snapshot me p).head? with
    | none => T.insert me create
    | some i => T.write me i ((T.view me i).map update))

/-- Everything that the transaction has written was and is about rows with `p`. -/
def Confined (p : α → Prop) : Prop :=
  ∀ i version, T.Holds me i version → (∀ a ∈ version, p a) ∧ ∀ a ∈ T.committed i, p a

/-- The transaction has written nothing. -/
def Idle : Prop := ∀ i version, ¬ T.Holds me i version

/-! ### Views -/

section Views

variable {T : Table α} {me other : ℕ} {i j : ℕ} {a : α} {version : Option α} {p : α → Bool}

theorem view_of_holds (h : T.Holds me i version) : T.view me i = version := by
  rw [Holds] at h
  rw [view, h]
  exact if_pos rfl

theorem view_of_not_holds (h : ∀ version, ¬ T.Holds me i version) :
    T.view me i = T.committed i := by
  rw [view]
  cases hheld : T.held i with
  | none => rfl
  | some held =>
      have hne : held.1 ≠ me := by
        rintro rfl
        exact h held.2 hheld
      exact if_neg hne

theorem Idle.view (h : T.Idle me) (i : ℕ) : T.view me i = T.committed i :=
  view_of_not_holds (h i)

theorem Free.view_other (h : T.Free me i) (hne : other ≠ me) :
    T.view other i = T.committed i :=
  view_of_not_holds fun _ hheld => hne (h _ hheld)

theorem Holds.free (h : T.Holds me i version) : T.Free me i := by
  rintro held hheld
  rw [Option.mem_def, h] at hheld
  rw [← Option.some.inj hheld]

theorem Holds.unique {version' : Option α} (h : T.Holds me i version)
    (h' : T.Holds other i version') : me = other ∧ version = version' := by
  rw [Holds, h] at h'
  simpa using h'

theorem holds_or_not (T : Table α) (me i : ℕ) :
    (∃ version, T.Holds me i version) ∨ ∀ version, ¬ T.Holds me i version := by
  by_cases h : ∃ version, T.Holds me i version
  · exact Or.inl h
  · exact Or.inr fun version hheld => h ⟨version, hheld⟩

theorem lt_size_of_view (h : T.view me i = some a) : i < T.size := by
  by_contra hle
  rw [T.view_vacant me (Nat.le_of_not_lt hle)] at h
  cases h

theorem Holds.lt_size (h : T.Holds me i version) : i < T.size := by
  by_contra hle
  rw [Holds, (T.vacant i (Nat.le_of_not_lt hle)).2] at h
  cases h

theorem lt_size_of_committed (h : T.committed i = some a) : i < T.size := by
  by_contra hle
  rw [(T.vacant i (Nat.le_of_not_lt hle)).1] at h
  cases h

theorem mem_snapshot : i ∈ T.snapshot me p ↔ ∃ a, T.view me i = some a ∧ p a := by
  simp only [snapshot, List.mem_filter, List.mem_range, Option.any_eq_true]
  constructor
  · rintro ⟨-, h⟩
    exact h
  · rintro ⟨a, ha, hp⟩
    exact ⟨lt_size_of_view ha, a, ha, hp⟩

theorem mem_rows : a ∈ T.rows p ↔ ∃ i, T.committed i = some a ∧ p a := by
  simp only [rows, List.mem_filterMap, List.mem_range, Option.filter_eq_some_iff]
  constructor
  · rintro ⟨i, -, h⟩
    exact ⟨i, h⟩
  · rintro ⟨i, ha, hp⟩
    exact ⟨i, lt_size_of_committed ha, ha, hp⟩

theorem mem_visible : a ∈ T.visible me p ↔ ∃ i, T.view me i = some a ∧ p a := by
  simp only [visible, List.mem_filterMap, List.mem_range, Option.filter_eq_some_iff]
  constructor
  · rintro ⟨i, -, h⟩
    exact ⟨i, h⟩
  · rintro ⟨i, ha, hp⟩
    exact ⟨i, lt_size_of_view ha, ha, hp⟩

theorem snapshot_eq_nil_iff :
    T.snapshot me p = [] ↔ ∀ i a, T.view me i = some a → p a = false := by
  rw [List.eq_nil_iff_forall_not_mem]
  constructor
  · intro h i a ha
    by_contra hp
    exact h i (mem_snapshot.mpr ⟨a, ha, by simpa using hp⟩)
  · intro h i hi
    obtain ⟨a, ha, hp⟩ := mem_snapshot.mp hi
    rw [h i a ha] at hp
    cases hp

theorem visible_eq_nil (h : T.snapshot me p = []) : T.visible me p = [] := by
  rw [List.eq_nil_iff_forall_not_mem]
  intro a ha
  obtain ⟨i, hi, hp⟩ := mem_visible.mp ha
  rw [snapshot_eq_nil_iff.mp h i a hi] at hp
  cases hp

/-- There is at most one such row. -/
theorem length_rows_le_one_iff :
    (T.rows p).length ≤ 1 ↔ ∀ i j a b, T.committed i = some a → p a → T.committed j = some b →
      p b → i = j := by
  have hlength : ∀ (g : ℕ → Option α) (l : List ℕ),
      (l.filterMap g).length = (l.filter fun i => (g i).isSome).length := by
    intro g l
    induction l with
    | nil => rfl
    | cons i l ih => cases hg : g i <;> simp [hg, ih]
  have hnodup := List.nodup_range (n := T.size).filter
    fun i => ((T.committed i).filter p).isSome
  rw [rows, hlength, ← List.toFinset_card_of_nodup hnodup, Finset.card_le_one]
  simp only [List.mem_toFinset, List.mem_filter, List.mem_range, Option.isSome_iff_exists,
    Option.filter_eq_some_iff]
  constructor
  · intro h i j a b ha hpa hb hpb
    exact h i ⟨lt_size_of_committed ha, a, ha, hpa⟩ j ⟨lt_size_of_committed hb, b, hb, hpb⟩
  · rintro h i ⟨-, a, ha, hpa⟩ j ⟨-, b, hb, hpb⟩
    exact h i j a b ha hpa hb hpb

end Views

/-! ### One write -/

section Writes

variable {T : Table α} {me other : ℕ} {i j : ℕ} {a : α} {version version' : Option α}
  {p : α → Bool} {q : α → Prop}

@[simp] theorem write_committed : (T.write me i version).committed = T.committed := rfl

@[simp] theorem insert_committed : (T.insert me a).committed = T.committed := rfl

theorem holds_write (hi : i < T.size) :
    (T.write me i version).Holds other j version' ↔
      if j = i then me = other ∧ version = version' else T.Holds other j version' := by
  by_cases hj : j = i <;> simp [Holds, write, hj, hi]

theorem holds_insert :
    (T.insert me a).Holds other j version' ↔
      if j = T.size then me = other ∧ some a = version' else T.Holds other j version' := by
  by_cases hj : j = T.size <;> simp [Holds, insert, hj]

theorem view_write (hi : i < T.size) :
    (T.write me i version).view me j = if j = i then version else T.view me j := by
  by_cases hj : j = i <;> simp [view, write, hj, hi]

/-- The others do not see what is not committed. -/
theorem view_write_other (hfree : T.Free me i) (hne : other ≠ me) :
    (T.write me i version).view other = T.view other := by
  funext j
  by_cases hj : j = i ∧ i < T.size
  · obtain ⟨rfl, hlt⟩ := hj
    rw [hfree.view_other hne]
    simp [view, write, hlt, Ne.symm hne]
  · simp [view, write, hj]

theorem view_insert :
    (T.insert me a).view me j = if j = T.size then some a else T.view me j := by
  by_cases hj : j = T.size <;> simp [view, insert, hj]

theorem view_insert_other (hne : other ≠ me) : (T.insert me a).view other = T.view other := by
  funext j
  by_cases hj : j = T.size
  · subst hj
    rw [T.view_vacant other le_rfl]
    simp [view, insert, Ne.symm hne, (T.vacant T.size le_rfl).1]
  · simp [view, insert, hj]

@[simp] theorem rows_write : (T.write me i version).rows p = T.rows p := rfl

@[simp] theorem rows_insert : (T.insert me a).rows p = T.rows p := by
  have hnone : T.committed T.size = none := (T.vacant T.size le_rfl).1
  simp [rows, insert, List.range_succ, hnone]

/-- The transaction sees its own row last. -/
theorem visible_insert : (T.insert me a).visible me p = T.visible me p ++ [a].filter p := by
  have hold : ∀ j ∈ List.range T.size,
      ((T.insert me a).view me j).filter p = (T.view me j).filter p := by
    intro j hj
    rw [view_insert, if_neg (List.mem_range.mp hj).ne]
  have hnew : ((T.insert me a).view me T.size).filter p = (some a).filter p := by
    rw [view_insert, if_pos rfl]
  have hsize : (T.insert me a).size = T.size + 1 := rfl
  rw [visible, hsize, List.range_succ, List.filterMap_append, List.filterMap_congr hold,
    List.filterMap_cons, hnew]
  by_cases hp : p a <;> simp [visible, Option.filter, hp]

theorem confined_write (h : T.Confined me q) (hi : i < T.size) (hversion : ∀ a ∈ version, q a)
    (hcommitted : ∀ a ∈ T.committed i, q a) : (T.write me i version).Confined me q := by
  intro j version' hj
  rw [holds_write hi] at hj
  split at hj
  · obtain ⟨-, rfl⟩ := hj
    exact ⟨hversion, by rename_i hji; exact hji ▸ hcommitted⟩
  · exact h j version' hj

theorem confined_insert (h : T.Confined me q) (ha : q a) : (T.insert me a).Confined me q := by
  intro j version' hj
  rw [holds_insert] at hj
  split at hj
  · rename_i hji
    obtain ⟨-, rfl⟩ := hj
    refine ⟨by simpa using ha, fun b hb => ?_⟩
    rw [insert_committed, hji, (T.vacant T.size le_rfl).1] at hb
    cases hb
  · exact h j version' hj

end Writes

/-! ### The end of a transaction -/

section Ends

variable {T : Table α} {me other : ℕ} {i : ℕ} {version : Option α} {p : α → Bool} {q : α → Prop}

@[simp] theorem commit_committed : (T.commit me).committed = T.view me := rfl

@[simp] theorem rollback_committed : (T.rollback me).committed = T.committed := rfl

@[simp] theorem rows_rollback : (T.rollback me).rows p = T.rows p := rfl

theorem holds_release {committed : ℕ → Option α} {hvacant} :
    (T.release me committed hvacant).Holds other i version ↔
      other ≠ me ∧ T.Holds other i version := by
  simp only [Holds, release, Option.filter_eq_some_iff, decide_eq_true_eq]
  exact and_comm

theorem holds_commit : (T.commit me).Holds other i version ↔
    other ≠ me ∧ T.Holds other i version := holds_release

theorem holds_rollback : (T.rollback me).Holds other i version ↔
    other ≠ me ∧ T.Holds other i version := holds_release

theorem idle_commit : (T.commit me).Idle me := fun _ _ h => (holds_commit.mp h).1 rfl

theorem idle_rollback : (T.rollback me).Idle me := fun _ _ h => (holds_rollback.mp h).1 rfl

/-- A row that the other transaction holds looks to it as before. -/
theorem view_release_of_holds {committed : ℕ → Option α} {hvacant} (hne : other ≠ me)
    (h : T.Holds other i version) :
    (T.release me committed hvacant).view other i = T.view other i := by
  rw [view_of_holds h, view_of_holds (holds_release.mpr ⟨hne, h⟩)]

theorem view_release_of_not_holds {committed : ℕ → Option α} {hvacant}
    (h : ∀ version, ¬ T.Holds other i version) :
    (T.release me committed hvacant).view other i = committed i :=
  view_of_not_holds fun version hheld => h version (holds_release.mp hheld).2

theorem view_rollback (hne : other ≠ me) : (T.rollback me).view other = T.view other := by
  funext i
  rcases holds_or_not T other i with ⟨version, h⟩ | h
  · exact view_release_of_holds hne h
  · rw [view_of_not_holds h]
    exact view_release_of_not_holds h

/-- The commit changes no row but those the transaction has written. -/
theorem commit_committed_of_not_holds (h : ∀ version, ¬ T.Holds me i version) :
    (T.commit me).committed i = T.committed i := view_of_not_holds h

/-- What the transaction sees of rows that the commit is not about. -/
theorem filter_commit (hconfined : T.Confined me q) (hpq : ∀ a, q a → p a = false) :
    (T.view me i).filter p = (T.committed i).filter p := by
  rcases holds_or_not T me i with ⟨version, h⟩ | h
  · obtain ⟨hversion, hcommitted⟩ := hconfined i version h
    rw [view_of_holds h]
    have hnone : ∀ o : Option α, (∀ a ∈ o, q a) → o.filter p = none := by
      intro o ho
      rw [Option.filter_eq_none_iff]
      intro a ha
      simpa using hpq a (ho a ha)
    rw [hnone version hversion, hnone _ hcommitted]
  · rw [view_of_not_holds h]

end Ends

/-! ### What a transaction can do to a table

The key of a row is what no write changes: its owner. -/

section Evolves

variable {κ : Type*} {key : α → κ}

/-- One step of the transaction `me`. -/
inductive Evolves (key : α → κ) (me : ℕ) (T : Table α) : Table α → Prop
  | same : Evolves key me T T
  | write {i a version} : T.Free me i → T.view me i = some a → (∀ b ∈ version, key b = key a) →
      Evolves key me T (T.write me i version)
  | insert {a} : Evolves key me T (T.insert me a)
  | commit : Evolves key me T (T.commit me)
  | rollback : Evolves key me T (T.rollback me)

variable {T T' : Table α} {me other : ℕ} {i : ℕ} {version : Option α} {p : α → Bool}
  {f : α → Option α} {q : α → Prop}

theorem updateRow_cases (h : T.updateRow me p f i = some T') :
    T.Free me i ∧ ((∃ a, T.view me i = some a ∧ p a ∧ T' = T.write me i (f a)) ∨
      ((∀ a, T.view me i = some a → p a = false) ∧ T' = T)) := by
  unfold updateRow at h
  split at h
  · rename_i hfree
    obtain rfl := Option.some.inj h
    refine ⟨hfree, ?_⟩
    cases hview : T.view me i with
    | none => exact Or.inr ⟨by simp, rfl⟩
    | some a =>
        by_cases hp : p a
        · exact Or.inl ⟨a, rfl, hp, by simp [hp]⟩
        · exact Or.inr ⟨by simpa using hp, by simp [hp]⟩
  · cases h

theorem evolves_updateRow (h : T.updateRow me p f i = some T')
    (hf : ∀ a, ∀ b ∈ f a, key b = key a) : T.Evolves key me T' := by
  obtain ⟨hfree, ⟨a, ha, -, rfl⟩ | ⟨-, rfl⟩⟩ := updateRow_cases h
  · exact .write hfree ha (hf a)
  · exact .same

/-- The rows that the statement writes are about what it is about. -/
theorem confined_updateRow (hconfined : T.Confined me q) (h : T.updateRow me p f i = some T')
    (hpq : ∀ a, p a → q a) (hf : ∀ a, q a → ∀ b ∈ f a, q b) : T'.Confined me q := by
  obtain ⟨-, ⟨a, hview, hp, rfl⟩ | ⟨-, rfl⟩⟩ := updateRow_cases h
  · refine confined_write hconfined (lt_size_of_view hview) (hf a (hpq a hp)) fun b hb => ?_
    rcases holds_or_not T me i with ⟨version, hheld⟩ | hnot
    · exact (hconfined i version hheld).2 b hb
    · rw [← view_of_not_holds hnot, hview] at hb
      exact Option.some.inj hb ▸ hpq a hp
  · exact hconfined

theorem rows_updateRow {p' : α → Bool} (h : T.updateRow me p f i = some T') :
    T'.rows p' = T.rows p' := by
  obtain ⟨-, ⟨a, -, -, rfl⟩ | ⟨-, rfl⟩⟩ := updateRow_cases h <;> rfl

/-- A row that was deleted is not there any more. -/
theorem mem_snapshot_deleteRow {j : ℕ} (h : T.updateRow me p (fun _ => none) i = some T')
    (hj : j ∈ T'.snapshot me p) : j ∈ T.snapshot me p ∧ j ≠ i := by
  obtain ⟨b, hb, hpb⟩ := mem_snapshot.mp hj
  obtain ⟨-, ⟨a, hview, hp, rfl⟩ | ⟨hnot, rfl⟩⟩ := updateRow_cases h
  · rw [view_write (lt_size_of_view hview)] at hb
    split at hb
    · cases hb
    · rename_i hji
      exact ⟨mem_snapshot.mpr ⟨b, hb, hpb⟩, hji⟩
  · refine ⟨hj, ?_⟩
    rintro rfl
    rw [hnot b hb] at hpb
    cases hpb

/-- The other transactions keep the rows they hold. -/
theorem Evolves.holds_other (h : T.Evolves key me T') (hne : other ≠ me) :
    T'.Holds other i version ↔ T.Holds other i version := by
  cases h with
  | same => rfl
  | @write j a v hfree hview =>
      rw [holds_write (lt_size_of_view hview)]
      split
      · rename_i hij
        constructor
        · rintro ⟨hme, -⟩
          exact absurd hme.symm hne
        · intro hheld
          exact absurd (hfree _ (hij ▸ hheld)) hne
      · rfl
  | insert =>
      rw [holds_insert]
      split
      · rename_i hi
        constructor
        · rintro ⟨hme, -⟩
          exact absurd hme.symm hne
        · intro hheld
          exact absurd hheld.lt_size (by omega)
      · rfl
  | commit =>
      rw [holds_commit]
      exact and_iff_right hne
  | rollback =>
      rw [holds_rollback]
      exact and_iff_right hne

theorem Evolves.idle_other (h : T.Evolves key me T') (hne : other ≠ me) (hidle : T.Idle other) :
    T'.Idle other :=
  fun i version hheld => hidle i version ((h.holds_other hne).mp hheld)

/-- The committed versions of the rows that another transaction holds stay. -/
theorem Evolves.committed_of_holds (h : T.Evolves key me T') (hne : other ≠ me)
    (hheld : T.Holds other i version) : T'.committed i = T.committed i := by
  cases h with
  | commit =>
      exact commit_committed_of_not_holds fun version' hme => hne (hheld.unique hme).1
  | _ => rfl

theorem Evolves.confined_other (h : T.Evolves key me T') (hne : other ≠ me)
    (hconfined : T.Confined other q) : T'.Confined other q := by
  intro i version hheld
  have hheld' := (h.holds_other hne).mp hheld
  rw [h.committed_of_holds hne hheld']
  exact hconfined i version hheld'

theorem Evolves.size_le (h : T.Evolves key me T') : T.size ≤ T'.size := by
  cases h with
  | insert => exact Nat.le_succ T.size
  | _ => exact le_rfl

/-- A transaction changes nothing that the others see of rows that it is not about: none if it
has written nothing. -/
theorem Evolves.filter_view_other (h : T.Evolves key me T') (hne : other ≠ me)
    (hconfined : T.Confined me q) (hpq : ∀ a, q a → p a = false) (i : ℕ) :
    (T'.view other i).filter p = (T.view other i).filter p := by
  cases h with
  | same => rfl
  | write hfree => rw [view_write_other hfree hne]
  | insert => rw [view_insert_other hne]
  | commit =>
      rcases holds_or_not T other i with ⟨version, hheld⟩ | hnot
      · rw [Table.commit, view_release_of_holds hne hheld]
      · rw [Table.commit, view_release_of_not_holds hnot, view_of_not_holds hnot,
          filter_commit hconfined hpq]
  | rollback => rw [view_rollback hne]

/-- And nothing of what is committed of them. -/
theorem Evolves.filter_committed (h : T.Evolves key me T') (hconfined : T.Confined me q)
    (hpq : ∀ a, q a → p a = false) (i : ℕ) :
    (T'.committed i).filter p = (T.committed i).filter p := by
  cases h with
  | commit => exact filter_commit hconfined hpq
  | _ => rfl

/-- The positions that a table gets more hold nothing. -/
theorem filterMap_range_eq {g g' : ℕ → Option α} {m n : ℕ} (hle : m ≤ n) (hg : ∀ i, g' i = g i)
    (hnone : ∀ i, m ≤ i → g i = none) :
    (List.range n).filterMap g' = (List.range m).filterMap g := by
  obtain ⟨d, rfl⟩ := Nat.exists_eq_add_of_le hle
  induction d with
  | zero => exact List.filterMap_congr fun i _ => hg i
  | succ d ih =>
      have hlast : g' (m + d) = none := (hg _).trans (hnone _ (Nat.le_add_right m d))
      rw [← Nat.add_assoc, List.range_succ, List.filterMap_append, ih (Nat.le_add_right m d)]
      simp [hlast]

theorem Evolves.visible_other (h : T.Evolves key me T') (hne : other ≠ me)
    (hconfined : T.Confined me q) (hpq : ∀ a, q a → p a = false) :
    T'.visible other p = T.visible other p :=
  filterMap_range_eq h.size_le (h.filter_view_other hne hconfined hpq)
    fun i hi => by rw [T.view_vacant other hi, Option.filter_none]

theorem Evolves.rows_eq (h : T.Evolves key me T') (hconfined : T.Confined me q)
    (hpq : ∀ a, q a → p a = false) : T'.rows p = T.rows p :=
  filterMap_range_eq h.size_le (h.filter_committed hconfined hpq)
    fun i hi => by rw [(T.vacant i hi).1, Option.filter_none]

theorem Evolves.mem_snapshot_other (h : T.Evolves key me T') (hne : other ≠ me)
    (hconfined : T.Confined me q) (hpq : ∀ a, q a → p a = false) :
    i ∈ T'.snapshot other p ↔ i ∈ T.snapshot other p := by
  simp only [mem_snapshot, ← Option.filter_eq_some_iff, h.filter_view_other hne hconfined hpq]

theorem Idle.confined (h : T.Idle me) : T.Confined me q := fun i version hheld =>
  absurd hheld (h i version)

/-- The row is deleted for good. -/
def Gone (T : Table α) (i : ℕ) : Prop := i < T.size ∧ T.committed i = none ∧ T.held i = none

theorem Gone.view (h : T.Gone i) : T.view me i = none := by
  rw [Table.view, h.2.2]
  exact h.2.1

/-- Nobody holds the row, and there is nothing to see. -/
theorem gone_of_free (hlt : i < T.size) (hfree : T.Free me i)
    (hnot : ∀ version, ¬ T.Holds me i version) (hview : T.view me i = none) : T.Gone i := by
  refine ⟨hlt, by rw [← view_of_not_holds hnot, hview], ?_⟩
  cases hheld : T.held i with
  | none => rfl
  | some held =>
      have hme : held.1 = me := hfree held hheld
      exact absurd (by rw [Holds, hheld, ← hme]) (hnot held.2)

theorem Evolves.gone (h : T.Evolves key me T') (hgone : T.Gone i) : T'.Gone i := by
  obtain ⟨hlt, hcommitted, hheld⟩ := hgone
  refine ⟨hlt.trans_le h.size_le, ?_⟩
  cases h with
  | same => exact ⟨hcommitted, hheld⟩
  | @write j a v hfree hview =>
      have hij : i ≠ j := by
        rintro rfl
        rw [Gone.view ⟨hlt, hcommitted, hheld⟩] at hview
        cases hview
      exact ⟨hcommitted, by simp [Table.write, hij, hheld]⟩
  | insert => exact ⟨hcommitted, by simp [Table.insert, hlt.ne, hheld]⟩
  | commit =>
      exact ⟨Gone.view ⟨hlt, hcommitted, hheld⟩, by simp [Table.commit, Table.release, hheld]⟩
  | rollback => exact ⟨hcommitted, by simp [Table.rollback, Table.release, hheld]⟩

/-- The row has the version, committed or in flight. -/
def IsVersion (T : Table α) (i : ℕ) (a : α) : Prop :=
  T.committed i = some a ∨ ∃ tx, T.Holds tx i (some a)

theorem isVersion_of_view {a : α} (h : T.view me i = some a) : T.IsVersion i a := by
  rcases holds_or_not T me i with ⟨version, hheld⟩ | hnot
  · rw [view_of_holds hheld] at h
    exact Or.inr ⟨me, h ▸ hheld⟩
  · rw [view_of_not_holds hnot] at h
    exact Or.inl h

theorem IsVersion.lt_size {a : α} (h : T.IsVersion i a) : i < T.size := by
  rcases h with hcommitted | ⟨tx, hheld⟩
  · exact lt_size_of_committed hcommitted
  · exact hheld.lt_size

/-- A new row has the one version that is inserted. -/
theorem isVersion_insert {a b : α} :
    (T.insert me a).IsVersion i b ↔ if i = T.size then a = b else T.IsVersion i b := by
  simp only [IsVersion, insert_committed, holds_insert]
  split
  · rename_i hi
    rw [hi, (T.vacant T.size le_rfl).1]
    simp
  · rfl

/-- A row gets no version with a new key. -/
theorem Evolves.key_eq {a : α} (h : T.Evolves key me T') (hi : i < T.size)
    (ha : T'.IsVersion i a) : ∃ b, T.IsVersion i b ∧ key a = key b := by
  cases h with
  | same => exact ⟨a, ha, rfl⟩
  | @write j b version hfree hview hkey =>
      rcases ha with hcommitted | ⟨tx, hheld⟩
      · exact ⟨a, Or.inl hcommitted, rfl⟩
      · rw [holds_write (lt_size_of_view hview)] at hheld
        split at hheld
        · rename_i hij
          exact ⟨b, hij ▸ isVersion_of_view hview, hkey a hheld.2⟩
        · exact ⟨a, Or.inr ⟨tx, hheld⟩, rfl⟩
  | insert =>
      rcases ha with hcommitted | ⟨tx, hheld⟩
      · exact ⟨a, Or.inl hcommitted, rfl⟩
      · rw [holds_insert, if_neg hi.ne] at hheld
        exact ⟨a, Or.inr ⟨tx, hheld⟩, rfl⟩
  | commit =>
      rcases ha with hcommitted | ⟨tx, hheld⟩
      · exact ⟨a, isVersion_of_view hcommitted, rfl⟩
      · exact ⟨a, Or.inr ⟨tx, (holds_commit.mp hheld).2⟩, rfl⟩
  | rollback =>
      rcases ha with hcommitted | ⟨tx, hheld⟩
      · exact ⟨a, Or.inl hcommitted, rfl⟩
      · exact ⟨a, Or.inr ⟨tx, (holds_rollback.mp hheld).2⟩, rfl⟩

/-- Whatever version of the row there is has the key. -/
def About (T : Table α) (key : α → κ) (i : ℕ) (k : κ) : Prop :=
  i < T.size ∧ ∀ a, T.IsVersion i a → key a = k

/-- No row has versions with different keys. -/
def Keyed (T : Table α) (key : α → κ) : Prop :=
  ∀ i a b, T.IsVersion i a → T.IsVersion i b → key a = key b

theorem Evolves.about {k : κ} (h : T.Evolves key me T') (habout : T.About key i k) :
    T'.About key i k := by
  refine ⟨habout.1.trans_le h.size_le, fun a ha => ?_⟩
  obtain ⟨b, hb, hkey⟩ := h.key_eq habout.1 ha
  rw [hkey]
  exact habout.2 b hb

theorem Keyed.about {a : α} (h : T.Keyed key) (ha : T.committed i = some a) :
    T.About key i (key a) :=
  ⟨lt_size_of_committed ha, fun b hb => h i b a hb (Or.inl ha)⟩

/-- No two rows have versions with one key. -/
def UniqueKey (T : Table α) (key : α → κ) : Prop :=
  ∀ i j a b, T.IsVersion i a → T.IsVersion j b → key a = key b → i = j

theorem keyed_of_free (h : ∀ tx, T.Idle tx) : T.Keyed key := by
  have hcommitted : ∀ i a, T.IsVersion i a → T.committed i = some a := by
    rintro i a (ha | ⟨tx, hheld⟩)
    · exact ha
    · exact absurd hheld (h tx i _)
  intro i a b ha hb
  rw [Option.some.inj ((hcommitted i a ha).symm.trans (hcommitted i b hb))]

theorem Evolves.keyed (h : T.Evolves key me T') (hkeyed : T.Keyed key) : T'.Keyed key := by
  intro i a b ha hb
  by_cases hlt : i < T.size
  · obtain ⟨a', ha', hkeya⟩ := h.key_eq hlt ha
    obtain ⟨b', hb', hkeyb⟩ := h.key_eq hlt hb
    rw [hkeya, hkeyb]
    exact hkeyed i a' b' ha' hb'
  · -- The row is new.
    have hsize := ha.lt_size
    cases h with
    | @insert c =>
        obtain rfl : i = T.size := Nat.le_antisymm (Nat.lt_succ_iff.mp hsize) (Nat.le_of_not_lt hlt)
        rw [isVersion_insert, if_pos rfl] at ha hb
        rw [← ha, ← hb]
    | _ => exact absurd hsize hlt

/-- A key stays unique as long as no row is inserted. -/
theorem Evolves.uniqueKey (h : T.Evolves key me T') (hsize : T'.size = T.size)
    (hunique : T.UniqueKey key) : T'.UniqueKey key := by
  intro i j a b ha hb hkey
  obtain ⟨a', ha', hkeya⟩ := h.key_eq (hsize ▸ ha.lt_size) ha
  obtain ⟨b', hb', hkeyb⟩ := h.key_eq (hsize ▸ hb.lt_size) hb
  exact hunique i j a' b' ha' hb' (hkeya.symm.trans (hkey.trans hkeyb))

/-- Or the row that is inserted has a new key. -/
theorem uniqueKey_insert {c : α} (hunique : T.UniqueKey key)
    (hfresh : ∀ i b, T.IsVersion i b → key b ≠ key c) : (T.insert me c).UniqueKey key := by
  intro i j a b ha hb hkey
  rw [isVersion_insert] at ha hb
  split at ha <;> split at hb
  · rename_i hi hj
    rw [hi, hj]
  · exact absurd (ha ▸ hkey.symm) (hfresh j b hb)
  · exact absurd (hb ▸ hkey) (hfresh i a ha)
  · exact hunique i j a b ha hb hkey

/-- A row with `p` that the transaction sees is free, if nobody contends for `p`. -/
theorem free_of_not_contended {a : α} (h : ¬ T.Contended me p) (hview : T.view me i = some a)
    (hp : p a) : T.Free me i := by
  by_contra hfree
  have hnot : ∀ version, ¬ T.Holds me i version := fun version hheld => hfree hheld.free
  rw [view_of_not_holds hnot] at hview
  exact h ⟨i, lt_size_of_committed hview, hfree, Or.inl (by rw [hview]; exact hp)⟩

/-- There is no version with `p` at all, if nobody contends for it, and the transaction sees and
has written none. -/
theorem not_isVersion {a : α} (h : ¬ T.Contended me p) (hidle : T.Idle me)
    (hnone : T.snapshot me p = []) (ha : T.IsVersion i a) : p a = false := by
  by_contra hp
  rw [Bool.not_eq_false] at hp
  have hfree : T.Free me i := by
    by_contra hfree
    refine h ⟨i, ha.lt_size, hfree, ?_⟩
    rcases ha with hcommitted | ⟨tx, hheld⟩
    · exact Or.inl (by rw [hcommitted]; exact hp)
    · refine Or.inr ?_
      rw [hheld]
      exact hp
  have hcommitted : T.committed i = some a := by
    rcases ha with hcommitted | ⟨tx, hheld⟩
    · exact hcommitted
    · obtain rfl : tx = me := hfree _ hheld
      exact absurd hheld (hidle i _)
  have hnot := snapshot_eq_nil_iff.mp hnone i a (by rw [hidle.view, hcommitted])
  rw [hp] at hnot
  cases hnot

theorem upsert_cases {create : α} {update : α → α} (h : T.upsert me p create update = some T') :
    ¬ T.Contended me p ∧ ((T.snapshot me p = [] ∧ T' = T.insert me create) ∨
      ∃ i a, T.view me i = some a ∧ p a ∧ T.Free me i ∧
        T' = T.write me i (some (update a))) := by
  unfold upsert at h
  split at h
  · cases h
  · rename_i hcontended
    obtain rfl := Option.some.inj h
    refine ⟨hcontended, ?_⟩
    cases hhead : (T.snapshot me p).head? with
    | none => exact Or.inl ⟨List.head?_eq_none_iff.mp hhead, rfl⟩
    | some i =>
        obtain ⟨a, hview, hp⟩ := mem_snapshot.mp (List.mem_of_head? hhead)
        exact Or.inr ⟨i, a, hview, hp, free_of_not_contended hcontended hview hp, by simp [hview]⟩

theorem rows_upsert {create : α} {update : α → α} {p' : α → Bool}
    (h : T.upsert me p create update = some T') : T'.rows p' = T.rows p' := by
  obtain ⟨-, ⟨-, rfl⟩ | ⟨i, a, -, -, -, rfl⟩⟩ := upsert_cases h
  · exact rows_insert
  · rfl

theorem insertUnless_cases {a : α} (h : T.insertUnless me p a = some T') :
    ¬ T.Contended me p ∧ ((T.snapshot me p = [] ∧ T' = T.insert me a) ∨
      (T.snapshot me p ≠ [] ∧ T' = T)) := by
  unfold insertUnless at h
  split at h
  · cases h
  · rename_i hcontended
    obtain rfl := Option.some.inj h
    refine ⟨hcontended, ?_⟩
    cases hsnapshot : T.snapshot me p with
    | nil => exact Or.inl ⟨rfl, rfl⟩
    | cons i rest => exact Or.inr ⟨by simp, rfl⟩

end Evolves

/-! ### What all versions have -/

section Every

variable {T T' : Table α} {me : ℕ} {p : α → Bool} {P : α → Prop}

/-- All versions of all rows have the property, committed or in flight. -/
def Every (T : Table α) (P : α → Prop) : Prop := ∀ i a, T.IsVersion i a → P a

theorem Every.mono {Q : α → Prop} (h : T.Every P) (hPQ : ∀ a, P a → Q a) : T.Every Q :=
  fun i a ha => hPQ a (h i a ha)

theorem Every.commit (h : T.Every P) : (T.commit me).Every P := by
  rintro i a (hcommitted | ⟨tx, hheld⟩)
  · exact h i a (isVersion_of_view hcommitted)
  · exact h i a (Or.inr ⟨tx, (holds_commit.mp hheld).2⟩)

theorem Every.rollback (h : T.Every P) : (T.rollback me).Every P := by
  rintro i a (hcommitted | ⟨tx, hheld⟩)
  · exact h i a (Or.inl hcommitted)
  · exact h i a (Or.inr ⟨tx, (holds_rollback.mp hheld).2⟩)

theorem Every.upsert {create : α} {update : α → α} (h : T.Every P)
    (hupsert : T.upsert me p create update = some T') (hcreate : P create)
    (hupdate : ∀ a, p a → P a → P (update a)) : T'.Every P := by
  intro i a ha
  obtain ⟨-, ⟨-, rfl⟩ | ⟨j, b, hview, hp, -, rfl⟩⟩ := upsert_cases hupsert
  · rw [isVersion_insert] at ha
    split at ha
    · exact ha ▸ hcreate
    · exact h i a ha
  · rcases ha with hcommitted | ⟨tx, hheld⟩
    · exact h i a (Or.inl hcommitted)
    · rw [holds_write (lt_size_of_view hview)] at hheld
      split at hheld
      · obtain ⟨-, hversion⟩ := hheld
        exact Option.some.inj hversion ▸ hupdate b hp (h j b (isVersion_of_view hview))
      · exact h i a (Or.inr ⟨tx, hheld⟩)

end Every

end Table

end ReadCommitted
