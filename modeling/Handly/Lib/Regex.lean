import Mathlib.Data.List.Basic
import Mathlib.Logic.Function.Basic

/-!
# Regular expressions of ECMAScript

Backtracking matching as a list of successes: the cursors at which a match may end, in the
order in which the engine tries them. The first one is the match that it reports. Laws for the
head of the list follow the constructors, and say what a pattern does on a text of known form.

A quantifier leaves the groups below it alone: no pattern here has a group there.
-/

namespace Regex

/-- What is asked of the characters of a text is decided along the text. Without this instance the
one for all characters, where it is imported, would come first. -/
instance decidableForallMem {p : Char → Prop} [DecidablePred p] (text : List Char) :
    Decidable (∀ c ∈ text, p c) :=
  List.decidableBAll p text

/-! ### Patterns -/

/-- A pattern. -/
inductive Pattern
  | empty
  /-- One character of a class. -/
  | chars (p : Char → Bool)
  | start
  | finish
  | wordBoundary
  | seq (r s : Pattern)
  | alt (r s : Pattern)
  /-- `r?` -/
  | optional (r : Pattern)
  /-- `r*`, and `r*?` when it is not greedy. -/
  | star (greedy : Bool) (r : Pattern)
  | group (n : ℕ) (r : Pattern)

/-- A place in a text, and what the groups have captured. -/
structure Cursor where
  /-- The text before the place, backwards. -/
  before : List Char := []
  after : List Char
  captures : ℕ → Option (List Char) := fun _ => none

/-! ### Classes -/

/-- `\w` -/
def isWord (c : Char) : Bool := c.isAlphanum || c == '_'

/-- `\s` -/
def isSpace (c : Char) : Bool :=
  c ∈ [' ', '\t', '\n', '\r', '\u000b', '\u000c', '\u00a0', '\ufeff', '\u1680', '\u2028',
    '\u2029', '\u202f', '\u205f', '\u3000'] ∨ ('\u2000' ≤ c ∧ c ≤ '\u200a')

def isLineTerminator (c : Char) : Bool := c ∈ ['\n', '\r', '\u2028', '\u2029']

/-- `.` -/
def dot : Pattern := .chars fun c => !isLineTerminator c

/-- A word. With the flag `i` it is given in capitals, and `fold` is `Char.toUpper`. -/
def literal (fold : Char → Char) : List Char → Pattern
  | [] => .empty
  | c :: cs => .seq (.chars fun x => fold x = c) (literal fold cs)

/-- `r+` -/
def plus (r : Pattern) : Pattern := .seq r (.star true r)

/-- `r{n}` -/
def times (r : Pattern) : ℕ → Pattern
  | 0 => .empty
  | n + 1 => .seq r (times r n)

/-! ### Matching -/

/-- There is a word character on the one side and none on the other. -/
def Cursor.atBoundary (c : Cursor) : Bool := c.before.head?.any isWord != c.after.head?.any isWord

/-- The text between two cursors. -/
def Cursor.to (c c' : Cursor) : List Char :=
  (c'.before.take (c'.before.length - c.before.length)).reverse

/-- The ends of the matches of `r*`, at most `n` of them in a row. An iteration must consume
something. -/
def iterate (step : Cursor → List Cursor) (greedy : Bool) : ℕ → Cursor → List Cursor
  | 0, c => [c]
  | n + 1, c =>
      let more := ((step c).filter fun c' => c'.after.length < c.after.length).flatMap
        (iterate step greedy n)
      if greedy then more ++ [c] else c :: more

/-- The ends of the matches of a pattern at a cursor, in the order in which they are tried. -/
def run : Pattern → Cursor → List Cursor
  | .empty, c => [c]
  | .chars p, c =>
      match c.after with
      | [] => []
      | x :: xs => if p x then [{ c with before := x :: c.before, after := xs }] else []
  | .start, c => if c.before.isEmpty then [c] else []
  | .finish, c => if c.after.isEmpty then [c] else []
  | .wordBoundary, c => if c.atBoundary then [c] else []
  | .seq r s, c => (run r c).flatMap (run s)
  | .alt r s, c => run r c ++ run s c
  | .optional r, c => ((run r c).filter fun c' => c'.after.length < c.after.length) ++ [c]
  | .star greedy r, c => iterate (run r) greedy c.after.length c
  | .group n r, c =>
      (run r c).map fun c' => { c' with captures := Function.update c'.captures n (some (c.to c')) }

/-- What the left side of `|` matches is tried first. -/
example (c : Cursor) : run (.alt .empty .finish) c = c :: run .finish c := by simp [run]

/-- The first match at a cursor. -/
def first (r : Pattern) (c : Cursor) : Option Cursor := (run r c).head?

/-- The first match from a place on. -/
def search (r : Pattern) (before : List Char) : List Char → Option Cursor
  | [] => first r { before, after := [] }
  | x :: xs => (first r { before, after := x :: xs }).or (search r (x :: before) xs)

/-- `r.exec(text)` -/
def exec (r : Pattern) (text : List Char) : Option Cursor := search r [] text

/-- `r.test(text)` -/
def test (r : Pattern) (text : List Char) : Bool := (exec r text).isSome

/-- The rest of a text with its matches replaced. -/
def replaceFrom (r : Pattern) (replacement : List Char) :
    ℕ → List Char → List Char → List Char
  | 0, _, after => after
  | n + 1, before, after =>
      match first r { before, after }, after with
      | some c, x :: xs =>
          if c.after.length < after.length then
            replacement ++ replaceFrom r replacement n c.before c.after
          else replacement ++ x :: replaceFrom r replacement n (x :: before) xs
      | some _, [] => replacement
      | none, x :: xs => x :: replaceFrom r replacement n (x :: before) xs
      | none, [] => []

/-- `text.replace(r, replacement)` with the flag `g`. -/
def replaceAll (r : Pattern) (replacement text : List Char) : List Char :=
  replaceFrom r replacement (text.length + 1) [] text

/-! ### Word characters and spaces -/

theorem le_of_isWord {c : Char} (h : isWord c = true) : c.toNat ≤ 122 := by
  change (decide ('A'.val ≤ c.val ∧ c.val ≤ 'Z'.val) || (decide ('a'.val ≤ c.val)
    && decide (c.val ≤ 'z'.val)) || (decide ('0'.val ≤ c.val) && decide (c.val ≤ '9'.val))
    || c == '_') = true at h
  simp only [Bool.or_eq_true, Bool.and_eq_true, decide_eq_true_eq, beq_iff_eq,
    UInt32.le_iff_toNat_le] at h
  rcases h with ((⟨-, h⟩ | ⟨-, h⟩) | ⟨-, h⟩) | rfl
  · exact Nat.le_trans h (by decide)
  · exact h
  · exact Nat.le_trans h (by decide)
  · decide

/-- A space is not a word character. -/
theorem isWord_of_isSpace {c : Char} (h : isSpace c = true) : isWord c = false := by
  rw [isSpace, decide_eq_true_iff] at h
  obtain h | ⟨h, -⟩ := h
  · revert c
    decide
  · rw [Bool.eq_false_iff]
    intro hword
    have hle := le_of_isWord hword
    have hge : 0x2000 ≤ c.toNat := h
    omega

/-- A character is a word character if its capital is one. -/
theorem isWord_of_isWord_toUpper {c : Char} (h : isWord c.toUpper = true) : isWord c = true := by
  unfold Char.toUpper at h
  split at h
  · next hlower =>
    have hlower : c.isLower = true := by
      change (decide ('a'.val ≤ c.val) && decide (c.val ≤ 'z'.val)) = true
      rw [Bool.and_eq_true, decide_eq_true_eq, decide_eq_true_eq]
      exact hlower
    change (c.isUpper || c.isLower || c.isDigit || c == '_') = true
    rw [hlower, Bool.or_true, Bool.true_or, Bool.true_or]
  · exact h

/-! ### Laws of the constructors -/

variable {r s : Pattern} {p : Char → Bool} {c c' c'' : Cursor} {before xs rest text : List Char}
  {k : ℕ → Option (List Char)} {n : ℕ}

@[simp]
theorem first_empty : first .empty c = some c := rfl

theorem first_eq_none_iff : first r c = none ↔ run r c = [] := List.head?_eq_none_iff

theorem first_seq : first (.seq r s) c = (run r c).findSome? (first s) := List.head?_flatMap

/-- When both parts match at the first attempt, so does the sequence. -/
theorem first_seq_eq_some (h : first r c = some c') (h' : first s c' = some c'') :
    first (.seq r s) c = some c'' := by
  obtain ⟨others, hrun⟩ := List.head?_eq_some_iff.1 h
  rw [first_seq, hrun, List.findSome?_cons_of_isSome (by simp [h']), h']

/-- When the first part can match in one way only, the second one decides. -/
theorem first_seq_of_run (h : run r c = [c']) : first (.seq r s) c = first s c' := by
  rw [first_seq, h, List.findSome?_cons, List.findSome?_nil]
  cases first s c' <;> rfl

/-- A sequence that matches passes through a match of its first part. -/
theorem exists_of_run_seq (h : run (.seq r s) c ≠ []) : ∃ c' ∈ run r c, run s c' ≠ [] := by
  obtain ⟨c'', hmem⟩ := List.exists_mem_of_ne_nil _ h
  obtain ⟨c', hc', hmem⟩ := List.mem_flatMap.1 hmem
  exact ⟨c', hc', List.ne_nil_of_mem hmem⟩

theorem run_chars_cons {x : Char} (hx : p x = true) :
    run (.chars p) ⟨before, x :: xs, k⟩ = [⟨x :: before, xs, k⟩] := if_pos hx

theorem first_chars {x : Char} (hx : p x = true) :
    first (.chars p) ⟨before, x :: xs, k⟩ = some ⟨x :: before, xs, k⟩ := by
  rw [first, run_chars_cons hx]
  rfl

/-- A text whose first character is not in the class. -/
theorem head_notIn {x : Char} (hx : p x = false) : ∀ y ∈ (x :: xs).head?, p y = false := by
  rintro _ ⟨⟩
  exact hx

theorem run_chars_eq_nil (h : ∀ x ∈ rest.head?, p x = false) :
    run (.chars p) ⟨before, rest, k⟩ = [] := by
  cases rest with
  | nil => rfl
  | cons x xs => exact if_neg (by simp [h x rfl])

theorem exists_of_mem_run_chars (h : c' ∈ run (.chars p) c) :
    ∃ x xs, c.after = x :: xs ∧ p x = true ∧ c' = ⟨x :: c.before, xs, c.captures⟩ := by
  obtain ⟨before, after, k⟩ := c
  cases after with
  | nil => simp [run] at h
  | cons x xs =>
    cases hx : p x with
    | false => simp [run, hx] at h
    | true =>
      rw [run_chars_cons hx, List.mem_singleton] at h
      exact ⟨x, xs, rfl, hx, h⟩

theorem first_group (h : first r c = some c') :
    first (.group n r) c =
      some { c' with captures := Function.update c'.captures n (some (c.to c')) } := by
  rw [first, run, List.head?_map, ← first, h, Option.map_some]

/-- What lies between a cursor and a later one. -/
theorem to_eq : Cursor.to ⟨before, text, k⟩ ⟨xs.reverse ++ before, rest, k⟩ = xs := by
  simp [Cursor.to]

theorem first_optional (h : first r c = some c') (hlt : c'.after.length < c.after.length) :
    first (.optional r) c = some c' := by
  obtain ⟨others, hrun⟩ := List.head?_eq_some_iff.1 h
  rw [first, run, hrun, List.filter_cons_of_pos (by simpa using hlt)]
  rfl

theorem run_wordBoundary (h : c.atBoundary = true) : run .wordBoundary c = [c] := if_pos h

theorem of_mem_run_wordBoundary (h : c' ∈ run .wordBoundary c) :
    c' = c ∧ c.atBoundary = true := by
  cases hb : c.atBoundary with
  | false => simp [run, hb] at h
  | true =>
    rw [run_wordBoundary hb, List.mem_singleton] at h
    exact ⟨h, rfl⟩

theorem first_alt_left (h : first r c = some c') : first (.alt r s) c = some c' := by
  rw [first, run, List.head?_append, ← first, h, Option.some_or]

theorem first_alt_right (h : run r c = []) : first (.alt r s) c = first s c := by
  rw [first, run, h, List.nil_append, first]

/-! ### Words -/

section Words

variable {fold : Char → Char} {word : List Char}

/-- A word is read in any spelling that folds to it. -/
theorem run_literal (h : xs.map fold = word) :
    run (literal fold word) ⟨before, xs ++ rest, k⟩ = [⟨xs.reverse ++ before, rest, k⟩] := by
  subst h
  induction xs generalizing before with
  | nil => rfl
  | cons x xs ih =>
    rw [List.map_cons, literal, run, List.cons_append,
      run_chars_cons (p := fun y => fold y = fold x) (by simp), List.flatMap_singleton, ih]
    simp

theorem first_literal (h : xs.map fold = word) :
    first (literal fold word) ⟨before, xs ++ rest, k⟩ = some ⟨xs.reverse ++ before, rest, k⟩ := by
  rw [first, run_literal h]
  rfl

theorem exists_of_mem_run_literal (h : c' ∈ run (literal fold word) c) :
    ∃ xs rest, c.after = xs ++ rest ∧ xs.map fold = word ∧
      c' = ⟨xs.reverse ++ c.before, rest, c.captures⟩ := by
  induction word generalizing c with
  | nil =>
    obtain rfl := List.mem_singleton.1 h
    exact ⟨[], _, rfl, rfl, rfl⟩
  | cons w word ih =>
    obtain ⟨c₁, hc₁, h⟩ := List.mem_flatMap.1 h
    obtain ⟨x, rest₁, hafter, hx, rfl⟩ := exists_of_mem_run_chars hc₁
    obtain ⟨xs, rest, rfl, hword, rfl⟩ := ih h
    exact ⟨x :: xs, rest, hafter, by simpa [hword] using hx, by simp⟩

/-- After a word the rest of the pattern matches. -/
theorem first_literal_seq (h : xs.map fold = word) :
    first (.seq (literal fold word) r) ⟨before, xs ++ rest, k⟩ =
      first r ⟨xs.reverse ++ before, rest, k⟩ :=
  first_seq_of_run (run_literal h)

/-- A word is not read where another letter stands. -/
theorem run_literal_eq_nil {w x : Char} (h : fold x ≠ w) :
    run (literal fold (w :: word)) ⟨before, x :: xs, k⟩ = [] := by
  rw [literal, run, run_chars_eq_nil (head_notIn (by simpa using h)), List.flatMap_nil]

/-- A pattern that begins with a word matches only where the word stands. -/
theorem exists_of_first_literal_seq (h : (first (.seq (literal fold word) r) c).isSome = true) :
    ∃ xs rest, c.after = xs ++ rest ∧ xs.map fold = word ∧
      (first r ⟨xs.reverse ++ c.before, rest, c.captures⟩).isSome = true := by
  have hrun : run (.seq (literal fold word) r) c ≠ [] := by
    rw [Ne, ← first_eq_none_iff]
    exact Option.isSome_iff_ne_none.1 h
  obtain ⟨c', hc', hrest⟩ := exists_of_run_seq hrun
  obtain ⟨xs, rest, hafter, hword, rfl⟩ := exists_of_mem_run_literal hc'
  refine ⟨xs, rest, hafter, hword, ?_⟩
  rw [Option.isSome_iff_ne_none, Ne, first_eq_none_iff]
  exact hrest

end Words

/-! ### Repetitions of a class -/

theorem iterate_chars_cons {x : Char} (hx : p x = true) {greedy : Bool} {fuel : ℕ} :
    iterate (run (.chars p)) greedy (fuel + 1) ⟨before, x :: xs, k⟩ =
      if greedy then iterate (run (.chars p)) greedy fuel ⟨x :: before, xs, k⟩ ++
        [⟨before, x :: xs, k⟩]
      else ⟨before, x :: xs, k⟩ :: iterate (run (.chars p)) greedy fuel ⟨x :: before, xs, k⟩ := by
  rw [iterate, run_chars_cons hx, List.filter_cons_of_pos (by simp)]
  simp

/-- Repetition ends where the class does. -/
theorem iterate_chars_stop (hrest : ∀ x ∈ rest.head?, p x = false) {greedy : Bool} {fuel : ℕ} :
    iterate (run (.chars p)) greedy fuel ⟨before, rest, k⟩ = [⟨before, rest, k⟩] := by
  cases fuel with
  | zero => rfl
  | succ fuel =>
    rw [iterate, run_chars_eq_nil hrest]
    cases greedy <;> rfl

theorem first_iterate_greedy (hxs : ∀ x ∈ xs, p x = true) (hrest : ∀ x ∈ rest.head?, p x = false)
    {fuel : ℕ} (hfuel : xs.length ≤ fuel) :
    (iterate (run (.chars p)) true fuel ⟨before, xs ++ rest, k⟩).head? =
      some ⟨xs.reverse ++ before, rest, k⟩ := by
  induction xs generalizing before fuel with
  | nil => rw [List.nil_append, iterate_chars_stop hrest]; rfl
  | cons x xs ih =>
    obtain ⟨fuel, rfl⟩ : ∃ m, fuel = m + 1 := ⟨fuel - 1, by simp at hfuel; omega⟩
    have hmore := @ih (x :: before) (fun y hy => hxs y (by simp [hy])) fuel
      (by simpa using hfuel)
    rw [List.cons_append, iterate_chars_cons (hxs x (by simp)), if_pos rfl, List.head?_append,
      hmore]
    simp

/-- Greedy repetition takes all that it can. -/
theorem first_star (hxs : ∀ x ∈ xs, p x = true) (hrest : ∀ x ∈ rest.head?, p x = false) :
    first (.star true (.chars p)) ⟨before, xs ++ rest, k⟩ =
      some ⟨xs.reverse ++ before, rest, k⟩ :=
  first_iterate_greedy hxs hrest (by simp)

/-- A repetition that cannot begin is skipped. -/
theorem first_star_seq_skip {greedy : Bool} (hrest : ∀ x ∈ rest.head?, p x = false) :
    first (.seq (.star greedy (.chars p)) r) ⟨before, rest, k⟩ = first r ⟨before, rest, k⟩ :=
  first_seq_of_run (iterate_chars_stop hrest)

theorem first_plus (hne : xs ≠ []) (hxs : ∀ x ∈ xs, p x = true)
    (hrest : ∀ x ∈ rest.head?, p x = false) :
    first (plus (.chars p)) ⟨before, xs ++ rest, k⟩ =
      some ⟨xs.reverse ++ before, rest, k⟩ := by
  obtain ⟨x, xs, rfl⟩ := List.exists_cons_of_ne_nil hne
  have hone : first (.chars p) ⟨before, x :: (xs ++ rest), k⟩ =
      some ⟨x :: before, xs ++ rest, k⟩ := first_chars (hxs x (by simp))
  have hmore := @first_star p (x :: before) xs rest k (fun y hy => hxs y (by simp [hy])) hrest
  rw [plus, List.cons_append, List.reverse_cons, List.append_assoc]
  exact first_seq_eq_some hone hmore

/-- What a repetition can pass over. -/
theorem exists_of_mem_iterate {greedy : Bool} {fuel : ℕ}
    (h : c' ∈ iterate (run (.chars p)) greedy fuel c) :
    ∃ ys zs, c.after = ys ++ zs ∧ (∀ y ∈ ys, p y = true) ∧
      c' = ⟨ys.reverse ++ c.before, zs, c.captures⟩ := by
  have hstay : ∃ ys zs, c.after = ys ++ zs ∧ (∀ y ∈ ys, p y = true) ∧
      c = ⟨ys.reverse ++ c.before, zs, c.captures⟩ := ⟨[], c.after, rfl, by simp, rfl⟩
  induction fuel generalizing c with
  | zero =>
    obtain rfl := List.mem_singleton.1 h
    exact hstay
  | succ fuel ih =>
    have hmem : c' = c ∨ ∃ c₁ ∈ run (.chars p) c, c' ∈ iterate (run (.chars p)) greedy fuel c₁ := by
      rw [iterate] at h
      cases greedy <;> simp at h <;> grind
    obtain rfl | ⟨c₁, hc₁, h⟩ := hmem
    · exact hstay
    · obtain ⟨x, xs, hafter, hx, rfl⟩ := exists_of_mem_run_chars hc₁
      obtain ⟨ys, zs, rfl, hys, rfl⟩ := ih h ⟨[], xs, rfl, by simp, rfl⟩
      exact ⟨x :: ys, zs, hafter, by simpa [hx] using hys, by simp⟩

theorem findSome?_iterate_lazy {α : Type*} {f : Cursor → Option α} {a : α}
    (hxs : ∀ x ∈ xs, p x = true)
    (hskip : ∀ ys zs, xs = ys ++ zs → zs ≠ [] →
      f ⟨ys.reverse ++ before, zs ++ rest, k⟩ = none)
    (hstop : f ⟨xs.reverse ++ before, rest, k⟩ = some a) {fuel : ℕ} (hfuel : xs.length ≤ fuel) :
    (iterate (run (.chars p)) false fuel ⟨before, xs ++ rest, k⟩).findSome? f = some a := by
  induction xs generalizing before fuel with
  | nil =>
    have hfirst : ∃ others, iterate (run (.chars p)) false fuel ⟨before, rest, k⟩ =
        ⟨before, rest, k⟩ :: others := by
      cases fuel with
      | zero => exact ⟨[], rfl⟩
      | succ fuel => exact ⟨_, rfl⟩
    obtain ⟨others, hfirst⟩ := hfirst
    have hstop : f ⟨before, rest, k⟩ = some a := hstop
    rw [List.nil_append, hfirst, List.findSome?_cons_of_isSome (by simp [hstop]), hstop]
  | cons x xs ih =>
    obtain ⟨fuel, rfl⟩ : ∃ m, fuel = m + 1 := ⟨fuel - 1, by simp at hfuel; omega⟩
    have hhere := hskip [] (x :: xs) rfl (by simp)
    have hlater := @ih (x :: before) (fun y hy => hxs y (by simp [hy]))
      (fun ys zs hsplit hne => by simpa using hskip (x :: ys) zs (by simp [hsplit]) hne)
      (by simpa using hstop) fuel (by simpa using hfuel)
    rw [List.cons_append, iterate_chars_cons (hxs x (by simp)), if_neg (by simp),
      List.findSome?_cons_of_isNone (by simpa using hhere)]
    exact hlater

/-- Lazy repetition goes on to the first place from which the rest of the pattern matches. -/
theorem first_lazy_seq (hxs : ∀ x ∈ xs, p x = true)
    (hskip : ∀ ys zs, xs = ys ++ zs → zs ≠ [] →
      first r ⟨ys.reverse ++ before, zs ++ rest, k⟩ = none)
    (hstop : first r ⟨xs.reverse ++ before, rest, k⟩ = some c') :
    first (.seq (.star false (.chars p)) r) ⟨before, xs ++ rest, k⟩ = some c' := by
  rw [first_seq]
  exact findSome?_iterate_lazy hxs hskip hstop (by simp)

/-- A repetition is of no use to a pattern that matches nowhere. -/
theorem first_star_seq_eq_none {greedy : Bool}
    (h : ∀ ys zs, text = ys ++ zs → first r ⟨ys.reverse ++ before, zs, k⟩ = none) :
    first (.seq (.star greedy (.chars p)) r) ⟨before, text, k⟩ = none := by
  rw [first_seq, List.findSome?_eq_none_iff]
  intro c' hc'
  obtain ⟨ys, zs, hsplit, -, rfl⟩ := exists_of_mem_iterate hc'
  exact h ys zs hsplit

/-! ### Anchored patterns -/

theorem search_start (hbefore : before ≠ []) : search (.seq .start r) before text = none := by
  have hnone {after : List Char} {before : List Char} (hbefore : before ≠ []) :
      first (.seq .start r) { before, after } = none := by
    simp [first, run, hbefore]
  induction text generalizing before with
  | nil => exact hnone hbefore
  | cons x xs ih => rw [search, hnone hbefore, Option.none_or, ih (by simp)]

/-- A pattern that begins with `^` matches at the start of the text only. -/
theorem exec_start : exec (.seq .start r) text = first r { after := text } := by
  have hhere : first (.seq .start r) { after := text } = first r { after := text } := by
    simp [first, run]
  cases text with
  | nil => exact hhere
  | cons x xs =>
    rw [exec, search, hhere, search_start (by simp), Option.or_none]

theorem run_times (hxs : ∀ x ∈ xs, p x = true) :
    run (times (.chars p) xs.length) ⟨before, xs ++ rest, k⟩ =
      [⟨xs.reverse ++ before, rest, k⟩] := by
  induction xs generalizing before with
  | nil => rfl
  | cons x xs ih =>
    rw [List.length_cons, times, run, List.cons_append, run_chars_cons (hxs x (by simp)),
      List.flatMap_singleton, ih fun y hy => hxs y (by simp [hy])]
    simp

theorem exists_of_mem_run_times (h : c' ∈ run (times (.chars p) n) c) :
    ∃ xs, c.after = xs ++ c'.after ∧ xs.length = n ∧ ∀ x ∈ xs, p x = true := by
  induction n generalizing c with
  | zero =>
    obtain rfl := List.mem_singleton.1 h
    exact ⟨[], rfl, rfl, by simp⟩
  | succ n ih =>
    obtain ⟨c₁, hc₁, h⟩ := List.mem_flatMap.1 h
    obtain ⟨x, rest, hafter, hx, rfl⟩ := exists_of_mem_run_chars hc₁
    obtain ⟨xs, hrest, hlength, hxs⟩ := ih h
    refine ⟨x :: xs, ?_, by simp [hlength], by simpa [hx] using hxs⟩
    rw [hafter, show rest = _ from hrest]
    rfl

/-- A fixed number of characters of a class, up to the end of the text. -/
theorem first_times_finish :
    (first (.seq (times (.chars p) n) .finish) ⟨before, text, k⟩).isSome = true ↔
      text.length = n ∧ ∀ x ∈ text, p x = true := by
  constructor
  · intro h
    have hrun : run (.seq (times (.chars p) n) .finish) ⟨before, text, k⟩ ≠ [] := by
      rw [Ne, ← first_eq_none_iff]
      exact Option.isSome_iff_ne_none.1 h
    obtain ⟨c', hc', hfinish⟩ := exists_of_run_seq hrun
    obtain ⟨xs, hsplit, hlength, hxs⟩ := exists_of_mem_run_times hc'
    have hend : c'.after = [] := by simpa [run] using hfinish
    obtain rfl : text = xs := by simpa [hend] using hsplit
    exact ⟨hlength, hxs⟩
  · rintro ⟨rfl, htext⟩
    have hrun := @run_times p before text [] k htext
    rw [List.append_nil] at hrun
    simp [first, run, hrun]

/-! ### Replacing -/

/-- The characters of a class are removed. -/
theorem replaceAll_chars : replaceAll (.chars p) [] text = text.filter fun x => !p x := by
  have hfrom {fuel : ℕ} {before : List Char} (hfuel : text.length < fuel) :
      replaceFrom (.chars p) [] fuel before text = text.filter fun x => !p x := by
    induction text generalizing before fuel with
    | nil =>
      cases fuel with
      | zero => rfl
      | succ fuel => rfl
    | cons x xs ih =>
      obtain ⟨fuel, rfl⟩ : ∃ m, fuel = m + 1 := ⟨fuel - 1, by omega⟩
      have hrest := fun before => @ih fuel before (by simpa using hfuel)
      cases hx : p x with
      | false =>
        have hfirst : first (.chars p) ⟨before, x :: xs, fun _ => none⟩ = none := by
          rw [first_eq_none_iff]
          exact run_chars_eq_nil (by simpa using hx)
        simp only [replaceFrom, hfirst, hrest]
        simp [hx]
      | true =>
        have hfirst : first (.chars p) ⟨before, x :: xs, fun _ => none⟩ =
            some ⟨x :: before, xs, fun _ => none⟩ := first_chars hx
        simp only [replaceFrom, hfirst, hrest]
        simp [hx]
  exact hfrom (by omega)

end Regex
