import Mathlib.Data.List.TakeWhile
import Handly.Lib.Replacing

/-!
# The label of a query

`parseQueryTarget` finds the table and the kind of a statement in its SQL, for a metric. Calls of
`EXTRACT`, which have a FROM of their own, are taken out first. The pattern then looks for a
FROM, INTO or UPDATE after the statement's first word. In an UPDATE that word is the only one
of these, so the pattern never finds a table there.
-/

namespace Handly

open Regex

/-! ### The function -/

/-- `/EXTRACT\s*\([^()]*\)/i` -/
def extractCall : Pattern :=
  .seq (literal Char.toUpper ['E', 'X', 'T', 'R', 'A', 'C', 'T'])
    (.seq (.star true (.chars isSpace))
      (.seq (.chars (· == '('))
        (.seq (.star true (.chars fun c => c != '(' && c != ')')) (.chars (· == ')')))))

/-- `(SELECT|INSERT|UPDATE|DELETE)` -/
def statementWord : Pattern :=
  .alt (literal Char.toUpper ['S', 'E', 'L', 'E', 'C', 'T'])
    (.alt (literal Char.toUpper ['I', 'N', 'S', 'E', 'R', 'T'])
      (.alt (literal Char.toUpper ['U', 'P', 'D', 'A', 'T', 'E'])
        (literal Char.toUpper ['D', 'E', 'L', 'E', 'T', 'E'])))

/-- `(?:FROM|INTO|UPDATE)` -/
def tableWord : Pattern :=
  .alt (literal Char.toUpper ['F', 'R', 'O', 'M'])
    (.alt (literal Char.toUpper ['I', 'N', 'T', 'O'])
      (literal Char.toUpper ['U', 'P', 'D', 'A', 'T', 'E']))

/-- `"?` -/
def quoteMark : Pattern := .optional (.chars (· == '"'))

/-- `(?:"?\w+"?\.)?` -/
def schemaPrefix : Pattern :=
  .optional (.seq quoteMark (.seq (plus (.chars isWord)) (.seq quoteMark (.chars (· == '.')))))

/-- `\b(?:FROM|INTO|UPDATE)\s+(?:"?\w+"?\.)?"?(\w+)"?` -/
def tableClause : Pattern :=
  .seq .wordBoundary (.seq tableWord (.seq (plus (.chars isSpace)) (.seq schemaPrefix
    (.seq quoteMark (.seq (.group 2 (plus (.chars isWord))) quoteMark)))))

/-- `/^\s*(SELECT|INSERT|UPDATE|DELETE)\b.*?\b(?:FROM|INTO|UPDATE)\s+(?:"?\w+"?\.)?"?(\w+)"?/i` -/
def queryPattern : Pattern :=
  .seq .start (.seq (.star true (.chars isSpace)) (.seq (.group 1 statementWord)
    (.seq .wordBoundary (.seq (.star false dot) tableClause))))

/-- `toLowerCase` of a captured group -/
def lower (group : Option (List Char)) : String :=
  String.ofList ((group.getD []).map Char.toLower)

/-- `'EXTRACT()'` -/
def emptyCall : List Char := ['E', 'X', 'T', 'R', 'A', 'C', 'T', '(', ')']

/-- `parseQueryTarget` -/
def parseQueryTarget (sql : String) : String × String :=
  let withoutExtract := replaceAll extractCall emptyCall sql.toList
  match exec queryPattern withoutExtract with
  | none => ("unknown", "unknown")
  | some found => (lower (found.captures 2), lower (found.captures 1))

example :
    parseQueryTarget "SELECT AVG(EXTRACT(EPOCH FROM \"a\" - \"b\")) FROM \"public\".\"Orders\"" =
      ("orders", "select") := by decide +kernel

/-! ### Statements -/

/-- The statements that Prisma generates for one table. -/
inductive Kind
  | select | insert | update | delete
  deriving DecidableEq

def Kind.word : Kind → List Char
  | .select => ['S', 'E', 'L', 'E', 'C', 'T']
  | .insert => ['I', 'N', 'S', 'E', 'R', 'T']
  | .update => ['U', 'P', 'D', 'A', 'T', 'E']
  | .delete => ['D', 'E', 'L', 'E', 'T', 'E']

structure Statement where
  kind : Kind
  /-- The columns of a SELECT. -/
  columns : List Char := []
  schema : List Char
  table : List Char
  /-- What follows the table. -/
  rest : List Char

namespace Statement

variable (st : Statement)

/-- `"schema"."table"` -/
def qualified : List Char :=
  '"' :: (st.schema ++ '"' :: '.' :: '"' :: (st.table ++ ['"']))

/-- What stands before the word that names the table's clause. -/
def own : List Char :=
  match st.kind with
  | .select => st.kind.word ++ ' ' :: (st.columns ++ [' '])
  | .insert | .delete => st.kind.word ++ [' ']
  | .update => []

/-- The word that names the table's clause. -/
def clauseWord : List Char :=
  match st.kind with
  | .select | .delete => ['F', 'R', 'O', 'M']
  | .insert => ['I', 'N', 'T', 'O']
  | .update => ['U', 'P', 'D', 'A', 'T', 'E']

/-- The SQL: `SELECT columns FROM "schema"."table" …`, `INSERT INTO "schema"."table" …`,
`UPDATE "schema"."table" …` or `DELETE FROM "schema"."table" …`. -/
def text : List Char := st.own ++ (st.clauseWord ++ ' ' :: (st.qualified ++ st.rest))

end Statement

/-! ### Keywords -/

def keywords : List (List Char) :=
  [['F', 'R', 'O', 'M'], ['I', 'N', 'T', 'O'], ['U', 'P', 'D', 'A', 'T', 'E']]

/-- One of the keywords stands between the two parts of a text, as a word of its own and not in
quotes. -/
def keywordAt (pre post : List Char) : Bool :=
  keywords.any fun word =>
    (post.take word.length).map Char.toUpper == word && !pre.getLast?.any isWord &&
      !(post.drop word.length).head?.any isWord &&
      !(pre.getLast? == some '"' && (post.drop word.length).head? == some '"')

/-- The text of a call of EXTRACT, as far as its opening parenthesis. -/
def ExtractOpening (text : List Char) : Prop :=
  ∃ word blank, text = word ++ (blank ++ ['(']) ∧
    word.map Char.toUpper = ['E', 'X', 'T', 'R', 'A', 'C', 'T'] ∧ ∀ c ∈ blank, isSpace c = true

def NoParens (text : List Char) : Prop := ∀ c ∈ text, c ≠ '(' ∧ c ≠ ')'

/-- The place between the two parts of a text lies in the parentheses of a call of EXTRACT that
has no parentheses inside. -/
def InExtract (pre post : List Char) : Prop :=
  ∃ before opening args args' after, pre = before ++ (opening ++ args) ∧
    post = args' ++ ')' :: after ∧ ExtractOpening opening ∧ NoParens args ∧ NoParens args'

/-- What is known of a statement that Prisma generates. -/
structure Statement.Generated (st : Statement) : Prop where
  schema : st.schema ≠ [] ∧ ∀ c ∈ st.schema, isWord c = true
  table : st.table ≠ [] ∧ ∀ c ∈ st.table, isWord c = true
  singleLine : ∀ c ∈ st.text, isLineTerminator c = false
  /-- The keywords occur nowhere else, except in calls of EXTRACT. -/
  elsewhere : ∀ pre post, st.text = pre ++ post → keywordAt pre post = true →
    pre = st.own ∨ InExtract pre post
  /-- The statement's own keyword is not in such a call. -/
  notInExtract : ∀ post, st.text = st.own ++ post → ¬InExtract st.own post

/-! ### Calls of EXTRACT -/

/-- The text of a call of EXTRACT. -/
def ExtractText (m : List Char) : Prop :=
  ∃ opening args, m = opening ++ (args ++ [')']) ∧ ExtractOpening opening ∧ NoParens args

/-- A word that folds to a keyword consists of word characters. -/
theorem isWord_of_map_toUpper {word folded : List Char} (h : word.map Char.toUpper = folded)
    (hfolded : ∀ c ∈ folded, isWord c = true) : ∀ c ∈ word, isWord c = true := by
  intro c hc
  exact isWord_of_isWord_toUpper (hfolded _ (h ▸ List.mem_map_of_mem hc))

theorem noParen_of_isWord {c : Char} (h : isWord c = true) : c ≠ '(' ∧ c ≠ ')' := by
  constructor <;> rintro rfl <;> revert h <;> decide

theorem noParen_of_isSpace {c : Char} (h : isSpace c = true) : c ≠ '(' ∧ c ≠ ')' := by
  constructor <;> rintro rfl <;> revert h <;> decide

/-- An opening ends with its only parenthesis, and has seven characters that are no spaces
before it, the first of them in front. -/
theorem ExtractOpening.parts {opening : List Char} (h : ExtractOpening opening) :
    ∃ lead, opening = lead ++ ['('] ∧ NoParens lead ∧
      lead.countP (fun c => !isSpace c) = 7 ∧ lead.head?.any (fun c => !isSpace c) = true := by
  obtain ⟨word, blank, rfl, hword, hblank⟩ := h
  have hletters := isWord_of_map_toUpper hword (by decide)
  have hnospace : ∀ c ∈ word, (!isSpace c) = true := by
    intro c hc
    cases hspace : isSpace c with
    | false => rfl
    | true => exact absurd (hletters c hc) (by simp [isWord_of_isSpace hspace])
  have hlength : word.length = 7 := by simpa using congrArg List.length hword
  refine ⟨word ++ blank, by simp, ?_, ?_, ?_⟩
  · intro c hc
    obtain hc | hc := List.mem_append.1 hc
    · exact noParen_of_isWord (hletters c hc)
    · exact noParen_of_isSpace (hblank c hc)
  · rw [List.countP_append, List.countP_eq_length.2 hnospace,
      List.countP_eq_zero.2 (by simpa using hblank), hlength]
  · cases word with
    | nil => simp at hlength
    | cons c word => exact hnospace c (by simp)

theorem separate_extractText : Separate ExtractText where
  ne_nil := by
    rintro m ⟨opening, args, rfl, -, -⟩
    simp
  eq_of_overlap := by
    rintro _ _ a x y ⟨opening, args, rfl, hopening, hargs⟩ ⟨opening', args', rfl, hopening', hargs'⟩
      htext hlt
    obtain ⟨lead, rfl, hlead, hcount, hhead⟩ := hopening.parts
    obtain ⟨lead', rfl, hlead', hcount', -⟩ := hopening'.parts
    simp only [List.append_assoc, List.cons_append, List.nil_append] at htext
    obtain hgt | hle := Nat.lt_or_ge lead.length a.length
    · -- the second match would begin between the parentheses of the first one
      have hopens : lead ++ ['('] <+: lead ++ ('(' :: (args ++ (')' :: x))) :=
        ⟨args ++ (')' :: x), by simp⟩
      obtain ⟨a', rfl⟩ := List.prefix_of_prefix_length_le hopens
        (htext ▸ List.prefix_append a _) (by simp; omega)
      simp only [List.append_assoc, List.cons_append, List.nil_append] at htext
      have htext := (List.cons.inj (List.append_cancel_left htext)).2
      obtain ⟨args₂, rfl⟩ := List.prefix_of_prefix_length_le (List.prefix_append a' _)
        (htext ▸ List.prefix_append args _) (by simp at hlt; omega)
      rw [List.append_assoc] at htext
      obtain ⟨-, hparen, -⟩ := eq_of_first (fun c hc => hargs c (List.mem_append_right _ hc)) hlead'
        (by simp) (by simp) (List.append_cancel_left htext)
      simp at hparen
    · obtain ⟨lead₂, rfl⟩ := List.prefix_of_prefix_length_le (List.prefix_append a _)
        (htext ▸ List.prefix_append lead _) hle
      rw [List.append_assoc] at htext
      obtain ⟨rfl, -, htext⟩ := eq_of_first (fun c hc => hlead c (List.mem_append_right _ hc))
        hlead' (by simp) (by simp) (List.append_cancel_left htext)
      obtain ⟨rfl, -, -⟩ := eq_of_first hargs hargs' (by simp) (by simp) htext
      -- the same seven letters stand in both, so nothing stands before the second one's
      rw [List.countP_append, hcount'] at hcount
      cases a with
      | nil => exact ⟨rfl, rfl⟩
      | cons c a =>
        have hspace : isSpace c = false := by simpa using hhead
        rw [List.countP_cons_of_pos (by simp [hspace])] at hcount
        omega

/-- The pattern matches a call of EXTRACT. -/
theorem first_extractCall {before m rest : List Char} (hm : ExtractText m) :
    first extractCall { before, after := m ++ rest } =
      some { before := m.reverse ++ before, after := rest } := by
  obtain ⟨_, args, rfl, ⟨word, blank, rfl, hword, hblank⟩, hargs⟩ := hm
  have hinside : ∀ c ∈ args, (c != '(' && c != ')') = true := by simpa [NoParens] using hargs
  simp only [extractCall, List.append_assoc, List.cons_append, List.nil_append]
  rw [first_literal_seq hword]
  refine first_seq_eq_some (first_star hblank (head_notIn (by decide))) ?_
  refine first_seq_eq_some (first_chars (by decide)) ?_
  refine first_seq_eq_some (first_star hinside (head_notIn (by decide))) ?_
  rw [first_chars (by decide)]
  simp

/-- What the pattern matches is a call of EXTRACT. -/
theorem exists_of_mem_run_extractCall {before after : List Char} {c : Cursor}
    (hc : c ∈ run extractCall { before, after }) :
    ∃ m, ExtractText m ∧ after = m ++ c.after ∧ c.before = m.reverse ++ before := by
  obtain ⟨c₁, hc₁, hc⟩ := List.mem_flatMap.1 hc
  obtain ⟨word, rest₁, hafter, hword, rfl⟩ := exists_of_mem_run_literal hc₁
  obtain ⟨c₂, hc₂, hc⟩ := List.mem_flatMap.1 hc
  obtain ⟨blank, rest₂, rfl, hblank, rfl⟩ := exists_of_mem_iterate hc₂
  obtain ⟨c₃, hc₃, hc⟩ := List.mem_flatMap.1 hc
  obtain ⟨x, rest₃, rfl, hx, rfl⟩ := exists_of_mem_run_chars hc₃
  obtain ⟨c₄, hc₄, hc⟩ := List.mem_flatMap.1 hc
  obtain ⟨args, rest₄, rfl, hargs, rfl⟩ := exists_of_mem_iterate hc₄
  obtain ⟨y, rest₅, rfl, hy, rfl⟩ := exists_of_mem_run_chars hc
  obtain rfl : x = '(' := by simpa using hx
  obtain rfl : y = ')' := by simpa using hy
  refine ⟨word ++ (blank ++ ['(']) ++ (args ++ [')']),
    ⟨_, args, rfl, ⟨word, blank, rfl, hword, hblank⟩, by simpa [NoParens] using hargs⟩, ?_, ?_⟩
  · simpa using hafter
  · simp

/-- The pattern finds the calls of EXTRACT. -/
theorem finds_extractCall : Finds extractCall ExtractText := by
  intro before after
  cases hfirst : first extractCall { before, after } with
  | none =>
    rintro m hm ⟨rest, rfl⟩
    simp [first_extractCall hm] at hfirst
  | some c => exact exists_of_mem_run_extractCall (List.mem_of_head? hfirst)

/-- Taking the calls of EXTRACT out. -/
abbrev Stripped := Replaced ExtractText emptyCall

theorem replaceAll_stripped (text : List Char) :
    Stripped text [] (replaceAll extractCall emptyCall text) :=
  replaceAll_replaced finds_extractCall separate_extractText

/-! ### What is left of a statement -/

section Stripped

variable {pre post text out ys tail word : List Char} {z : Char}

theorem ExtractText.parts {m : List Char} (h : ExtractText m) :
    ∃ e x lead args, m = e :: x :: (lead ++ '(' :: args) ∧ e.toUpper = 'E' ∧ x.toUpper = 'X' ∧
      '"' ∉ e :: x :: lead := by
  obtain ⟨_, args, rfl, ⟨word, blank, rfl, hword, hblank⟩, -⟩ := h
  have hletters := isWord_of_map_toUpper hword (by decide)
  match word, hword with
  | [_], hword => simp at hword
  | e :: x :: word, hword =>
    have hword := List.cons.inj hword
    refine ⟨e, x, word ++ blank, args ++ [')'], by simp, hword.1, (List.cons.inj hword.2).1, ?_⟩
    intro hquote
    have hquote : '"' ∈ e :: x :: word ∨ '"' ∈ blank := by simpa [or_assoc] using hquote
    obtain hquote | hquote := hquote
    · exact absurd (hletters _ hquote) (by decide)
    · exact absurd (hblank _ hquote) (by decide)

/-- A text without an X is left as it is, if none follows. -/
theorem stripped_of_noX (hpre : ∀ c ∈ pre, c.toUpper ≠ 'X') (hz : z.toUpper ≠ 'X') :
    Stripped pre (z :: post) pre := by
  induction pre with
  | nil => exact .done _
  | cons c pre ih =>
    refine .miss c (fun m hm hprefix => ?_) (ih fun d hd => hpre d (by simp [hd]))
    obtain ⟨e, x, lead, args, rfl, -, hx, -⟩ := hm.parts
    obtain ⟨rest, hrest⟩ := hprefix
    have hrest := (List.cons.inj hrest).2
    cases pre with
    | nil => exact hz ((List.cons.inj hrest).1 ▸ hx)
    | cons d pre => exact hpre d (by simp) ((List.cons.inj hrest).1 ▸ hx)

/-- A character that is no E stays where it stands first. -/
theorem exists_of_stripped_text {c : Char} (h : Stripped (c :: pre) post out)
    (hc : c.toUpper ≠ 'E') : ∃ out', out = c :: out' := by
  obtain ⟨hpre, -⟩ | ⟨m, _, _, hm, hpre, -⟩ | ⟨_, _, out', hpre, rfl, -⟩ := h.cases
  · simp at hpre
  · obtain ⟨e, x, lead, args, rfl, he, -⟩ := hm.parts
    exact absurd ((List.cons.inj hpre).1 ▸ he) hc
  · exact ⟨out', by rw [(List.cons.inj hpre).1]⟩

/-- A text without an opening parenthesis is left as it is up to a quote. -/
theorem stripped_of_quote (hpre : ∀ c ∈ pre, c ≠ '(') :
    Stripped (pre ++ ['"']) post (pre ++ ['"']) := by
  have hno {pre : List Char} (hpre : ∀ c ∈ pre, c ≠ '(') (m : List Char) (hm : ExtractText m) :
      ¬m <+: pre ++ '"' :: post := by
    rintro ⟨rest, hrest⟩
    obtain ⟨e, x, lead, args, rfl, -, -, hquote⟩ := hm.parts
    have hrest : (e :: x :: lead) ++ '(' :: (args ++ rest) = pre ++ '"' :: post := by
      simpa using hrest
    obtain ⟨as, hpre', has⟩ | ⟨bs, hlead, hbs⟩ := List.append_eq_append_iff.1 hrest
    · cases as with
      | nil => simp at has
      | cons c as =>
        obtain ⟨rfl, -⟩ := List.cons.inj has
        exact hpre _ (by simp [hpre']) rfl
    · cases bs with
      | nil => simp at hbs
      | cons c bs =>
        obtain ⟨rfl, -⟩ := List.cons.inj hbs
        exact hquote (by rw [hlead]; simp)
  induction pre with
  | nil => exact .miss '"' (@hno [] (by simp)) (.done _)
  | cons c pre ih =>
    refine .miss c ?_ (ih fun d hd => hpre d (by simp [hd]))
    simpa using hno hpre

/-- A character of the result that is no beginning of a call stood in the text. -/
theorem exists_of_stripped_cons {c : Char} (h : Stripped text post (c :: out))
    (hc : c ≠ 'E' ∨ out.head? ≠ some 'X') : ∃ rest, text = c :: rest ∧ Stripped rest post out := by
  obtain ⟨-, hout⟩ | ⟨m, rest, out', -, -, hout, -⟩ | ⟨c', rest, out', rfl, hout, -, hrest⟩ :=
    h.cases
  · simp at hout
  · rw [emptyCall, List.cons_append] at hout
    obtain ⟨rfl, rfl⟩ := List.cons.inj hout
    simp at hc
  · obtain ⟨rfl, rfl⟩ := List.cons.inj hout
    exact ⟨rest, rfl, hrest⟩

/-- A keyword and the space after it stood in the text. -/
theorem exists_of_stripped_word (hword : ∀ c ∈ word, c ≠ 'X') (hz : z ≠ 'E' ∧ z ≠ 'X')
    (h : Stripped text post (word ++ z :: out)) :
    ∃ rest, text = word ++ z :: rest := by
  induction word generalizing text with
  | nil =>
    obtain ⟨rest, rfl, -⟩ := exists_of_stripped_cons h (.inl hz.1)
    exact ⟨rest, rfl⟩
  | cons c word ih =>
    have hnext : (word ++ z :: out).head? ≠ some 'X' := by
      cases word with
      | nil => simpa using hz.2
      | cons d word => simpa using hword d (by simp)
    obtain ⟨rest, rfl, hrest⟩ := exists_of_stripped_cons h (.inr hnext)
    obtain ⟨rest', rfl⟩ := ih (fun d hd => hword d (by simp [hd])) hrest
    exact ⟨rest', rfl⟩

theorem getLast?_extractText (m : List Char) (h : ExtractText m) :
    m.getLast? = emptyCall.getLast? := by
  obtain ⟨opening, args, rfl, -, -⟩ := h
  rw [← List.append_assoc, List.getLast?_concat]
  rfl

/-- A keyword and a space. -/
def BeginsClause (text : List Char) : Prop :=
  ∃ word z rest, text = word ++ z :: rest ∧ word.map Char.toUpper ∈ keywords ∧ isSpace z = true

theorem isWord_of_mem_keywords {folded : List Char} (h : folded ∈ keywords) :
    ∀ c ∈ folded, isWord c = true := by
  revert folded
  decide

theorem head_of_keyword (h : word.map Char.toUpper ∈ keywords) :
    ∃ c rest, word = c :: rest ∧ c.toUpper ∈ ['F', 'I', 'U'] := by
  cases word with
  | nil => exact absurd h (by decide)
  | cons c rest =>
    refine ⟨c, rest, rfl, ?_⟩
    have hheads : ∀ folded ∈ keywords, ∀ d ∈ folded.take 1, d ∈ ['F', 'I', 'U'] := by decide
    exact hheads _ h _ (by simp)

theorem noX_of_keyword (h : word.map Char.toUpper ∈ keywords) : ∀ c ∈ word, c ≠ 'X' := by
  rintro c hc rfl
  have hnoX : ∀ folded ∈ keywords, 'X' ∉ folded := by decide
  exact hnoX _ h (List.mem_map_of_mem (f := Char.toUpper) hc)

theorem isSpace_ne (h : isSpace z = true) : z ≠ 'E' ∧ z ≠ 'X' ∧ z ≠ '"' := by
  refine ⟨?_, ?_, ?_⟩ <;> rintro rfl <;> revert h <;> decide

theorem keywordAt_of_beginsClause (h : BeginsClause post) (hpre : pre.getLast?.any isWord = false) :
    keywordAt pre post = true := by
  obtain ⟨word, z, rest, rfl, hword, hz⟩ := h
  rw [keywordAt, List.any_eq_true]
  refine ⟨_, hword, ?_⟩
  have hquote : (z == '"') = false := by simpa using (isSpace_ne hz).2.2
  simp [hpre, isWord_of_isSpace hz, hquote]

/-- A keyword that is left of a statement stands in it, outside the calls of EXTRACT. -/
theorem keywordAt_of_stripped {head : List Char} (hhead : Stripped head text head)
    (h : Stripped text [] (out ++ tail)) (htail : BeginsClause tail)
    (hbefore : (head ++ out).getLast?.any isWord = false) :
    ∃ pre post, text = pre ++ post ∧ keywordAt (head ++ pre) post = true ∧
      ¬InExtract (head ++ pre) post ∧ Stripped pre post out := by
  obtain ⟨word, z, rest, rfl, hword, hz⟩ := htail
  have hinside : ∀ u v rest', emptyCall = u ++ v → u ≠ [] → v ≠ [] →
      word ++ z :: rest ≠ v ++ rest' := by
    intro u v rest' hcall hu hv htail
    obtain ⟨c, word, rfl, hc⟩ := head_of_keyword hword
    obtain ⟨e, u, rfl⟩ := List.exists_cons_of_ne_nil hu
    obtain ⟨d, v, rfl⟩ := List.exists_cons_of_ne_nil hv
    obtain ⟨rfl, -⟩ := List.cons.inj htail
    have hin : c ∈ emptyCall.tail := by
      rw [hcall]
      simp
    have hcalls : ∀ d ∈ emptyCall.tail, d.toUpper ∉ ['F', 'I', 'U'] := by decide
    exact hcalls c hin hc
  obtain ⟨pre, post, rfl, hpre, hpost⟩ := h.split rfl hinside
  rw [List.append_nil] at hpre
  have hends : (head ++ pre).getLast? = (head ++ out).getLast? := by
    rw [List.getLast?_append, List.getLast?_append, hpre.getLast? getLast?_extractText]
  refine ⟨pre, post, rfl, ?_, ?_, hpre⟩
  · obtain ⟨rest', rfl⟩ := exists_of_stripped_word (noX_of_keyword hword)
      ⟨(isSpace_ne hz).1, (isSpace_ne hz).2.1⟩ hpost
    exact keywordAt_of_beginsClause ⟨word, z, rest', rfl, hword, hz⟩ (by rwa [hends])
  · rintro ⟨before, opening, args, args', after, hsplit, rfl, hopening, hargs, hargs'⟩
    have hcall : ExtractText ((opening ++ args) ++ (args' ++ [')'])) := by
      refine ⟨opening, args ++ args', by simp, hopening, fun c hc => ?_⟩
      exact (List.mem_append.1 hc).elim (hargs c) (hargs' c)
    have hopen : opening ≠ [] := by
      obtain ⟨lead, rfl, -⟩ := hopening.parts
      simp
    exact (hhead.trans hpre).not_inside separate_extractText hcall hsplit (b := after) (by simp)
      (by simp [hopen]) (by simp)

end Stripped

/-! ### Matching the statement -/

section Matching

variable {before text word rest schema table : List Char} {c c' : Cursor}
  {k : ℕ → Option (List Char)}

/-- A keyword in any spelling. -/
theorem exists_of_mem_run_tableWord (h : c' ∈ run tableWord c) :
    ∃ word rest, c.after = word ++ rest ∧ word.map Char.toUpper ∈ keywords ∧
      c' = ⟨word.reverse ++ c.before, rest, c.captures⟩ := by
  have hany : ∃ folded ∈ keywords, c' ∈ run (literal Char.toUpper folded) c := by
    simpa [tableWord, run, keywords] using h
  obtain ⟨folded, hfolded, h⟩ := hany
  obtain ⟨word, rest, hafter, rfl, hc'⟩ := exists_of_mem_run_literal h
  exact ⟨word, rest, hafter, hfolded, hc'⟩

/-- The clause of the table needs a keyword and a space, with no word character before it. -/
theorem beginsClause_of_run (h : run tableClause c ≠ []) :
    BeginsClause c.after ∧ c.before.head?.any isWord = false := by
  obtain ⟨c₁, hc₁, h₁⟩ := exists_of_run_seq h
  obtain ⟨hsame, hboundary⟩ := of_mem_run_wordBoundary hc₁
  rw [hsame] at h₁
  obtain ⟨c₂, hc₂, h₂⟩ := exists_of_run_seq h₁
  obtain ⟨word, rest, hafter, hword, rfl⟩ := exists_of_mem_run_tableWord hc₂
  obtain ⟨c₃, hc₃, -⟩ := exists_of_run_seq h₂
  obtain ⟨c₄, hc₄, -⟩ := List.mem_flatMap.1 hc₃
  obtain ⟨z, rest', rfl, hz, -⟩ := exists_of_mem_run_chars hc₄
  refine ⟨⟨word, z, rest', hafter, hword, hz⟩, ?_⟩
  obtain ⟨x, word, rfl, -⟩ := head_of_keyword hword
  have hx : isWord x = true :=
    isWord_of_map_toUpper rfl (isWord_of_mem_keywords hword) x (by simp)
  rw [Cursor.atBoundary, hafter] at hboundary
  simpa [hx] using hboundary

/-- The words of the statements begin with different letters. -/
theorem run_statementWord (kind : Kind) :
    run statementWord ⟨before, kind.word ++ rest, k⟩ =
      [⟨kind.word.reverse ++ before, rest, k⟩] := by
  have hsame : run (literal Char.toUpper kind.word) ⟨before, kind.word ++ rest, k⟩ =
      [⟨kind.word.reverse ++ before, rest, k⟩] := run_literal (by cases kind <;> decide)
  have hother {kind' : Kind} (hne : kind' ≠ kind) :
      run (literal Char.toUpper kind'.word) ⟨before, kind.word ++ rest, k⟩ = [] := by
    cases kind <;> cases kind' <;>
      first | exact absurd rfl hne | exact run_literal_eq_nil (by decide)
  show run (literal Char.toUpper Kind.select.word) _ ++ (run (literal Char.toUpper
    Kind.insert.word) _ ++ (run (literal Char.toUpper Kind.update.word) _ ++
      run (literal Char.toUpper Kind.delete.word) _)) = _
  cases kind with
  | select => rw [hsame, hother (by decide), hother (by decide), hother (by decide)]; rfl
  | insert => rw [hsame, hother (by decide), hother (by decide), hother (by decide)]; rfl
  | update => rw [hsame, hother (by decide), hother (by decide), hother (by decide)]; rfl
  | delete => rw [hsame, hother (by decide), hother (by decide), hother (by decide)]; rfl

theorem first_tableWord (hword : word ∈ keywords) :
    first tableWord ⟨before, word ++ rest, k⟩ = some ⟨word.reverse ++ before, rest, k⟩ := by
  have hfolded : ∀ word ∈ keywords, word.map Char.toUpper = word := by decide
  have hsame : first (literal Char.toUpper word) ⟨before, word ++ rest, k⟩ =
      some ⟨word.reverse ++ before, rest, k⟩ := first_literal (hfolded word hword)
  simp only [keywords, List.mem_cons, List.not_mem_nil, or_false] at hword
  obtain rfl | rfl | rfl := hword
  · exact first_alt_left hsame
  · refine (first_alt_right (run_literal_eq_nil (by decide))).trans ?_
    exact first_alt_left hsame
  · refine (first_alt_right (run_literal_eq_nil (by decide))).trans ?_
    exact (first_alt_right (run_literal_eq_nil (by decide))).trans hsame

theorem first_quoteMark :
    first quoteMark ⟨before, '"' :: rest, k⟩ = some ⟨'"' :: before, rest, k⟩ :=
  first_optional (first_chars (by decide)) (by simp)

theorem first_schemaPrefix (hschema : schema ≠ [] ∧ ∀ c ∈ schema, isWord c = true) :
    first schemaPrefix ⟨before, '"' :: (schema ++ '"' :: '.' :: rest), k⟩ =
      some ⟨'.' :: '"' :: (schema.reverse ++ '"' :: before), rest, k⟩ := by
  refine first_optional (first_seq_eq_some first_quoteMark ?_) (by simp; omega)
  refine first_seq_eq_some (first_plus hschema.1 hschema.2 (head_notIn (by decide))) ?_
  exact first_seq_eq_some first_quoteMark (first_chars (by decide))

/-- The clause of the table is matched. -/
theorem first_tableClause (hbefore : before.head?.any isWord = false) (hword : word ∈ keywords)
    (hschema : schema ≠ [] ∧ ∀ c ∈ schema, isWord c = true)
    (htable : table ≠ [] ∧ ∀ c ∈ table, isWord c = true) :
    ∃ c', first tableClause ⟨before, word ++ ' ' :: '"' :: (schema ++ '"' :: '.' :: '"' ::
        (table ++ '"' :: rest)), k⟩ = some c' ∧
      c'.captures = Function.update k 2 (some table) := by
  obtain ⟨w, word', rfl⟩ : ∃ w word', word = w :: word' := by
    refine List.exists_cons_of_ne_nil ?_
    rintro rfl
    exact absurd hword (by decide)
  have hw : isWord w = true := isWord_of_mem_keywords hword w (by simp)
  have hboundary : Cursor.atBoundary ⟨before, (w :: word') ++ ' ' :: '"' ::
      (schema ++ '"' :: '.' :: '"' :: (table ++ '"' :: rest)), k⟩ = true := by
    simp [Cursor.atBoundary, hbefore, hw]
  have hspace {before rest : List Char} : first (plus (.chars isSpace))
      ⟨before, ' ' :: '"' :: rest, k⟩ = some ⟨' ' :: before, '"' :: rest, k⟩ :=
    @first_plus _ _ [' '] _ _ (by simp) (by decide) (head_notIn (by decide))
  rw [tableClause, first_seq_of_run (run_wordBoundary hboundary)]
  refine ⟨_, first_seq_eq_some (first_tableWord hword) (first_seq_eq_some hspace
    (first_seq_eq_some (first_schemaPrefix hschema) (first_seq_eq_some first_quoteMark
      (first_seq_eq_some (first_group (first_plus htable.1 htable.2 (head_notIn (by decide))))
        first_quoteMark)))), ?_⟩
  rw [to_eq]

end Matching

/-! ### Labels -/

section Labels

variable {st : Statement} {pre post text out ys zs : List Char} {k : ℕ → Option (List Char)}

/-- After the statement's word the pattern looks for the clause of the table. -/
theorem exec_queryPattern (kind : Kind) (text : List Char) :
    exec queryPattern (kind.word ++ ' ' :: text) =
      first (.seq (.star false dot) tableClause) ⟨kind.word.reverse, ' ' :: text,
        Function.update (fun _ => none) 1 (some kind.word)⟩ := by
  have hnospace : ∀ x ∈ (kind.word ++ ' ' :: text).head?, isSpace x = false := by
    cases kind <;> exact head_notIn (by decide)
  have hlast : kind.word.getLast?.any isWord = true := by cases kind <;> decide
  have hboundary : Cursor.atBoundary ⟨kind.word.reverse, ' ' :: text,
      Function.update (fun _ => none) 1 (some kind.word)⟩ = true := by
    simp [Cursor.atBoundary, hlast, show isWord ' ' = false by decide]
  have hgroup : run (.group 1 statementWord) { after := kind.word ++ ' ' :: text } =
      [⟨kind.word.reverse, ' ' :: text, Function.update (fun _ => none) 1 (some kind.word)⟩] := by
    rw [run, run_statementWord]
    simp [Cursor.to]
  rw [queryPattern, exec_start, first_star_seq_skip hnospace, first_seq_of_run hgroup,
    first_seq_of_run (run_wordBoundary hboundary)]

theorem word_noX (kind : Kind) : ∀ c ∈ kind.word, c.toUpper ≠ 'X' := by
  cases kind <;> decide

/-- What the pattern takes for the clause of the table is the statement's own one. -/
theorem own_of_clause (hst : st.Generated) (htext : st.text = st.kind.word ++ text)
    (hhead : Stripped st.kind.word text st.kind.word) (h : Stripped text [] (ys ++ zs))
    (hclause : first tableClause ⟨ys.reverse ++ st.kind.word.reverse, zs, k⟩ ≠ none) :
    ∃ pre post, text = pre ++ post ∧ st.kind.word ++ pre = st.own ∧ Stripped pre post ys := by
  obtain ⟨hbegins, hbefore⟩ := beginsClause_of_run (mt first_eq_none_iff.2 hclause)
  have hlast : (st.kind.word ++ ys).getLast?.any isWord = false := by
    rw [← List.head?_reverse, List.reverse_append]
    exact hbefore
  obtain ⟨pre, post, rfl, hkeyword, hnot, hpre⟩ := keywordAt_of_stripped hhead h hbegins hlast
  rw [← List.append_assoc] at htext
  obtain hown | hin := hst.elsewhere _ _ htext hkeyword
  · exact ⟨pre, post, rfl, hown, hpre⟩
  · exact absurd hin hnot

/-- In an UPDATE no clause is found. -/
theorem parseQueryTarget_update (hst : st.Generated) (hkind : st.kind = .update) :
    parseQueryTarget (String.ofList st.text) = ("unknown", "unknown") := by
  have htext : st.text = st.kind.word ++ ' ' :: (st.qualified ++ st.rest) := by
    simp [Statement.text, Statement.own, Statement.clauseWord, hkind, Kind.word]
  have hhead : Stripped st.kind.word (' ' :: (st.qualified ++ st.rest)) st.kind.word :=
    stripped_of_noX (word_noX _) (by decide)
  have h := replaceAll_stripped st.text
  generalize hstripped : replaceAll extractCall emptyCall st.text = stripped at h
  rw [htext] at h
  obtain ⟨out₁, rfl, h₁⟩ := h.rest separate_extractText hhead
  obtain ⟨out, rfl⟩ := exists_of_stripped_text h₁ (by decide)
  have hnone : exec queryPattern (st.kind.word ++ ' ' :: out) = none := by
    rw [exec_queryPattern]
    refine first_star_seq_eq_none fun ys zs hsplit => ?_
    by_contra hclause
    obtain ⟨pre, post, -, hown, -⟩ := own_of_clause hst htext hhead (hsplit ▸ h₁) hclause
    have hnil : st.kind.word ++ pre = [] := by rw [hown, Statement.own, hkind]
    simp [hkind, Kind.word] at hnil
  rw [parseQueryTarget, String.toList_ofList, hstripped, hnone]

/-- What stands between the statement's word and the clause of the table. -/
def Statement.gap (st : Statement) : List Char :=
  match st.kind with
  | .select => ' ' :: (st.columns ++ [' '])
  | _ => [' ']

theorem Statement.own_eq (hkind : st.kind ≠ .update) : st.own = st.kind.word ++ st.gap := by
  unfold own gap
  cases hk : st.kind <;> simp_all

theorem Statement.gap_eq (st : Statement) :
    (∃ rest, st.gap = ' ' :: rest) ∧ st.gap.getLast? = some ' ' := by
  unfold gap
  cases st.kind with
  | select => exact ⟨⟨_, rfl⟩, by rw [← List.cons_append, List.getLast?_concat]⟩
  | insert => exact ⟨⟨_, rfl⟩, rfl⟩
  | update => exact ⟨⟨_, rfl⟩, rfl⟩
  | delete => exact ⟨⟨_, rfl⟩, rfl⟩

theorem Statement.clauseWord_mem (st : Statement) : st.clauseWord ∈ keywords := by
  unfold clauseWord
  cases st.kind <;> decide

/-- Inside the letters of EXTRACT, the spaces and the parenthesis no keyword begins. -/
theorem opening_tail {opening : List Char} (h : ExtractOpening opening) :
    ∀ c ∈ opening.tail, c.toUpper ∉ ['F', 'I', 'U'] := by
  obtain ⟨word, blank, rfl, hword, hblank⟩ := h
  match word, hword with
  | e :: word, hword =>
    have hword := (List.cons.inj hword).2
    intro c hc hupper
    have hc : c ∈ word ∨ c ∈ blank ∨ c = '(' := by simpa using hc
    obtain hc | hc | rfl := hc
    · have hletters : ∀ d ∈ ['X', 'T', 'R', 'A', 'C', 'T'], d ∉ ['F', 'I', 'U'] := by decide
      exact hletters _ (hword ▸ List.mem_map_of_mem hc) hupper
    · have hletter : ∀ d ∈ ['F', 'I', 'U'], isWord d = true := by decide
      have hspace := isWord_of_isSpace (hblank c hc)
      rw [isWord_of_isWord_toUpper (hletter _ hupper)] at hspace
      exact absurd hspace (by decide)
    · exact absurd hupper (by decide)

/-- A place inside a call of EXTRACT where a keyword could begin lies in the parentheses. -/
theorem inExtract_of_inside {a b m₁ m₂ : List Char} {c : Char} (hm : ExtractText (m₁ ++ m₂))
    (hm₁ : m₁ ≠ []) (hm₂ : m₂.head? = some c) (hc : c.toUpper ∈ ['F', 'I', 'U']) :
    InExtract (a ++ m₁) (m₂ ++ b) := by
  obtain ⟨opening, args, hsplit, hopening, hargs⟩ := hm
  obtain ⟨m₂, rfl⟩ : ∃ rest, m₂ = c :: rest := by
    cases m₂ with
    | nil => simp at hm₂
    | cons d rest => exact ⟨rest, by rw [Option.some.inj hm₂]⟩
  have hafter : ∃ args₁, m₁ = opening ++ args₁ ∧ args ++ [')'] = args₁ ++ c :: m₂ := by
    obtain ⟨as, hopen, has⟩ | ⟨args₁, hopen, hrest⟩ := List.append_eq_append_iff.1 hsplit
    · cases as with
      | nil => exact ⟨[], by simpa using hopen.symm, by simpa using has.symm⟩
      | cons d as =>
        obtain ⟨rfl, -⟩ := List.cons.inj has
        obtain ⟨e, m₁, rfl⟩ := List.exists_cons_of_ne_nil hm₁
        exact absurd hc (opening_tail hopening c (by rw [hopen]; simp))
    · exact ⟨args₁, hopen, hrest⟩
  obtain ⟨args₁, rfl, hrest⟩ := hafter
  obtain ⟨as, -, has⟩ | ⟨args₂, rfl, hlast⟩ := List.append_eq_append_iff.1 hrest
  · have hparen : c = ')' := by
      cases as with
      | nil => exact (List.cons.inj has).1.symm
      | cons d as => simp at has
    subst hparen
    exact absurd hc (by decide)
  · exact ⟨a, opening, args₁, args₂, b, rfl, by rw [hlast]; simp, hopening,
      fun d hd => hargs d (List.mem_append_left _ hd),
      fun d hd => hargs d (List.mem_append_right _ hd)⟩

/-- The clause of the table has no parenthesis. -/
theorem stripped_clause (hst : st.Generated) :
    Stripped (st.clauseWord ++ ' ' :: st.qualified) post
      (st.clauseWord ++ ' ' :: st.qualified) := by
  have hword {c : Char} (h : isWord c = true) : c ≠ '(' := (noParen_of_isWord h).1
  have hquote : st.clauseWord ++ ' ' :: st.qualified = (st.clauseWord ++ ' ' :: '"' ::
      (st.schema ++ '"' :: '.' :: '"' :: st.table)) ++ ['"'] := by
    simp [Statement.qualified]
  rw [hquote]
  refine stripped_of_quote fun c hc => ?_
  have hc : c ∈ st.clauseWord ∨ c = ' ' ∨ c = '"' ∨ c ∈ st.schema ∨ c = '.' ∨ c ∈ st.table := by
    simp only [List.mem_append, List.mem_cons] at hc
    grind
  obtain hc | rfl | rfl | hc | rfl | hc := hc
  · exact hword (isWord_of_mem_keywords st.clauseWord_mem c hc)
  · decide
  · decide
  · exact hword (hst.schema.2 c hc)
  · decide
  · exact hword (hst.table.2 c hc)

/-- The statement's own keyword is not inside a call. -/
theorem stripped_gap (hst : st.Generated) (hkind : st.kind ≠ .update)
    (h : Stripped (st.gap ++ (st.clauseWord ++ post)) [] out)
    (htext : st.text = st.own ++ (st.clauseWord ++ post)) :
    ∃ out', Stripped st.gap (st.clauseWord ++ post) out' := by
  obtain ⟨out', hstop⟩ | ⟨a, m₁, m₂, b, hm, hm₁, hm₂, hgap, hpost⟩ := h.stop_or_inside rfl
  · rw [List.append_nil] at hstop
    exact ⟨out', hstop⟩
  · have hfold : st.clauseWord.map Char.toUpper ∈ keywords := by
      have hfolded : ∀ word ∈ keywords, word.map Char.toUpper ∈ keywords := by decide
      exact hfolded _ st.clauseWord_mem
    obtain ⟨c, rest, hword, hc⟩ := head_of_keyword hfold
    have hhead : m₂.head? = some c := by
      obtain ⟨d, m₂, rfl⟩ := List.exists_cons_of_ne_nil hm₂
      rw [hword, List.cons_append] at hpost
      rw [(List.cons.inj hpost).1]
      rfl
    have hin := inExtract_of_inside (a := st.kind.word ++ a) (b := b) hm hm₁ hhead hc
    rw [List.append_assoc, ← hgap, ← hpost, ← Statement.own_eq hkind] at hin
    exact absurd hin (hst.notInExtract _ htext)

/-- Every other statement gets the label of its table. -/
theorem parseQueryTarget_clause (hst : st.Generated) (hkind : st.kind ≠ .update) :
    parseQueryTarget (String.ofList st.text) =
      (lower (some st.table), lower (some st.kind.word)) := by
  obtain ⟨⟨gap', hgap⟩, hlast⟩ := st.gap_eq
  have hown := Statement.own_eq hkind
  have htext : st.text = st.kind.word ++ (st.gap ++ (st.clauseWord ++ ' ' ::
      (st.qualified ++ st.rest))) := by
    rw [Statement.text, hown, List.append_assoc]
  have hhead : Stripped st.kind.word (st.gap ++ (st.clauseWord ++ ' ' ::
      (st.qualified ++ st.rest))) st.kind.word := by
    rw [hgap]
    exact stripped_of_noX (word_noX _) (by decide)
  have h := replaceAll_stripped st.text
  generalize hstripped : replaceAll extractCall emptyCall st.text = stripped at h
  rw [htext] at h
  obtain ⟨out₁, rfl, h₁⟩ := h.rest separate_extractText hhead
  obtain ⟨m, hm⟩ := stripped_gap hst hkind h₁ rfl
  obtain ⟨out₂, rfl, h₂⟩ := h₁.rest separate_extractText hm
  have h₂ : Stripped ((st.clauseWord ++ ' ' :: st.qualified) ++ st.rest) [] out₂ := by
    simpa using h₂
  obtain ⟨out₃, rfl, -⟩ := h₂.rest separate_extractText (stripped_clause hst)
  obtain ⟨m', hm'⟩ := exists_of_stripped_text (hgap ▸ hm) (by decide)
  have hdots : ∀ c ∈ m, (!isLineTerminator c) = true := by
    have hcall : ∀ c ∈ emptyCall, (!isLineTerminator c) = true := by decide
    intro c hc
    obtain hc | hc := hm.mem hc
    · simp [hst.singleLine c (by rw [htext]; simp [hc])]
    · exact hcall c hc
  have hskip : ∀ ys zs, m = ys ++ zs → zs ≠ [] → first tableClause ⟨ys.reverse ++
      st.kind.word.reverse, zs ++ (st.clauseWord ++ ' ' :: st.qualified ++ out₃),
      Function.update (fun _ => none) 1 (some st.kind.word)⟩ = none := by
    intro ys zs hsplit hne
    by_contra hclause
    rw [hsplit, List.append_assoc] at h₁
    obtain ⟨pre, post, hpost, hsame, hpre⟩ := own_of_clause hst htext hhead h₁ hclause
    obtain rfl := List.append_cancel_left (hsame.trans hown)
    obtain rfl := List.append_cancel_left hpost
    have hys := hpre.unique separate_extractText hm
    rw [hsplit] at hys
    exact hne (by simpa using hys)
  have hbefore : (m.reverse ++ st.kind.word.reverse).head?.any isWord = false := by
    rw [List.head?_append, List.head?_reverse, hm.getLast? getLast?_extractText, hlast,
      Option.some_or]
    decide
  obtain ⟨found, hfound, hcaptures⟩ := @first_tableClause _ _ out₃ _ _
    (Function.update (fun _ => none) 1 (some st.kind.word)) hbefore st.clauseWord_mem hst.schema
    hst.table
  have hfound : first tableClause ⟨m.reverse ++ st.kind.word.reverse,
      st.clauseWord ++ ' ' :: st.qualified ++ out₃,
      Function.update (fun _ => none) 1 (some st.kind.word)⟩ = some found := by
    rw [← hfound]
    simp [Statement.qualified]
  have hexec : exec queryPattern
      (st.kind.word ++ (m ++ (st.clauseWord ++ ' ' :: st.qualified ++ out₃))) = some found := by
    rw [hm', List.cons_append, exec_queryPattern, ← List.cons_append, ← hm']
    exact first_lazy_seq hdots hskip hfound
  rw [parseQueryTarget, String.toList_ofList, hstripped, hexec]
  simp [hcaptures]

/-- **Which statements get the label of their table.** Of the statements that Prisma generates
for one table, with FROM, INTO and UPDATE as keywords nowhere else but in calls of EXTRACT, all
but the UPDATE get the table and the statement's word. An UPDATE is unknown. -/
theorem parseQueryTarget_eq_iff (hst : st.Generated) :
    parseQueryTarget (String.ofList st.text) =
        (lower (some st.table), lower (some st.kind.word)) ↔ st.kind ≠ .update := by
  refine ⟨fun h hkind => ?_, parseQueryTarget_clause hst⟩
  rw [parseQueryTarget_update hst hkind, hkind] at h
  have hword : "unknown" = lower (some Kind.update.word) := (Prod.ext_iff.1 h).2
  revert hword
  decide +kernel

/-- A parenthesis. -/
def isParen (c : Char) : Bool := c = '(' || c = ')'

/-- The last parenthesis before the place opens a call of EXTRACT, and the next one closes it. -/
def inCall (pre post : List Char) : Bool :=
  (pre.reverse.dropWhile fun c => !isParen c).take 8 =
      ['(', 'T', 'C', 'A', 'R', 'T', 'X', 'E'] &&
    (post.dropWhile fun c => !isParen c).head? == some ')'

theorem noParens_takeWhile (text : List Char) :
    NoParens (text.takeWhile fun c => !isParen c) := by
  intro c hc
  simpa [isParen] using List.mem_takeWhile_imp hc

theorem inExtract_of_inCall {pre post : List Char} (h : inCall pre post = true) :
    InExtract pre post := by
  obtain ⟨hopening, hclosing⟩ := Bool.and_eq_true_iff.mp h
  obtain ⟨after, hafter⟩ := List.head?_eq_some_iff.mp (eq_of_beq hclosing)
  have hpre : pre.reverse = pre.reverse.takeWhile (fun c => !isParen c) ++
      (['(', 'T', 'C', 'A', 'R', 'T', 'X', 'E'] ++
        (pre.reverse.dropWhile fun c => !isParen c).drop 8) := by
    rw [← of_decide_eq_true hopening, List.take_append_drop, List.takeWhile_append_dropWhile]
  refine ⟨((pre.reverse.dropWhile fun c => !isParen c).drop 8).reverse,
    ['E', 'X', 'T', 'R', 'A', 'C', 'T', '('], (pre.reverse.takeWhile fun c => !isParen c).reverse,
    _, after, ?_, ?_, ⟨['E', 'X', 'T', 'R', 'A', 'C', 'T'], [], rfl, by decide, by simp⟩, ?_,
    noParens_takeWhile post⟩
  · have hpre := congrArg List.reverse hpre
    rw [List.reverse_reverse] at hpre
    simpa using hpre
  · rw [← hafter, List.takeWhile_append_dropWhile]
  · intro c hc
    exact noParens_takeWhile pre.reverse c (List.mem_reverse.mp hc)

/-- Inside a call of EXTRACT the last parenthesis is the opening one. -/
theorem last_paren_of_inExtract {pre post : List Char} (h : InExtract pre post) :
    pre.reverse.find? isParen = some '(' := by
  obtain ⟨before, _, args, _, _, rfl, -, ⟨word, blank, rfl, -, -⟩, hargs, -⟩ := h
  have hnone : args.reverse.find? isParen = none := by
    refine List.find?_eq_none.mpr fun c hc => ?_
    obtain ⟨hopen, hclose⟩ := hargs c (List.mem_reverse.mp hc)
    simp [isParen, hopen, hclose]
  simp [List.find?_append, hnone, isParen]

/-- A statement checked place by place. -/
theorem Statement.Generated.ofPlaces
    (hschema : st.schema ≠ [] ∧ ∀ c ∈ st.schema, isWord c = true)
    (htable : st.table ≠ [] ∧ ∀ c ∈ st.table, isWord c = true)
    (hline : ∀ c ∈ st.text, isLineTerminator c = false)
    (hplaces : ∀ n < st.text.length + 1,
      keywordAt (st.text.take n) (st.text.drop n) = true →
        st.text.take n = st.own ∨ inCall (st.text.take n) (st.text.drop n) = true)
    (hown : st.own.reverse.find? isParen ≠ some '(') : st.Generated where
  schema := hschema
  table := htable
  singleLine := hline
  elsewhere pre post htext hkeyword := by
    have hlength : pre.length < st.text.length + 1 := by
      rw [htext, List.length_append]
      omega
    have hplace := hplaces pre.length hlength
    rw [htext, List.take_left, List.drop_left] at hplace
    exact (hplace hkeyword).imp id inExtract_of_inCall
  notInExtract post _ hin := hown (last_paren_of_inExtract hin)

end Labels

/-- `UPDATE "public"."users" SET "name" = $1` -/
def updateUsers : Statement where
  kind := .update
  schema := "public".toList
  table := "users".toList
  rest := " SET \"name\" = $1".toList

/-- An UPDATE is labelled unknown. -/
theorem parseQueryTarget_updateUsers :
    updateUsers.Generated ∧ parseQueryTarget (String.ofList updateUsers.text) =
        ("unknown", "unknown") ∧
      (lower (some updateUsers.table), lower (some updateUsers.kind.word)) =
        ("users", "update") := by
  refine ⟨.ofPlaces ?_ ?_ ?_ ?_ ?_, ?_, ?_⟩ <;> decide +kernel

/-- `SELECT AVG(EXTRACT(EPOCH FROM "respondedAt")) FROM "public"."Order_dispatches"` -/
def averageResponse : Statement where
  kind := .select
  columns := "AVG(EXTRACT(EPOCH FROM \"respondedAt\"))".toList
  schema := "public".toList
  table := "Order_dispatches".toList
  rest := []

/-- The FROM in the call of EXTRACT does not count. -/
theorem parseQueryTarget_averageResponse :
    parseQueryTarget (String.ofList averageResponse.text) =
      (lower (some averageResponse.table), lower (some averageResponse.kind.word)) :=
  (parseQueryTarget_eq_iff
    (.ofPlaces (by decide +kernel) (by decide +kernel) (by decide +kernel) (by decide +kernel)
      (by decide +kernel))).2 (by decide)

end Handly
