import Handly.Lib.Regex

/-!
# Replacing the matches of a pattern

What `replaceAll` makes of a text, as a relation between a prefix, what follows it and what it
becomes. When two matches of the pattern never overlap, each place of the text is either one
where the replacing stops, or lies inside a match, and what stands before a stop is replaced
independently of the rest.
-/

namespace Regex

variable {M : List Char → Prop} {replacement text pre post out out' a b m m₁ m₂ : List Char}

/-- Replacing turns a prefix of a text into `out`, given what follows it. -/
inductive Replaced (M : List Char → Prop) (replacement : List Char) :
    List Char → List Char → List Char → Prop
  | done (post : List Char) : Replaced M replacement [] post []
  | hit {m pre post out : List Char} (hm : M m) : Replaced M replacement pre post out →
      Replaced M replacement (m ++ pre) post (replacement ++ out)
  | miss (c : Char) {pre post out : List Char} (hno : ∀ m, M m → ¬m <+: c :: (pre ++ post)) :
      Replaced M replacement pre post out → Replaced M replacement (c :: pre) post (c :: out)

/-- The texts that a pattern matches, wherever they stand. -/
def Finds (r : Pattern) (M : List Char → Prop) : Prop :=
  ∀ before after : List Char,
    match first r { before, after } with
    | some c => ∃ m, M m ∧ after = m ++ c.after ∧ c.before = m.reverse ++ before
    | none => ∀ m, M m → ¬m <+: after

/-- A match is not empty, and overlaps with no other. -/
structure Separate (M : List Char → Prop) : Prop where
  ne_nil : ∀ m, M m → m ≠ []
  eq_of_overlap : ∀ m m' a x y, M m → M m' → m ++ x = a ++ (m' ++ y) → a.length < m.length →
    a = [] ∧ m = m'

/-- Two texts that are equal have the same first character without a property, and the same on
both sides of it. -/
theorem eq_of_first {p : Char → Prop} {u u' v v' : List Char} {x x' : Char}
    (hu : ∀ c ∈ u, p c) (hu' : ∀ c ∈ u', p c) (hx : ¬p x) (hx' : ¬p x')
    (h : u ++ x :: v = u' ++ x' :: v') : u = u' ∧ x = x' ∧ v = v' := by
  induction u generalizing u' with
  | nil =>
    cases u' with
    | nil => simpa using h
    | cons d u' =>
      obtain ⟨rfl, -⟩ := List.cons.inj h
      exact absurd (hu' x (by simp)) hx
  | cons c u ih =>
    cases u' with
    | nil =>
      obtain ⟨rfl, -⟩ := List.cons.inj h
      exact absurd (hu c (by simp)) hx'
    | cons d u' =>
      obtain ⟨rfl, hrest⟩ := List.cons.inj h
      obtain ⟨rfl, hsame⟩ := ih (fun e he => hu e (by simp [he])) (fun e he => hu' e (by simp [he]))
        hrest
      exact ⟨rfl, hsame⟩

/-- `replaceAll` replaces. -/
theorem replaceAll_replaced {r : Pattern} (hr : Finds r M) (hM : Separate M) :
    Replaced M replacement text [] (replaceAll r replacement text) := by
  have hfrom {fuel : ℕ} : ∀ {before text : List Char}, text.length < fuel →
      Replaced M replacement text [] (replaceFrom r replacement fuel before text) := by
    induction fuel with
    | zero => intro before text h; omega
    | succ fuel ih =>
      intro before text hfuel
      have hfound := hr before text
      rw [replaceFrom.eq_def]
      dsimp only
      cases hfirst : first r { before, after := text } with
      | none =>
        rw [hfirst] at hfound
        cases text with
        | nil => exact .done []
        | cons x xs =>
          have hrest := @ih (x :: before) xs (by simp at hfuel; omega)
          exact .miss x (by simpa using hfound) hrest
      | some c =>
        rw [hfirst] at hfound
        obtain ⟨m, hm, hafter, hbefore⟩ := hfound
        have hne := List.length_pos_iff.2 (hM.ne_nil m hm)
        have hlength : text.length = m.length + c.after.length := by simp [hafter]
        cases text with
        | nil => simp at hlength; omega
        | cons x xs =>
          dsimp only
          rw [if_pos (by omega), hafter]
          exact .hit hm (ih (by omega))
  exact hfrom (by omega)

namespace Replaced

/-- One prefix after another. -/
theorem trans (h : Replaced M replacement pre (a ++ post) out)
    (h' : Replaced M replacement a post out') :
    Replaced M replacement (pre ++ a) post (out ++ out') := by
  generalize hrest : a ++ post = rest at h
  induction h with
  | done rest => exact h'
  | hit hm _ ih =>
    rw [List.append_assoc, List.append_assoc]
    exact .hit hm (ih hrest)
  | miss c hno _ ih =>
    subst hrest
    exact .miss c (by simpa using hno) (ih rfl)

theorem cases (h : Replaced M replacement pre post out) :
    (pre = [] ∧ out = []) ∨
    (∃ m pre' out', M m ∧ pre = m ++ pre' ∧ out = replacement ++ out' ∧
      Replaced M replacement pre' post out') ∨
    (∃ c pre' out', pre = c :: pre' ∧ out = c :: out' ∧
      (∀ m, M m → ¬m <+: c :: (pre' ++ post)) ∧ Replaced M replacement pre' post out') := by
  cases h with
  | done post => exact .inl ⟨rfl, rfl⟩
  | hit hm hrest => exact .inr (.inl ⟨_, _, _, hm, rfl, rfl, hrest⟩)
  | miss c hno hrest => exact .inr (.inr ⟨c, _, _, rfl, rfl, hno, hrest⟩)

/-- A prefix becomes one text only. -/
theorem unique (hM : Separate M) (h : Replaced M replacement pre post out)
    (h' : Replaced M replacement pre post out') : out = out' := by
  induction h generalizing out' with
  | done post =>
    obtain ⟨-, rfl⟩ | ⟨m, _, _, hm, hpre, -⟩ | ⟨_, _, _, hpre, -⟩ := h'.cases
    · rfl
    · exact absurd (List.append_eq_nil_iff.1 hpre.symm).1 (hM.ne_nil m hm)
    · simp at hpre
  | @hit m pre post out hm _ ih =>
    have hne := hM.ne_nil m hm
    obtain ⟨hpre, -⟩ | ⟨m', pre', out'', hm', hpre, rfl, hrest⟩ | ⟨c, pre', _, hpre, -, hno, -⟩ :=
      h'.cases
    · exact absurd (List.append_eq_nil_iff.1 hpre).1 hne
    · obtain ⟨-, rfl⟩ := hM.eq_of_overlap m m' [] pre pre' hm hm' hpre (List.length_pos_iff.2 hne)
      obtain rfl := List.append_cancel_left hpre
      rw [ih hrest]
    · refine absurd ⟨pre ++ post, ?_⟩ (hno m hm)
      rw [← List.append_assoc, hpre]
      rfl
  | @miss c pre post out hno _ ih =>
    obtain ⟨hpre, -⟩ | ⟨m', pre', _, hm', hpre, -, -⟩ | ⟨c', pre', out'', hpre, rfl, -, hrest⟩ :=
      h'.cases
    · simp at hpre
    · refine absurd ⟨pre' ++ post, ?_⟩ (hno m' hm')
      rw [← List.append_assoc, ← hpre]
      rfl
    · obtain ⟨rfl, rfl⟩ := List.cons.inj hpre
      rw [ih hrest]

/-- Every text becomes one. -/
theorem exists_replaced (hM : Separate M) (text : List Char) :
    ∃ out, Replaced M replacement text [] out := by
  induction hlength : text.length using Nat.strongRecOn generalizing text with
  | _ length ih =>
    subst hlength
    by_cases hmatch : ∃ m, M m ∧ m <+: text
    · obtain ⟨m, hm, rest, rfl⟩ := hmatch
      have hne := List.length_pos_iff.2 (hM.ne_nil m hm)
      obtain ⟨out, hrest⟩ := ih rest.length (by simp; omega) rest rfl
      exact ⟨_, .hit hm hrest⟩
    · cases text with
      | nil => exact ⟨[], .done []⟩
      | cons c cs =>
        obtain ⟨out, hrest⟩ := ih cs.length (by simp) cs rfl
        refine ⟨_, .miss c (fun m hm hprefix => hmatch ⟨m, hm, ?_⟩) hrest⟩
        simpa using hprefix

/-- What stands after a stop is replaced on its own. -/
theorem rest (hM : Separate M) (h : Replaced M replacement (pre ++ post) [] out)
    (hpre : Replaced M replacement pre post out') :
    ∃ tail, out = out' ++ tail ∧ Replaced M replacement post [] tail := by
  obtain ⟨tail, htail⟩ : ∃ tail, Replaced M replacement post [] tail := exists_replaced hM post
  have hpre : Replaced M replacement pre (post ++ []) out' := by rwa [List.append_nil]
  exact ⟨tail, h.unique hM (hpre.trans htail), htail⟩

/-- The replacing does not stop inside a match. -/
theorem not_inside (hM : Separate M) (h : Replaced M replacement pre post out)
    (hm : M (m₁ ++ m₂)) (hpre : pre = a ++ m₁) (hpost : post = m₂ ++ b) (hm₁ : m₁ ≠ [])
    (hm₂ : m₂ ≠ []) : False := by
  induction h generalizing a with
  | done post => exact hm₁ (List.append_eq_nil_iff.1 hpre.symm).2
  | @hit m pre post out hm' _ ih =>
    have htext : m ++ (pre ++ post) = a ++ (m₁ ++ m₂ ++ b) := by
      rw [← List.append_assoc, hpre, hpost]
      simp
    obtain hlt | hle := Nat.lt_or_ge a.length m.length
    · obtain ⟨rfl, rfl⟩ := hM.eq_of_overlap m (m₁ ++ m₂) a (pre ++ post) b hm' hm htext hlt
      have hnil : m₂ = [] ∧ pre = [] := by simpa using hpre
      exact hm₂ hnil.1
    · obtain ⟨a', rfl⟩ := List.prefix_of_prefix_length_le (List.prefix_append m pre)
        (hpre ▸ List.prefix_append a m₁) hle
      rw [List.append_assoc] at hpre
      exact ih (List.append_cancel_left hpre) hpost
  | @miss c pre post out hno _ ih =>
    cases a with
    | nil =>
      refine hno _ hm ⟨b, ?_⟩
      rw [List.append_assoc, ← hpost, ← List.cons_append, hpre]
      rfl
    | cons c' a =>
      exact ih (List.cons.inj hpre).2 hpost

/-- Each place of a text is a stop, or lies inside a match. -/
theorem stop_or_inside (h : Replaced M replacement text b out)
    (htext : text = pre ++ post) :
    (∃ out', Replaced M replacement pre (post ++ b) out') ∨
    ∃ a m₁ m₂ d, M (m₁ ++ m₂) ∧ m₁ ≠ [] ∧ m₂ ≠ [] ∧ pre = a ++ m₁ ∧ post = m₂ ++ d := by
  induction h generalizing pre with
  | done b =>
    obtain rfl := (List.append_eq_nil_iff.1 htext.symm).1
    exact .inl ⟨[], .done _⟩
  | @hit m text b out hm _ ih =>
    obtain hlt | hle := Nat.lt_or_ge pre.length m.length
    · obtain ⟨m₂, rfl⟩ := List.prefix_of_prefix_length_le (List.prefix_append pre post)
        (htext ▸ List.prefix_append m text) (Nat.le_of_lt hlt)
      rw [List.append_assoc] at htext
      by_cases hnil : pre = []
      · subst hnil
        exact .inl ⟨[], .done _⟩
      · have hm₂ : m₂ ≠ [] := by
          rintro rfl
          simp at hlt
        exact .inr ⟨[], pre, m₂, text, hm, hnil, hm₂, rfl, (List.append_cancel_left htext).symm⟩
    · obtain ⟨pre', rfl⟩ := List.prefix_of_prefix_length_le (List.prefix_append m text)
        (htext ▸ List.prefix_append pre post) hle
      rw [List.append_assoc] at htext
      obtain ⟨out', hstop⟩ | ⟨a, m₁, m₂, d, hin, hm₁, hm₂, rfl, hpost⟩ :=
        ih (List.append_cancel_left htext)
      · exact .inl ⟨_, .hit hm hstop⟩
      · exact .inr ⟨m ++ a, m₁, m₂, d, hin, hm₁, hm₂, by simp, hpost⟩
  | @miss c text b out hno _ ih =>
    cases pre with
    | nil => exact .inl ⟨[], .done _⟩
    | cons c' pre =>
      obtain ⟨rfl, htail⟩ := List.cons.inj htext
      obtain ⟨out', hstop⟩ | ⟨a, m₁, m₂, d, hin, hm₁, hm₂, rfl, hpost⟩ := ih htail
      · refine .inl ⟨_, .miss c ?_ hstop⟩
        have htail : text = pre ++ post := htail
        rwa [← List.append_assoc, ← htail]
      · exact .inr ⟨c :: a, m₁, m₂, d, hin, hm₁, hm₂, rfl, hpost⟩

/-- A place of the result that does not lie inside a replacement comes from a stop. -/
theorem split {tail : List Char} (h : Replaced M replacement text b out) (hout : out = a ++ tail)
    (hinside : ∀ u v rest, replacement = u ++ v → u ≠ [] → v ≠ [] → tail ≠ v ++ rest) :
    ∃ pre post, text = pre ++ post ∧ Replaced M replacement pre (post ++ b) a ∧
      Replaced M replacement post b tail := by
  induction h generalizing a with
  | done b =>
    obtain ⟨rfl, rfl⟩ := List.append_eq_nil_iff.1 hout.symm
    exact ⟨[], [], rfl, .done _, .done _⟩
  | @hit m text b out hm hrest ih =>
    obtain hlt | hle := Nat.lt_or_ge a.length replacement.length
    · obtain ⟨v, hv⟩ := List.prefix_of_prefix_length_le (List.prefix_append a tail)
        (hout ▸ List.prefix_append replacement out) (Nat.le_of_lt hlt)
      by_cases hnil : a = []
      · subst hnil
        rw [List.nil_append] at hout
        exact ⟨[], m ++ text, rfl, .done _, hout ▸ .hit hm hrest⟩
      · have hv' : v ≠ [] := by
          rintro rfl
          simp [← hv] at hlt
        rw [← hv, List.append_assoc] at hout
        exact absurd (List.append_cancel_left hout).symm (hinside a v out hv.symm hnil hv')
    · obtain ⟨a', rfl⟩ := List.prefix_of_prefix_length_le (List.prefix_append replacement out)
        (hout ▸ List.prefix_append a tail) hle
      rw [List.append_assoc] at hout
      obtain ⟨pre, post, rfl, hpre, hpost⟩ := ih (List.append_cancel_left hout)
      exact ⟨m ++ pre, post, by simp, .hit hm hpre, hpost⟩
  | @miss c text b out hno hrest ih =>
    cases a with
    | nil =>
      rw [List.nil_append] at hout
      exact ⟨[], c :: text, rfl, .done _, hout ▸ .miss c hno hrest⟩
    | cons c' a =>
      obtain ⟨rfl, htail⟩ := List.cons.inj hout
      obtain ⟨pre, post, rfl, hpre, hpost⟩ := ih htail
      refine ⟨c :: pre, post, rfl, .miss c ?_ hpre, hpost⟩
      simpa using hno

/-- Every character of the result stood in the text or comes from a replacement. -/
theorem mem (h : Replaced M replacement pre post out) {c : Char} (hc : c ∈ out) :
    c ∈ pre ∨ c ∈ replacement := by
  induction h with
  | done post => simp at hc
  | hit hm _ ih =>
    obtain hc | hc := List.mem_append.1 hc
    · exact .inr hc
    · exact (ih hc).imp_left fun h => List.mem_append_right _ h
  | miss c' hno _ ih =>
    obtain rfl | hc := List.mem_cons.1 hc
    · exact .inl List.mem_cons_self
    · exact (ih hc).imp_left fun h => List.mem_cons_of_mem _ h

/-- The last character stays, when a match ends as its replacement does. -/
theorem getLast? (hlast : ∀ m, M m → m.getLast? = replacement.getLast?)
    (h : Replaced M replacement pre post out) : out.getLast? = pre.getLast? := by
  induction h with
  | done post => rfl
  | hit hm _ ih => rw [List.getLast?_append, List.getLast?_append, ih, hlast _ hm]
  | @miss c pre post out hno _ ih =>
    rw [List.getLast?_cons, List.getLast?_cons, ih]

end Replaced

end Regex
