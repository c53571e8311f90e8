import Handly.Lib.Regex

/-!
# Phone numbers

`normalizeUzPhone` rewrites a number in three steps, each on what the one before has left. The
second one looks for the country code, and it also finds it in a bare national number that
begins with these digits: operator 99, then an 8.
-/

namespace Handly

open Regex

/-! ### The function -/

/-- `UZ_PHONE_REGEX`, `/^\+998\d{9}$/` -/
def uzPhoneRegex : Pattern :=
  .seq .start (.seq (literal id ['+', '9', '9', '8'])
    (.seq (times (.chars Char.isDigit) 9) .finish))

/-- `/^\d{9}$/` -/
def nineDigits : Pattern := .seq .start (.seq (times (.chars Char.isDigit) 9) .finish)

/-- `/[^\d+]/` -/
def noDigit : Pattern := .chars fun c => !(c.isDigit || c == '+')

/-- `normalizeUzPhone` after the separators are gone. -/
def normalizeDigits (digits : List Char) : Option String :=
  let normalized := digits
  let normalized :=
    if ['0', '0'].isPrefixOf normalized then '+' :: normalized.drop 2 else normalized
  let normalized :=
    if ['9', '9', '8'].isPrefixOf normalized then '+' :: normalized else normalized
  -- a bare national number
  let normalized :=
    if test nineDigits normalized then ['+', '9', '9', '8'] ++ normalized else normalized
  if test uzPhoneRegex normalized then some (String.ofList normalized) else none

/-- `normalizeUzPhone` -/
def normalizeUzPhone (input : String) : Option String :=
  normalizeDigits (replaceAll noDigit [] input.toList)

example : normalizeUzPhone "00998 (90) 123-45-67" = some "+998901234567" := by decide +kernel

/-! ### Spellings -/

/-- Nine digits. -/
structure NationalNumber where
  digits : List Char
  length_eq : digits.length = 9
  isDigit : ∀ c ∈ digits, c.isDigit = true

/-- The accepted shapes of a number. -/
inductive Shape
  | bare | country | plus | zeros
  deriving DecidableEq

/-- What a shape puts before the national number. -/
def Shape.lead : Shape → List Char
  | .bare => []
  | .country => ['9', '9', '8']
  | .plus => ['+', '9', '9', '8']
  | .zeros => ['0', '0', '9', '9', '8']

/-- A space, a dash, a parenthesis, or any other character that is no digit and no plus. -/
def isSeparator (c : Char) : Prop := c.isDigit = false ∧ c ≠ '+'

/-- One text is another one with separators inserted. -/
inductive Spaced : List Char → List Char → Prop
  | nil : Spaced [] []
  | keep (c : Char) {word text : List Char} : Spaced word text → Spaced (c :: word) (c :: text)
  | insert {c : Char} (hc : isSeparator c) {word text : List Char} :
      Spaced word text → Spaced word (c :: text)

/-- The number as it is stored. -/
def NationalNumber.e164 (n : NationalNumber) : String :=
  String.ofList (['+', '9', '9', '8'] ++ n.digits)

/-! ### What the steps do -/

variable {text word : List Char} {n : NationalNumber}

/-- The first step takes the separators out. -/
theorem replaceAll_spaced (h : Spaced word text) (hword : ∀ c ∈ word, c.isDigit = true ∨ c = '+') :
    replaceAll noDigit [] text = word := by
  rw [noDigit, replaceAll_chars]
  induction h with
  | nil => rfl
  | keep c _ ih =>
    have hc := hword c (by simp)
    rw [List.filter_cons_of_pos (by simpa using hc), ih fun d hd => hword d (by simp [hd])]
  | insert hc _ ih =>
    rw [List.filter_cons_of_neg (by simpa [isSeparator] using hc), ih hword]

theorem test_nineDigits :
    test nineDigits text = true ↔ text.length = 9 ∧ ∀ c ∈ text, c.isDigit = true := by
  rw [test, nineDigits, exec_start, first_times_finish]

theorem test_uzPhoneRegex :
    test uzPhoneRegex text = true ↔
      ∃ n : NationalNumber, text = ['+', '9', '9', '8'] ++ n.digits := by
  rw [test, uzPhoneRegex, exec_start]
  constructor
  · intro h
    obtain ⟨lead, rest, hsplit, hlead, hrest⟩ := exists_of_first_literal_seq h
    obtain ⟨hlength, hdigits⟩ := first_times_finish.1 hrest
    rw [List.map_id] at hlead
    exact ⟨⟨rest, hlength, hdigits⟩, by rw [← hlead]; exact hsplit⟩
  · rintro ⟨n, rfl⟩
    rw [first_literal_seq (List.map_id _)]
    exact first_times_finish.2 ⟨n.length_eq, n.isDigit⟩

/-- A number has 13 characters. -/
theorem test_uzPhoneRegex_of_length (h : text.length ≠ 13) : test uzPhoneRegex text = false := by
  rw [Bool.eq_false_iff, Ne, test_uzPhoneRegex]
  rintro ⟨n, rfl⟩
  exact h (by simp [n.length_eq])

theorem test_nineDigits_of_length (h : text.length ≠ 9) : test nineDigits text = false := by
  rw [Bool.eq_false_iff, Ne, test_nineDigits]
  exact fun h' => h h'.1

theorem NationalNumber.test_e164 (n : NationalNumber) :
    test uzPhoneRegex (['+', '9', '9', '8'] ++ n.digits) = true :=
  test_uzPhoneRegex.2 ⟨n, rfl⟩

/-- A number that the first two rewrites have completed stays as it is. -/
theorem normalizeDigits_plus (n : NationalNumber) :
    normalizeDigits (['+', '9', '9', '8'] ++ n.digits) = some n.e164 := by
  have hzeros : ['0', '0'].isPrefixOf (['+', '9', '9', '8'] ++ n.digits) = false := rfl
  have hcountry : ['9', '9', '8'].isPrefixOf (['+', '9', '9', '8'] ++ n.digits) = false := rfl
  have hlong : test nineDigits (['+', '9', '9', '8'] ++ n.digits) = false :=
    test_nineDigits_of_length (by simp [n.length_eq])
  simp only [normalizeDigits, hzeros, hcountry, hlong, n.test_e164, Bool.false_eq_true, if_false,
    if_true]
  rfl

/-- The country code gets its plus. -/
theorem normalizeDigits_country (n : NationalNumber) :
    normalizeDigits (['9', '9', '8'] ++ n.digits) = some n.e164 := by
  have hzeros : ['0', '0'].isPrefixOf (['9', '9', '8'] ++ n.digits) = false := rfl
  have hcountry : ['9', '9', '8'].isPrefixOf (['9', '9', '8'] ++ n.digits) = true := rfl
  have hlong : test nineDigits ('+' :: (['9', '9', '8'] ++ n.digits)) = false :=
    test_nineDigits_of_length (by simp [n.length_eq])
  have hstored : test uzPhoneRegex ('+' :: (['9', '9', '8'] ++ n.digits)) = true := n.test_e164
  simp only [normalizeDigits, hzeros, hcountry, hlong, hstored, Bool.false_eq_true, if_false,
    if_true]
  rfl

/-- The zeros become a plus. -/
theorem normalizeDigits_zeros (n : NationalNumber) :
    normalizeDigits (['0', '0', '9', '9', '8'] ++ n.digits) = some n.e164 :=
  normalizeDigits_plus n

/-- A bare number that begins with the country code's digits gets a plus in front of them, and
is then too short. -/
theorem normalizeDigits_bare (hzeros : ¬['0', '0'] <+: n.digits) :
    normalizeDigits n.digits =
      if ['9', '9', '8'] <+: n.digits then none else some n.e164 := by
  have hnozeros : ['0', '0'].isPrefixOf n.digits = false := by
    rwa [Bool.eq_false_iff, Ne, List.isPrefixOf_iff_prefix]
  split
  · next hcountry =>
    have hcountry : ['9', '9', '8'].isPrefixOf n.digits = true :=
      List.isPrefixOf_iff_prefix.2 hcountry
    have hlong : test nineDigits ('+' :: n.digits) = false :=
      test_nineDigits_of_length (by simp [n.length_eq])
    have hshort : test uzPhoneRegex ('+' :: n.digits) = false :=
      test_uzPhoneRegex_of_length (by simp [n.length_eq])
    simp only [normalizeDigits, hnozeros, hcountry, hlong, hshort, Bool.false_eq_true, if_false,
      if_true]
  · next hcountry =>
    have hcountry : ['9', '9', '8'].isPrefixOf n.digits = false := by
      rwa [Bool.eq_false_iff, Ne, List.isPrefixOf_iff_prefix]
    have hnine : test nineDigits n.digits = true := test_nineDigits.2 ⟨n.length_eq, n.isDigit⟩
    simp only [normalizeDigits, hnozeros, hcountry, hnine, n.test_e164, Bool.false_eq_true,
      if_false, if_true]
    rfl

/-- The stored number of each shape, but for a bare number that looks like one with its
country code. -/
theorem normalizeDigits_shape (hzeros : ¬['0', '0'] <+: n.digits) (shape : Shape) :
    normalizeDigits (shape.lead ++ n.digits) =
      if shape = .bare ∧ ['9', '9', '8'] <+: n.digits then none else some n.e164 := by
  cases shape with
  | bare => simpa [Shape.lead] using normalizeDigits_bare hzeros
  | country => exact normalizeDigits_country n
  | plus => exact normalizeDigits_plus n
  | zeros => exact normalizeDigits_zeros n

/-- Nothing but a stored number is returned. -/
theorem exists_of_normalizeDigits {result : String} (h : normalizeDigits text = some result) :
    ∃ n : NationalNumber, result = n.e164 := by
  obtain ⟨htest, hresult⟩ := Option.ite_none_right_eq_some.1 h
  obtain ⟨n, hn⟩ := test_uzPhoneRegex.1 htest
  rw [← Option.some.inj hresult, hn]
  exact ⟨n, rfl⟩

theorem Shape.lead_isDigit (shape : Shape) (n : NationalNumber) :
    ∀ c ∈ shape.lead ++ n.digits, c.isDigit = true ∨ c = '+' := by
  have hlead : ∀ c ∈ shape.lead, c.isDigit = true ∨ c = '+' := by cases shape <;> decide
  intro c hc
  obtain hc | hc := List.mem_append.1 hc
  · exact hlead c hc
  · exact .inl (n.isDigit c hc)

/-- A text without separators is a spelling of itself. -/
theorem Spaced.refl (word : List Char) : Spaced word word := by
  induction word with
  | nil => exact .nil
  | cons c word ih => exact .keep c ih

/-- A stored number is its own normal form. -/
theorem normalizeUzPhone_e164 (n : NationalNumber) : normalizeUzPhone n.e164 = some n.e164 := by
  have hkept : replaceAll noDigit [] n.e164.toList = ['+', '9', '9', '8'] ++ n.digits := by
    rw [NationalNumber.e164, String.toList_ofList]
    exact replaceAll_spaced (.refl _) (Shape.plus.lead_isDigit n)
  rw [normalizeUzPhone, hkept, normalizeDigits_plus]

/-- **Every spelling is the same account, but for one kind.** Every shape of a national number
is normalized to the stored number, with any separators inserted, exactly when it is not the
bare number with the country code's digits in front. A result is a stored number, and
normalizing it again changes nothing. -/
theorem normalizeUzPhone_spelling (input : String) :
    (∀ (n : NationalNumber) (shape : Shape), ¬['0', '0'] <+: n.digits →
      Spaced (shape.lead ++ n.digits) input.toList →
      (normalizeUzPhone input = some n.e164 ↔ ¬(shape = .bare ∧ ['9', '9', '8'] <+: n.digits))) ∧
    (∀ result, normalizeUzPhone input = some result →
      test uzPhoneRegex result.toList = true ∧ normalizeUzPhone result = some result) := by
  refine ⟨fun n shape hzeros hspaced => ?_, fun result hresult => ?_⟩
  · rw [normalizeUzPhone, replaceAll_spaced hspaced (shape.lead_isDigit n),
      normalizeDigits_shape hzeros]
    split <;> simp_all
  · obtain ⟨n, rfl⟩ := exists_of_normalizeDigits hresult
    exact ⟨by rw [NationalNumber.e164, String.toList_ofList]; exact n.test_e164,
      normalizeUzPhone_e164 n⟩

/-- A number of operator 99. -/
def operator99 : NationalNumber where
  digits := ['9', '9', '8', '1', '2', '3', '4', '5', '6']
  length_eq := rfl
  isDigit := by decide

/-- The bare number of operator 99 with an 8 after it is refused. -/
theorem normalizeUzPhone_operator99 :
    ¬ ∀ (n : NationalNumber) (shape : Shape) (input : String), ¬['0', '0'] <+: n.digits →
      Spaced (shape.lead ++ n.digits) input.toList → normalizeUzPhone input = some n.e164 := by
  intro h
  have hinput : "998123456".toList = Shape.bare.lead ++ operator99.digits := by decide +kernel
  have hstored := h operator99 .bare "998123456" (by decide) (hinput ▸ .refl _)
  revert hstored
  decide +kernel

/-- With the country code it is taken. -/
theorem normalizeUzPhone_operator99_country :
    normalizeUzPhone "998998123456" = some operator99.e164 :=
  have hinput : "998998123456".toList = Shape.country.lead ++ operator99.digits := by
    decide +kernel
  ((normalizeUzPhone_spelling "998998123456").1 operator99 .country (by decide)
    (hinput ▸ .refl _)).2 (by decide)

end Handly
