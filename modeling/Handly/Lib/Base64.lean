import Mathlib.Data.List.Basic

/-!
# Base64

Bytes written with 64 digits, four for three bytes, and how a lenient reader gets them back: it
reads up to the padding, skips what is no digit, and takes the digits of the URL-safe alphabet as
well.
-/

namespace Base64

/-- The digit of a value below 64. -/
def digit (n : ℕ) : Char :=
  if n < 26 then Char.ofNat (65 + n)
  else if n < 52 then Char.ofNat (71 + n)
  else if n < 62 then Char.ofNat (n - 4)
  else if n = 62 then '+'
  else '/'

/-- The value of a digit. -/
def value (c : Char) : Option ℕ :=
  if 'A' ≤ c ∧ c ≤ 'Z' then some (c.toNat - 65)
  else if 'a' ≤ c ∧ c ≤ 'z' then some (c.toNat - 71)
  else if '0' ≤ c ∧ c ≤ '9' then some (c.toNat + 4)
  else if c = '+' ∨ c = '-' then some 62
  else if c = '/' ∨ c = '_' then some 63
  else none

/-- The bits of the bytes in groups of six. The last group is filled up with zeros. -/
def sextets : List UInt8 → List ℕ
  | a :: b :: c :: rest =>
      a.toNat / 4 :: (a.toNat % 4 * 16 + b.toNat / 16) :: (b.toNat % 16 * 4 + c.toNat / 64) ::
        c.toNat % 64 :: sextets rest
  | [a, b] => [a.toNat / 4, a.toNat % 4 * 16 + b.toNat / 16, b.toNat % 16 * 4]
  | [a] => [a.toNat / 4, a.toNat % 4 * 16]
  | [] => []

/-- The whole bytes of groups of six bits. -/
def octets : List ℕ → List UInt8
  | p :: q :: r :: s :: rest =>
      UInt8.ofNat (p * 4 + q / 16) :: UInt8.ofNat (q % 16 * 16 + r / 4) ::
        UInt8.ofNat (r % 4 * 64 + s) :: octets rest
  | [p, q, r] => [UInt8.ofNat (p * 4 + q / 16), UInt8.ofNat (q % 16 * 16 + r / 4)]
  | [p, q] => [UInt8.ofNat (p * 4 + q / 16)]
  | _ => []

/-- What fills the text up to a multiple of four. -/
def padding (bytes : List UInt8) : List Char :=
  match bytes.length % 3 with
  | 1 => ['=', '=']
  | 2 => ['=']
  | _ => []

/-- The text of the bytes. -/
def encode (bytes : List UInt8) : String :=
  String.ofList ((sextets bytes).map digit ++ padding bytes)

/-- The bytes of a text, up to the padding. What is no digit is skipped. -/
def decode (text : String) : List UInt8 :=
  octets ((text.toList.takeWhile fun c => c ≠ '=').filterMap value)

theorem value_digit {n : ℕ} (h : n < 64) : value (digit n) = some n := by
  have hall : ∀ n < 64, value (digit n) = some n := by decide
  exact hall n h

theorem sextet_lt (bytes : List UInt8) : ∀ n ∈ sextets bytes, n < 64 := by
  induction bytes using sextets.induct with
  | case1 a b c rest ih =>
      have ha := a.toNat_lt
      have hb := b.toNat_lt
      have hc := c.toNat_lt
      intro n hn
      simp only [sextets, List.mem_cons] at hn
      rcases hn with rfl | rfl | rfl | rfl | hn
      · omega
      · omega
      · omega
      · omega
      · exact ih n hn
  | case2 a b =>
      have ha := a.toNat_lt
      have hb := b.toNat_lt
      intro n hn
      simp only [sextets, List.mem_cons, List.not_mem_nil, or_false] at hn
      rcases hn with rfl | rfl | rfl <;> omega
  | case3 a =>
      have ha := a.toNat_lt
      intro n hn
      simp only [sextets, List.mem_cons, List.not_mem_nil, or_false] at hn
      rcases hn with rfl | rfl <;> omega
  | case4 => simp [sextets]

/-- A byte is its own value. -/
theorem ofNat_eq {n : ℕ} {a : UInt8} (h : n = a.toNat) : UInt8.ofNat n = a := by
  rw [h, UInt8.ofNat_toNat]

theorem octets_sextets (bytes : List UInt8) : octets (sextets bytes) = bytes := by
  induction bytes using sextets.induct with
  | case1 a b c rest ih =>
      have ha := a.toNat_lt
      have hb := b.toNat_lt
      have hc := c.toNat_lt
      rw [sextets, octets, ih]
      congr 1
      · exact ofNat_eq (by omega)
      · congr 1
        · exact ofNat_eq (by omega)
        · congr 1
          exact ofNat_eq (by omega)
  | case2 a b =>
      have ha := a.toNat_lt
      have hb := b.toNat_lt
      rw [sextets, octets]
      congr 1
      · exact ofNat_eq (by omega)
      · congr 1
        exact ofNat_eq (by omega)
  | case3 a =>
      have ha := a.toNat_lt
      rw [sextets, octets]
      congr 1
      exact ofNat_eq (by omega)
  | case4 => rfl

/-- The digits of values are read back. -/
theorem filterMap_digits {values : List ℕ} (h : ∀ n ∈ values, n < 64) :
    (values.map digit).filterMap value = values := by
  rw [List.filterMap_map]
  exact (List.filterMap_congr fun n hn => value_digit (h n hn)).trans List.filterMap_some

/-- The padding is told from the digits. -/
theorem takeWhile_padded {values : List ℕ} (h : ∀ n ∈ values, n < 64) (bytes : List UInt8) :
    (values.map digit ++ padding bytes).takeWhile (fun c => c ≠ '=') = values.map digit := by
  have hdigits : ∀ c ∈ values.map digit, decide (c ≠ '=') = true := by
    intro c hc
    obtain ⟨n, hn, rfl⟩ := List.mem_map.mp hc
    refine decide_eq_true fun hpad => ?_
    have hvalue := value_digit (h n hn)
    rw [hpad] at hvalue
    cases hvalue
  have hpadding : (padding bytes).takeWhile (fun c => c ≠ '=') = [] := by
    unfold padding
    split <;> rfl
  rw [List.takeWhile_append_of_pos hdigits, hpadding, List.append_nil]

/-- **Round trip.** -/
theorem decode_encode (bytes : List UInt8) : decode (encode bytes) = bytes := by
  have hlt := sextet_lt bytes
  rw [decode, encode, String.toList_ofList, takeWhile_padded hlt, filterMap_digits hlt,
    octets_sextets]

end Base64
