import Mathlib.Data.List.Basic

/-!
# Checks that throw

A guard is an `Except` program: it reads, checks and throws, and at its end it has
established a fact about what it returns. These lemmas take such a program apart
once, from the equation that it returned normally, so that the facts of its checks
can be read off with `simp only`.
-/

namespace Checks

universe u v

variable {ε : Type u} {α β : Type v}

/-- A sequence returns what its second part returns on the result of the first. -/
theorem bind_eq_ok {x : Except ε α} {f : α → Except ε β} {b : β} :
    (x >>= f) = .ok b ↔ ∃ a, x = .ok a ∧ f a = .ok b := by
  cases x with
  | error e =>
      constructor
      · intro h
        cases h
      · intro hseq
        obtain ⟨a, h, -⟩ := hseq
        cases h
  | ok a =>
      constructor
      · intro h
        exact ⟨a, rfl, h⟩
      · intro hseq
        obtain ⟨a', ha, h⟩ := hseq
        obtain rfl := Except.ok.inj ha
        exact h

theorem pure_eq_ok {a b : α} : (pure a : Except ε α) = .ok b ↔ a = b :=
  ⟨Except.ok.inj, congrArg _⟩

theorem throw_eq_ok {e : ε} {a : α} : (throw e : Except ε α) = .ok a ↔ False :=
  ⟨fun h => (by cases h), False.elim⟩

/-- A check that throws when `c` holds: the program goes on only if it does not. -/
theorem check_eq_ok {c : Prop} [Decidable c] {e : ε} {γ : Type v} {k : γ → Except ε β}
    {rest : Except ε β} {b : β} :
    (if c then (throw e : Except ε γ) >>= k else rest) = .ok b ↔ ¬ c ∧ rest = .ok b := by
  by_cases hc : c
  · rw [if_pos hc, bind_eq_ok]
    simp [hc, throw_eq_ok]
  · rw [if_neg hc]
    simp [hc]

/-- The same of a check at the head of an `if` that already holds the whole program. -/
theorem ite_error_eq_ok {c : Prop} [Decidable c] {e : ε} {rest : Except ε β} {b : β} :
    (if c then .error e else rest) = Except.ok b ↔ ¬ c ∧ rest = .ok b := by
  by_cases hc : c <;> simp [hc]

end Checks
