import Mathlib.Data.Nat.Notation
import Mathlib.Logic.Function.Basic

/-!
# Results with errors

When a computation with an error result succeeds, by how it is put together: in the context that a caller
adds to its error, with its value changed, and as the first of two steps.
-/

namespace PaymentRail

variable {ε ε' α β : Type}

/-- A step succeeds in whatever context its error is put. -/
theorem mapError_eq_ok {result : Except ε α} {context : ε → ε'} {value : α} :
    result.mapError context = .ok value ↔ result = .ok value := by
  cases result with
  | error err => exact ⟨nofun, nofun⟩
  | ok other =>
    constructor
    · rintro ⟨⟩
      rfl
    · rintro ⟨⟩
      rfl

theorem map_eq_ok {f : α → β} {result : Except ε α} {value : β} :
    result.map f = .ok value ↔ ∃ inner, result = .ok inner ∧ f inner = value := by
  cases result <;> simp [Except.map]

theorem isOk_iff {result : Except ε α} : result.isOk ↔ ∃ value, result = .ok value := by
  cases result <;> simp [Except.isOk, Except.toBool]

/-- A chain of fallible steps succeeds if every step does. -/
theorem bind_eq_ok {first : Except ε α} {rest : α → Except ε β} {result : β} :
    first >>= rest = .ok result ↔ ∃ value, first = .ok value ∧ rest value = .ok result := by
  cases first <;> simp [Bind.bind, Except.bind]

/-- A check in front of the rest, which leaves with an error if it holds. -/
theorem unless_eq_ok {c : Prop} [Decidable c] {err : ε} {rest : PUnit → Except ε α} {value : α} :
    (if c then (throw err : Except ε PUnit) >>= rest else rest ⟨⟩) = .ok value ↔
      ¬c ∧ rest ⟨⟩ = .ok value := by
  split
  · next hfails =>
    constructor
    · rintro ⟨⟩
    · exact fun h ↦ absurd hfails h.1
  · next hpasses => exact ⟨fun h ↦ ⟨hpasses, h⟩, fun h ↦ h.2⟩

end PaymentRail
