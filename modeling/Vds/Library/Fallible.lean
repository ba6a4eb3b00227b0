import Mathlib

/-! Results that are a value or an error: what a good result of a sequence says of its parts. -/

namespace Vds.Library.Fallible

variable {ε α β : Type}

theorem bind_eq_ok {x : Except ε α} {f : α → Except ε β} {b : β} :
    (x >>= f) = .ok b ↔ ∃ a, x = .ok a ∧ f a = .ok b := by
  constructor
  · intro h
    cases x with
    | error e => cases h
    | ok a => exact ⟨a, rfl, h⟩
  · rintro ⟨a, rfl, h⟩
    exact h

theorem map_eq_ok {x : Except ε α} {f : α → β} {b : β} :
    x.map f = .ok b ↔ ∃ a, x = .ok a ∧ f a = b := by
  constructor
  · intro h
    cases x with
    | error e => cases h
    | ok a =>
      cases h
      exact ⟨a, rfl, rfl⟩
  · rintro ⟨a, rfl, rfl⟩
    rfl

theorem pure_eq_ok {a b : α} : (pure a : Except ε α) = .ok b ↔ a = b := by
  constructor
  · intro h
    cases h
    rfl
  · rintro rfl
    rfl

end Vds.Library.Fallible
