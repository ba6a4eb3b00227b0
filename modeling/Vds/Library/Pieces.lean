import Mathlib

/-! A sequence cut into non-empty pieces. -/

namespace Vds.Library

variable {α : Type}

structure Pieces (xs : List α) where
  pieces : List (List α)
  nonempty : ∀ p ∈ pieces, p ≠ []
  flatten_eq : pieces.flatten = xs
  deriving DecidableEq

namespace Pieces

variable [DecidableEq α]

/-- The sequence in one piece, or in none if it is empty. -/
def single (xs : List α) : Pieces xs where
  pieces := if xs = [] then [] else [xs]
  nonempty := by
    intro p hp
    split at hp
    · cases hp
    · rename_i hne
      rw [List.mem_singleton.1 hp]
      exact hne
  flatten_eq := by
    split
    · rename_i hnil
      rw [hnil]
      rfl
    · exact List.flatten_singleton

theorem single_of_ne_nil {xs : List α} (h : xs ≠ []) : (single xs).pieces = [xs] := if_neg h

end Pieces
end Vds.Library
