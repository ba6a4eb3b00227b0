import Mathlib

/-! A sequence in which a run of items is replaced from a position on. -/

namespace Vds.Library

variable {α : Type}

/-- The items from `position` on are replaced by `items`, beyond the end if need be. -/
def overwrite (s : List α) (position : Nat) (items : List α) : List α :=
  s.take position ++ items ++ s.drop (position + items.length)

theorem overwrite_nil (s : List α) (position : Nat) : overwrite s position [] = s := by
  rw [overwrite, List.append_nil]
  exact List.take_append_drop position s

theorem length_le_overwrite (s : List α) {position : Nat} (items : List α) (h : position ≤ s.length) :
    position + items.length ≤ (overwrite s position items).length := by
  rw [overwrite, List.length_append, List.length_append, List.length_take_of_le h]
  exact Nat.le_add_right _ _

/-- Two runs of items one after the other. -/
theorem overwrite_overwrite (s : List α) {position : Nat} (items more : List α)
    (h : position ≤ s.length) :
    overwrite (overwrite s position items) (position + items.length) more =
      overwrite s position (items ++ more) := by
  have hlen : (s.take position ++ items).length = position + items.length := by
    rw [List.length_append, List.length_take_of_le h]
  have htake : (overwrite s position items).take (position + items.length) =
      s.take position ++ items := by
    rw [overwrite, ← hlen]
    exact List.take_left
  have hdrop : (overwrite s position items).drop (position + items.length + more.length) =
      s.drop (position + (items ++ more).length) := by
    rw [overwrite, ← List.drop_drop, ← hlen, List.drop_left, List.drop_drop, hlen, List.length_append,
      Nat.add_assoc]
  rw [overwrite, htake, hdrop, overwrite, List.append_assoc]
  simp only [List.append_assoc]

theorem overwrite_zero (s items : List α) : overwrite s 0 items = items ++ s.drop items.length := by
  rw [overwrite, List.take_zero, List.nil_append, Nat.zero_add]

/-- Everything is replaced if there are no fewer items than there were. -/
theorem overwrite_zero_eq_iff (s items : List α) :
    overwrite s 0 items = items ↔ s.length ≤ items.length := by
  rw [overwrite_zero, List.append_right_eq_self, List.drop_eq_nil_iff]

/-- The items that are there already are put in their place again. -/
theorem overwrite_zero_take (s : List α) (count : Nat) : overwrite s 0 (s.take count) = s := by
  rw [overwrite_zero, List.length_take]
  obtain h | h := Nat.le_total count s.length
  · rw [Nat.min_eq_left h, List.take_append_drop]
  · rw [Nat.min_eq_right h, List.take_of_length_le h, List.drop_length, List.append_nil]

end Vds.Library
