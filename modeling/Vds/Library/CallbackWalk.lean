import Mathlib

/-! Walks that call a callback on their items. A callback answers from the calls made before,
so that it may keep a state; the walk is told to stop by an answer that does not go on. -/

namespace Vds.Library.CallbackWalk

variable {α β ρ : Type}

/-- What a callback answers for an item, given the items it was called on before. -/
abbrev Callback (α ρ : Type) := List α → α → ρ

/-- One call; the state is the list of the calls made. -/
def invoke (callback : Callback α ρ) (item : α) : StateM (List α) ρ :=
  fun calls => (callback calls item, calls ++ [item])

/-- Every answer on a walk over the items goes on. -/
def AllGoOn (goesOn : ρ → Prop) (callback : Callback α ρ) (items : List α) : Prop :=
  ∀ before item after, items = before ++ item :: after → goesOn (callback before item)

/-- The calls follow the items up to the first answer that does not go on, which is returned. -/
def Obeys (goesOn : ρ → Prop) (callback : Callback α ρ) (items calls : List α) (result : ρ) :
    Prop :=
  (calls = items ∧ AllGoOn goesOn callback items) ∨
    ∃ before item after, items = before ++ item :: after ∧ AllGoOn goesOn callback before ∧
      ¬goesOn (callback before item) ∧ calls = before ++ [item] ∧ result = callback before item

section

variable {goesOn : ρ → Prop} {callback : Callback α ρ}

theorem allGoOn_nil : AllGoOn goesOn callback [] := by
  intro before item after h
  simp at h

theorem AllGoOn.of_append {items more : List α} (h : AllGoOn goesOn callback (items ++ more)) :
    AllGoOn goesOn callback items := by
  intro before item after heq
  apply h before item (after ++ more)
  rw [heq]
  simp

theorem allGoOn_concat {items : List α} {item : α} :
    AllGoOn goesOn callback (items ++ [item]) ↔
      AllGoOn goesOn callback items ∧ goesOn (callback items item) := by
  constructor
  · intro h
    exact ⟨h.of_append, h items item [] rfl⟩
  · rintro ⟨hitems, hitem⟩ before x after heq
    rcases List.eq_nil_or_concat after with rfl | ⟨after, last, rfl⟩
    · obtain ⟨rfl, hlast⟩ := List.append_inj' heq rfl
      obtain rfl : item = x := by simpa using hlast
      exact hitem
    · have hsplit : items ++ [item] = (before ++ x :: after) ++ [last] := by simpa using heq
      exact hitems before x after (List.append_inj' hsplit rfl).1

/-- A walk goes on to the end, or there is a first answer that does not. -/
theorem allGoOn_or_stop (goesOn : ρ → Prop) (callback : Callback α ρ) (items : List α) :
    AllGoOn goesOn callback items ∨
      ∃ before item after, items = before ++ item :: after ∧ AllGoOn goesOn callback before ∧
        ¬goesOn (callback before item) := by
  induction items using List.reverseRecOn with
  | nil => exact Or.inl allGoOn_nil
  | append_singleton items last ih =>
    rcases ih with hall | ⟨before, item, after, heq, hbefore, hitem⟩
    · by_cases hlast : goesOn (callback items last)
      · exact Or.inl (allGoOn_concat.mpr ⟨hall, hlast⟩)
      · exact Or.inr ⟨items, last, [], rfl, hall, hlast⟩
    · refine Or.inr ⟨before, item, after ++ [last], ?_, hbefore, hitem⟩
      simp [heq]

/-- The first answer that does not go on comes no earlier than the items that do. -/
theorem AllGoOn.prefix_of_stop {before before' : List α} {item item' : α} {after after' : List α}
    (hall : AllGoOn goesOn callback before) (hstop : ¬goesOn (callback before' item'))
    (heq : before ++ item :: after = before' ++ item' :: after') :
    (before = before' ∧ item = item' ∧ after = after') ∨
      ∃ rest, before' = before ++ item :: rest ∧ after = rest ++ item' :: after' := by
  rcases List.append_eq_append_iff.mp heq with ⟨middle, hbefore', hmiddle⟩ | ⟨middle, hbefore, hmiddle⟩
  · cases middle with
    | nil =>
      obtain ⟨rfl, rfl⟩ : item = item' ∧ after = after' := by simpa using hmiddle
      exact Or.inl ⟨by simpa using hbefore'.symm, rfl, rfl⟩
    | cons x rest =>
      obtain ⟨rfl, rfl⟩ : item = x ∧ after = rest ++ item' :: after' := by simpa using hmiddle
      exact Or.inr ⟨rest, hbefore', rfl⟩
  · cases middle with
    | nil =>
      obtain ⟨rfl, rfl⟩ : item' = item ∧ after' = after := by simpa using hmiddle
      exact Or.inl ⟨by simpa using hbefore, rfl, rfl⟩
    | cons x rest =>
      obtain ⟨rfl, -⟩ : item' = x ∧ after' = rest ++ item :: after := by simpa using hmiddle
      exact absurd (hall before' item' rest hbefore) hstop

/-- A walk that calls on every item, whatever the answers, and returns one that goes on obeys
exactly the callbacks that never stop it. -/
theorem obeys_all_iff {items : List α} {result : ρ} (hresult : goesOn result) :
    Obeys goesOn callback items items result ↔ AllGoOn goesOn callback items := by
  constructor
  · rintro (⟨-, hall⟩ | ⟨before, item, after, -, -, hstop, -, rfl⟩)
    · exact hall
    · exact absurd hresult hstop
  · intro hall
    exact Or.inl ⟨rfl, hall⟩

end

end Vds.Library.CallbackWalk
