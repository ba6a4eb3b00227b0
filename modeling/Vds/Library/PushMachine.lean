import Mathlib

/-! A machine fed one symbol at a time, which keeps on or stops with an error. A configuration
shows a part of the state; runs between configurations compose, and an error stays. -/

namespace Vds.Library.PushMachine

variable {σ β ε κ : Type}

/-- From every state that shows `c` the text leads to one that shows `c'`. -/
def Steps (step : σ → β → Except ε σ) (shows : σ → κ → Prop) (c : κ) (text : List β) (c' : κ) :
    Prop :=
  ∀ s, shows s c → ∃ s', text.foldlM step s = .ok s' ∧ shows s' c'

/-- From every state that shows `c` the text leads to an error. -/
def Fails (step : σ → β → Except ε σ) (shows : σ → κ → Prop) (c : κ) (text : List β) : Prop :=
  ∀ s, shows s c → ∃ e, text.foldlM step s = .error e

/-- The text leads to the configuration, or to an error if there is none. -/
def Reads (step : σ → β → Except ε σ) (shows : σ → κ → Prop) (c : κ) (text : List β) :
    Option κ → Prop
  | some c' => Steps step shows c text c'
  | none => Fails step shows c text

variable {step : σ → β → Except ε σ} {shows : σ → κ → Prop} {c c' c'' : κ} {text rest : List β}

theorem Steps.refl : Steps step shows c [] c := fun s hs => ⟨s, rfl, hs⟩

theorem foldlM_append_of_ok {s s' : σ} (h : text.foldlM step s = .ok s') :
    (text ++ rest).foldlM step s = rest.foldlM step s' := by
  rw [List.foldlM_append, h]
  rfl

theorem foldlM_append_of_error {s : σ} {e : ε} (h : text.foldlM step s = .error e) :
    (text ++ rest).foldlM step s = .error e := by
  rw [List.foldlM_append, h]
  rfl

theorem Steps.trans (h : Steps step shows c text c') (h' : Steps step shows c' rest c'') :
    Steps step shows c (text ++ rest) c'' := by
  intro s hs
  obtain ⟨s', hrun, hs'⟩ := h s hs
  obtain ⟨s'', hrun', hs''⟩ := h' s' hs'
  exact ⟨s'', (foldlM_append_of_ok hrun).trans hrun', hs''⟩

theorem Steps.fails (h : Steps step shows c text c') (h' : Fails step shows c' rest) :
    Fails step shows c (text ++ rest) := by
  intro s hs
  obtain ⟨s', hrun, hs'⟩ := h s hs
  obtain ⟨e, he⟩ := h' s' hs'
  exact ⟨e, (foldlM_append_of_ok hrun).trans he⟩

theorem Fails.append (h : Fails step shows c text) : Fails step shows c (text ++ rest) := by
  intro s hs
  obtain ⟨e, he⟩ := h s hs
  exact ⟨e, foldlM_append_of_error he⟩

theorem Steps.single {b : β} (h : ∀ s, shows s c → ∃ s', step s b = .ok s' ∧ shows s' c') :
    Steps step shows c [b] c' := by
  intro s hs
  obtain ⟨s', hstep, hs'⟩ := h s hs
  refine ⟨s', ?_, hs'⟩
  rw [List.foldlM_cons, hstep]
  rfl

theorem Fails.single {b : β} (h : ∀ s, shows s c → ∃ e, step s b = .error e) :
    Fails step shows c [b] := by
  intro s hs
  obtain ⟨e, he⟩ := h s hs
  refine ⟨e, ?_⟩
  rw [List.foldlM_cons, he]
  rfl

theorem Steps.reads (h : Steps step shows c text c') {o : Option κ}
    (h' : Reads step shows c' rest o) : Reads step shows c (text ++ rest) o := by
  cases o with
  | some c'' => exact Steps.trans h h'
  | none => exact Steps.fails h h'

/-- A first text with an outcome, and for each good one a second text. -/
theorem Reads.bind {α : Type} {o : Option α} {f : α → κ} {g : α → Option κ}
    (h : Reads step shows c text (o.map f)) (h' : ∀ a, o = some a →
      Reads step shows (f a) rest (g a)) : Reads step shows c (text ++ rest) (o.bind g) := by
  cases o with
  | none => exact Fails.append h
  | some a => exact Steps.reads h (h' a rfl)

/-- What a run from a state comes to. -/
theorem Reads.run {o : Option κ} (h : Reads step shows c text o) {s : σ} (hs : shows s c) :
    (∃ c' s', o = some c' ∧ text.foldlM step s = .ok s' ∧ shows s' c') ∨
      o = none ∧ ∃ e, text.foldlM step s = .error e := by
  cases o with
  | some c' =>
    obtain ⟨s', hrun, hs'⟩ := h s hs
    exact Or.inl ⟨c', s', rfl, hrun, hs'⟩
  | none => exact Or.inr ⟨rfl, h s hs⟩

/-- Pieces run one behind the other are their concatenation. -/
theorem foldlM_pieces (pieces : List (List β)) (s : σ) :
    pieces.foldlM (fun s piece => piece.foldlM step s) s = pieces.flatten.foldlM step s := by
  induction pieces generalizing s with
  | nil => rfl
  | cons piece pieces ih =>
    rw [List.foldlM_cons, List.flatten_cons, List.foldlM_append]
    exact bind_congr fun s' => ih s'

end Vds.Library.PushMachine
