import Mathlib

/-! A text read into tokens, where each token takes as many symbols as it can. -/

namespace Vds.Library

/-- The token that a symbol opens, if any, and the token that a symbol makes of an open one. -/
structure Munch (C T : Type) where
  start : C → Option T
  grow : T → C → Option T

namespace Munch

variable {C T : Type} (m : Munch C T)

/-- The tokens that end inside the text, and the one that is open at its end. -/
def scan : Option T → List C → List T × Option T
  | t, [] => ([], t)
  | none, c :: s => scan (m.start c) s
  | some t, c :: s =>
    match m.grow t c with
    | some t' => scan (some t') s
    | none => (t :: (scan (m.start c) s).1, (scan (m.start c) s).2)

def tokens (s : List C) : List T := (m.scan none s).1 ++ (m.scan none s).2.toList

/-- The token that more symbols could still change. -/
def opened (s : List C) : Option T := (m.scan none s).2

/-- No token of the two texts together has symbols of both. -/
def Apart (s u : List C) : Prop := ∀ t ∈ m.opened s, ∀ c ∈ u.head?, m.grow t c = none

theorem scan_append (t : Option T) (s u : List C) :
    m.scan t (s ++ u) =
      ((m.scan t s).1 ++ (m.scan (m.scan t s).2 u).1, (m.scan (m.scan t s).2 u).2) := by
  induction s generalizing t with
  | nil => rfl
  | cons c s ih =>
    cases t with
    | none => exact ih _
    | some t =>
      rw [List.cons_append, scan, scan]
      cases m.grow t c with
      | some t' => exact ih _
      | none => simp only [ih, List.cons_append]

theorem scan_of_head {t : Option T} {c : C} (h : ∀ x ∈ t, m.grow x c = none) (u : List C) :
    m.scan t (c :: u) = (t.toList ++ (m.scan none (c :: u)).1, (m.scan none (c :: u)).2) := by
  cases t with
  | none => rfl
  | some t =>
    conv_lhs => rw [scan, h t rfl]
    rfl

variable {m}

theorem scan_of_apart {s u : List C} (h : m.Apart s u) (hu : u ≠ []) :
    m.scan none (s ++ u) =
      (m.tokens s ++ (m.scan none u).1, (m.scan none u).2) := by
  obtain ⟨c, u, rfl⟩ := List.exists_cons_of_ne_nil hu
  have hc : ∀ x ∈ (m.scan none s).2, m.grow x c = none := fun x hx => h x hx c rfl
  rw [scan_append, scan_of_head m hc]
  simp only [tokens, List.append_assoc]

theorem tokens_append {s u : List C} (h : m.Apart s u) : m.tokens (s ++ u) = m.tokens s ++ m.tokens u := by
  by_cases hu : u = []
  · rw [hu, List.append_nil]
    exact (List.append_nil _).symm
  · rw [tokens, scan_of_apart h hu]
    exact List.append_assoc ..

theorem opened_append {s u : List C} (h : m.Apart s u) (hu : u ≠ []) :
    m.opened (s ++ u) = m.opened u := by
  rw [opened, scan_of_apart h hu]
  rfl

/-- The symbols that go on one token. -/
theorem scan_grown {t t' : T} {s : List C} (h : s.foldlM m.grow t = some t') :
    m.scan (some t) s = ([], some t') := by
  induction s generalizing t with
  | nil =>
    cases h
    rfl
  | cons c s ih =>
    rw [List.foldlM_cons] at h
    obtain ⟨x, hx, hs⟩ := Option.bind_eq_some_iff.mp h
    rw [scan, hx]
    exact ih hs

theorem tokens_single {c : C} {s : List C} {t t' : T} (ht : m.start c = some t)
    (h : s.foldlM m.grow t = some t') : m.tokens (c :: s) = [t'] ∧ m.opened (c :: s) = some t' := by
  have hs : m.scan none (c :: s) = ([], some t') := by
    rw [scan, ht]
    exact scan_grown h
  constructor
  · rw [tokens, hs]
    rfl
  · rw [opened, hs]

end Munch
end Vds.Library
