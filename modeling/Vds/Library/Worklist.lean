import Mathlib

/-! Worklists over a directed graph. A node is taken from the list once and may get done, if what
it follows is done and it is not barred; what follows a done node goes to the list. -/

namespace Vds.Worklist

variable {α : Type}

/-- No round of a worklist with the nodes `pending` makes the node done. -/
inductive Stays (edge : α → α → Prop) (done barred pending : Set α) : α → Prop
  | unreached {x} (undone : x ∉ done) (apart : ∀ k ∈ pending, ¬Relation.ReflTransGen edge k x) :
      Stays edge done barred pending x
  | barred {x} (undone : x ∉ done) (bar : x ∈ barred) : Stays edge done barred pending x
  | behind {x a} (undone : x ∉ done) (follows : edge a x) (stays : Stays edge done barred pending a) :
      Stays edge done barred pending x

variable {edge : α → α → Prop} {done done' barred pending pending' : Set α} {x : α}

theorem Stays.undone (h : Stays edge done barred pending x) : x ∉ done := by
  cases h <;> assumption

/-- One round: only `y` may get done, and what is pending then is behind what was pending. -/
theorem Stays.step (h : Stays edge done barred pending x) {y : α} (hy : y ∈ pending)
    (hdone : ∀ z ∈ done', z ≠ y → z ∈ done)
    (hnew : y ∈ done' → y ∉ done → y ∉ barred ∧ ∀ a, edge a y → a ∈ done)
    (hreach : ∀ k ∈ pending', ∃ k₀ ∈ pending, Relation.ReflTransGen edge k₀ k) :
    Stays edge done' barred pending' x := by
  have hund : ∀ {z}, z ∉ done → z ≠ y → z ∉ done' := fun hz hne hd => hz (hdone _ hd hne)
  induction h with
  | @unreached z undone apart =>
    have hne : z ≠ y := by
      rintro rfl
      exact apart z hy .refl
    refine .unreached (hund undone hne) fun k hk hr => ?_
    obtain ⟨k₀, hk₀, hr₀⟩ := hreach k hk
    exact apart k₀ hk₀ (hr₀.trans hr)
  | @barred z undone bar =>
    refine .barred (fun hd => ?_) bar
    by_cases hne : z = y
    · subst hne
      exact (hnew hd undone).1 bar
    · exact hund undone hne hd
  | @behind z a undone follows stays ih =>
    refine .behind (fun hd => ?_) follows ih
    by_cases hne : z = y
    · subst hne
      exact stays.undone ((hnew hd undone).2 a follows)
    · exact hund undone hne hd

/-- What stays when less is pending and less is done. -/
theorem Stays.mono (h : Stays edge done barred pending x) (hdone : done' ⊆ done)
    (hreach : ∀ k ∈ pending', ∃ k₀ ∈ pending, Relation.ReflTransGen edge k₀ k) :
    Stays edge done' barred pending' x := by
  induction h with
  | unreached undone apart =>
    refine .unreached (fun hd => undone (hdone hd)) fun k hk hr => ?_
    obtain ⟨k₀, hk₀, hr₀⟩ := hreach k hk
    exact apart k₀ hk₀ (hr₀.trans hr)
  | barred undone bar => exact .barred (fun hd => undone (hdone hd)) bar
  | behind undone follows _ ih => exact .behind (fun hd => undone (hdone hd)) follows ih

theorem Stays.congr {edge' : α → α → Prop} {barred' : Set α} (h : Stays edge done barred pending x)
    (he : ∀ a d, edge' a d ↔ edge a d) (hb : ∀ z, z ∈ barred → z ∈ barred') :
    Stays edge' done barred' pending x := by
  obtain rfl : edge' = edge := funext fun a => funext fun d => propext (he a d)
  induction h with
  | unreached undone apart => exact .unreached undone apart
  | barred undone bar => exact .barred undone (hb _ bar)
  | behind undone follows _ ih => exact .behind undone follows ih

end Vds.Worklist
