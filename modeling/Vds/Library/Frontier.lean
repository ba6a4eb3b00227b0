import Mathlib

/-! A growing part of a directed graph and its frontier. The nodes in use are split into the
`inner` ones, which something in use follows, and the `tip` ones, which nothing in use follows.
Nodes are added at the tips and taken away from there. -/

namespace Vds

variable {α : Type}

/-- `edge a d`: `d` follows `a`. -/
structure Frontier (edge : α → α → Prop) (inner tip : Set α) : Prop where
  /-- What a node in use follows is in use and is not a tip. -/
  closed : ∀ d ∈ inner ∪ tip, ∀ a, edge a d → a ∈ inner
  covered : ∀ a ∈ inner, ∃ d ∈ inner ∪ tip, edge a d
  disjoint : ∀ a ∈ inner, a ∉ tip

namespace Frontier

variable {edge edge' : α → α → Prop} {inner tip : Set α}

theorem empty (edge : α → α → Prop) : Frontier edge ∅ ∅ where
  closed := by simp
  covered := by simp
  disjoint := by simp

theorem not_followed (h : Frontier edge inner tip) {a d : α} (ha : a ∉ inner) (hd : edge a d) :
    d ∉ inner ∪ tip := fun hu => ha (h.closed d hu a hd)

theorem tip_iff (h : Frontier edge inner tip) {a : α} :
    a ∈ tip ↔ a ∈ inner ∪ tip ∧ ∀ d, edge a d → d ∉ inner ∪ tip := by
  constructor
  · intro ha
    exact ⟨.inr ha, fun d hd hu => h.disjoint a (h.closed d hu a hd) ha⟩
  · rintro ⟨hu, hd⟩
    refine hu.resolve_left fun ha => ?_
    obtain ⟨d, hdu, he⟩ := h.covered a ha
    exact hd d he hdu

/-- All that a node in use depends on is in use. -/
theorem closed_trans (h : Frontier edge inner tip) {a d : α} (hd : d ∈ inner ∪ tip)
    (hp : Relation.TransGen edge a d) : a ∈ inner := by
  induction hp using Relation.TransGen.head_induction_on with
  | single he => exact h.closed d hd _ he
  | head he _ ih => exact h.closed _ (.inl ih) _ he

/-- The edges into unused nodes do not matter. -/
theorem congr (h : Frontier edge inner tip)
    (he : ∀ d ∈ inner ∪ tip, ∀ a, edge' a d ↔ edge a d) : Frontier edge' inner tip where
  closed d hd a ha := h.closed d hd a ((he d hd a).mp ha)
  covered a ha := by
    obtain ⟨d, hd, had⟩ := h.covered a ha
    exact ⟨d, hd, (he d hd a).mpr had⟩
  disjoint := h.disjoint

/-- A new tip, behind nodes in use. -/
theorem add (h : Frontier edge inner tip) {x : α} (hx : x ∉ inner ∪ tip)
    (hp : ∀ a, edge a x → a ∈ inner ∪ tip) :
    Frontier edge (inner ∪ {a | edge a x}) (insert x (tip \ {a | edge a x})) := by
  have hself : ¬edge x x := fun he => hx (hp x he)
  have hxin : x ∉ inner := fun hi => hx (.inl hi)
  constructor
  · rintro d ((hd | hd) | (rfl | hd)) a ha
    · exact .inl (h.closed d (.inl hd) a ha)
    · exact .inl (h.closed d (hp d hd) a ha)
    · exact .inr ha
    · exact .inl (h.closed d (.inr hd.1) a ha)
  · rintro a (ha | ha)
    · obtain ⟨d, hd, he⟩ := h.covered a ha
      refine ⟨d, ?_, he⟩
      by_cases hdx : edge d x
      · exact .inl (.inr hdx)
      · exact hd.imp .inl fun ht => .inr ⟨ht, hdx⟩
    · exact ⟨x, .inr (.inl rfl), ha⟩
  · rintro a (ha | ha) (rfl | ht)
    · exact hxin ha
    · exact h.disjoint a ha ht.1
    · exact hself ha
    · exact ht.2 ha

/-- `gone` can be taken away and the nodes right before it become tips, if nothing else in use
follows either. -/
theorem remove (h : Frontier edge inner tip) {gone : Set α} (hg : gone ⊆ inner ∪ tip)
    (hsafe : ∀ d ∈ gone, ∀ a, a = d ∨ edge a d → ∀ f ∈ inner ∪ tip, edge a f → f ∈ gone) :
    Frontier edge ((inner \ gone) \ {a | ∃ d ∈ gone, edge a d})
      ((tip \ gone) ∪ {a | a ∉ gone ∧ ∃ d ∈ gone, edge a d}) := by
  -- what stays in use follows neither what is gone nor what is before it
  have hstay : ∀ f ∈ inner ∪ tip, f ∉ gone → ∀ a, edge a f →
      a ∉ gone ∧ ¬∃ d ∈ gone, edge a d := by
    intro f hf hfg a ha
    refine ⟨fun hag => hfg (hsafe a hag a (.inl rfl) f hf ha), ?_⟩
    rintro ⟨d, hd, had⟩
    exact hfg (hsafe d hd a (.inr had) f hf ha)
  have huse : ∀ d, d ∈ (inner \ gone) \ {a | ∃ d ∈ gone, edge a d} ∪
      ((tip \ gone) ∪ {a | a ∉ gone ∧ ∃ d ∈ gone, edge a d}) ↔ d ∈ inner ∪ tip ∧ d ∉ gone := by
    intro d
    constructor
    · rintro (hd | hd | ⟨hdg, f, hf, he⟩)
      · exact ⟨.inl hd.1.1, hd.1.2⟩
      · exact ⟨.inr hd.1, hd.2⟩
      · exact ⟨.inl (h.closed f (hg hf) d he), hdg⟩
    · rintro ⟨hd, hdg⟩
      by_cases hb : ∃ f ∈ gone, edge d f
      · exact .inr (.inr ⟨hdg, hb⟩)
      · exact hd.imp (fun hi => ⟨⟨hi, hdg⟩, hb⟩) fun ht => .inl ⟨ht, hdg⟩
  constructor
  · intro d hd a ha
    obtain ⟨hd, hdg⟩ := (huse d).mp hd
    obtain ⟨hag, hab⟩ := hstay d hd hdg a ha
    exact ⟨⟨h.closed d hd a ha, hag⟩, hab⟩
  · rintro a ⟨⟨ha, hag⟩, hab⟩
    obtain ⟨f, hf, he⟩ := h.covered a ha
    have hfg : f ∉ gone := fun hfg => hab ⟨f, hfg, he⟩
    exact ⟨f, (huse f).mpr ⟨hf, hfg⟩, he⟩
  · rintro a ⟨⟨ha, hag⟩, hab⟩ (ht | ht)
    · exact h.disjoint a ha ht.1
    · exact hab ht.2

end Frontier
end Vds
