import Mathlib

/-! Three-way comparisons whose result is a number, on a set of values: one number after another
decides, as in a function that returns the first difference. -/

namespace Vds.Library

variable {α : Type}

/-- The results of `c` order the values of `K`, where those with the result zero are alike. -/
structure Comparison (c : α → α → Int) (K : Set α) : Prop where
  swap : ∀ a ∈ K, ∀ b ∈ K, (c a b < 0 ↔ 0 < c b a)
  trans : ∀ a ∈ K, ∀ b ∈ K, ∀ d ∈ K, c a b ≤ 0 → c b d ≤ 0 → c a d ≤ 0

/-- The result that decides: the second one if the first one is zero. -/
def firstDifference (r r' : Int) : Int := if r ≠ 0 then r else r'

theorem firstDifference_of_ne {r : Int} (r' : Int) (h : r ≠ 0) : firstDifference r r' = r := if_pos h

theorem firstDifference_of_eq {r : Int} (r' : Int) (h : r = 0) : firstDifference r r' = r' :=
  if_neg (not_not.2 h)

theorem firstDifference_eq_zero {r r' : Int} : firstDifference r r' = 0 ↔ r = 0 ∧ r' = 0 := by
  by_cases h : r = 0
  · rw [firstDifference_of_eq _ h]
    exact (and_iff_right h).symm
  · rw [firstDifference_of_ne _ h]
    exact (and_iff_left_of_imp fun hr => absurd hr h).symm

theorem firstDifference_zero (r : Int) : firstDifference r 0 = r := by
  by_cases h : r = 0
  · rw [firstDifference_of_eq _ h, h]
  · rw [firstDifference_of_ne _ h]

section

variable {c d : α → α → Int} {K : Set α}

theorem Comparison.eq_zero_comm (h : Comparison c K) {a b : α} (ha : a ∈ K) (hb : b ∈ K) :
    c a b = 0 ↔ c b a = 0 := by
  have hab := h.swap a ha b hb
  have hba := h.swap b hb a ha
  omega

theorem Comparison.refl (h : Comparison c K) {a : α} (ha : a ∈ K) : c a a = 0 := by
  have hswap := h.swap a ha a ha
  omega

theorem Comparison.congr (h : Comparison c K) (heq : ∀ a ∈ K, ∀ b ∈ K, c a b = d a b) :
    Comparison d K := by
  refine ⟨?_, ?_⟩
  · intro a ha b hb
    rw [← heq a ha b hb, ← heq b hb a ha]
    exact h.swap a ha b hb
  · intro a ha b hb e he hab hbe
    rw [← heq a ha b hb] at hab
    rw [← heq b hb e he] at hbe
    rw [← heq a ha e he]
    exact h.trans a ha b hb e he hab hbe

theorem Comparison.mono (h : Comparison c K) {L : Set α} (hsub : L ⊆ K) : Comparison c L :=
  ⟨fun a ha b hb => h.swap a (hsub ha) b (hsub hb),
    fun a ha b hb e he => h.trans a (hsub ha) b (hsub hb) e (hsub he)⟩

/-- A difference of numbers that the values have. -/
theorem comparison_sub (f : α → Int) (K : Set α) : Comparison (fun a b => f a - f b) K := by
  refine ⟨fun a _ b _ => ?_, fun a _ b _ e _ => ?_⟩
  · omega
  · omega

/-- A comparison through a function of the values. -/
theorem Comparison.comap {β : Type} {f : β → α} {L : Set β} (h : Comparison c K)
    (hf : ∀ b ∈ L, f b ∈ K) : Comparison (fun a b => c (f a) (f b)) L :=
  ⟨fun a ha b hb => h.swap _ (hf a ha) _ (hf b hb),
    fun a ha b hb e he => h.trans _ (hf a ha) _ (hf b hb) _ (hf e he)⟩

/-- The second comparison has to order only values that are alike for the first one. -/
theorem Comparison.firstDifference (h : Comparison c K)
    (hd : ∀ a ∈ K, Comparison d {b ∈ K | c a b = 0}) :
    Comparison (fun a b => firstDifference (c a b) (d a b)) K := by
  have halike : ∀ a ∈ K, ∀ b ∈ K, ∀ e ∈ K, c a b = 0 → c b e = 0 → c a e = 0 := by
    intro a ha b hb e he hab hbe
    have hle := h.trans a ha b hb e he hab.le hbe.le
    have hge := h.trans e he b hb a ha ((h.eq_zero_comm hb he).1 hbe).le
      ((h.eq_zero_comm ha hb).1 hab).le
    have hswap := h.swap a ha e he
    omega
  refine ⟨?_, ?_⟩
  · intro a ha b hb
    by_cases hab : c a b = 0
    · rw [firstDifference_of_eq _ hab, firstDifference_of_eq _ ((h.eq_zero_comm ha hb).1 hab)]
      exact (hd a ha).swap a ⟨ha, h.refl ha⟩ b ⟨hb, hab⟩
    · rw [firstDifference_of_ne _ hab,
        firstDifference_of_ne _ (mt (h.eq_zero_comm ha hb).2 hab)]
      exact h.swap a ha b hb
  · intro a ha b hb e he hle hle'
    by_cases hab : c a b = 0
    · by_cases hbe : c b e = 0
      · -- all three are alike for the first comparison
        have hae := halike a ha b hb e he hab hbe
        rw [firstDifference_of_eq _ hab] at hle
        rw [firstDifference_of_eq _ hbe] at hle'
        rw [firstDifference_of_eq _ hae]
        exact (hd a ha).trans a ⟨ha, h.refl ha⟩ b ⟨hb, hab⟩ e ⟨he, hae⟩ hle hle'
      · rw [firstDifference_of_ne _ hbe] at hle'
        have hae : c a e ≠ 0 := fun hae =>
          hbe (halike b hb a ha e he ((h.eq_zero_comm ha hb).1 hab) hae)
        rw [firstDifference_of_ne _ hae]
        exact h.trans a ha b hb e he hab.le hle'
    · rw [firstDifference_of_ne _ hab] at hle
      have hbe : c b e ≤ 0 := by
        by_cases hbe : c b e = 0
        · exact hbe.le
        · rwa [firstDifference_of_ne _ hbe] at hle'
      have hae : c a e ≠ 0 := by
        intro hae
        have hba := h.trans b hb e he a ha hbe ((h.eq_zero_comm ha he).1 hae).le
        have hswap := h.swap a ha b hb
        omega
      rw [firstDifference_of_ne _ hae]
      exact h.trans a ha b hb e he hle hbe

/-- Trees that are kept in the order of a comparison may use it. -/
theorem Comparison.transCmp (h : Comparison c K) :
    Std.TransCmp fun a b : K => compare (c a b) 0 where
  eq_swap {a b} := by
    have hswap := h.swap a a.2 b b.2
    have hswap' := h.swap b b.2 a a.2
    obtain hlt | heq | hgt := lt_trichotomy (c a b) 0
    · rw [compare_lt_iff_lt.2 hlt, compare_gt_iff_gt.2 (hswap.1 hlt)]
      rfl
    · rw [compare_eq_iff_eq.2 heq, compare_eq_iff_eq.2 ((h.eq_zero_comm a.2 b.2).1 heq)]
      rfl
    · rw [compare_gt_iff_gt.2 hgt, compare_lt_iff_lt.2 (hswap'.2 hgt)]
      rfl
  isLE_trans {a b e} := by
    simp only [← Ordering.ne_gt_iff_isLE, compare_le_iff_le]
    exact h.trans a a.2 b b.2 e e.2

theorem Comparison.lawfulEqCmp (h : Comparison c K)
    (hzero : ∀ a ∈ K, ∀ b ∈ K, c a b = 0 → a = b) :
    Std.LawfulEqCmp fun a b : K => compare (c a b) 0 where
  compare_self {a} := compare_eq_iff_eq.2 (h.refl a.2)
  eq_of_compare {a b} heq := Subtype.ext (hzero a a.2 b b.2 (compare_eq_iff_eq.1 heq))

end

end Vds.Library
