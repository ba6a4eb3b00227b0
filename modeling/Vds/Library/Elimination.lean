import Mathlib

/-! Elimination without pivoting, with the inverse built next to the matrix: it succeeds whenever
every leading block of the matrix is regular. -/

namespace Vds

section Loops

variable {β γ : Type}

theorem foldl_rises {k : ℕ} {P : ℕ → β → Prop} {f : β → Fin k → β} {b : β} (h₀ : P 0 b)
    (hf : ∀ (i : Fin k) b, P i b → P (i + 1) (f b i)) : P k (Fin.foldl k f b) := by
  induction k with
  | zero => rwa [Fin.foldl_zero]
  | succ k ih =>
    rw [Fin.foldl_succ_last]
    exact hf (Fin.last k) _ (ih fun i b hb => hf i.castSucc b hb)

theorem foldr_falls {k : ℕ} {P : ℕ → β → Prop} {f : Fin k → β → β} {b : β} (hk : P k b)
    (hf : ∀ (i : Fin k) b, P (i + 1) b → P i (f i b)) : P 0 (Fin.foldr k f b) := by
  induction k generalizing b with
  | zero => rwa [Fin.foldr_zero]
  | succ k ih =>
    rw [Fin.foldr_succ_last]
    exact ih (hf (Fin.last k) b hk) fun i b hb => hf i.castSucc b hb

theorem foldl_map {k : ℕ} {f : β → Fin k → β} {f' : γ → Fin k → γ} {g : β → γ}
    (h : ∀ b i, g (f b i) = f' (g b) i) (b : β) : g (Fin.foldl k f b) = Fin.foldl k f' (g b) := by
  induction k generalizing b with
  | zero => rw [Fin.foldl_zero, Fin.foldl_zero]
  | succ k ih =>
    have hsucc : ∀ b (i : Fin k),
        g ((fun b i => f b i.succ) b i) = (fun b i => f' b i.succ) (g b) i := fun b i => h b i.succ
    rw [Fin.foldl_succ, Fin.foldl_succ, ← h]
    exact ih hsucc _

theorem foldr_map {k : ℕ} {f : Fin k → β → β} {f' : Fin k → γ → γ} {g : β → γ}
    (h : ∀ i b, g (f i b) = f' i (g b)) (b : β) : g (Fin.foldr k f b) = Fin.foldr k f' (g b) := by
  induction k generalizing b with
  | zero => rw [Fin.foldr_zero, Fin.foldr_zero]
  | succ k ih =>
    have hsucc : ∀ (i : Fin k) b,
        g ((fun i => f i.succ) i b) = (fun i => f' i.succ) i (g b) := fun i b => h i.succ b
    rw [Fin.foldr_succ, Fin.foldr_succ, h]
    exact congrArg _ (ih hsucc b)

end Loops

namespace Elimination

variable {K : Type} [Field K] {k : ℕ}

/-- Row `i` of `M` clears column `i` in the rows below it; `N` goes through the same steps. -/
def below (M : Matrix (Fin k) (Fin k) K) (i : Fin k) (N : Matrix (Fin k) (Fin k) K) :
    Matrix (Fin k) (Fin k) K :=
  fun r c => if i < r then M i i * N r c - M r i * N i c else N r c

/-- Each row is divided by its entry on the diagonal of `M`. -/
def scaled (M N : Matrix (Fin k) (Fin k) K) : Matrix (Fin k) (Fin k) K :=
  fun r c => N r c / M r r

/-- Row `i` clears column `i` of `M` in the rows above it. -/
def above (M : Matrix (Fin k) (Fin k) K) (i : Fin k) (N : Matrix (Fin k) (Fin k) K) :
    Matrix (Fin k) (Fin k) K :=
  fun r c => if r < i then N r c - N i c * M r i else N r c

theorem below_mul (M N V : Matrix (Fin k) (Fin k) K) (i : Fin k) :
    below M i N * V = below M i (N * V) := by
  ext r c
  simp only [Matrix.mul_apply, below]
  split_ifs
  · rw [Finset.mul_sum, Finset.mul_sum, ← Finset.sum_sub_distrib]
    exact Finset.sum_congr rfl fun j _ => by ring
  · rfl

theorem scaled_mul (M N V : Matrix (Fin k) (Fin k) K) : scaled M N * V = scaled M (N * V) := by
  ext r c
  simp only [Matrix.mul_apply, scaled]
  rw [Finset.sum_div]
  exact Finset.sum_congr rfl fun j _ => by ring

theorem above_mul (M N V : Matrix (Fin k) (Fin k) K) (i : Fin k) :
    above M i N * V = above M i (N * V) := by
  ext r c
  simp only [Matrix.mul_apply, above]
  split_ifs
  · rw [Finset.sum_mul, ← Finset.sum_sub_distrib]
    exact Finset.sum_congr rfl fun j _ => by ring
  · rfl

/-! ### Leading blocks -/

def leading (M : Matrix (Fin k) (Fin k) K) {s : ℕ} (hs : s ≤ k) : Matrix (Fin s) (Fin s) K :=
  M.submatrix (Fin.castLE hs) (Fin.castLE hs)

/-- No leading block has a kernel. -/
def LeadingRegular (M : Matrix (Fin k) (Fin k) K) : Prop :=
  ∀ (s : ℕ) (hs : s ≤ k) (x : Fin s → K), (leading M hs).mulVec x = 0 → x = 0

theorem leading_mulVec (M : Matrix (Fin k) (Fin k) K) {s : ℕ} (hs : s ≤ k) (x : Fin s → K)
    (r : Fin s) : (leading M hs).mulVec x r = ∑ c, M (Fin.castLE hs r) (Fin.castLE hs c) * x c :=
  rfl

theorem leadingRegular_vandermonde {n : Fin k → K} (hn : Function.Injective n) :
    LeadingRegular (Matrix.vandermonde n) := by
  intro s hs x hx
  have hv : leading (Matrix.vandermonde n) hs = Matrix.vandermonde (n ∘ Fin.castLE hs) := rfl
  rw [hv] at hx
  apply Matrix.eq_zero_of_mulVec_eq_zero _ hx
  exact Matrix.det_vandermonde_ne_zero_iff.mpr (hn.comp (Fin.castLE_injective hs))

theorem leadingRegular_below {M : Matrix (Fin k) (Fin k) K} (hM : LeadingRegular M) {i : Fin k}
    (hi : M i i ≠ 0) : LeadingRegular (below M i M) := by
  intro s hs x hx
  apply hM s hs x
  have hrow : ∀ r, (leading (below M i M) hs).mulVec x r = 0 := congrFun hx
  have hkept : ∀ r : Fin s, ¬ i < Fin.castLE hs r → (leading M hs).mulVec x r = 0 := by
    intro r hr
    rw [← hrow r, leading_mulVec, leading_mulVec]
    simp only [below, if_neg hr]
  funext r
  by_cases hr : i < Fin.castLE hs r
  · have hlt : (i : ℕ) < s := lt_trans hr r.isLt
    have hpivot := hkept ⟨i, hlt⟩ (lt_irrefl i)
    rw [leading_mulVec] at hpivot
    have hcleared := hrow r
    rw [leading_mulVec] at hcleared
    simp only [below, if_pos hr, sub_mul, Finset.sum_sub_distrib, mul_assoc] at hcleared
    rw [← Finset.mul_sum, ← Finset.mul_sum] at hcleared
    have hzero : ∑ c, M i (Fin.castLE hs c) * x c = 0 := hpivot
    rw [hzero, mul_zero, sub_zero] at hcleared
    exact (mul_eq_zero.mp hcleared).resolve_left hi
  · exact hkept r hr

/-- The first `i` columns are zero under the diagonal. -/
def Cleared (M : Matrix (Fin k) (Fin k) K) (i : ℕ) : Prop :=
  ∀ r c : Fin k, (c : ℕ) < i → c < r → M r c = 0

theorem pivot_ne_zero {M : Matrix (Fin k) (Fin k) K} (hM : LeadingRegular M) {i : Fin k}
    (hc : Cleared M i) : M i i ≠ 0 := by
  intro hi
  have hs : (i : ℕ) + 1 ≤ k := i.isLt
  have hdet : (leading M hs).det = 0 := by
    apply Matrix.det_eq_zero_of_row_eq_zero (Fin.last (i : ℕ))
    intro c
    rcases Nat.lt_or_ge c i with h | h
    · exact hc i (Fin.castLE hs c) h h
    · have hci : (c : ℕ) = i := by omega
      have hcast : Fin.castLE hs c = i := Fin.ext hci
      exact (congrArg (M i) hcast).trans hi
  obtain ⟨x, hx, hmul⟩ := Matrix.exists_mulVec_eq_zero_iff.mpr hdet
  exact hx (hM _ hs x hmul)

theorem cleared_below {M : Matrix (Fin k) (Fin k) K} {i : Fin k} (hc : Cleared M i) :
    Cleared (below M i M) (i + 1) := by
  intro r c hci hcr
  rw [below]
  rcases Nat.lt_or_ge c i with h | h
  · have hrow : M r c = 0 := hc r c h hcr
    have hpivot : M i c = 0 := hc i c h h
    rw [hrow, hpivot, mul_zero, mul_zero, sub_zero, ite_self]
  · have hci' : c = i := Fin.ext (by omega)
    subst hci'
    rw [if_pos hcr]
    ring

/-! ### The runs -/

/-- The matrix and what has become of the unit matrix beside it. -/
structure Tableau (K : Type) (k : ℕ) where
  left : Matrix (Fin k) (Fin k) K
  right : Matrix (Fin k) (Fin k) K

namespace Tableau

def clearBelow (T : Tableau K k) (i : Fin k) : Tableau K k :=
  ⟨below T.left i T.left, below T.left i T.right⟩

def scale (T : Tableau K k) : Tableau K k := ⟨scaled T.left T.left, scaled T.left T.right⟩

def clearAbove (i : Fin k) (T : Tableau K k) : Tableau K k :=
  ⟨above T.left i T.left, above T.left i T.right⟩

def forward (T : Tableau K k) : Tableau K k := Fin.foldl k clearBelow T

def backward (T : Tableau K k) : Tableau K k := Fin.foldr k clearAbove T

/-- The right side turns `V` into the left side. -/
def Solves (T : Tableau K k) (V : Matrix (Fin k) (Fin k) K) : Prop := T.right * V = T.left

variable {T : Tableau K k} {V : Matrix (Fin k) (Fin k) K}

theorem solves_clearBelow (h : T.Solves V) (i : Fin k) : (T.clearBelow i).Solves V := by
  unfold Solves clearBelow
  rw [below_mul, h]

theorem solves_scale (h : T.Solves V) : T.scale.Solves V := by
  unfold Solves scale
  rw [scaled_mul, h]

theorem solves_clearAbove (h : T.Solves V) (i : Fin k) : (T.clearAbove i).Solves V := by
  unfold Solves clearAbove
  rw [above_mul, h]

/-- From column `i` on the left side is the unit matrix, and before it an upper triangle. -/
structure Unit (T : Tableau K k) (i : ℕ) : Prop where
  cleared : Cleared T.left k
  diagonal : ∀ r, T.left r r = 1
  columns : ∀ r c : Fin k, i ≤ c → r < c → T.left r c = 0

theorem unit_scale (hr : LeadingRegular T.left) (hc : Cleared T.left k) : T.scale.Unit k where
  cleared r c hck hcr := by
    change T.left r c / T.left r r = 0
    rw [hc r c hck hcr, zero_div]
  diagonal r := div_self (pivot_ne_zero hr fun r' c' hc' hcr' => hc r' c' c'.isLt hcr')
  columns r c hc' _ := absurd c.isLt (Nat.not_lt.mpr hc')

theorem unit_clearAbove {i : Fin k} (h : T.Unit (i + 1)) : (T.clearAbove i).Unit i where
  cleared r c hck hcr := by
    change (if r < i then T.left r c - T.left i c * T.left r i else T.left r c) = 0
    rw [h.cleared r c hck hcr]
    split_ifs with hri
    · rw [h.cleared i c hck (hcr.trans hri), zero_mul, sub_zero]
    · rfl
  diagonal r := by
    change (if r < i then T.left r r - T.left i r * T.left r i else T.left r r) = 1
    split_ifs with hri
    · rw [h.cleared i r r.isLt hri, zero_mul, sub_zero, h.diagonal]
    · exact h.diagonal r
  columns r c hic hrc := by
    change (if r < i then T.left r c - T.left i c * T.left r i else T.left r c) = 0
    rcases eq_or_lt_of_le hic with h' | h'
    · have hc : c = i := Fin.ext h'.symm
      subst hc
      rw [if_pos hrc, h.diagonal, one_mul, sub_self]
    · rw [h.columns r c h' hrc, h.columns i c h' h', zero_mul, sub_zero, ite_self]

theorem left_eq_one (h : T.Unit 0) : T.left = 1 := by
  ext r c
  rcases lt_trichotomy r c with hrc | rfl | hrc
  · rw [h.columns r c (Nat.zero_le _) hrc, Matrix.one_apply_ne hrc.ne]
  · rw [h.diagonal, Matrix.one_apply_eq]
  · rw [h.cleared r c c.isLt hrc, Matrix.one_apply_ne hrc.ne']

theorem forward_spec (hs : T.Solves V) (hr : LeadingRegular T.left) :
    T.forward.Solves V ∧ LeadingRegular T.forward.left ∧ Cleared T.forward.left k := by
  apply foldl_rises
    (P := fun i (T : Tableau K k) => T.Solves V ∧ LeadingRegular T.left ∧ Cleared T.left i)
  · exact ⟨hs, hr, fun _ _ h _ => absurd h (Nat.not_lt_zero _)⟩
  · rintro i T ⟨hs, hr, hc⟩
    exact ⟨solves_clearBelow hs i, leadingRegular_below hr (pivot_ne_zero hr hc),
      cleared_below hc⟩

theorem backward_spec (hs : T.Solves V) (hu : T.Unit k) : T.backward.right * V = 1 := by
  have hend : T.backward.Solves V ∧ T.backward.Unit 0 := by
    apply foldr_falls (P := fun i (T : Tableau K k) => T.Solves V ∧ T.Unit i)
    · exact ⟨hs, hu⟩
    · exact fun i _ h => ⟨solves_clearAbove h.1 i, unit_clearAbove h.2⟩
  exact hend.1.trans (left_eq_one hend.2)

/-- The right side ends as the inverse of the matrix. -/
theorem backward_scale_forward (hs : T.Solves V) (hr : LeadingRegular T.left) :
    T.forward.scale.backward.right * V = 1 := by
  obtain ⟨hs', hr', hc'⟩ := forward_spec hs hr
  exact backward_spec (solves_scale hs') (unit_scale hr' hc')

end Tableau
end Elimination
end Vds
