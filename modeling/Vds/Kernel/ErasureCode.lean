import Vds.Kernel.Chunk

/-! The matrix of `chunk_restore` is the inverse of the generators' matrix, so that any replicas
with distinct indexes, as many as a row has cells, give the data back. -/

namespace Vds

open GfMath (toField Field16)

theorem toField_math_mul (a b : Gf16) : toField (math.mul a b) = toField a * toField b :=
  GfMath.toField_mul a b

theorem toField_multiplier (n : Gf16) (j : Nat) : toField (multiplier n j) = toField n ^ j := by
  induction j with
  | zero => rw [pow_zero]; rfl
  | succ j ih => rw [multiplier, toField_math_mul, ih, pow_succ]

theorem toField_eq_zero {a : Gf16} : toField a = 0 ↔ a = 0 :=
  ⟨fun h => GfMath.toField_injective h, fun h => h ▸ rfl⟩

/-! ### The matrices -/

namespace Multipliers

open Elimination

variable {k : Nat}

def image (rows : Fin k → Fin k → Gf16) : Matrix (Fin k) (Fin k) Field16 :=
  fun r c => toField (rows r c)

def tableau (st : Multipliers k) : Tableau Field16 k := ⟨image st.left, image st.multipliers⟩

theorem tableau_prepare (n : Fin k → UInt16) :
    (prepare n).tableau = ⟨Matrix.vandermonde fun i => toField (cell (n i)), 1⟩ := by
  have hleft : image (prepare n).left = Matrix.vandermonde fun i => toField (cell (n i)) := by
    funext r c
    exact toField_multiplier _ _
  have hright : image (prepare n).multipliers = 1 := by
    funext r c
    change toField (if r = c then Gf16.one else 0) = _
    rw [Matrix.one_apply]
    split_ifs <;> rfl
  rw [tableau, hleft, hright]

/-- The rows before `t` have been through row `i`'s step, the others not yet. -/
def ForwardUpTo (M : Matrix (Fin k) (Fin k) Field16) (i : Fin k)
    (N : Matrix (Fin k) (Fin k) Field16) (t : Nat) (rows : Fin k → Fin k → Gf16) : Prop :=
  ∀ r c, image rows r c = if (r : Nat) < t then below M i N r c else N r c

theorem forwardUpTo_combine {M N : Matrix (Fin k) (Fin k) Field16} {i j : Fin k} (hij : i < j)
    {rows : Fin k → Fin k → Gf16} {m1 m2 : Gf16} (h₁ : toField m1 = M i i)
    (h₂ : toField m2 = M j i) (h : ForwardUpTo M i N j rows) :
    ForwardUpTo M i N (j + 1) (combine m1 m2 i j rows) := by
  intro r c
  have hi : image rows i c = N i c := by
    rw [h i c, below, if_neg (lt_irrefl i), ite_self]
  by_cases hr : r = j
  · subst hr
    have hrow : image rows r c = N r c := by rw [h r c, if_neg (lt_irrefl _)]
    rw [if_pos (Nat.lt_succ_self _), below, if_pos hij, image, combine, Function.update_self,
      GfMath.toField_sub, toField_math_mul, toField_math_mul, h₁, h₂]
    exact congrArg₂ _ (congrArg _ hrow) (congrArg _ hi)
  · have hne : (r : Nat) ≠ j := fun hc => hr (Fin.ext hc)
    have hiff : (r : Nat) < j + 1 ↔ (r : Nat) < j := by omega
    rw [image, combine, Function.update_of_ne hr]
    exact (h r c).trans (if_congr hiff rfl rfl).symm

theorem forwardUpTo_skip {M N : Matrix (Fin k) (Fin k) Field16} {i j : Fin k} (hij : ¬ i < j)
    {rows : Fin k → Fin k → Gf16} (h : ForwardUpTo M i N j rows) :
    ForwardUpTo M i N (j + 1) rows := by
  intro r c
  rw [h r c]
  split_ifs with h₁ h₂ h₂
  · rfl
  · omega
  · have hr : r = j := Fin.ext (by omega)
    rw [below, hr, if_neg hij]
  · rfl

theorem tableau_firstRow (st : Multipliers k) (i : Fin k) :
    (firstRow st i).tableau = st.tableau.clearBelow i := by
  let M := image st.left
  let N := image st.multipliers
  have hloop : ForwardUpTo M i M k (firstRow st i).left ∧
      ForwardUpTo M i N k (firstRow st i).multipliers := by
    apply foldl_rises (P := fun t (st' : Multipliers k) =>
      ForwardUpTo M i M t st'.left ∧ ForwardUpTo M i N t st'.multipliers)
    · exact ⟨fun r c => (if_neg (Nat.not_lt_zero _)).symm,
        fun r c => (if_neg (Nat.not_lt_zero _)).symm⟩
    · rintro j st' ⟨hl, hm⟩
      split_ifs with hij
      · have h₂ : toField (st'.left j i) = M j i := by
          have h := hl j i
          rwa [if_neg (lt_irrefl _)] at h
        exact ⟨forwardUpTo_combine hij rfl h₂ hl, forwardUpTo_combine hij rfl h₂ hm⟩
      · exact ⟨forwardUpTo_skip hij hl, forwardUpTo_skip hij hm⟩
  obtain ⟨hl, hm⟩ := hloop
  have hleft : image (firstRow st i).left = below M i M := by
    funext r c
    rw [hl r c, if_pos r.isLt]
  have hright : image (firstRow st i).multipliers = below M i N := by
    funext r c
    rw [hm r c, if_pos r.isLt]
  rw [tableau, hleft, hright]
  rfl

theorem tableau_first (st : Multipliers k) : st.first.tableau = st.tableau.forward :=
  foldl_map tableau_firstRow st

theorem tableau_divide {st : Multipliers k} (hr : LeadingRegular (image st.left))
    (hc : Cleared (image st.left) k) : st.divide.tableau = st.tableau.scale := by
  have hpivot : ∀ i, st.left i i ≠ 0 := by
    intro i h
    apply pivot_ne_zero hr (fun r c _ hcr => hc r c c.isLt hcr)
    exact toField_eq_zero.mpr h
  have hleft : image st.divide.left = scaled (image st.left) (image st.left) := by
    funext r c
    change toField (if c < r then st.left r c else math.div (st.left r c) (st.left r r)) = _
    split_ifs with h
    · have hzero : image st.left r c = 0 := hc r c c.isLt h
      rw [scaled, hzero, zero_div]
      exact hzero
    · exact GfMath.toField_div _ (hpivot r)
  have hright : image st.divide.multipliers = scaled (image st.left) (image st.multipliers) := by
    funext r c
    exact GfMath.toField_div _ (hpivot r)
  rw [tableau, hleft, hright]
  rfl

/-- The rows from `t` on have been through row `i`'s step, the others not yet. -/
def BackwardFrom (M : Matrix (Fin k) (Fin k) Field16) (i : Fin k)
    (N : Matrix (Fin k) (Fin k) Field16) (t : Nat) (rows : Fin k → Fin k → Gf16) : Prop :=
  ∀ r c, image rows r c = if t ≤ r then above M i N r c else N r c

theorem backwardFrom_subtract {M N : Matrix (Fin k) (Fin k) Field16} {i j : Fin k} (hij : j < i)
    {rows : Fin k → Fin k → Gf16} {m1 : Gf16} (h₁ : toField m1 = M j i)
    (h : BackwardFrom M i N (j + 1) rows) : BackwardFrom M i N j (subtract m1 i j rows) := by
  intro r c
  have hi : image rows i c = N i c := by
    rw [h i c, above, if_neg (lt_irrefl i), ite_self]
  by_cases hr : r = j
  · subst hr
    have hrow : image rows r c = N r c := by rw [h r c, if_neg (Nat.not_succ_le_self _)]
    rw [if_pos le_rfl, above, if_pos hij, image, subtract, Function.update_self,
      GfMath.toField_sub, toField_math_mul, h₁]
    exact congrArg₂ _ hrow (congrArg (· * M r i) hi)
  · have hne : (r : Nat) ≠ j := fun hc => hr (Fin.ext hc)
    have hiff : (j : Nat) ≤ r ↔ (j : Nat) + 1 ≤ r := by omega
    rw [image, subtract, Function.update_of_ne hr]
    exact (h r c).trans (if_congr hiff rfl rfl).symm

theorem backwardFrom_skip {M N : Matrix (Fin k) (Fin k) Field16} {i j : Fin k} (hij : ¬ j < i)
    {rows : Fin k → Fin k → Gf16} (h : BackwardFrom M i N (j + 1) rows) :
    BackwardFrom M i N j rows := by
  intro r c
  rw [h r c]
  split_ifs with h₁ h₂ h₂
  · rfl
  · omega
  · have hr : r = j := Fin.ext (by omega)
    rw [above, hr, if_neg hij]
  · rfl

theorem tableau_reverseRow (i : Fin k) (st : Multipliers k) :
    (reverseRow i st).tableau = st.tableau.clearAbove i := by
  let M := image st.left
  let N := image st.multipliers
  have hloop : BackwardFrom M i M 0 (reverseRow i st).left ∧
      BackwardFrom M i N 0 (reverseRow i st).multipliers := by
    apply foldr_falls (P := fun t (st' : Multipliers k) =>
      BackwardFrom M i M t st'.left ∧ BackwardFrom M i N t st'.multipliers)
    · exact ⟨fun r c => (if_neg (Nat.not_le.mpr r.isLt)).symm,
        fun r c => (if_neg (Nat.not_le.mpr r.isLt)).symm⟩
    · rintro j st' ⟨hl, hm⟩
      split_ifs with hij
      · have h₁ : toField (st'.left j i) = M j i := by
          have h := hl j i
          rwa [if_neg (Nat.not_succ_le_self _)] at h
        exact ⟨backwardFrom_subtract hij h₁ hl, backwardFrom_subtract hij h₁ hm⟩
      · exact ⟨backwardFrom_skip hij hl, backwardFrom_skip hij hm⟩
  obtain ⟨hl, hm⟩ := hloop
  have hleft : image (reverseRow i st).left = above M i M := by
    funext r c
    rw [hl r c, if_pos (Nat.zero_le _)]
  have hright : image (reverseRow i st).multipliers = above M i N := by
    funext r c
    rw [hm r c, if_pos (Nat.zero_le _)]
  rw [tableau, hleft, hright]
  rfl

theorem tableau_reverse (st : Multipliers k) : st.reverse.tableau = st.tableau.backward :=
  foldr_map tableau_reverseRow st

/-- Distinct indexes give the inverse of their Vandermonde matrix. -/
theorem multipliers_inverse {n : Fin k → UInt16} (hn : Function.Injective n) :
    image (prepare n).first.divide.reverse.multipliers *
      Matrix.vandermonde (fun i => toField (cell (n i))) = 1 := by
  have hpoints : Function.Injective fun i => toField (cell (n i)) := by
    intro i j h
    apply hn
    exact UInt16.toBitVec_inj.mp (congrArg Gf16.bits (GfMath.toField_injective h))
  let V := Matrix.vandermonde fun i => toField (cell (n i))
  have hsolves : (prepare n).tableau.Solves V := by
    rw [tableau_prepare]
    exact Matrix.one_mul V
  have hregular : LeadingRegular (prepare n).tableau.left := by
    rw [tableau_prepare]
    exact leadingRegular_vandermonde hpoints
  obtain ⟨_, hr, hc⟩ := Tableau.forward_spec hsolves hregular
  have hend := Tableau.backward_scale_forward hsolves hregular
  rw [← tableau_first] at hr hc hend
  rw [← tableau_divide hr hc, ← tableau_reverse] at hend
  exact hend

end Multipliers

/-! ### Rows and cells -/

/-- The cells of one row of the data. -/
def rowCells (k : Nat) (data : ConstDataBuffer) (i : Nat) : Fin k → Field16 :=
  fun j => toField (ChunkGenerator.dataItem data (i + 2 * j))

theorem toField_foldl {k : Nat} (f : Fin k → Gf16) (b : Gf16) :
    toField (Fin.foldl k (fun value j => GfMath.add value (f j)) b) =
      toField b + ∑ j, toField (f j) := by
  induction k generalizing b with
  | zero => rw [Fin.foldl_zero, Fin.sum_univ_zero, add_zero]
  | succ k ih => rw [Fin.foldl_succ, ih, GfMath.toField_add, Fin.sum_univ_succ, add_assoc]

theorem toField_rowValue (g : ChunkGenerator) (data : ConstDataBuffer) (i : Nat) :
    toField (g.rowValue data i) =
      ∑ j : Fin g.k, toField (cell g.n) ^ (j : Nat) * rowCells g.k data i j := by
  unfold ChunkGenerator.rowValue
  rw [toField_foldl (fun j => math.mul (multiplier (cell g.n) j) (ChunkGenerator.dataItem data
    (i + 2 * j))), GfMath.toField_zero, zero_add]
  apply Finset.sum_congr rfl
  intro j _
  rw [toField_math_mul, toField_multiplier]
  rfl

/-- Row `i` of the restored data, from the cells of row `i` of the replicas. -/
theorem sum_multipliers {k : Nat} {n : Fin k → UInt16} (hn : Function.Injective n)
    (data : ConstDataBuffer) (start : Nat) (i : Fin k) :
    ∑ j, toField ((ChunkRestore.create n).multipliers i j) *
        toField ((ChunkGenerator.mk k (n j)).rowValue data start) = rowCells k data start i := by
  have hinv := Multipliers.multipliers_inverse hn
  have hrow : ∀ j, toField ((ChunkGenerator.mk k (n j)).rowValue data start) =
      (Matrix.vandermonde fun i => toField (cell (n i))).mulVec (rowCells k data start) j := by
    intro j
    exact toField_rowValue _ _ _
  have hmul := congrArg (fun M => Matrix.mulVec M (rowCells k data start) i) hinv
  simp only [← Matrix.mulVec_mulVec, Matrix.one_mulVec] at hmul
  rw [← hmul]
  exact Finset.sum_congr rfl fun j _ => congrArg _ (hrow j)

/-! ### Bytes -/

theorem putCell_eq (v : Gf16) :
    putCell v = [(UInt16.ofBitVec v.bits >>> 8).toUInt8, (UInt16.ofBitVec v.bits).toUInt8] := rfl

theorem join_putCell (v : BitVec 16) :
    ((UInt16.ofBitVec v >>> 8).toUInt8.toBitVec.setWidth 16) <<< 8 |||
      (UInt16.ofBitVec v).toUInt8.toBitVec.setWidth 16 = v := by
  apply BitVec.eq_of_getLsbD_eq
  intro i hi
  by_cases h : i < 8
  · simp [h, hi]
  · have hlow : i - 8 < 8 := by omega
    have hback : 8 + (i - 8) = i := by omega
    simp [h, hi, hlow, hback]

def joined (high low : UInt8) : BitVec 16 :=
  (0 ||| high.toBitVec.setWidth 16) <<< 8 ||| low.toBitVec.setWidth 16

theorem putCell_joined (high low : UInt8) : putCell ⟨joined high low⟩ = [high, low] := by
  have hhigh : (UInt16.ofBitVec (joined high low) >>> 8).toUInt8 = high := by
    apply UInt8.eq_of_toBitVec_eq
    apply BitVec.eq_of_getLsbD_eq
    intro i hi
    have h : 8 + i < 16 := by omega
    simp [joined, hi, h]
  have hlow : (UInt16.ofBitVec (joined high low)).toUInt8 = low := by
    apply UInt8.eq_of_toBitVec_eq
    apply BitVec.eq_of_getLsbD_eq
    intro i hi
    simp [joined, hi]
  rw [putCell_eq, hhigh, hlow]

theorem byteAt_append_left (a b : ConstDataBuffer) (index : Nat) (h : index < a.length) :
    ChunkRestore.byteAt (a ++ b) index = .ok (a[index].toBitVec.setWidth 16) := by
  have hlt : index < (a ++ b).length := by
    rw [List.length_append]
    omega
  rw [ChunkRestore.byteAt, dif_pos hlt]
  simp only [List.get_eq_getElem, List.getElem_append_left h]

theorem byteAt_append_right (a b : ConstDataBuffer) (index : Nat) :
    ChunkRestore.byteAt (a ++ b) (a.length + index) = ChunkRestore.byteAt b index := by
  have hlength : (a ++ b).length = a.length + b.length := List.length_append
  by_cases h : index < b.length
  · have hlt : a.length + index < (a ++ b).length := by omega
    rw [ChunkRestore.byteAt, dif_pos hlt, ChunkRestore.byteAt, dif_pos h]
    simp only [List.get_eq_getElem, List.getElem_append_right (Nat.le_add_right _ _),
      Nat.add_sub_cancel_left]
  · have hge : ¬ a.length + index < (a ++ b).length := by omega
    rw [ChunkRestore.byteAt, dif_neg hge, ChunkRestore.byteAt, dif_neg h]

theorem cellAt_putCell (v : Gf16) (rest : ConstDataBuffer) :
    ChunkRestore.cellAt (putCell v ++ rest) 0 = .ok v := by
  have hhigh := byteAt_append_left (putCell v) rest 0 Nat.two_pos
  have hlow := byteAt_append_left (putCell v) rest 1 Nat.one_lt_two
  rw [ChunkRestore.cellAt, hhigh, hlow]
  exact congrArg (fun b => Except.ok (Gf16.mk b)) (join_putCell v.bits)

/-- A buffer made of cells reads as these cells. -/
theorem cellAt_flatMap (cells : List Gf16) (r : Nat) (hr : r < cells.length) :
    ChunkRestore.cellAt (cells.flatMap putCell) (2 * r) = .ok cells[r] := by
  induction cells generalizing r with
  | nil => exact absurd hr (Nat.not_lt_zero r)
  | cons v cells ih =>
    rw [List.flatMap_cons]
    cases r with
    | zero => exact cellAt_putCell v _
    | succ r =>
      have hshift : ∀ index, ChunkRestore.byteAt (putCell v ++ cells.flatMap putCell) (2 + index) =
          ChunkRestore.byteAt (cells.flatMap putCell) index := byteAt_append_right (putCell v) _
      have hcell : ChunkRestore.cellAt (putCell v ++ cells.flatMap putCell) (2 * (r + 1)) =
          ChunkRestore.cellAt (cells.flatMap putCell) (2 * r) := by
        rw [ChunkRestore.cellAt, Nat.mul_succ, Nat.add_comm, Nat.add_assoc, hshift, hshift]
        rfl
      rw [hcell, ih r (Nat.lt_of_succ_lt_succ hr)]
      rfl

/-- The cells of a replica: one for each row, and the padding. -/
def replicaCells (g : ChunkGenerator) (data : ConstDataBuffer) : List Gf16 :=
  (ChunkGenerator.rowStarts g.k data.length).map (g.rowValue data) ++
    [⟨BitVec.ofNat 16 (data.length % (2 * g.k))⟩]

theorem write_eq (g : ChunkGenerator) (data : ConstDataBuffer) :
    g.write data = (replicaCells g data).flatMap putCell := by
  rw [ChunkGenerator.write, replicaCells, List.flatMap_append, List.flatMap_map,
    List.flatMap_singleton]
  rfl

/-- The data with zeros behind it, as the restored cells spell it. -/
def padded (data : ConstDataBuffer) (t : Nat) : ConstDataBuffer :=
  (List.range t).flatMap fun u => putCell (ChunkGenerator.dataItem data (2 * u))

theorem dataItem_eq (data : ConstDataBuffer) (start : Nat) :
    ChunkGenerator.dataItem data start =
      ⟨joined (data.getD start 0) (data.getD (start + 1) 0)⟩ := by
  have hshift : ∀ (item : BitVec 16) (x : Nat),
      (if h : x < data.length then item <<< 8 ||| (data.get ⟨x, h⟩).toBitVec.setWidth 16
        else item <<< 8) = item <<< 8 ||| (data.getD x 0).toBitVec.setWidth 16 := by
    intro item x
    split_ifs with h
    · rw [List.getD_eq_getElem _ _ h]
      rfl
    · rw [List.getD_eq_default _ _ (Nat.not_lt.mp h)]
      exact (BitVec.or_zero).symm
  unfold ChunkGenerator.dataItem
  simp only [hshift]
  rfl

theorem putCell_dataItem (data : ConstDataBuffer) (start : Nat) :
    putCell (ChunkGenerator.dataItem data start) =
      [data.getD start 0, data.getD (start + 1) 0] := by
  rw [dataItem_eq, putCell_joined]

theorem padded_eq (data : ConstDataBuffer) (t : Nat) :
    padded data t = (List.range (2 * t)).map fun x => data.getD x 0 := by
  induction t with
  | zero => rfl
  | succ t ih =>
    have hdouble : 2 * (t + 1) = 2 * t + 1 + 1 := by omega
    rw [padded, List.range_succ, List.flatMap_append, List.flatMap_singleton, putCell_dataItem,
      hdouble, List.range_succ, List.range_succ, List.map_append, List.map_append, ← ih,
      List.append_assoc]
    rfl

theorem length_padded (data : ConstDataBuffer) (t : Nat) : (padded data t).length = 2 * t := by
  rw [padded_eq, List.length_map, List.length_range]

theorem take_padded (data : ConstDataBuffer) {t : Nat} (h : data.length ≤ 2 * t) :
    (padded data t).take data.length = data := by
  rw [padded_eq]
  apply List.ext_getElem
  · rw [List.length_take, List.length_map, List.length_range, Nat.min_eq_left h]
  · intro i h₁ h₂
    rw [List.getElem_take, List.getElem_map, List.getElem_range, List.getD_eq_getElem _ _ h₂]

/-! ### The restoring loop -/

namespace ChunkRestore

variable {k : Nat}

theorem valueAt_eq {r : ChunkRestore k} {chunks : Fin k → ConstDataBuffer} {index : Nat}
    {cells : Fin k → Gf16} (h : ∀ j, cellAt (chunks j) index = .ok (cells j)) (i : Fin k) :
    r.valueAt chunks index i =
      .ok (Fin.foldl k (fun value j => GfMath.add value (math.mul (r.multipliers i j) (cells j)))
        0) := by
  symm
  apply foldl_map
  intro value j
  rw [h j]
  rfl

/-- The cell that the loop writes at a step. -/
def StepsGive (r : ChunkRestore k) (chunks : Fin k → ConstDataBuffer) (data : ConstDataBuffer)
    (t : Nat) (steps : List (Nat × Fin k)) : Prop :=
  ∀ (u : Nat) (hu : u < steps.length), 2 * (t + u) < data.length →
    r.valueAt chunks steps[u].1 steps[u].2 = .ok (ChunkGenerator.dataItem data (2 * (t + u)))

theorem restoreLoop_eq {r : ChunkRestore k} {chunks : Fin k → ConstDataBuffer}
    {data : ConstDataBuffer} {steps : List (Nat × Fin k)} {t : Nat}
    (hsteps : r.StepsGive chunks data t steps) (ht : 2 * t < data.length)
    (hlength : data.length ≤ 2 * (t + steps.length)) :
    r.restoreLoop chunks data.length steps (padded data t) = .ok data := by
  induction steps generalizing t with
  | nil => exact absurd hlength (Nat.not_le.mpr ht)
  | cons step steps ih =>
    have hvalue := hsteps 0 (Nat.zero_lt_succ _) ht
    have hpadded : padded data (t + 1) =
        padded data t ++ putCell (ChunkGenerator.dataItem data (2 * t)) := by
      rw [padded, List.range_succ, List.flatMap_append, List.flatMap_singleton]
      rfl
    have hnext : r.restoreLoop chunks data.length (step :: steps) (padded data t) =
        if (data.length : Int) ≤ (padded data (t + 1)).length then
          .ok ((padded data (t + 1)).take (data.length : Int).toNat)
        else r.restoreLoop chunks data.length steps (padded data (t + 1)) := by
      rw [hpadded, restoreLoop]
      rw [show r.valueAt chunks step.1 step.2 = _ from hvalue]
      rfl
    rw [hnext, length_padded]
    split_ifs with hend
    · rw [Int.toNat_natCast, take_padded data (by omega)]
    · apply ih
      · intro u hu hlt
        have h := hsteps (u + 1) (Nat.succ_lt_succ hu) (by omega)
        rw [Nat.add_right_comm, Nat.add_assoc]
        exact h
      · omega
      · rw [List.length_cons] at hlength
        omega

theorem rowSteps_eq (hk : 0 < k) (m : Nat) :
    (List.range' 0 m 2).flatMap (fun index => (List.finRange k).map fun i => (index, i)) =
      (List.range (m * k)).map fun u => (2 * (u / k), ⟨u % k, Nat.mod_lt u hk⟩) := by
  induction m with
  | zero => rw [Nat.zero_mul]; rfl
  | succ m ih =>
    have hlast : (List.finRange k).map (fun i => (2 * m, i)) =
        (List.range k).map fun i => (2 * ((m * k + i) / k),
          (⟨(m * k + i) % k, Nat.mod_lt _ hk⟩ : Fin k)) := by
      apply List.ext_getElem
      · rw [List.length_map, List.length_map, List.length_finRange, List.length_range]
      · intro i h₁ h₂
        have hi : i < k := by rwa [List.length_map, List.length_range] at h₂
        have hdiv : (m * k + i) / k = m := by
          rw [Nat.mul_comm, Nat.mul_add_div hk, Nat.div_eq_of_lt hi, Nat.add_zero]
        have hmod : (m * k + i) % k = i := by
          rw [Nat.mul_comm, Nat.mul_add_mod, Nat.mod_eq_of_lt hi]
        simp only [List.getElem_map, List.getElem_finRange, List.getElem_range, hdiv, hmod]
        rfl
    rw [List.range'_concat, List.flatMap_append, ih, List.flatMap_singleton, Nat.zero_add, hlast,
      Nat.succ_mul, List.range_add, List.map_append, List.map_map]
    rfl

theorem steps_eq (hk : 0 < k) (size : Nat) :
    steps k size = (List.range ((size + 1) / 2 * k)).map
      fun u => (2 * (u / k), ⟨u % k, Nat.mod_lt u hk⟩) :=
  rowSteps_eq hk _

end ChunkRestore

/-! ### The replicas -/

/-- How many rows the data fills. -/
def rowCount (k : Nat) (data : ConstDataBuffer) : Nat := (data.length + 2 * k - 1) / (2 * k)

theorem length_replicaCells (g : ChunkGenerator) (data : ConstDataBuffer) :
    (replicaCells g data).length = rowCount g.k data + 1 := by
  rw [replicaCells, List.length_append, List.length_map, ChunkGenerator.rowStarts,
    List.length_range']
  rfl

theorem getElem_replicaCells (g : ChunkGenerator) (data : ConstDataBuffer) {r : Nat}
    (hr : r < rowCount g.k data) (h : r < (replicaCells g data).length) :
    (replicaCells g data)[r] = g.rowValue data (r * (2 * g.k)) := by
  have hstarts : r < (ChunkGenerator.rowStarts g.k data.length).length := by
    rw [ChunkGenerator.rowStarts, List.length_range']
    exact hr
  have hleft : r < ((ChunkGenerator.rowStarts g.k data.length).map (g.rowValue data)).length := by
    rwa [List.length_map]
  have hstart : (ChunkGenerator.rowStarts g.k data.length)[r] = r * (2 * g.k) := by
    simp only [ChunkGenerator.rowStarts, List.getElem_range', Nat.zero_add]
    exact Nat.mul_comm _ _
  calc (replicaCells g data)[r]
      = ((ChunkGenerator.rowStarts g.k data.length).map (g.rowValue data))[r] :=
        List.getElem_append_left hleft
    _ = g.rowValue data (r * (2 * g.k)) := by rw [List.getElem_map, hstart]

theorem getElem_replicaCells_last (g : ChunkGenerator) (data : ConstDataBuffer)
    (h : rowCount g.k data < (replicaCells g data).length) :
    (replicaCells g data)[rowCount g.k data] = ⟨BitVec.ofNat 16 (data.length % (2 * g.k))⟩ := by
  have hcount : rowCount g.k data =
      ((ChunkGenerator.rowStarts g.k data.length).map (g.rowValue data)).length := by
    rw [List.length_map, ChunkGenerator.rowStarts, List.length_range']
    rfl
  simp only [replicaCells, hcount, List.getElem_concat_length]

theorem length_flatMap_putCell (cells : List Gf16) :
    (cells.flatMap putCell).length = 2 * cells.length := by
  induction cells with
  | nil => rfl
  | cons v cells ih =>
    rw [List.flatMap_cons, List.length_append, ih, List.length_cons, Nat.mul_succ, Nat.add_comm]
    rfl

theorem length_write (g : ChunkGenerator) (data : ConstDataBuffer) :
    (g.write data).length = 2 * rowCount g.k data + 2 := by
  rw [write_eq, length_flatMap_putCell, length_replicaCells, Nat.mul_succ]

theorem cellAt_write (g : ChunkGenerator) (data : ConstDataBuffer) {r : Nat}
    (hr : r < rowCount g.k data) :
    ChunkRestore.cellAt (g.write data) (2 * r) = .ok (g.rowValue data (r * (2 * g.k))) := by
  have h : r < (replicaCells g data).length := by
    rw [length_replicaCells]
    exact Nat.lt_succ_of_lt hr
  rw [write_eq, cellAt_flatMap _ r h, getElem_replicaCells g data hr h]

theorem cellAt_write_padding (g : ChunkGenerator) (data : ConstDataBuffer) :
    ChunkRestore.cellAt (g.write data) (2 * rowCount g.k data) =
      .ok ⟨BitVec.ofNat 16 (data.length % (2 * g.k))⟩ := by
  have h : rowCount g.k data < (replicaCells g data).length := by
    rw [length_replicaCells]
    exact Nat.lt_succ_self _
  rw [write_eq, cellAt_flatMap _ _ h, getElem_replicaCells_last g data h]

/-- The rows cover the data, and the padding says how much of the last one is data. -/
theorem rowCount_spec {k : Nat} (hk : 0 < k) (data : ConstDataBuffer) :
    (data.length % (2 * k) = 0 ∧ data.length = rowCount k data * (2 * k)) ∨
      (data.length % (2 * k) ≠ 0 ∧
        data.length + 2 * k = rowCount k data * (2 * k) + data.length % (2 * k)) := by
  have hrow : 0 < 2 * k := Nat.mul_pos Nat.two_pos hk
  have hdiv := Nat.mod_add_div data.length (2 * k)
  have hlt := Nat.mod_lt data.length hrow
  by_cases hr : data.length % (2 * k) = 0
  · left
    have hcount : rowCount k data = data.length / (2 * k) := by
      have hsum : data.length + 2 * k - 1 =
          (2 * k - 1) + 2 * k * (data.length / (2 * k)) := by omega
      rw [rowCount, hsum, Nat.add_mul_div_left _ _ hrow, Nat.div_eq_of_lt (by omega), Nat.zero_add]
    refine ⟨hr, ?_⟩
    rw [hcount, Nat.mul_comm]
    omega
  · right
    have hcount : rowCount k data = data.length / (2 * k) + 1 := by
      have hsum : data.length + 2 * k - 1 =
          (data.length % (2 * k) - 1) + 2 * k * (data.length / (2 * k) + 1) := by
        rw [Nat.mul_succ]
        omega
      rw [rowCount, hsum, Nat.add_mul_div_left _ _ hrow, Nat.div_eq_of_lt (by omega), Nat.zero_add]
    refine ⟨hr, ?_⟩
    rw [hcount, Nat.succ_mul (data.length / (2 * k)), Nat.mul_comm (data.length / (2 * k))]
    omega

theorem le_rows {k : Nat} (hk : 0 < k) (data : ConstDataBuffer) :
    data.length ≤ 2 * (rowCount k data * k) := by
  have hlt := Nat.mod_lt data.length (Nat.mul_pos Nat.two_pos hk)
  have hmul : rowCount k data * (2 * k) = 2 * (rowCount k data * k) := Nat.mul_left_comm _ _ _
  rcases rowCount_spec hk data with ⟨_, h⟩ | ⟨_, h⟩ <;> omega

theorem stepsGive_create {k : Nat} (hk : 0 < k) {n : Fin k → UInt16}
    (hn : Function.Injective n) (data : ConstDataBuffer) (size : Nat) :
    (ChunkRestore.create n).StepsGive (fun j => (ChunkGenerator.mk k (n j)).write data) data 0
      (ChunkRestore.steps k size) := by
  intro u hu hlt
  rw [Nat.zero_add] at hlt ⊢
  have hstep : (ChunkRestore.steps k size)[u] = (2 * (u / k), ⟨u % k, Nat.mod_lt u hk⟩) := by
    simp only [ChunkRestore.steps_eq hk, List.getElem_map, List.getElem_range]
  have hrow : u / k < rowCount k data := by
    have hle := le_rows hk data
    rw [Nat.div_lt_iff_lt_mul hk]
    omega
  have hcells : ∀ j : Fin k, ChunkRestore.cellAt ((ChunkGenerator.mk k (n j)).write data)
      (2 * (u / k)) = .ok ((ChunkGenerator.mk k (n j)).rowValue data (u / k * (2 * k))) :=
    fun j => cellAt_write (ChunkGenerator.mk k (n j)) data hrow
  have hindex : u / k * (2 * k) + 2 * (u % k) = 2 * u := by
    have h := Nat.mod_add_div u k
    rw [Nat.mul_left_comm, ← Nat.mul_add, Nat.mul_comm (u / k)]
    omega
  rw [hstep, ChunkRestore.valueAt_eq hcells]
  apply congrArg Except.ok
  apply GfMath.toField_injective
  rw [toField_foldl (fun j => math.mul ((ChunkRestore.create n).multipliers _ j) _),
    GfMath.toField_zero, zero_add]
  simp only [toField_math_mul]
  rw [sum_multipliers hn data, rowCells]
  exact congrArg (fun x => toField (ChunkGenerator.dataItem data x)) hindex

/-- The loop stops with the data, also when there is none. -/
theorem restoreLoop_create {k : Nat} (hk : 0 < k) {n : Fin k → UInt16}
    (hn : Function.Injective n) (data : ConstDataBuffer) :
    (ChunkRestore.create n).restoreLoop (fun j => (ChunkGenerator.mk k (n j)).write data)
      data.length (ChunkRestore.steps k (2 * rowCount k data + 2)) [] = .ok data := by
  have hcount : (ChunkRestore.steps k (2 * rowCount k data + 2)).length =
      (rowCount k data + 1) * k := by
    have hhalf : (2 * rowCount k data + 2 + 1) / 2 = rowCount k data + 1 := by omega
    rw [ChunkRestore.steps_eq hk, List.length_map, List.length_range, hhalf]
  by_cases hempty : data.length = 0
  · have hrows : 2 * rowCount k data = 0 := by
      have h : rowCount k data = 0 := by
        rw [rowCount, hempty]
        exact Nat.div_eq_of_lt (by omega)
      rw [h]
    have hcells : ∀ j : Fin k, ChunkRestore.cellAt ((ChunkGenerator.mk k (n j)).write data) 0 =
        .ok ⟨BitVec.ofNat 16 (data.length % (2 * k))⟩ := by
      intro j
      have h := cellAt_write_padding ⟨k, n j⟩ data
      rwa [hrows] at h
    have hdata : data = [] := List.eq_nil_of_length_eq_zero hempty
    cases hsteps : ChunkRestore.steps k (2 * rowCount k data + 2) with
    | nil =>
      rw [hsteps, List.length_nil] at hcount
      have hpos : 0 < (rowCount k data + 1) * k := Nat.mul_pos (Nat.succ_pos _) hk
      omega
    | cons step steps =>
      have hstep : step.1 = 0 := by
        have h : step ∈ ChunkRestore.steps k (2 * rowCount k data + 2) := by
          rw [hsteps]
          exact List.mem_cons_self
        rw [hrows] at h
        simp only [ChunkRestore.steps, List.mem_flatMap, List.mem_map] at h
        obtain ⟨index, hindex, i, _, rfl⟩ := h
        simpa using hindex
      subst hdata
      rw [ChunkRestore.restoreLoop, hstep, ChunkRestore.valueAt_eq hcells]
      rfl
  · have hstart : (ChunkRestore.create n).restoreLoop
        (fun j => (ChunkGenerator.mk k (n j)).write data) data.length
        (ChunkRestore.steps k (2 * rowCount k data + 2)) (padded data 0) = .ok data := by
      apply ChunkRestore.restoreLoop_eq (stepsGive_create hk hn data _)
      · omega
      · have hle := le_rows hk data
        rw [hcount, Nat.succ_mul (rowCount k data)]
        omega
    exact hstart

theorem expectedSize_eq {k : Nat} (hk : 0 < k) (hk' : k ≤ 32768) (data : ConstDataBuffer) :
    (if BitVec.ofNat 16 (data.length % (2 * k)) = 0 then
        ((2 * rowCount k data + 2 : Nat) - 2 : Int) * k
      else ((2 * rowCount k data + 2 : Nat) - 2 : Int) * k - k * 2 +
        (BitVec.ofNat 16 (data.length % (2 * k))).toNat) = data.length := by
  have hlt := Nat.mod_lt data.length (Nat.mul_pos Nat.two_pos hk)
  have hpadding : (BitVec.ofNat 16 (data.length % (2 * k))).toNat = data.length % (2 * k) := by
    rw [BitVec.toNat_ofNat]
    exact Nat.mod_eq_of_lt (by omega)
  have hzero : BitVec.ofNat 16 (data.length % (2 * k)) = 0 ↔ data.length % (2 * k) = 0 := by
    rw [← BitVec.toNat_inj, hpadding]
    exact Iff.rfl
  have hcells : ((2 * rowCount k data + 2 : Nat) - 2 : Int) * k =
      (rowCount k data * (2 * k) : Nat) := by
    push_cast
    ring
  rw [hpadding, hcells]
  rcases rowCount_spec hk data with ⟨hr, h⟩ | ⟨hr, h⟩
  · rw [if_pos (hzero.mpr hr)]
    exact congrArg Nat.cast h.symm
  · rw [if_neg fun hc => hr (hzero.mp hc)]
    omega

theorem restore_replicas {k : Nat} (hk : 1 ≤ k) (hk' : k ≤ 32768) {n : Fin k → UInt16}
    (hn : Function.Injective n) (data : ConstDataBuffer) :
    (ChunkRestore.create n).restore (fun j => (ChunkGenerator.mk k (n j)).write data) =
      .ok data := by
  have hpos : 0 < k := hk
  have hlength : ((ChunkGenerator.mk k (n ⟨0, hpos⟩)).write data).length =
      2 * rowCount k data + 2 := length_write _ data
  have hpadding : ChunkRestore.cellAt ((ChunkGenerator.mk k (n ⟨0, hpos⟩)).write data)
      (2 * rowCount k data) = .ok ⟨BitVec.ofNat 16 (data.length % (2 * k))⟩ :=
    cellAt_write_padding _ data
  unfold ChunkRestore.restore
  rw [dif_pos hpos]
  simp only [hlength]
  rw [if_neg (Nat.not_lt.mpr (Nat.le_add_left 2 _)), Nat.add_sub_cancel, hpadding]
  change (ChunkRestore.create n).restoreLoop _ (if _ then _ else _) _ _ = _
  simp only [expectedSize_eq hpos hk' data]
  rw [if_neg (Int.not_lt.mpr (Int.natCast_nonneg _))]
  exact restoreLoop_create hpos hn data

/-- `chunk_restore` undoes `chunk_generator` for any choice of distinct replica indexes. -/
theorem restore_write (k : Nat) (hk : 1 ≤ k) (hk' : k ≤ 32768) (n : Fin k → UInt16)
    (hn : Function.Injective n) (data : ConstDataBuffer) :
    (ChunkRestore.create n).restore (fun j => (ChunkGenerator.mk k (n j)).write data) =
      .ok data :=
  restore_replicas hk hk' hn data

theorem restore_write_pair :
    (ChunkRestore.create ![7, 0]).restore
        (fun j => (ChunkGenerator.mk 2 (![7, 0] j)).write [1, 2, 3, 4, 5]) =
      .ok [1, 2, 3, 4, 5] :=
  restore_write 2 (by decide) (by decide) ![7, 0] (by decide) [1, 2, 3, 4, 5]

end Vds
