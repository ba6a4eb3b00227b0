import Vds.Library.CyclicField
import Vds.Library.Elimination

/-! The arithmetic of GF(2^16): `gf<16>` and the tables of `gf_math<uint16_t>`. -/

namespace Vds

/-- The bits of `gf<16>::data_`, the low byte first. -/
structure Gf16 where
  bits : BitVec 16
  deriving DecidableEq

namespace Gf16

/-- `get_polynomial`: the bytes 0x0B and 0x10. -/
def polynomial : BitVec 16 := 0x100B

def add (left right : Gf16) : Gf16 := ⟨left.bits ^^^ right.bits⟩

/-- What the loop of `operator *` does to `a` each time. -/
def shiftLeft (a : BitVec 16) : BitVec 16 :=
  if a.msb then a <<< 1 ^^^ polynomial else a <<< 1

def mulLoop : Nat → BitVec 16 → BitVec 16 → BitVec 16 → BitVec 16
  | 0, _, _, data => data
  | n + 1, a, b, data =>
    mulLoop n (shiftLeft a) (b >>> 1) (if b &&& 1 ≠ 0 then data ^^^ a else data)

def mul (left right : Gf16) : Gf16 := ⟨mulLoop 16 left.bits right.bits 0⟩

def two : Gf16 := ⟨2⟩

def zero : Gf16 := ⟨0⟩

def one : Gf16 := ⟨1⟩

theorem mul_two (k : Gf16) : mul k two = ⟨shiftLeft k.bits⟩ := by
  simp only [mul, two, mulLoop]
  simp

theorem shiftLeft_xor (a b : BitVec 16) : shiftLeft (a ^^^ b) = shiftLeft a ^^^ shiftLeft b := by
  have hcancel : ∀ x y : BitVec 16, x ^^^ polynomial ^^^ (y ^^^ polynomial) = x ^^^ y := by
    intro x y
    rw [BitVec.xor_assoc, BitVec.xor_comm y, ← BitVec.xor_assoc polynomial, BitVec.xor_self,
      BitVec.zero_xor]
  have hmove : ∀ x y : BitVec 16, x ^^^ y ^^^ polynomial = x ^^^ polynomial ^^^ y := by
    intro x y
    rw [BitVec.xor_assoc, BitVec.xor_comm y, BitVec.xor_assoc]
  unfold shiftLeft
  rw [BitVec.msb_xor, BitVec.shiftLeft_xor_distrib]
  cases a.msb <;> cases b.msb
  · rfl
  · exact BitVec.xor_assoc _ _ _
  · exact hmove _ _
  · exact (hcancel _ _).symm

instance : Zero Gf16 := ⟨zero⟩

instance : Add Gf16 := ⟨add⟩

instance : Neg Gf16 := ⟨id⟩

instance : Sub Gf16 := ⟨add⟩

instance : AddCommGroup Gf16 where
  add_assoc a b c := congrArg mk (BitVec.xor_assoc _ _ _)
  zero_add a := congrArg mk BitVec.zero_xor
  add_zero a := congrArg mk BitVec.xor_zero
  add_comm a b := congrArg mk (BitVec.xor_comm _ _)
  neg_add_cancel a := congrArg mk BitVec.xor_self
  sub_eq_add_neg _ _ := rfl
  nsmul := nsmulRec
  zsmul := zsmulRec

theorem add_def (a b : Gf16) : a + b = add a b := rfl

theorem sub_def (a b : Gf16) : a - b = add a b := rfl

/-! ### The powers of two -/

def timesTwo : AddMonoid.End Gf16 where
  toFun k := mul k two
  map_zero' := by decide
  map_add' a b := by
    rw [mul_two, mul_two, mul_two]
    exact congrArg mk (shiftLeft_xor _ _)

theorem timesTwo_apply (k : Gf16) : timesTwo k = mul k two := rfl

def power (i : Nat) : Gf16 := (timesTwo ^ i) one

theorem power_succ (i : Nat) : power (i + 1) = mul (power i) two := by
  rw [power, pow_succ']
  rfl

theorem power_add (i j : Nat) : power (i + j) = (timesTwo ^ i) (power j) := by
  rw [power, pow_add]
  rfl

theorem power_one : power 1 = two := by
  rw [power, pow_one]
  decide

/-- Multiplication by the polynomial that the bits of `b` stand for. -/
def timesLoop : Nat → BitVec 16 → AddMonoid.End Gf16
  | 0, _ => 0
  | n + 1, b =>
    (if b &&& 1 = 0 then (0 : AddMonoid.End Gf16) else 1) + timesLoop n (b >>> 1) * timesTwo

def times (b : Gf16) : AddMonoid.End Gf16 := timesLoop 16 b.bits

theorem mulLoop_eq (n : Nat) (a b data : BitVec 16) :
    mulLoop n a b data = data ^^^ (timesLoop n b ⟨a⟩).bits := by
  induction n generalizing a b data with
  | zero => exact BitVec.xor_zero.symm
  | succ n ih =>
    rw [mulLoop, ih]
    by_cases hb : b &&& 1 = 0
    · rw [if_neg (not_not.mpr hb), timesLoop, if_pos hb, zero_add]
      exact congrArg (fun k => data ^^^ (timesLoop n (b >>> 1) k).bits) (mul_two ⟨a⟩).symm
    · rw [if_pos hb, timesLoop, if_neg hb, BitVec.xor_assoc]
      exact congrArg (fun k => data ^^^ (a ^^^ (timesLoop n (b >>> 1) k).bits)) (mul_two ⟨a⟩).symm

theorem times_apply (a b : Gf16) : times b a = mul a b := by
  have hloop := mulLoop_eq 16 a.bits b.bits 0
  rw [mul, hloop]
  exact congrArg mk BitVec.zero_xor.symm

theorem commute_times {p : AddMonoid.End Gf16} (hp : Commute p timesTwo) (b : Gf16) :
    Commute p (times b) := by
  have hloop : ∀ n (b : BitVec 16), Commute p (timesLoop n b) := by
    intro n
    induction n with
    | zero => exact fun b => Commute.zero_right p
    | succ n ih =>
      intro b
      have hdigit : Commute p (if b &&& 1 = 0 then (0 : AddMonoid.End Gf16) else 1) := by
        by_cases hb : b &&& 1 = 0
        · rw [if_pos hb]
          exact Commute.zero_right p
        · rw [if_neg hb]
          exact Commute.one_right p
      exact hdigit.add_right ((ih _).mul_right hp)
  exact hloop 16 b.bits

theorem shiftLeft_one {i : Nat} (hi : i < 15) :
    shiftLeft ((1 : BitVec 16) <<< i) = 1 <<< (i + 1) := by
  interval_cases i <;> rfl

theorem bits_split (b : BitVec 16) :
    (if b &&& 1 = 0 then (0 : BitVec 16) else 1) ^^^ (b >>> 1) <<< 1 = b := by
  have hdigit : (if b &&& 1 = 0 then (0 : BitVec 16) else 1) = b &&& 1 := by
    rw [show (1 : BitVec 16) = 1#16 from rfl, BitVec.and_one_eq_setWidth_ofBool_getLsbD]
    cases b.getLsbD 0 <;> rfl
  rw [hdigit]
  ext j hj
  cases j with
  | zero => simp
  | succ j =>
    simp
    rw [Nat.add_comm]
    rfl

theorem mulLoop_one (n : Nat) (b data : BitVec 16) (i : Nat) (h : n + i = 16) :
    mulLoop n ((1 : BitVec 16) <<< i) b data = data ^^^ b <<< i := by
  induction n generalizing b data i with
  | zero =>
    have hi : i = 16 := by omega
    subst hi
    rw [mulLoop, BitVec.shiftLeft_eq_zero le_rfl]
    exact BitVec.xor_zero.symm
  | succ n ih =>
    have hnext : mulLoop n (shiftLeft ((1 : BitVec 16) <<< i)) (b >>> 1)
        (if b &&& 1 ≠ 0 then data ^^^ (1 : BitVec 16) <<< i else data) =
        (if b &&& 1 ≠ 0 then data ^^^ (1 : BitVec 16) <<< i else data) ^^^
          (b >>> 1) <<< (i + 1) := by
      by_cases hi : i < 15
      · rw [shiftLeft_one hi]
        exact ih _ _ _ (by omega)
      · have hn : n = 0 := by omega
        have hover : (b >>> 1) <<< (i + 1) = 0 := BitVec.shiftLeft_eq_zero (by omega)
        rw [hn, mulLoop, hover]
        exact BitVec.xor_zero.symm
    have hsplit : ((if b &&& 1 = 0 then (0 : BitVec 16) else 1) ^^^ (b >>> 1) <<< 1) <<< i =
        b <<< i := by
      rw [bits_split]
    rw [mulLoop, hnext, ← hsplit, BitVec.shiftLeft_xor_distrib, ← BitVec.shiftLeft_add,
      Nat.add_comm 1 i, ← BitVec.xor_assoc]
    congr 1
    by_cases hb : b &&& 1 = 0
    · have hzero : (0 : BitVec 16) <<< i = 0 := BitVec.zero_shiftLeft i
      rw [if_neg (not_not.mpr hb), if_pos hb, hzero]
      exact BitVec.xor_zero.symm
    · rw [if_pos hb, if_neg hb]

theorem times_one (b : Gf16) : times b one = b := by
  rw [times_apply]
  exact congrArg mk ((mulLoop_one 16 b.bits 0 0 rfl).trans (by simp))

theorem ext_of_commute {p q : AddMonoid.End Gf16} (hp : Commute p timesTwo)
    (hq : Commute q timesTwo) (h : p one = q one) : p = q := by
  apply DFunLike.ext
  intro k
  have hpk := congrArg (fun f : AddMonoid.End Gf16 => f one) (commute_times hp k).eq
  have hqk := congrArg (fun f : AddMonoid.End Gf16 => f one) (commute_times hq k).eq
  calc p k = p (times k one) := by rw [times_one]
    _ = times k (p one) := hpk
    _ = times k (q one) := by rw [h]
    _ = q (times k one) := hqk.symm
    _ = q k := by rw [times_one]

theorem timesTwo_pow (n : Nat) : timesTwo ^ n = times (power n) := by
  apply ext_of_commute (Commute.pow_self timesTwo n)
  · exact (commute_times (Commute.refl timesTwo) _).symm
  · rw [times_one]
    rfl

/-- `power`, by squaring. -/
def squarePower : Nat → Nat → Gf16
  | 0, _ => one
  | fuel + 1, n =>
    let half := squarePower fuel (n / 2)
    if n % 2 = 0 then mul half half else mul (mul half half) two

theorem squarePower_eq (fuel n : Nat) (h : n < 2 ^ fuel) : squarePower fuel n = power n := by
  induction fuel generalizing n with
  | zero =>
    rw [Nat.lt_one_iff.mp h]
    rfl
  | succ fuel ih =>
    have hdouble : mul (power (n / 2)) (power (n / 2)) = power (n / 2 + n / 2) := by
      rw [power_add, timesTwo_pow, times_apply]
    rw [squarePower, ih (n / 2) (by omega), hdouble]
    by_cases hn : n % 2 = 0
    · rw [if_pos hn]
      congr 1
      omega
    · rw [if_neg hn, ← power_succ]
      congr 1
      omega

theorem timesTwo_pow_eq_one {n : Nat} : timesTwo ^ n = 1 ↔ power n = one := by
  constructor
  · intro h
    rw [power, h]
    rfl
  · intro h
    exact ext_of_commute (Commute.pow_self timesTwo n) (Commute.one_left timesTwo) h

theorem orderOf_timesTwo : orderOf timesTwo = 0xFFFF := by
  apply orderOf_eq_of_pow_and_pow_div_prime (by decide)
  · rw [timesTwo_pow_eq_one, ← squarePower_eq 16 _ (by decide)]
    decide +kernel
  · intro p hp hdvd
    have hfactor : p ∣ 3 * 5 * 17 * 257 := hdvd
    have hprimes : p = 3 ∨ p = 5 ∨ p = 17 ∨ p = 257 := by
      rw [hp.dvd_mul, hp.dvd_mul, hp.dvd_mul] at hfactor
      simp only [Nat.prime_dvd_prime_iff_eq hp (by norm_num : Nat.Prime 3),
        Nat.prime_dvd_prime_iff_eq hp (by norm_num : Nat.Prime 5),
        Nat.prime_dvd_prime_iff_eq hp (by norm_num : Nat.Prime 17),
        Nat.prime_dvd_prime_iff_eq hp (by norm_num : Nat.Prime 257), or_assoc] at hfactor
      exact hfactor
    rw [Ne, timesTwo_pow_eq_one, ← squarePower_eq 16 _ (by
      exact Nat.lt_of_le_of_lt (Nat.div_le_self _ _) (by decide))]
    rcases hprimes with rfl | rfl | rfl | rfl <;> decide +kernel

theorem power_order : power 0xFFFF = one := by
  rw [← timesTwo_pow_eq_one, ← orderOf_timesTwo]
  exact pow_orderOf_eq_one timesTwo

theorem power_ne_one {m : Nat} (h₀ : 0 < m) (h : m < 0xFFFF) : power m ≠ one := by
  intro hm
  have hdvd := orderOf_dvd_of_pow_eq_one (timesTwo_pow_eq_one.mpr hm)
  rw [orderOf_timesTwo] at hdvd
  exact absurd (Nat.le_of_dvd h₀ hdvd) (Nat.not_le.mpr h)

theorem power_injective {i j : Nat} (hi : i < 0xFFFF) (hj : j < 0xFFFF)
    (h : power i = power j) : i = j := by
  wlog hij : i ≤ j generalizing i j
  · exact (this hj hi h.symm (Nat.le_of_not_le hij)).symm
  by_contra hne
  have hlap : power (0xFFFF - i + i) = power (0xFFFF - i + j) := by
    rw [power_add, power_add, h]
  rw [Nat.sub_add_cancel hi.le, power_order] at hlap
  have hrest : 0xFFFF - i + j = (j - i) + 0xFFFF := by omega
  rw [hrest, power_add, power_order] at hlap
  exact power_ne_one (by omega) (by omega) hlap.symm

theorem power_ne_zero {i : Nat} (hi : i < 0xFFFF) : power i ≠ 0 := by
  intro h
  have hlap : power (0xFFFF - i + i) = 0 := by rw [power_add, h, map_zero]
  rw [Nat.sub_add_cancel hi.le, power_order] at hlap
  exact absurd hlap (by decide)

def equivFin : Gf16 ≃ Fin (2 ^ 16) where
  toFun k := k.bits.toFin
  invFun i := ⟨⟨i⟩⟩
  left_inv _ := rfl
  right_inv _ := rfl

noncomputable instance : Fintype Gf16 := Fintype.ofEquiv _ equivFin.symm

theorem exists_power {k : Gf16} (hk : k ≠ 0) : ∃ i < 0xFFFF, power i = k := by
  let f : Fin 0xFFFF → {k : Gf16 // k ≠ 0} := fun i => ⟨power i, power_ne_zero i.isLt⟩
  have hinj : Function.Injective f := fun i j h =>
    Fin.ext (power_injective i.isLt j.isLt (congrArg Subtype.val h))
  have hcard : Fintype.card (Fin 0xFFFF) = Fintype.card {k : Gf16 // k ≠ 0} := by
    have hall : Fintype.card Gf16 = 2 ^ 16 := by
      rw [Fintype.card_congr equivFin, Fintype.card_fin]
    have hsome : Fintype.card {k : Gf16 // k ≠ 0} = Fintype.card Gf16 - 1 := Set.card_ne_eq 0
    have hfin : Fintype.card (Fin 0xFFFF) = 0xFFFF := Fintype.card_fin _
    omega
  obtain ⟨i, hi⟩ := ((Fintype.bijective_iff_injective_and_card f).mpr ⟨hinj, hcard⟩).2 ⟨k, hk⟩
  exact ⟨i, i.isLt, congrArg Subtype.val hi⟩

def generator : CyclicGenerator Gf16 where
  shift := timesTwo
  one := one
  order := 0xFFFF
  order_pos := by decide
  returns := power_order
  one_ne_zero := by decide
  reaches v hv := by
    obtain ⟨i, _, hi⟩ := exists_power hv
    exact ⟨i, hi⟩

end Gf16

/-! ### The tables -/

/-- `gf_math<uint16_t>`: the logarithm of each value and the value of each logarithm. -/
structure GfMath where
  value2log : Vector (BitVec 16) 0x10000
  log2value : Vector (BitVec 16) 0x10000

namespace GfMath

def setLog (math : GfMath) (log : BitVec 16) (value : BitVec 16) : GfMath where
  value2log := math.value2log.set value.toNat log value.isLt
  log2value := math.log2value.set log.toNat value log.isLt

def logOf (math : GfMath) (value : BitVec 16) : BitVec 16 :=
  math.value2log.get ⟨value.toNat, value.isLt⟩

def valueOf (math : GfMath) (log : BitVec 16) : BitVec 16 :=
  math.log2value.get ⟨log.toNat, log.isLt⟩

def empty : GfMath where
  value2log := (Vector.replicate 0x10000 0).set 1 0
  log2value := (Vector.replicate 0x10000 0).set 0 1

/-- One turn of the constructor's loop: `k` runs through the powers of two. -/
def createStep (st : GfMath × Gf16) (log : Nat) : GfMath × Gf16 :=
  (st.1.setLog (BitVec.ofNat 16 log) st.2.bits, st.2.mul Gf16.two)

def createLoop (n : Nat) : GfMath × Gf16 :=
  Fin.foldl n (fun st i => createStep st (i + 1)) (empty, Gf16.two)

def create : GfMath := (createLoop 0xFFFE).1

/-- `while (dif < 0) dif += 0xFFFF`. -/
def raise (dif : Int) : Int := if dif < 0 then raise (dif + 0xFFFF) else dif
  termination_by (-dif).toNat

def mul (math : GfMath) (left right : Gf16) : Gf16 :=
  if left = 0 ∨ right = 0 then 0
  else
    ⟨math.valueOf (BitVec.ofNat 16
      (((math.logOf left.bits).toNat + (math.logOf right.bits).toNat) % 0xFFFF))⟩

def div (math : GfMath) (left right : Gf16) : Gf16 :=
  if left = 0 ∨ right = 0 then 0
  else
    let dif : Int := (math.logOf left.bits).toNat - (math.logOf right.bits).toNat
    ⟨math.valueOf (BitVec.ofNat 16 (raise dif % 0xFFFF).toNat)⟩

def add (left right : Gf16) : Gf16 := Gf16.add left right

def sub (left right : Gf16) : Gf16 := Gf16.add left right

theorem logOf_setLog (math : GfMath) (log value v : BitVec 16) :
    (math.setLog log value).logOf v = if v = value then log else math.logOf v := by
  unfold logOf setLog
  rw [Vector.get_eq_getElem, Vector.getElem_set, Vector.get_eq_getElem]
  simp only [BitVec.toNat_inj, eq_comm (a := value)]

theorem valueOf_setLog (math : GfMath) (log value l : BitVec 16) :
    (math.setLog log value).valueOf l = if l = log then value else math.valueOf l := by
  unfold valueOf setLog
  rw [Vector.get_eq_getElem, Vector.getElem_set, Vector.get_eq_getElem]
  simp only [BitVec.toNat_inj, eq_comm (a := log)]

/-- The entries up to the logarithm `n` are in place. -/
structure Filled (math : GfMath) (n : Nat) : Prop where
  value : ∀ l ≤ n, math.valueOf (BitVec.ofNat 16 l) = (Gf16.power l).bits
  log : ∀ l ≤ n, math.logOf (Gf16.power l).bits = BitVec.ofNat 16 l

theorem ofNat_injective {l l' : Nat} (hl : l ≤ 0xFFFE) (hl' : l' ≤ 0xFFFE)
    (h : BitVec.ofNat 16 l = BitVec.ofNat 16 l') : l = l' := by
  have hval := congrArg BitVec.toNat h
  rw [BitVec.toNat_ofNat, BitVec.toNat_ofNat] at hval
  omega

theorem bits_power_injective {l l' : Nat} (hl : l ≤ 0xFFFE) (hl' : l' ≤ 0xFFFE)
    (h : (Gf16.power l).bits = (Gf16.power l').bits) : l = l' :=
  Gf16.power_injective (by omega) (by omega) (congrArg Gf16.mk h)

theorem filled_setLog {math : GfMath} {n : Nat} (hn : n < 0xFFFE) (h : math.Filled n) :
    (math.setLog (BitVec.ofNat 16 (n + 1)) (Gf16.power (n + 1)).bits).Filled (n + 1) where
  value l hl := by
    rw [valueOf_setLog]
    split_ifs with heq
    · rw [ofNat_injective (by omega) (by omega) heq]
    · apply h.value l
      have hne : l ≠ n + 1 := fun hc => heq (by rw [hc])
      omega
  log l hl := by
    rw [logOf_setLog]
    split_ifs with heq
    · rw [bits_power_injective (by omega) (by omega) heq]
    · apply h.log l
      have hne : l ≠ n + 1 := fun hc => heq (by rw [hc])
      omega

theorem filled_empty : empty.Filled 0 := by
  constructor
  · intro l hl
    rw [Nat.le_zero.mp hl]
    unfold valueOf empty
    rw [Vector.get_eq_getElem, Vector.getElem_set]
    exact if_pos rfl
  · intro l hl
    rw [Nat.le_zero.mp hl]
    unfold logOf empty
    rw [Vector.get_eq_getElem, Vector.getElem_set]
    exact if_pos rfl

theorem filled_createLoop (n : Nat) (hn : n ≤ 0xFFFE) :
    (createLoop n).1.Filled n ∧ (createLoop n).2 = Gf16.power (n + 1) := by
  apply foldl_rises (P := fun i (st : GfMath × Gf16) => st.1.Filled i ∧ st.2 = Gf16.power (i + 1))
  · exact ⟨filled_empty, Gf16.power_one.symm⟩
  · rintro i ⟨math, k⟩ ⟨hfilled, rfl⟩
    have hi : (i : Nat) < 0xFFFE := lt_of_lt_of_le i.isLt hn
    exact ⟨filled_setLog hi hfilled, (Gf16.power_succ _).symm⟩

theorem filled_create : create.Filled 0xFFFE := by
  rw [create]
  exact (filled_createLoop 0xFFFE le_rfl).1

theorem logOf_power {l : Nat} (hl : l < 0xFFFF) :
    (create.logOf (Gf16.power l).bits).toNat = l := by
  rw [filled_create.log l (by omega), BitVec.toNat_ofNat]
  omega

theorem valueOf_mod (l : Nat) :
    (⟨create.valueOf (BitVec.ofNat 16 (l % 0xFFFF))⟩ : Gf16) = Gf16.power l := by
  have hl : l % 0xFFFF ≤ 0xFFFE := Nat.le_of_lt_succ (Nat.mod_lt l (by decide))
  rw [filled_create.value _ hl]
  exact Gf16.generator.power_mod l

/-! ### The field -/

abbrev Field16 := Gf16.generator.Element

def toField (k : Gf16) : Field16 := ⟨k⟩

theorem toField_injective : Function.Injective toField :=
  fun _ _ h => congrArg CyclicGenerator.Element.value h

theorem toField_add (a b : Gf16) : toField (add a b) = toField a + toField b := rfl

theorem toField_sub (a b : Gf16) : toField (sub a b) = toField a - toField b := rfl

theorem toField_zero : toField 0 = 0 := rfl

theorem toField_one : toField Gf16.one = 1 := rfl

theorem toField_mul (a b : Gf16) : toField (create.mul a b) = toField a * toField b := by
  unfold mul
  split_ifs with h
  · rcases h with rfl | rfl
    · rw [toField_zero, zero_mul]
    · rw [toField_zero, mul_zero]
  · obtain ⟨ha, hb⟩ := not_or.mp h
    obtain ⟨i, hi, rfl⟩ := Gf16.exists_power ha
    obtain ⟨j, hj, rfl⟩ := Gf16.exists_power hb
    rw [logOf_power hi, logOf_power hj, valueOf_mod]
    exact (CyclicGenerator.Element.mul_power i j).symm

theorem raise_spec (dif : Int) : 0 ≤ raise dif ∧ raise dif % 0xFFFF = dif % 0xFFFF := by
  fun_induction raise dif with
  | case1 dif h ih => exact ⟨ih.1, by rw [ih.2, Int.add_emod_right]⟩
  | case2 dif h => exact ⟨Int.not_lt.mp h, rfl⟩

theorem toField_div (a : Gf16) {b : Gf16} (hb : b ≠ 0) :
    toField (create.div a b) = toField a / toField b := by
  have hbf : toField b ≠ 0 := fun h => hb (toField_injective h)
  rw [eq_div_iff hbf]
  unfold div
  split_ifs with h
  · rw [h.resolve_right hb, toField_zero, zero_mul]
  · have ha : a ≠ 0 := fun hc => h (.inl hc)
    obtain ⟨i, hi, rfl⟩ := Gf16.exists_power ha
    obtain ⟨j, hj, rfl⟩ := Gf16.exists_power hb
    simp only [logOf_power hi, logOf_power hj]
    obtain ⟨hpos, hmod⟩ := raise_spec (i - j)
    let r := (raise ((i : Int) - j)).toNat
    have hr : (raise ((i : Int) - j) % 0xFFFF).toNat = r % 0xFFFF := by omega
    have hsum : (r + j) % 0xFFFF = i % 0xFFFF := by omega
    rw [hr, valueOf_mod]
    calc toField (Gf16.power r) * toField (Gf16.power j)
        = toField (Gf16.power (r + j)) := CyclicGenerator.Element.mul_power r j
      _ = toField (Gf16.power ((r + j) % 0xFFFF)) :=
        congrArg toField (Gf16.generator.power_mod (r + j)).symm
      _ = toField (Gf16.power (i % 0xFFFF)) := by rw [hsum]
      _ = toField (Gf16.power i) := congrArg toField (Gf16.generator.power_mod i)

end GfMath
end Vds
