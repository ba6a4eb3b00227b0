import Vds.DhtNetwork.Route
import Vds.Library.Bytes

/-! `dht_object_id`: the number of the first bit in which two ids differ, beside their distance, and
the random ids of a bucket. -/

namespace Vds.DhtNetwork.DhtObjectId

open Library (forall_byte)

/-- `generate_random_id(original, exp_index)`; `rand` are the values of `std::rand` as they are cast. A
subscript past the end of the vector has no result. -/
def generateRandomId (original : ConstDataBuffer) (expIndex : Nat) (rand : Nat → UInt8) :
    Option ConstDataBuffer :=
  let index := expIndex / 8
  let mask : UInt8 := 0x80 >>> UInt8.ofNat (expIndex % 8)
  match original.drop index with
  | [] => none
  | byte :: rest =>
    some (original.take index ++
      (byte ^^^ mask ^^^ ((mask - 1) &&& rand 0)) :: rest.mapIdx fun i _ => rand (i + 1))

/-! ### What is asked of the metric -/

/-- The bits of a byte, the highest first. -/
def bits (b : UInt8) : List Bool := (List.range 8).map fun i => b.toBitVec.getMsbD i

/-- The number of zero bits in front of the first bit that is set. -/
def leadingZeros (data : ConstDataBuffer) : Nat := ((data.flatMap bits).takeWhile (!·)).length

def xor (left right : ConstDataBuffer) : ConstDataBuffer := List.zipWith (· ^^^ ·) left right

/-- The first bit of an id is set. -/
def firstBit (id : ConstDataBuffer) : Bool := id.head?.any (0x80 ≤ ·)

/-- The helpers agree on `a`, `b`, `c` and on the random ids of the bucket `e` around `base`. -/
structure Agrees (a b c base : ConstDataBuffer) (e : Nat) : Prop where
  leading : distanceExp a b = leadingZeros (xor a b)
  nearer : distanceExp a c < distanceExp a b → bufferLess (distance a b) (distance a c)
  random : ∀ rand, ∃ id, generateRandomId base e rand = some id ∧ id.length = base.length ∧
    distanceExp base id = e

/-! ### One byte -/

theorem maskLoop_add (b : UInt8) (bits : Nat) (mask : UInt8) (result : Nat) :
    maskLoop b bits mask result = result + maskLoop b bits mask 0 := by
  induction bits generalizing mask result with
  | zero => rfl
  | succ bits ih =>
    unfold maskLoop
    by_cases h : mask ≤ b
    · rw [if_pos h, if_pos h, Nat.add_zero]
    · rw [if_neg h, if_neg h, ih, ih _ (0 + 1)]
      omega

/-- The number of the first bit of a byte that is set. -/
def firstSet (b : UInt8) : Nat := maskLoop b 8 0x80 0

theorem byte_cases : ∀ b : UInt8,
    (b ≠ 0 → ((bits b).takeWhile (!·)).length = firstSet b ∧ firstSet b < 8) ∧
      (firstSet b = 0 ↔ 0x80 ≤ b) :=
  forall_byte (by decide +kernel)

theorem firstSet_mask : ∀ i : Fin 8, ∀ r : UInt8,
    firstSet ((0x80 >>> UInt8.ofNat i) ^^^ (((0x80 >>> UInt8.ofNat i) - 1) &&& r)) = i :=
  fun i => forall_byte (by revert i; decide +kernel)

theorem maskLoop_antitone {b c : UInt8} (h : b ≤ c) (bits : Nat) (mask : UInt8) (result : Nat) :
    maskLoop c bits mask result ≤ maskLoop b bits mask result := by
  induction bits generalizing mask result with
  | zero => exact le_rfl
  | succ bits ih =>
    unfold maskLoop
    by_cases hc : mask ≤ c
    · rw [if_pos hc]
      by_cases hb : mask ≤ b
      · rw [if_pos hb]
      · rw [if_neg hb, maskLoop_add]
        omega
    · rw [if_neg hc, if_neg fun hb => hc (UInt8.le_trans hb h)]
      exact ih _ _

/-! ### Whole ids -/

theorem leadingZeros_zero (data : ConstDataBuffer) : leadingZeros (0 :: data) = 8 + leadingZeros data := by
  have hbits : bits 0 = List.replicate 8 false := by decide
  unfold leadingZeros
  rw [List.flatMap_cons, hbits, List.takeWhile_append]
  have hall : (List.replicate 8 false).takeWhile (!·) = List.replicate 8 false := by decide
  rw [hall, if_pos rfl, List.length_append, List.length_replicate]

theorem leadingZeros_cons {b : UInt8} (hb : b ≠ 0) (data : ConstDataBuffer) :
    leadingZeros (b :: data) = firstSet b := by
  obtain ⟨hlen, hlt⟩ := (byte_cases b).1 hb
  have hshort : ((bits b).takeWhile (!·)).length ≠ (bits b).length := by
    have hall : (bits b).length = 8 := rfl
    omega
  unfold leadingZeros
  rw [List.flatMap_cons, List.takeWhile_append, if_neg hshort, hlen]

theorem xor_eq_zero {a b : UInt8} : a ^^^ b = 0 ↔ a = b := UInt8.xor_eq_zero_iff

theorem distanceExpLoop_eq (i : Nat) {left right : ConstDataBuffer} (h : left.length = right.length) :
    distanceExpLoop i left right =
      if left = right then none else some (8 * i + leadingZeros (xor left right)) := by
  induction left generalizing i right with
  | nil =>
    obtain rfl := List.eq_nil_of_length_eq_zero h.symm
    rfl
  | cons l left ih =>
    obtain _ | ⟨r, right⟩ := right
    · cases h
    have hrest : left.length = right.length := Nat.succ.inj h
    have hxor : xor (l :: left) (r :: right) = (l ^^^ r) :: xor left right := rfl
    unfold distanceExpLoop
    rw [hxor]
    by_cases hlr : l = r
    · rw [if_pos (xor_eq_zero.2 hlr), ih (i + 1) hrest, xor_eq_zero.2 hlr, leadingZeros_zero, hlr]
      by_cases heq : left = right
      · rw [if_pos heq, if_pos (by rw [heq])]
      · rw [if_neg heq, if_neg fun h => heq (List.cons.inj h).2]
        congr 1
        omega
    · have hne : l ^^^ r ≠ 0 := fun h => hlr (xor_eq_zero.1 h)
      rw [if_neg hne, if_neg fun h => hlr (List.cons.inj h).1, leadingZeros_cons hne, maskLoop_add,
        Nat.shiftLeft_eq]
      congr 1
      rw [firstSet]
      omega

/-- The number of leading zeros, except that an id has the number 0 to itself. -/
theorem distanceExp_eq {left right : ConstDataBuffer} (h : left.length = right.length) :
    distanceExp left right = if left = right then 0 else leadingZeros (xor left right) := by
  unfold distanceExp
  rw [distanceExpLoop_eq 0 h]
  by_cases heq : left = right
  · rw [if_pos heq, if_pos heq]
    exact if_pos h
  · rw [if_neg heq, if_neg heq]
    exact Nat.zero_add _

theorem distance_eq {left right : ConstDataBuffer} (h : left.length = right.length) :
    distance left right = xor left right := by
  unfold distance xor
  rw [if_neg (by omega), ← h, List.drop_length, List.append_nil]
  exact List.zipWith_comm_of_comm UInt8.xor_comm

/-- The more zeros in front, the smaller. -/
theorem memcmpLess_of_leadingZeros {left right : ConstDataBuffer} (h : left.length = right.length)
    (hlead : leadingZeros right < leadingZeros left) : memcmpLess left right := by
  induction left generalizing right with
  | nil =>
    obtain rfl := List.eq_nil_of_length_eq_zero h.symm
    exact absurd hlead (Nat.lt_irrefl _)
  | cons l left ih =>
    obtain _ | ⟨r, right⟩ := right
    · cases h
    have hrest : left.length = right.length := Nat.succ.inj h
    unfold memcmpLess
    rw [Bool.or_eq_true, decide_eq_true_iff, Bool.and_eq_true, beq_iff_eq]
    by_cases hr : r = 0
    · by_cases hl : l = 0
      · rw [hl, hr, leadingZeros_zero, leadingZeros_zero] at hlead
        exact .inr ⟨hl.trans hr.symm, ih hrest (by omega)⟩
      · have hlt := ((byte_cases l).1 hl).2
        rw [hr, leadingZeros_zero, leadingZeros_cons hl] at hlead
        omega
    · left
      by_cases hl : l = 0
      · rw [hl]
        exact UInt8.pos_iff_ne_zero.2 hr
      · rw [leadingZeros_cons hl, leadingZeros_cons hr] at hlead
        refine UInt8.not_le.1 fun hle => ?_
        have hanti := maskLoop_antitone hle 8 0x80 0
        exact absurd hlead (Nat.not_lt.2 hanti)

theorem memcmpLess_self_xor (left right : ConstDataBuffer) : memcmpLess left (xor right right) = false := by
  induction left generalizing right with
  | nil => rfl
  | cons l left ih =>
    obtain _ | ⟨r, right⟩ := right
    · rfl
    have hxor : xor (r :: right) (r :: right) = 0 :: xor right right := by
      rw [xor, List.zipWith_cons_cons, UInt8.xor_self]
      rfl
    rw [hxor, memcmpLess, ih right, Bool.and_false, Bool.or_false, decide_eq_false_iff_not]
    exact UInt8.not_lt_zero

theorem leadingZeros_append (front tail : ConstDataBuffer) :
    leadingZeros (xor front front ++ tail) = 8 * front.length + leadingZeros tail := by
  induction front with
  | nil => exact (Nat.zero_add _).symm
  | cons b front ih =>
    have hxor : xor (b :: front) (b :: front) = 0 :: xor front front := by
      rw [xor, List.zipWith_cons_cons, UInt8.xor_self]
      rfl
    rw [hxor, List.cons_append, leadingZeros_zero, ih, List.length_cons]
    omega

theorem firstSet_xor_eq_zero (x y : UInt8) :
    firstSet (x ^^^ y) = 0 ↔ ¬ (0x80 ≤ x ↔ 0x80 ≤ y) := by
  have hmsb : ∀ b : UInt8, 0x80 ≤ b ↔ b.toBitVec.msb = true := forall_byte (by decide +kernel)
  rw [(byte_cases _).2, hmsb, hmsb, hmsb, UInt8.toBitVec_xor, BitVec.msb_xor]
  cases x.toBitVec.msb <;> cases y.toBitVec.msb <;> decide

theorem leadingZeros_xor_eq_zero {left right : ConstDataBuffer} (h : left.length = right.length)
    (hne : left ≠ right) : leadingZeros (xor left right) = 0 ↔ firstBit left ≠ firstBit right := by
  obtain _ | ⟨l, left⟩ := left
  · exact absurd (List.eq_nil_of_length_eq_zero h.symm).symm hne
  obtain _ | ⟨r, right⟩ := right
  · cases h
  have hxor : xor (l :: left) (r :: right) = (l ^^^ r) :: xor left right := rfl
  have hfirst : firstBit (l :: left) ≠ firstBit (r :: right) ↔ firstSet (l ^^^ r) = 0 := by
    rw [firstSet_xor_eq_zero]
    simp [firstBit]
  rw [hxor, hfirst]
  by_cases hzero : l ^^^ r = 0
  · rw [hzero, leadingZeros_zero]
    exact iff_of_false (by omega) (by decide)
  · rw [leadingZeros_cons hzero]

/-! ### Random ids -/

theorem distanceExp_append (front : ConstDataBuffer) {x y : UInt8} (hne : x ≠ y)
    {rest rest' : ConstDataBuffer} (hlen : rest.length = rest'.length) :
    distanceExp (front ++ x :: rest) (front ++ y :: rest') = 8 * front.length + firstSet (x ^^^ y) := by
  have hlen' : (front ++ x :: rest).length = (front ++ y :: rest').length := by
    rw [List.length_append, List.length_append, List.length_cons, List.length_cons, hlen]
  have hdiff : front ++ x :: rest ≠ front ++ y :: rest' :=
    fun h => hne (List.cons.inj (List.append_cancel_left h)).1
  have hxor : xor (front ++ x :: rest) (front ++ y :: rest') =
      xor front front ++ (x ^^^ y) :: xor rest rest' := List.zipWith_append rfl
  rw [distanceExp_eq hlen', if_neg hdiff, hxor, leadingZeros_append,
    leadingZeros_cons fun h => hne (UInt8.xor_eq_zero_iff.1 h)]

theorem generateRandomId_eq_some {base : ConstDataBuffer} {e : Nat} (he : e < 8 * base.length)
    (rand : Nat → UInt8) : ∃ id, generateRandomId base e rand = some id ∧ id.length = base.length ∧
      distanceExp base id = e := by
  have hindex : e / 8 < base.length := by omega
  obtain ⟨front, byte, rest, hbase, hfront⟩ :
      ∃ front byte rest, base = front ++ byte :: rest ∧ front.length = e / 8 := by
    refine ⟨base.take (e / 8), base[e / 8], base.drop (e / 8 + 1), ?_, List.length_take_of_le hindex.le⟩
    rw [← List.drop_eq_getElem_cons hindex, List.take_append_drop]
  have hset := firstSet_mask ⟨e % 8, Nat.mod_lt e (by decide)⟩ (rand 0)
  let mask : UInt8 := 0x80 >>> UInt8.ofNat (e % 8)
  have hgen : generateRandomId base e rand = some (front ++
      (byte ^^^ mask ^^^ ((mask - 1) &&& rand 0)) :: rest.mapIdx fun i _ => rand (i + 1)) := by
    have hdrop : base.drop (e / 8) = byte :: rest := by rw [hbase, ← hfront, List.drop_left]
    have htake : base.take (e / 8) = front := by rw [hbase, ← hfront, List.take_left]
    unfold generateRandomId
    simp only [hdrop, htake]
    rfl
  have hbyte : byte ^^^ (byte ^^^ mask ^^^ ((mask - 1) &&& rand 0)) =
      mask ^^^ ((mask - 1) &&& rand 0) := by
    rw [← UInt8.xor_assoc, ← UInt8.xor_assoc, UInt8.xor_self, UInt8.zero_xor]
  have hdiff : byte ≠ byte ^^^ mask ^^^ ((mask - 1) &&& rand 0) := by
    intro heq
    rw [← hbyte, ← heq, UInt8.xor_self] at hset
    have hzero : firstSet 0 = 8 := rfl
    have hlt := Nat.mod_lt e (show 0 < 8 by decide)
    rw [hzero] at hset
    exact absurd hset (Nat.ne_of_gt hlt)
  refine ⟨_, hgen, ?_, ?_⟩
  · rw [hbase, List.length_append, List.length_append, List.length_cons, List.length_cons,
      List.length_mapIdx]
  · rw [hbase, distanceExp_append front hdiff List.length_mapIdx.symm, hbyte, hset, hfront]
    exact Nat.div_add_mod e 8

theorem generateRandomId_eq_none {base : ConstDataBuffer} {e : Nat} (he : 8 * base.length ≤ e)
    (rand : Nat → UInt8) : generateRandomId base e rand = none := by
  have hdrop : base.drop (e / 8) = [] := List.drop_eq_nil_of_le (by omega)
  unfold generateRandomId
  simp only [hdrop]

/-! ### The agreement -/

theorem bufferLess_xor {a b c : ConstDataBuffer} (hb : a.length = b.length) (hc : a.length = c.length) :
    bufferLess (distance a b) (distance a c) = memcmpLess (xor a b) (xor a c) := by
  have hlen : (xor a b).length = (xor a c).length := by
    unfold xor
    rw [List.length_zipWith, List.length_zipWith, ← hb, ← hc]
  rw [distance_eq hb, distance_eq hc, bufferLess, hlen, beq_self_eq_true, Bool.true_and,
    decide_eq_false (Nat.lt_irrefl _), Bool.false_or]

theorem leadingZeros_self (a : ConstDataBuffer) : leadingZeros (xor a a) = 8 * a.length := by
  have h := leadingZeros_append a []
  rw [List.append_nil] at h
  exact h

/-- The helpers agree exactly if no id is compared with itself, save that nothing has no bits and that an
id is not nearer to itself than one of the other half, and the bucket is one of the bits of the base. -/
theorem agrees_iff {a b c base : ConstDataBuffer} {e : Nat} (hb : a.length = b.length)
    (hc : a.length = c.length) : Agrees a b c base e ↔
      (a = b → a = []) ∧ (a = c → a ≠ b → firstBit a ≠ firstBit b) ∧ e < 8 * base.length := by
  constructor
  · rintro ⟨hleading, hnearer, hrandom⟩
    refine ⟨?_, ?_, ?_⟩
    · rintro rfl
      rw [distanceExp_eq hb, if_pos rfl, leadingZeros_self] at hleading
      exact List.eq_nil_of_length_eq_zero (by omega)
    · rintro rfl hab
      rw [← leadingZeros_xor_eq_zero hb hab]
      by_contra hpos
      rw [distanceExp_eq hc, distanceExp_eq hb, if_pos rfl, if_neg hab] at hnearer
      have hless := hnearer (Nat.pos_of_ne_zero hpos)
      rw [bufferLess_xor hb hc, memcmpLess_self_xor] at hless
      cases hless
    · by_contra he
      obtain ⟨id, hid, -⟩ := hrandom fun _ => 0
      rw [generateRandomId_eq_none (not_lt.1 he)] at hid
      cases hid
  · rintro ⟨hsame, hself, he⟩
    refine ⟨?_, fun hexp => ?_, generateRandomId_eq_some he⟩
    · rw [distanceExp_eq hb]
      by_cases hab : a = b
      · rw [if_pos hab, ← hab, hsame hab]
        rfl
      · rw [if_neg hab]
    · rw [distanceExp_eq hb, distanceExp_eq hc] at hexp
      by_cases hab : a = b
      · rw [if_pos hab] at hexp
        exact absurd hexp (Nat.not_lt_zero _)
      by_cases hac : a = c
      · rw [if_neg hab, (leadingZeros_xor_eq_zero hb hab).2 (hself hac hab)] at hexp
        exact absurd hexp (Nat.not_lt_zero _)
      · rw [if_neg hab, if_neg hac] at hexp
        have hlen : (xor a b).length = (xor a c).length := by
          unfold xor
          rw [List.length_zipWith, List.length_zipWith, ← hb, ← hc]
        rw [bufferLess_xor hb hc]
        exact memcmpLess_of_leadingZeros hlen hexp

theorem agrees_iff_apart : Agrees [0x0F] [0xF0] [0x10] [0x00, 0x01] 13 :=
  (@agrees_iff [0x0F] [0xF0] [0x10] [0x00, 0x01] 13 rfl rfl).2 ⟨by decide, by decide, by decide⟩

/-- An id has the number 0 to itself, which is that of the ids farthest away. -/
theorem not_agrees_same : ¬ ∀ a b c base e, a.length = b.length → a.length = c.length →
    e < 8 * base.length → Agrees a b c base e := by
  intro h
  obtain ⟨-, hnearer, -⟩ := h [0] [1] [0] [0] 0 rfl rfl (by decide)
  exact absurd (hnearer (by decide)) (by decide)

end Vds.DhtNetwork.DhtObjectId
