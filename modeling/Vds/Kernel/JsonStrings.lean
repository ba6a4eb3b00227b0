import Vds.Kernel.JsonText
import Vds.Library.Bytes

/-! The characters of a string on their way through `write_string` and the parser: the writer
takes them with `next_char` and cuts the code to 16 bits, the parser puts them with `utf8::add`,
which marks a character of three bytes as one of two. -/

namespace Vds

namespace Utf8

open Library (forall_byte)

theorem byte_cases : ∀ a : UInt8,
    ((a &&& 0b10000000 == 0) = true ↔ a < 0x80) ∧
    (a &&& 0b11100000 = 0b11000000 →
      a = 0b11000000 ||| (a &&& 0b00011111) ∧ a &&& 0b00011111 = a - 0xC0 ∧ 0xC0 ≤ a ∧ a < 0xE0 ∧
        ¬ a < 0x80) ∧
    (0xC0 ≤ a → a < 0xE0 → a &&& 0b11100000 = 0b11000000) ∧
    (isTail a → a = 0b10000000 ||| (a &&& 0b00111111)) :=
  forall_byte (by decide +kernel)

theorem lead_one (a : UInt8) : (a &&& 0b10000000 == 0) = true ↔ a < 0x80 := (byte_cases a).1

theorem lead_two (a : UInt8) (h : a &&& 0b11100000 = 0b11000000) :
    a = 0b11000000 ||| (a &&& 0b00011111) ∧ a &&& 0b00011111 = a - 0xC0 ∧ 0xC0 ≤ a ∧ a < 0xE0 ∧
      ¬ a < 0x80 :=
  (byte_cases a).2.1 h

theorem mask_of_lead_two (a : UInt8) : 0xC0 ≤ a → a < 0xE0 → a &&& 0b11100000 = 0b11000000 :=
  (byte_cases a).2.2.1

theorem tail_bits (b : UInt8) (h : isTail b) : b = 0b10000000 ||| (b &&& 0b00111111) :=
  (byte_cases b).2.2.2 h

/-- What is read for a character code that was written. -/
def reencode (ch : UInt32) : Expected StdString := encode (ch &&& 0xFFFF)

/-- What the parser reads for the text of a string. -/
def respell : Nat → StdString → Option StdString
  | 0, _ => some []
  | _ + 1, [] => some []
  | n + 1, a :: value =>
    match nextChar (a :: value) with
    | .error _ => none
    | .ok (ch, rest) => do
      let bytes ← (reencode ch).toOption
      let out ← respell n rest
      return bytes ++ out

/-- Every character is below U+0800: it takes one byte, or two with a lead byte that is needed. -/
def isShort : StdString → Bool
  | [] => true
  | [a] => a < 0x80
  | a :: b :: rest =>
    if a < 0x80 then isShort (b :: rest)
    else 0xC2 ≤ a && a < 0xE0 && isTail b && isShort rest

theorem reencode_ok (ch : UInt32) : ∃ bytes, reencode ch = .ok bytes ∧ bytes.length ≤ 3 := by
  have hcut : ch &&& 0xFFFF < 0x10000 := by
    rw [UInt32.lt_iff_toNat_lt, UInt32.toNat_and]
    exact Nat.lt_succ_of_le Nat.and_le_right
  rw [reencode, encode]
  by_cases h1 : ch &&& 0xFFFF < 0x80
  · exact ⟨_, if_pos h1, by simp⟩
  · rw [if_neg h1]
    by_cases h2 : ch &&& 0xFFFF < 0x800
    · exact ⟨_, if_pos h2, by simp⟩
    · rw [if_neg h2]
      exact ⟨_, if_pos hcut, le_refl _⟩

theorem reencode_one {ch : UInt32} (h : ch < 0x80) : reencode ch = .ok [ch.toUInt8] := by
  have hcut : ch &&& 0xFFFF = ch := by
    apply UInt32.toNat_inj.1
    rw [UInt32.toNat_and]
    refine (Nat.and_two_pow_sub_one_eq_mod ch.toNat 16).trans (Nat.mod_eq_of_lt ?_)
    exact Nat.lt_trans (UInt32.lt_iff_toNat_lt.1 h) (by decide)
  rw [reencode, hcut, encode]
  exact if_pos h

/-- The code of a character of two bytes. -/
def twoByteCode (a b : UInt8) : UInt32 :=
  (a &&& 0b00011111).toUInt32 <<< 6 ||| (b &&& 0b00111111).toUInt32

theorem twoByteCode_cut (a b : UInt8) : twoByteCode a b &&& 0xFFFF = twoByteCode a b := by
  apply UInt32.toBitVec_inj.1
  ext i hi
  simp only [twoByteCode, UInt32.toBitVec_and, UInt32.toBitVec_or, BitVec.getElem_and]
  interval_cases i <;> simp

theorem twoByteCode_lead {a : UInt8} (b : UInt8) (h : a &&& 0b11100000 = 0b11000000) :
    ((0b11000000 : UInt32) ||| twoByteCode a b >>> 6).toUInt8 = a := by
  conv_rhs => rw [(lead_two a h).1]
  apply UInt8.toBitVec_inj.1
  ext i hi
  simp only [twoByteCode]
  interval_cases i <;> simp

theorem twoByteCode_tail (a : UInt8) {b : UInt8} (h : isTail b) :
    tailByte (twoByteCode a b) 0 = b := by
  conv_rhs => rw [tail_bits b h]
  apply UInt8.toBitVec_inj.1
  ext i hi
  simp only [tailByte, twoByteCode]
  interval_cases i <;> simp

theorem twoByteCode_small {a : UInt8} (b : UInt8) (h : a &&& 0b11100000 = 0b11000000) :
    twoByteCode a b < 0x80 ↔ ¬ 0xC2 ≤ a := by
  obtain ⟨-, hlow, hmin, hmax, -⟩ := lead_two a h
  have hmin' : 0xC0 ≤ a.toNat := UInt8.le_iff_toNat_le.1 hmin
  have hmax' : a.toNat < 0xE0 := UInt8.lt_iff_toNat_lt.1 hmax
  have hsub : (a &&& 0b00011111).toNat = a.toNat - 0xC0 := by
    rw [hlow, UInt8.toNat_sub_of_le _ _ hmin]
    rfl
  have htail : (b &&& 0b00111111).toNat = b.toNat % 64 :=
    (UInt8.toNat_and _ _).trans (Nat.and_two_pow_sub_one_eq_mod b.toNat 6)
  have hcode : (twoByteCode a b).toNat = (a.toNat - 0xC0) * 64 + b.toNat % 64 := by
    rw [twoByteCode, UInt32.toNat_or, UInt32.toNat_shiftLeft, UInt8.toNat_toUInt32,
      UInt8.toNat_toUInt32, hsub, htail]
    have hmod : (a.toNat - 0xC0) <<< ((6 : UInt32).toNat % 32) % 2 ^ 32 =
        (a.toNat - 0xC0) <<< 6 := by
      refine Nat.mod_eq_of_lt ?_
      change (a.toNat - 0xC0) <<< 6 < _
      rw [Nat.shiftLeft_eq]
      omega
    have hlow : b.toNat % 64 < 2 ^ 6 := Nat.mod_lt b.toNat (by decide)
    rw [hmod, ← Nat.shiftLeft_add_eq_or_of_lt hlow, Nat.shiftLeft_eq]
  have hle : (0xC2 : UInt8) ≤ a ↔ 0xC2 ≤ a.toNat := UInt8.le_iff_toNat_le
  rw [UInt32.lt_iff_toNat_lt, hcode, hle]
  change (a.toNat - 0xC0) * 64 + b.toNat % 64 < 128 ↔ _
  omega

theorem twoByteCode_lt (a b : UInt8) : twoByteCode a b < 0x800 := by
  have hcut : twoByteCode a b = twoByteCode a b &&& 0x7FF := by
    apply UInt32.toBitVec_inj.1
    ext i hi
    simp only [twoByteCode, UInt32.toBitVec_and, UInt32.toBitVec_or, BitVec.getElem_and]
    interval_cases i <;> simp
  rw [hcut, UInt32.lt_iff_toNat_lt, UInt32.toNat_and]
  exact Nat.lt_succ_of_le Nat.and_le_right

theorem reencode_two {a b : UInt8} (ha : a &&& 0b11100000 = 0b11000000) (hb : isTail b)
    (hlead : 0xC2 ≤ a) : reencode (twoByteCode a b) = .ok [a, b] := by
  have hbig : ¬ twoByteCode a b < 0x80 := fun h => (twoByteCode_small b ha).1 h hlead
  rw [reencode, twoByteCode_cut, encode, if_neg hbig, if_pos (twoByteCode_lt a b),
    twoByteCode_lead b ha, twoByteCode_tail a hb]

/-- The lead byte that `add` gives a character of three bytes marks one of two. -/
theorem lead_of_three (ch : UInt32) :
    ((0b11000000 : UInt32) ||| (ch &&& 0xFFFF) >>> 12).toUInt8 &&& 0b11110000 = 0b11000000 := by
  apply UInt8.toBitVec_inj.1
  ext i hi
  simp only [UInt8.toBitVec_and]
  interval_cases i <;> simp

theorem reencode_ne_three {ch : UInt32} {a b c : UInt8} (ha : a &&& 0b11110000 = 0b11100000) :
    reencode ch ≠ .ok [a, b, c] := by
  intro h
  rw [reencode, encode] at h
  split_ifs at h
  · simp only [Except.ok.injEq, List.cons.injEq, reduceCtorEq, and_false] at h
  · simp only [Except.ok.injEq, List.cons.injEq, reduceCtorEq, and_false] at h
  · simp only [Except.ok.injEq, List.cons.injEq] at h
    rw [← h.1, lead_of_three] at ha
    exact absurd ha (by decide)
  · simp only [Except.ok.injEq, List.cons.injEq, reduceCtorEq, and_false] at h

/-- The bytes that `next_char` takes. -/
theorem nextChar_unit {a : UInt8} {value rest : StdString} {ch : UInt32}
    (h : nextChar (a :: value) = .ok (ch, rest)) :
    (a < 0x80 ∧ ch = a.toUInt32 ∧ value = rest) ∨
    (∃ b, a &&& 0b11100000 = 0b11000000 ∧ isTail b ∧ value = b :: rest ∧ ch = twoByteCode a b) ∨
    (∃ b c, a &&& 0b11110000 = 0b11100000 ∧ value = b :: c :: rest) ∨
    (∃ b c d, a &&& 0b11111000 = 0b11110000 ∧ value = b :: c :: d :: rest) := by
  by_cases h1 : a &&& 0b10000000 == 0
  · simp only [nextChar, h1, if_true, Except.ok.injEq, Prod.mk.injEq] at h
    exact Or.inl ⟨(lead_one a).1 h1, h.1.symm, h.2⟩
  by_cases h2 : a &&& 0b11100000 == 0b11000000
  · match value with
    | [] =>
      simp only [nextChar, h1, h2, if_true, if_false, Bool.false_eq_true, reduceCtorEq] at h
    | b :: value =>
      simp only [nextChar, h1, h2, if_true, if_false, Bool.false_eq_true] at h
      split_ifs at h with hb
      rw [Except.ok.injEq, Prod.mk.injEq] at h
      exact Or.inr (Or.inl ⟨b, beq_iff_eq.1 h2, hb, h.2 ▸ rfl, h.1.symm⟩)
  by_cases h3 : a &&& 0b11110000 == 0b11100000
  · match value with
    | [] =>
      simp only [nextChar, h1, h2, h3, if_true, if_false, Bool.false_eq_true, reduceCtorEq] at h
    | [_] =>
      simp only [nextChar, h1, h2, h3, if_true, if_false, Bool.false_eq_true, reduceCtorEq] at h
    | b :: c :: value =>
      simp only [nextChar, h1, h2, h3, if_true, if_false, Bool.false_eq_true] at h
      split_ifs at h
      rw [Except.ok.injEq, Prod.mk.injEq] at h
      exact Or.inr (Or.inr (Or.inl ⟨b, c, beq_iff_eq.1 h3, h.2 ▸ rfl⟩))
  by_cases h4 : a &&& 0b11111000 == 0b11110000
  · match value with
    | [] =>
      simp only [nextChar, h1, h2, h3, h4, if_true, if_false, Bool.false_eq_true,
        reduceCtorEq] at h
    | [_] =>
      simp only [nextChar, h1, h2, h3, h4, if_true, if_false, Bool.false_eq_true,
        reduceCtorEq] at h
    | [_, _] =>
      simp only [nextChar, h1, h2, h3, h4, if_true, if_false, Bool.false_eq_true,
        reduceCtorEq] at h
    | b :: c :: d :: value =>
      simp only [nextChar, h1, h2, h3, h4, if_true, if_false, Bool.false_eq_true] at h
      split_ifs at h
      rw [Except.ok.injEq, Prod.mk.injEq] at h
      exact Or.inr (Or.inr (Or.inr ⟨b, c, d, beq_iff_eq.1 h4, h.2 ▸ rfl⟩))
  · simp only [nextChar, h1, h2, h3, h4, if_false, Bool.false_eq_true, reduceCtorEq] at h

theorem nextChar_one {a : UInt8} (value : StdString) (h : a < 0x80) :
    nextChar (a :: value) = .ok (a.toUInt32, value) := by
  simp only [nextChar, (lead_one a).2 h, if_true]

theorem nextChar_two {a b : UInt8} (value : StdString) (ha : a &&& 0b11100000 = 0b11000000)
    (hb : isTail b) : nextChar (a :: b :: value) = .ok (twoByteCode a b, value) := by
  have hone : ¬ (a &&& 0b10000000 == 0) = true :=
    fun h => (lead_two a ha).2.2.2.2 ((lead_one a).1 h)
  simp only [nextChar, hone, beq_iff_eq.2 ha, hb, if_true, if_false, Bool.false_eq_true,
    twoByteCode]

theorem respell_cons {n : ℕ} {a : UInt8} {value rest : StdString} {ch : UInt32}
    {bytes : StdString} (h : nextChar (a :: value) = .ok (ch, rest))
    (hbytes : reencode ch = .ok bytes) :
    respell (n + 1) (a :: value) = (respell n rest).map (bytes ++ ·) := by
  rw [respell, h]
  simp only [hbytes]
  cases respell n rest <;> rfl

theorem isShort_one {a : UInt8} (value : StdString) (h : a < 0x80) :
    isShort (a :: value) = isShort value := by
  cases value with
  | nil => simp only [isShort, h, decide_true]
  | cons b value => rw [isShort, if_pos h]

theorem isShort_two {a b : UInt8} (value : StdString) (h : ¬ a < 0x80) :
    isShort (a :: b :: value) = (0xC2 ≤ a && a < 0xE0 && isTail b && isShort value) := by
  rw [isShort, if_neg h]

/-- A character comes back with as many bytes at most, and unchanged only if it is short. -/
theorem nextChar_reencode {a : UInt8} {value rest : StdString} {ch : UInt32}
    (h : nextChar (a :: value) = .ok (ch, rest)) :
    ∃ unit bytes, a :: value = unit ++ rest ∧ reencode ch = .ok bytes ∧
      bytes.length ≤ unit.length ∧ (bytes = unit → isShort rest → isShort (a :: value)) := by
  obtain ⟨bytes, hbytes, hlen⟩ := reencode_ok ch
  obtain ⟨ha, rfl, rfl⟩ | ⟨b, ha, hb, rfl, rfl⟩ | ⟨b, c, ha, rfl⟩ | ⟨b, c, d, ha, rfl⟩ :=
    nextChar_unit h
  · have hsmall : a.toUInt32 < 0x80 := by
      rw [UInt32.lt_iff_toNat_lt, UInt8.toNat_toUInt32]
      exact UInt8.lt_iff_toNat_lt.1 ha
    refine ⟨[a], _, rfl, reencode_one hsmall, le_refl _, fun _ hrest => ?_⟩
    rw [isShort_one value ha]
    exact hrest
  · by_cases hlead : 0xC2 ≤ a
    · refine ⟨[a, b], _, rfl, reencode_two ha hb hlead, le_refl _, fun _ hrest => ?_⟩
      obtain ⟨-, -, -, hmax, hbig⟩ := lead_two a ha
      rw [isShort_two rest hbig]
      simp only [hlead, hmax, hb, hrest, decide_true, Bool.and_true]
    · refine ⟨[a, b], _, rfl, reencode_one ((twoByteCode_small b ha).2 hlead), Nat.le_succ _,
        fun heq => ?_⟩
      exact absurd (congrArg List.length heq) (by simp)
  · refine ⟨[a, b, c], bytes, rfl, hbytes, hlen, fun heq => ?_⟩
    exact absurd (heq ▸ hbytes) (reencode_ne_three ha)
  · refine ⟨[a, b, c, d], bytes, rfl, hbytes, Nat.le_succ_of_le hlen, fun heq => ?_⟩
    rw [heq] at hlen
    exact absurd hlen (by simp)

/-- One character of a text that is read back. -/
theorem respell_cons_some {n : ℕ} {a : UInt8} {value out : StdString}
    (h : respell (n + 1) (a :: value) = some out) :
    ∃ ch rest bytes tail, nextChar (a :: value) = .ok (ch, rest) ∧ reencode ch = .ok bytes ∧
      respell n rest = some tail ∧ out = bytes ++ tail := by
  match hnext : nextChar (a :: value) with
  | .error e =>
    rw [respell, hnext] at h
    cases h
  | .ok (ch, rest) =>
    obtain ⟨bytes, hbytes, -⟩ := reencode_ok ch
    rw [respell_cons hnext hbytes, Option.map_eq_some_iff] at h
    obtain ⟨tail, htail, rfl⟩ := h
    exact ⟨ch, rest, bytes, tail, rfl, hbytes, htail, rfl⟩

theorem nextChar_shorter {a : UInt8} {value rest : StdString} {ch : UInt32}
    (h : nextChar (a :: value) = .ok (ch, rest)) : rest.length ≤ value.length := by
  obtain ⟨-, -, rfl⟩ | ⟨b, -, -, rfl, -⟩ | ⟨b, c, -, rfl⟩ | ⟨b, c, d, -, rfl⟩ := nextChar_unit h
  · exact le_refl _
  · exact Nat.le_add_right _ 1
  · exact Nat.le_add_right _ 2
  · exact Nat.le_add_right _ 3

theorem respell_length {n : ℕ} {value out : StdString} (h : respell n value = some out)
    (hn : value.length ≤ n) : out.length ≤ value.length := by
  induction n generalizing value out with
  | zero =>
    cases h
    exact Nat.zero_le _
  | succ n ih =>
    match value with
    | [] =>
      cases h
      exact le_refl _
    | a :: value =>
      obtain ⟨ch, rest, bytes, tail, hnext, hbytes, htail, rfl⟩ := respell_cons_some h
      obtain ⟨unit, bytes', hunit, hbytes', hlen, -⟩ := nextChar_reencode hnext
      cases hbytes.symm.trans hbytes'
      have hrest := nextChar_shorter hnext
      have htail' := ih htail (hrest.trans (Nat.le_of_succ_le_succ hn))
      rw [hunit, List.length_append, List.length_append]
      exact Nat.add_le_add hlen htail'

theorem isShort_of_respell {n : ℕ} {value : StdString} (h : respell n value = some value)
    (hn : value.length ≤ n) : isShort value := by
  induction n generalizing value with
  | zero => rw [List.eq_nil_of_length_eq_zero (Nat.le_zero.1 hn), isShort]
  | succ n ih =>
    match value with
    | [] => rw [isShort]
    | a :: value =>
      obtain ⟨ch, rest, bytes, tail, hnext, hbytes, htail, heq⟩ := respell_cons_some h
      obtain ⟨unit, bytes', hunit, hbytes', hlen, hshort⟩ := nextChar_reencode hnext
      cases hbytes.symm.trans hbytes'
      have hrest := (nextChar_shorter hnext).trans (Nat.le_of_succ_le_succ hn)
      have htail' := respell_length htail hrest
      -- neither part may grow, so both are unchanged
      have hsum := congrArg List.length (hunit.symm.trans heq)
      rw [List.length_append, List.length_append] at hsum
      obtain ⟨hu, hr⟩ := List.append_inj (hunit.symm.trans heq) (by omega)
      exact hshort hu.symm (ih (hr ▸ htail) hrest)

theorem respell_of_isShort {n : ℕ} {value : StdString} (h : isShort value)
    (hn : value.length ≤ n) : respell n value = some value := by
  induction n generalizing value with
  | zero => rw [List.eq_nil_of_length_eq_zero (Nat.le_zero.1 hn), respell]
  | succ n ih =>
    match value with
    | [] => rw [respell]
    | a :: value =>
      have hn' := Nat.le_of_succ_le_succ hn
      by_cases ha : a < 0x80
      · have hsmall : a.toUInt32 < 0x80 := by
          rw [UInt32.lt_iff_toNat_lt, UInt8.toNat_toUInt32]
          exact UInt8.lt_iff_toNat_lt.1 ha
        rw [isShort_one value ha] at h
        rw [respell_cons (nextChar_one value ha) (reencode_one hsmall), ih h hn']
        simp
      · match value with
        | [] => simp only [isShort, ha, decide_false, Bool.false_eq_true] at h
        | b :: value =>
          rw [isShort_two value ha] at h
          simp only [Bool.and_eq_true, decide_eq_true_eq] at h
          obtain ⟨⟨⟨hlead, hrange⟩, hb⟩, hrest⟩ := h
          have hmask := mask_of_lead_two a (UInt8.le_trans (by decide) hlead) hrange
          rw [respell_cons (nextChar_two value hmask hb) (reencode_two hmask hb hlead),
            ih hrest (Nat.le_of_succ_le hn')]
          rfl

end Utf8

end Vds
