import Vds.Kernel.JsonStrings

/-! `utf8::add` and `utf8::next_char` over whole texts: the lead bytes of three and four bytes that
`add` writes are those of two. -/

namespace Vds.Utf8

open Library (forall_byte)

/-- `utf16::to_utf8`: the characters are added one after the other. -/
def toUtf8 (original : List UInt32) : Expected StdString := original.foldlM add []

/-- `next_char` until nothing is left, for at most `fuel` characters. -/
def readChars : Nat → StdString → Expected (List UInt32)
  | _, [] => .ok []
  | 0, _ => .error .outOfFuel
  | fuel + 1, utf8string => do
    let (ch, rest) ← nextChar utf8string
    let chars ← readChars fuel rest
    return ch :: chars

/-- A character takes at least one byte. -/
def readAll (utf8string : StdString) : Expected (List UInt32) :=
  readChars utf8string.length utf8string

/-- The text of the characters is read back, and is the standard encoding. -/
def RoundTrip (chars : List Char) : Prop :=
  ∃ text, toUtf8 (chars.map Char.val) = .ok text ∧ readAll text = .ok (chars.map Char.val) ∧
    text = chars.flatMap String.utf8EncodeChar

/-! ### Adding characters -/

theorem add_eq (result : StdString) (ch : UInt32) :
    add result ch = (result ++ ·) <$> encode ch := by
  rw [add]
  cases encode ch <;> rfl

theorem foldlM_add (original : List UInt32) (result : StdString) :
    original.foldlM add result = (result ++ ·) <$> toUtf8 original := by
  induction original generalizing result with
  | nil => exact congrArg Except.ok (List.append_nil result).symm
  | cons ch original ih =>
    rw [toUtf8, List.foldlM_cons, List.foldlM_cons, add_eq, add_eq]
    cases encode ch with
    | error e => rfl
    | ok bytes =>
      change original.foldlM add (result ++ bytes) = _ <$> original.foldlM add ([] ++ bytes)
      rw [ih, ih, List.nil_append]
      cases toUtf8 original with
      | error e => rfl
      | ok text => exact congrArg Except.ok (List.append_assoc result bytes text)

theorem toUtf8_cons {ch : UInt32} {original : List UInt32} {bytes text : StdString}
    (hbytes : encode ch = .ok bytes) (htext : toUtf8 original = .ok text) :
    toUtf8 (ch :: original) = .ok (bytes ++ text) := by
  rw [toUtf8, List.foldlM_cons, add_eq, hbytes]
  change original.foldlM add ([] ++ bytes) = _
  rw [foldlM_add, htext]
  rfl

theorem scalar_lt (c : Char) : c.val < 0x110000 := by
  apply UInt32.lt_iff_toNat_lt.2
  obtain h | ⟨-, h⟩ := c.valid
  · exact Nat.lt_trans h (by decide)
  · exact h

theorem encode_ok (c : Char) : ∃ bytes, encode c.val = .ok bytes := by
  rw [encode]
  split_ifs with h1 h2 h3 h4
  · exact ⟨_, rfl⟩
  · exact ⟨_, rfl⟩
  · exact ⟨_, rfl⟩
  · exact ⟨_, rfl⟩
  · exact absurd (scalar_lt c) h4

theorem toUtf8_ok (chars : List Char) : ∃ text, toUtf8 (chars.map Char.val) = .ok text := by
  induction chars with
  | nil => exact ⟨[], rfl⟩
  | cons c chars ih =>
    obtain ⟨text, htext⟩ := ih
    obtain ⟨bytes, hbytes⟩ := encode_ok c
    exact ⟨bytes ++ text, toUtf8_cons hbytes htext⟩

/-! ### Reading characters -/

theorem readChars_nil (fuel : Nat) : readChars fuel [] = .ok [] := by
  cases fuel <;> rfl

theorem readChars_cons {fuel : Nat} {a : UInt8} {value rest : StdString} {ch : UInt32}
    (h : nextChar (a :: value) = .ok (ch, rest)) :
    readChars (fuel + 1) (a :: value) = (ch :: ·) <$> readChars fuel rest := by
  rw [readChars, h]
  change (readChars fuel rest >>= fun chars => pure (ch :: chars)) = _
  cases readChars fuel rest <;> rfl
  · exact fun h => by cases h

/-- More fuel than bytes makes no difference. -/
theorem readChars_fuel {fuel : Nat} {text : StdString} (h : text.length ≤ fuel) :
    readChars fuel text = readAll text := by
  induction fuel using Nat.strong_induction_on generalizing text with
  | _ fuel ih =>
    match text, fuel with
    | [], fuel => rw [readAll, readChars_nil, readChars_nil]
    | a :: value, fuel + 1 =>
      have hlen : value.length ≤ fuel := Nat.le_of_succ_le_succ h
      cases hnext : nextChar (a :: value) with
      | error e =>
        have hfail : ∀ n, readChars (n + 1) (a :: value) = .error e := by
          intro n
          rw [readChars, hnext]
          · rfl
          · exact fun h => by cases h
        rw [readAll, List.length_cons, hfail, hfail]
      | ok next =>
        obtain ⟨ch, rest⟩ := next
        have hrest := nextChar_shorter hnext
        rw [readAll, List.length_cons, readChars_cons hnext, readChars_cons hnext,
          ih fuel (Nat.lt_succ_self fuel) (hrest.trans hlen),
          ih value.length (Nat.lt_succ_of_le hlen) hrest]

theorem readAll_cons {a : UInt8} {value rest : StdString} {ch : UInt32}
    (h : nextChar (a :: value) = .ok (ch, rest)) :
    readAll (a :: value) = (ch :: ·) <$> readAll rest := by
  rw [readAll, List.length_cons, readChars_cons h, readChars_fuel (nextChar_shorter h)]

theorem readAll_error {a : UInt8} {value : StdString} {e : Error}
    (h : nextChar (a :: value) = .error e) : readAll (a :: value) = .error e := by
  rw [readAll, List.length_cons, readChars, h]
  · rfl
  · exact fun h => by cases h

theorem tail_isTail (ch shift : UInt32) : isTail (tailByte ch shift) := by
  have hmask : ∀ x : UInt32,
      ((0b10000000 : UInt32) ||| ((0b00111111 : UInt32) &&& x)).toUInt8 &&& 0b11000000 =
        0b10000000 := by
    intro x
    apply UInt8.toBitVec_inj.1
    ext i hi
    simp only [UInt8.toBitVec_and]
    interval_cases i <;> simp
  exact beq_iff_eq.2 (hmask (ch >>> shift))

/-- A text cannot begin with a byte that continues a character. -/
theorem nextChar_tail {b : UInt8} (h : isTail b) (value : StdString) :
    nextChar (b :: value) = .error (.runtimeError "Invalid UTF8 string") := by
  have hmasks : ∀ b : UInt8, isTail b → (b &&& 0b10000000 == 0) = false ∧
      (b &&& 0b11100000 == 0b11000000) = false ∧ (b &&& 0b11110000 == 0b11100000) = false ∧
      (b &&& 0b11111000 == 0b11110000) = false := forall_byte (by decide +kernel)
  obtain ⟨h1, h2, h3, h4⟩ := hmasks b h
  simp only [nextChar, h1, h2, h3, h4, Bool.false_eq_true, if_false]

/-! ### Short characters -/

theorem cut_eq {ch : UInt32} (h : ch < 0x800) : ch &&& 0x7FF = ch := by
  apply UInt32.toNat_inj.1
  rw [UInt32.toNat_and]
  refine (Nat.and_two_pow_sub_one_eq_mod ch.toNat 11).trans (Nat.mod_eq_of_lt ?_)
  exact UInt32.lt_iff_toNat_lt.1 h

theorem encode_short {ch : UInt32} (h : ch < 0x800) (rest : StdString) :
    ∃ a value, encode ch = .ok (a :: value) ∧
      nextChar (a :: (value ++ rest)) = .ok (ch, rest) := by
  rw [encode]
  by_cases h1 : ch < 0x80
  · rw [if_pos h1]
    have hbyte : ch.toUInt8.toUInt32 = ch := by
      apply UInt32.toNat_inj.1
      rw [UInt8.toNat_toUInt32, UInt32.toNat_toUInt8]
      have hlt := UInt32.lt_iff_toNat_lt.1 h1
      exact Nat.mod_eq_of_lt (Nat.lt_trans hlt (by decide))
    have hlow : ch.toUInt8 < 0x80 := by
      rw [UInt8.lt_iff_toNat_lt, ← UInt8.toNat_toUInt32, hbyte]
      exact UInt32.lt_iff_toNat_lt.1 h1
    refine ⟨ch.toUInt8, [], rfl, ?_⟩
    rw [List.nil_append, nextChar_one rest hlow, hbyte]
  · rw [if_neg h1, if_pos h]
    have hcut := cut_eq h
    have hlead : ((0b11000000 : UInt32) ||| ch >>> 6).toUInt8 &&& 0b11100000 = 0b11000000 := by
      rw [← hcut]
      apply UInt8.toBitVec_inj.1
      ext i hi
      simp only [UInt8.toBitVec_and]
      interval_cases i <;> simp
    have hcode : twoByteCode ((0b11000000 : UInt32) ||| ch >>> 6).toUInt8 (tailByte ch 0) = ch := by
      conv_rhs => rw [← hcut]
      apply UInt32.toBitVec_inj.1
      ext i hi
      simp only [twoByteCode, tailByte, UInt32.toBitVec_and]
      interval_cases i <;> simp [-UInt32.toUInt32_toUInt8, -UInt32.toUInt8_or]
    refine ⟨_, [tailByte ch 0], rfl, ?_⟩
    rw [List.singleton_append, nextChar_two rest hlead (tail_isTail ch 0), hcode]

theorem encode_standard {c : Char} (h : c.val < 0x800) :
    encode c.val = .ok (String.utf8EncodeChar c) := by
  have hle : c.val ≤ 0x7ff := UInt32.le_iff_toNat_le.2 (Nat.le_of_lt_succ (UInt32.lt_iff_toNat_lt.1 h))
  rw [encode, String.utf8EncodeChar_eq_utf8EncodeCharFast, String.utf8EncodeCharFast]
  by_cases h1 : c.val < 0x80
  · have h1' : c.val ≤ 0x7f :=
      UInt32.le_iff_toNat_le.2 (Nat.le_of_lt_succ (UInt32.lt_iff_toNat_lt.1 h1))
    rw [if_pos h1]
    rw [if_pos h1']
  · have h1' : ¬ c.val ≤ 0x7f := fun h' =>
      h1 (UInt32.lt_iff_toNat_lt.2 (Nat.lt_succ_of_le (UInt32.le_iff_toNat_le.1 h')))
    rw [if_neg h1, if_pos h]
    rw [if_neg h1', if_pos hle]
    have hlead : ((0b11000000 : UInt32) ||| c.val >>> 6).toUInt8 =
        (c.val >>> 6).toUInt8 &&& 0x1f ||| 0xc0 := by
      rw [← cut_eq h]
      apply UInt8.toBitVec_inj.1
      ext i hi
      simp only [UInt8.toBitVec_or]
      interval_cases i <;> simp
    have htail : tailByte c.val 0 = c.val.toUInt8 &&& 0x3f ||| 0x80 := by
      apply UInt8.toBitVec_inj.1
      ext i hi
      simp only [tailByte, UInt8.toBitVec_or]
      interval_cases i <;> simp
    rw [hlead, htail]

/-! ### Long characters -/

/-- The bytes of a longer character begin like one of two bytes, with too many after it. -/
theorem encode_long {ch : UInt32} {bytes : StdString} (h : ¬ ch < 0x800)
    (hbytes : encode ch = .ok bytes) : ∃ a b c value, bytes = a :: b :: c :: value ∧
      a &&& 0b11100000 = 0b11000000 ∧ isTail b ∧ isTail c := by
  have hsmall : ¬ ch < 0x80 := fun h' => h (UInt32.lt_trans h' (by decide))
  rw [encode, if_neg hsmall, if_neg h] at hbytes
  by_cases h3 : ch < 0x10000
  · rw [if_pos h3] at hbytes
    cases hbytes
    refine ⟨_, _, _, [], rfl, ?_, tail_isTail ch 6, tail_isTail ch 0⟩
    have hcut : ch &&& 0xFFFF = ch := by
      apply UInt32.toNat_inj.1
      rw [UInt32.toNat_and]
      refine (Nat.and_two_pow_sub_one_eq_mod ch.toNat 16).trans (Nat.mod_eq_of_lt ?_)
      exact UInt32.lt_iff_toNat_lt.1 h3
    rw [← hcut]
    apply UInt8.toBitVec_inj.1
    ext i hi
    simp only [UInt8.toBitVec_and]
    interval_cases i <;> simp
  · rw [if_neg h3] at hbytes
    split_ifs at hbytes with h4
    cases hbytes
    refine ⟨_, _, _, [tailByte ch 0], rfl, ?_, tail_isTail ch 12, tail_isTail ch 6⟩
    have hcut : ch &&& 0x1FFFFF = ch := by
      apply UInt32.toNat_inj.1
      rw [UInt32.toNat_and]
      refine (Nat.and_two_pow_sub_one_eq_mod ch.toNat 21).trans (Nat.mod_eq_of_lt ?_)
      exact Nat.lt_trans (UInt32.lt_iff_toNat_lt.1 h4) (by decide)
    rw [← hcut]
    apply UInt8.toBitVec_inj.1
    ext i hi
    simp only [UInt8.toBitVec_and]
    interval_cases i <;> simp

theorem readAll_long {ch : UInt32} {bytes : StdString} (h : ¬ ch < 0x800)
    (hbytes : encode ch = .ok bytes) (rest : StdString) :
    readAll (bytes ++ rest) = .error (.runtimeError "Invalid UTF8 string") := by
  obtain ⟨a, b, c, value, rfl, ha, hb, hc⟩ := encode_long h hbytes
  have hnext := nextChar_two (c :: value ++ rest) ha hb
  change readAll (a :: b :: (c :: value ++ rest)) = _
  rw [readAll_cons hnext, List.cons_append, readAll_error (nextChar_tail hc _)]
  rfl

/-- The standard encoding of a longer character marks three bytes or four. -/
theorem standard_lead {c : Char} (h : ¬ c.val < 0x800) :
    ∃ a value, String.utf8EncodeChar c = a :: value ∧ a &&& 0b11100000 = 0b11100000 := by
  have h1 : ¬ c.val ≤ 0x7f := fun h' => h (UInt32.lt_iff_toNat_lt.2
    (Nat.lt_of_le_of_lt (UInt32.le_iff_toNat_le.1 h') (by decide)))
  have h2 : ¬ c.val ≤ 0x7ff := fun h' =>
    h (UInt32.lt_iff_toNat_lt.2 (Nat.lt_succ_of_le (UInt32.le_iff_toNat_le.1 h')))
  rw [String.utf8EncodeChar_eq_utf8EncodeCharFast, String.utf8EncodeCharFast]
  rw [if_neg h1, if_neg h2]
  have hlead : ∀ x : UInt8, (x &&& 0x0f ||| 0xe0) &&& 0b11100000 = 0b11100000 ∧
      (x &&& 0x07 ||| 0xf0) &&& 0b11100000 = 0b11100000 :=
    forall_byte (by decide +kernel)
  split_ifs
  · exact ⟨_, _, rfl, (hlead _).1⟩
  · exact ⟨_, _, rfl, (hlead _).2⟩

/-! ### Whole texts -/

/-- The text is read back exactly if no character takes more than two bytes. -/
theorem readAll_toUtf8 {chars : List Char} {text : StdString}
    (htext : toUtf8 (chars.map Char.val) = .ok text) :
    readAll text = .ok (chars.map Char.val) ↔ ∀ c ∈ chars, c.val < 0x800 := by
  induction chars generalizing text with
  | nil =>
    cases htext
    exact iff_of_true rfl (fun c hc => by cases hc)
  | cons c chars ih =>
    obtain ⟨rest, hrest⟩ := toUtf8_ok chars
    rw [List.forall_mem_cons, ← ih hrest]
    by_cases h : c.val < 0x800
    · obtain ⟨a, value, hbytes, hnext⟩ := encode_short h rest
      cases htext.symm.trans (toUtf8_cons hbytes hrest)
      rw [List.cons_append, readAll_cons hnext, List.map_cons]
      cases hr : readAll rest with
      | error e => exact ⟨fun h' => (by cases h'), fun h' => (by cases h'.2)⟩
      | ok read =>
        constructor
        · intro h'
          cases h'
          exact ⟨h, rfl⟩
        · rintro ⟨-, h'⟩
          cases h'
          rfl
    · obtain ⟨bytes, hbytes⟩ := encode_ok c
      cases htext.symm.trans (toUtf8_cons hbytes hrest)
      rw [readAll_long h hbytes rest]
      exact ⟨fun h' => (by cases h'), fun h' => absurd h'.1 h⟩

/-- The text is the standard encoding exactly if no character takes more than two bytes. -/
theorem toUtf8_standard {chars : List Char} {text : StdString}
    (htext : toUtf8 (chars.map Char.val) = .ok text) :
    text = chars.flatMap String.utf8EncodeChar ↔ ∀ c ∈ chars, c.val < 0x800 := by
  induction chars generalizing text with
  | nil =>
    cases htext
    exact iff_of_true rfl (fun c hc => by cases hc)
  | cons c chars ih =>
    obtain ⟨rest, hrest⟩ := toUtf8_ok chars
    rw [List.forall_mem_cons, ← ih hrest, List.flatMap_cons]
    by_cases h : c.val < 0x800
    · cases htext.symm.trans (toUtf8_cons (encode_standard h) hrest)
      rw [List.append_cancel_left_eq]
      exact ⟨fun h' => ⟨h, h'⟩, And.right⟩
    · obtain ⟨bytes, hbytes⟩ := encode_ok c
      cases htext.symm.trans (toUtf8_cons hbytes hrest)
      obtain ⟨a, b, d, value, rfl, ha, -, -⟩ := encode_long h hbytes
      obtain ⟨a', value', hstandard, ha'⟩ := standard_lead h
      refine ⟨fun heq => ?_, fun h' => absurd h'.1 h⟩
      rw [hstandard] at heq
      cases (List.cons.inj heq).1
      rw [ha] at ha'
      exact absurd ha' (by decide)

/-- The texts that come back are those of characters below U+0800. -/
theorem roundTrip_iff (chars : List Char) : RoundTrip chars ↔ ∀ c ∈ chars, c.val < 0x800 := by
  obtain ⟨text, htext⟩ := toUtf8_ok chars
  constructor
  · rintro ⟨text', htext', hread, -⟩
    cases htext.symm.trans htext'
    exact (readAll_toUtf8 htext).1 hread
  · intro h
    exact ⟨text, htext, (readAll_toUtf8 htext).2 h, (toUtf8_standard htext).2 h⟩

/-- The euro sign does not come back. -/
theorem not_roundTrip_euro : ¬ ∀ chars, RoundTrip chars := by
  intro h
  obtain ⟨text, htext, hread, -⟩ := h ['€']
  have htext' : toUtf8 (['€'].map Char.val) = .ok [0xC2, 0x82, 0xAC] := by decide +kernel
  cases htext.symm.trans htext'
  exact absurd hread (by decide +kernel)

end Vds.Utf8
