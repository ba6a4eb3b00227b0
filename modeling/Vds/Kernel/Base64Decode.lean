import Vds.Kernel.Base64
import Vds.Library.Bytes

/-! `base64::to_bytes`: a padding character ends the text wherever it stands, and the bits before it
are not looked at. -/

namespace Vds.Base64

open Library (forall_byte)

/-- The value of a character of the alphabet. -/
def charValue (ch : UInt8) : Option UInt32 :=
  if 0x41 ≤ ch ∧ ch ≤ 0x5A then some (ch.toUInt32 - 0x41)
  else if 0x61 ≤ ch ∧ ch ≤ 0x7A then some (ch.toUInt32 - 0x47)
  else if 0x30 ≤ ch ∧ ch ≤ 0x39 then some (ch.toUInt32 + 0x04)
  else if ch = 0x2B then some 0x3E
  else if ch = 0x2F then some 0x3F
  else none

/-- The variable `padding`, from the last two characters. -/
def paddingOf (data : StdString) : Nat :=
  if data.getLast? = some padCharacter then
    if data.dropLast.getLast? = some padCharacter then 2 else 1
  else 0

/-- The variables of the loop; a byte of `result` that was not written has no value. -/
structure Decoding where
  temp : UInt32 := 0
  offset : Nat := 0
  quantumPosition : Nat := 0
  result : List (Option UInt8)

namespace Decoding

/-- `result[offset++] = value & 0x000000FF`. -/
def put (st : Decoding) (value : UInt32) : Decoding :=
  { st with offset := st.offset + 1, result := st.result.set st.offset (some value.toUInt8) }

/-- A character of the alphabet, the fourth of which completes three bytes. -/
def character (st : Decoding) (value : UInt32) : Decoding :=
  let temp := st.temp <<< 6 ||| value
  let st := { st with temp, quantumPosition := st.quantumPosition + 1 }
  if st.quantumPosition = 4 then
    { ((st.put (temp >>> 16)).put (temp >>> 8)).put temp with quantumPosition := 0 }
  else st

/-- A padding character. -/
def finish (st : Decoding) (padding : Nat) : Expected (List (Option UInt8)) :=
  let temp := st.temp <<< 6
  if padding = 1 then .ok ((st.put (temp >>> 16)).put (temp >>> 8)).result
  else if padding = 2 then .ok (st.put (temp >>> 10)).result
  else .error (.runtimeError "Invalid Padding in Base 64!")

def loop (padding : Nat) : StdString → Decoding → Expected (List (Option UInt8))
  | [], st => .ok st.result
  | ch :: data, st =>
    match charValue ch with
    | some value => loop padding data (st.character value)
    | none =>
      if ch = padCharacter then st.finish padding
      else .error (.runtimeError "Non-Valid Character in Base 64!")

end Decoding

def toBytes (data : StdString) : Expected (List (Option UInt8)) :=
  if data.length % 4 ≠ 0 then .error (.runtimeError "Non-Valid base64!")
  else
    let padding := paddingOf data
    Decoding.loop padding data { result := List.replicate (data.length / 4 * 3 - padding) none }

/-- The bytes come back from their text, and a text that is accepted is that of the bytes it
gives, all of which were written. -/
def Exact (bytes : ConstDataBuffer) (text : StdString) : Prop :=
  toBytes (fromBytes bytes) = .ok (bytes.map some) ∧
    ∀ result, toBytes text = .ok result → ∃ b, result = b.map some ∧ fromBytes b = text

/-- The characters before the first padding character. -/
def leading (text : StdString) : StdString := text.takeWhile (· ≠ padCharacter)

/-- The bits of the last character before the padding that no byte gets. -/
def leftoverBits (text : StdString) : Nat :=
  let value := (((leading text).getLast?.bind charValue).getD 0).toNat
  if paddingOf text = 2 then value % 16 else value % 4

/-- What a text has to be for `to_bytes` to treat it as the encoding does. -/
def Canonical (text : StdString) : Prop :=
  text.length % 4 ≠ 0 ∨ paddingOf text = 0 ∨ (∃ ch ∈ leading text, charValue ch = none) ∨
    (leading text).length + paddingOf text = text.length ∧ leftoverBits text = 0

/-! ### Characters -/

theorem charValue_lookup {v : Nat} (h : v < 64) :
    charValue (encodeLookup.getD v 0) = some (UInt32.ofNat v) := by
  have hall : ∀ v : Fin 64, charValue (encodeLookup.getD v 0) = some (UInt32.ofNat v) := by
    decide +kernel
  exact hall ⟨v, h⟩

theorem lookup_charValue {ch : UInt8} {value : UInt32} (h : charValue ch = some value) :
    value.toNat < 64 ∧ encodeLookup.getD value.toNat 0 = ch := by
  have hall : ∀ ch : UInt8, (charValue ch).all fun value =>
      decide (value.toNat < 64) && encodeLookup.getD value.toNat 0 == ch :=
    forall_byte (by decide +kernel)
  have hch := hall ch
  rw [h, Option.all_some, Bool.and_eq_true, decide_eq_true_iff, beq_iff_eq] at hch
  exact hch

theorem charValue_pad : charValue padCharacter = none := by decide

/-! ### Which texts are accepted -/

theorem leading_pad (data : StdString) : leading (padCharacter :: data) = [] :=
  List.takeWhile_cons_of_neg (by simp)

theorem leading_cons {ch : UInt8} (h : ch ≠ padCharacter) (data : StdString) :
    leading (ch :: data) = ch :: leading data :=
  List.takeWhile_cons_of_pos (by simpa using h)

/-- A text is accepted if its characters are in the alphabet up to a padding character, where one
of the last two characters is one. -/
theorem loop_ok_iff (padding : Nat) (data : StdString) (st : Decoding) :
    (∃ result, Decoding.loop padding data st = .ok result) ↔
      (∀ ch ∈ leading data, (charValue ch).isSome) ∧
        (leading data = data ∨ padding = 1 ∨ padding = 2) := by
  induction data generalizing st with
  | nil => exact iff_of_true ⟨_, rfl⟩ ⟨fun ch hch => (by cases hch), .inl rfl⟩
  | cons ch data ih =>
    by_cases hpad : ch = padCharacter
    · subst hpad
      rw [leading_pad, Decoding.loop, charValue_pad]
      simp only [if_true, Decoding.finish]
      by_cases h1 : padding = 1
      · simp [h1]
      · by_cases h2 : padding = 2 <;> simp [h1, h2]
    · rw [leading_cons hpad, Decoding.loop, List.forall_mem_cons, List.cons_inj_right]
      cases hvalue : charValue ch with
      | some value => simp only [ih, Option.isSome_some, true_and]
      | none => simp [hpad]

theorem toBytes_ok_iff {text : StdString} (hlen : text.length % 4 = 0) :
    (∃ result, toBytes text = .ok result) ↔
      (∀ ch ∈ leading text, (charValue ch).isSome) ∧
        (leading text = text ∨ paddingOf text ≠ 0) := by
  have hpadding : paddingOf text ≠ 0 ↔ paddingOf text = 1 ∨ paddingOf text = 2 := by
    rw [paddingOf]
    split_ifs <;> simp
  rw [toBytes, if_neg (not_not.2 hlen), hpadding]
  exact loop_ok_iff _ _ _

/-! ### The form of an encoded text -/

/-- Characters of the alphabet, and the padding after them. -/
structure Padded (text : StdString) (core : StdString) (padding : Nat) : Prop where
  eq : text = core ++ List.replicate padding padCharacter
  alphabet : ∀ ch ∈ core, (charValue ch).isSome
  few : padding ≤ 2

theorem ne_pad {ch : UInt8} (h : (charValue ch).isSome) : ch ≠ padCharacter := by
  rintro rfl
  rw [charValue_pad] at h
  cases h

namespace Padded

variable {text core : StdString} {padding : Nat}

theorem leading_eq (h : Padded text core padding) : leading text = core := by
  have hall : ∀ ch ∈ core, decide (ch ≠ padCharacter) = true := fun ch hch =>
    decide_eq_true (ne_pad (h.alphabet ch hch))
  rw [h.eq, leading, List.takeWhile_append_of_pos hall]
  cases padding with
  | zero => exact List.append_nil core
  | succ n =>
    rw [List.replicate_succ]
    exact (congrArg (core ++ ·) (leading_pad _)).trans (List.append_nil core)

theorem getLast_ne (h : Padded text core padding) : core.getLast? ≠ some padCharacter := by
  intro hlast
  exact ne_pad (h.alphabet _ (List.mem_of_getLast? hlast)) rfl

theorem paddingOf_eq (h : Padded text core padding) : paddingOf text = padding := by
  have hlast := h.getLast_ne
  have hfew := h.few
  rw [h.eq, paddingOf]
  interval_cases padding
  · rw [List.replicate_zero, List.append_nil, if_neg hlast]
  · rw [List.replicate_one, List.getLast?_concat, List.dropLast_concat, if_pos rfl, if_neg hlast]
  · have htwo : core ++ List.replicate 2 padCharacter = (core ++ [padCharacter]) ++ [padCharacter] := by
      rw [List.append_assoc]
      rfl
    rw [htwo, List.getLast?_concat, List.dropLast_concat, List.getLast?_concat, if_pos rfl,
      if_pos rfl]

theorem length_eq (h : Padded text core padding) : text.length = core.length + padding := by
  rw [h.eq, List.length_append, List.length_replicate]

end Padded

/-! ### Groups of four characters -/

/-- The character of a value. -/
def lookup (value : Nat) : UInt8 := encodeLookup.getD value 0

/-- The value of the last character of the core. -/
def lastValue (core : StdString) : Nat := ((core.getLast?.bind charValue).getD 0).toNat

theorem fromBytes_three (x y z : UInt8) (rest : ConstDataBuffer) :
    fromBytes (x :: y :: z :: rest) =
      lookup (x.toNat / 4) :: lookup (x.toNat % 4 * 16 + y.toNat / 16) ::
        lookup (y.toNat % 16 * 4 + z.toNat / 64) :: lookup (z.toNat % 64) :: fromBytes rest := by
  have hx := x.toNat_lt
  have hy := y.toNat_lt
  have hz := z.toNat_lt
  have h1 : (x.toNat * 2 ^ 16 + y.toNat * 2 ^ 8 + z.toNat) / 2 ^ 18 % 64 = x.toNat / 4 := by omega
  have h2 : (x.toNat * 2 ^ 16 + y.toNat * 2 ^ 8 + z.toNat) / 2 ^ 12 % 64 =
      x.toNat % 4 * 16 + y.toNat / 16 := by omega
  have h3 : (x.toNat * 2 ^ 16 + y.toNat * 2 ^ 8 + z.toNat) / 2 ^ 6 % 64 =
      y.toNat % 16 * 4 + z.toNat / 64 := by omega
  have h4 : (x.toNat * 2 ^ 16 + y.toNat * 2 ^ 8 + z.toNat) / 2 ^ 0 % 64 = z.toNat % 64 := by omega
  rw [fromBytes]
  simp only [digit, h1, h2, h3, h4, lookup]

theorem fromBytes_two (x y : UInt8) : fromBytes [x, y] =
    [lookup (x.toNat / 4), lookup (x.toNat % 4 * 16 + y.toNat / 16), lookup (y.toNat % 16 * 4),
      padCharacter] := by
  have hx := x.toNat_lt
  have hy := y.toNat_lt
  have h1 : (x.toNat * 2 ^ 16 + y.toNat * 2 ^ 8) / 2 ^ 18 % 64 = x.toNat / 4 := by omega
  have h2 : (x.toNat * 2 ^ 16 + y.toNat * 2 ^ 8) / 2 ^ 12 % 64 =
      x.toNat % 4 * 16 + y.toNat / 16 := by omega
  have h3 : (x.toNat * 2 ^ 16 + y.toNat * 2 ^ 8) / 2 ^ 6 % 64 = y.toNat % 16 * 4 := by omega
  rw [fromBytes]
  simp only [digit, h1, h2, h3, lookup]

theorem fromBytes_one (x : UInt8) : fromBytes [x] =
    [lookup (x.toNat / 4), lookup (x.toNat % 4 * 16), padCharacter, padCharacter] := by
  have hx := x.toNat_lt
  have h1 : x.toNat * 2 ^ 16 / 2 ^ 18 % 64 = x.toNat / 4 := by omega
  have h2 : x.toNat * 2 ^ 16 / 2 ^ 12 % 64 = x.toNat % 4 * 16 := by omega
  rw [fromBytes]
  simp only [digit, h1, h2, lookup]

theorem isSome_lookup {v : Nat} (h : v < 64) : (charValue (lookup v)).isSome := by
  rw [lookup, charValue_lookup h]
  rfl

theorem lastValue_lookup (core : StdString) {v : Nat} (h : v < 64) :
    lastValue (core ++ [lookup v]) = v := by
  rw [lastValue, List.getLast?_concat, Option.bind_some, lookup, charValue_lookup h]
  exact Nat.mod_eq_of_lt (Nat.lt_trans h (by decide))

theorem lastValue_append (group core : StdString) (h : core ≠ []) :
    lastValue (group ++ core) = lastValue core := by
  rw [lastValue, List.getLast?_append_of_ne_nil _ h, lastValue]

/-- An encoded text: how long it is, and that the bits before its padding are zero. -/
structure Encoded (bytes : ConstDataBuffer) (core : StdString) (padding : Nat) : Prop
    extends Padded (fromBytes bytes) core padding where
  bytes_length : (core.length + padding) / 4 * 3 - padding = bytes.length
  length_mod : (core.length + padding) % 4 = 0
  leftover : padding = 0 ∨ lastValue core % (if padding = 2 then 16 else 4) = 0

theorem encoded (bytes : ConstDataBuffer) : ∃ core padding, Encoded bytes core padding := by
  induction bytes using fromBytes.induct with
  | case1 x y z rest ih =>
    obtain ⟨core, padding, h⟩ := ih
    have hx := x.toNat_lt
    have hy := y.toNat_lt
    have hz := z.toNat_lt
    refine ⟨lookup (x.toNat / 4) :: lookup (x.toNat % 4 * 16 + y.toNat / 16) ::
        lookup (y.toNat % 16 * 4 + z.toNat / 64) :: lookup (z.toNat % 64) :: core, padding,
      ⟨?_, ?_, h.few⟩, ?_, ?_, ?_⟩
    · rw [fromBytes_three, h.eq]
      rfl
    · intro ch hch
      simp only [List.mem_cons] at hch
      obtain rfl | rfl | rfl | rfl | hch := hch
      · exact isSome_lookup (by omega)
      · exact isSome_lookup (by omega)
      · exact isSome_lookup (by omega)
      · exact isSome_lookup (by omega)
      · exact h.alphabet ch hch
    · have hlen := h.bytes_length
      have hmod := h.length_mod
      have hfew := h.few
      simp only [List.length_cons]
      omega
    · have hmod := h.length_mod
      simp only [List.length_cons]
      omega
    · obtain hzero | hleft := h.leftover
      · exact .inl hzero
      · obtain rfl | hcore := eq_or_ne core []
        · have hmod := h.length_mod
          have hfew := h.few
          rw [List.length_nil] at hmod
          exact .inl (by omega)
        · exact .inr ((congrArg (· % _) (lastValue_append [_, _, _, _] core hcore)).trans hleft)
  | case2 x y =>
    have hx := x.toNat_lt
    have hy := y.toNat_lt
    refine ⟨[lookup (x.toNat / 4), lookup (x.toNat % 4 * 16 + y.toNat / 16),
      lookup (y.toNat % 16 * 4)], 1, ⟨fromBytes_two x y, ?_, by decide⟩, by simp, by simp, .inr ?_⟩
    · intro ch hch
      simp only [List.mem_cons, List.not_mem_nil, or_false] at hch
      obtain rfl | rfl | rfl := hch
      · exact isSome_lookup (by omega)
      · exact isSome_lookup (by omega)
      · exact isSome_lookup (by omega)
    · have hlast := lastValue_lookup [lookup (x.toNat / 4), lookup (x.toNat % 4 * 16 + y.toNat / 16)]
        (v := y.toNat % 16 * 4) (by omega)
      rw [if_neg (by decide)]
      exact (congrArg (· % 4) hlast).trans (Nat.mul_mod_left _ 4)
  | case3 x =>
    have hx := x.toNat_lt
    refine ⟨[lookup (x.toNat / 4), lookup (x.toNat % 4 * 16)], 2,
      ⟨fromBytes_one x, ?_, by decide⟩, by simp, by simp, .inr ?_⟩
    · intro ch hch
      simp only [List.mem_cons, List.not_mem_nil, or_false] at hch
      obtain rfl | rfl := hch
      · exact isSome_lookup (by omega)
      · exact isSome_lookup (by omega)
    · have hlast := lastValue_lookup [lookup (x.toNat / 4)] (v := x.toNat % 4 * 16) (by omega)
      rw [if_pos rfl]
      exact (congrArg (· % 16) hlast).trans (Nat.mul_mod_left _ 16)
  | case4 => exact ⟨[], 0, ⟨rfl, fun ch hch => (by cases hch), by decide⟩, rfl, rfl, .inl rfl⟩

/-- Every text of this form is that of some bytes. -/
theorem exists_bytes : ∀ (core : StdString) (padding : Nat), (∀ ch ∈ core, (charValue ch).isSome) →
    padding ≤ 2 → (core.length + padding) % 4 = 0 →
    (padding = 0 ∨ lastValue core % (if padding = 2 then 16 else 4) = 0) →
    ∃ bytes, fromBytes bytes = core ++ List.replicate padding padCharacter
  | a :: b :: c :: d :: core, padding, halpha, hfew, hmod, hleft => by
    simp only [List.forall_mem_cons, Option.isSome_iff_exists] at halpha
    obtain ⟨⟨va, ha⟩, ⟨vb, hb⟩, ⟨vc, hc⟩, ⟨vd, hd⟩, halpha⟩ := halpha
    obtain ⟨hva, rfl⟩ := lookup_charValue ha
    obtain ⟨hvb, rfl⟩ := lookup_charValue hb
    obtain ⟨hvc, rfl⟩ := lookup_charValue hc
    obtain ⟨hvd, rfl⟩ := lookup_charValue hd
    have hleft' : padding = 0 ∨ lastValue core % (if padding = 2 then 16 else 4) = 0 := by
      obtain hzero | hleft := hleft
      · exact .inl hzero
      · obtain rfl | hcore := eq_or_ne core []
        · rw [List.length_cons, List.length_cons, List.length_cons, List.length_cons,
            List.length_nil] at hmod
          exact .inl (by omega)
        · exact .inr ((congrArg (· % _) (lastValue_append [_, _, _, _] core hcore)).symm.trans hleft)
    obtain ⟨bytes, hbytes⟩ := exists_bytes core padding (fun ch hch => Option.isSome_iff_exists.2 (halpha ch hch)) hfew
      (by simp only [List.length_cons] at hmod; omega) hleft'
    refine ⟨UInt8.ofNat (va.toNat * 4 + vb.toNat / 16) ::
      UInt8.ofNat (vb.toNat % 16 * 16 + vc.toNat / 4) ::
      UInt8.ofNat (vc.toNat % 4 * 64 + vd.toNat) :: bytes, ?_⟩
    have h1 : (va.toNat * 4 + vb.toNat / 16) % 2 ^ 8 / 4 = va.toNat := by omega
    have h2 : (va.toNat * 4 + vb.toNat / 16) % 2 ^ 8 % 4 * 16 +
        (vb.toNat % 16 * 16 + vc.toNat / 4) % 2 ^ 8 / 16 = vb.toNat := by omega
    have h3 : (vb.toNat % 16 * 16 + vc.toNat / 4) % 2 ^ 8 % 16 * 4 +
        (vc.toNat % 4 * 64 + vd.toNat) % 2 ^ 8 / 64 = vc.toNat := by omega
    have h4 : (vc.toNat % 4 * 64 + vd.toNat) % 2 ^ 8 % 64 = vd.toNat := by omega
    rw [fromBytes_three, hbytes]
    simp only [UInt8.toNat_ofNat', h1, h2, h3, h4, lookup, List.cons_append]
  | [a, b, c], padding, halpha, hfew, hmod, hleft => by
    simp only [List.forall_mem_cons, Option.isSome_iff_exists] at halpha
    obtain ⟨⟨va, ha⟩, ⟨vb, hb⟩, ⟨vc, hc⟩, -⟩ := halpha
    obtain ⟨hva, rfl⟩ := lookup_charValue ha
    obtain ⟨hvb, rfl⟩ := lookup_charValue hb
    obtain ⟨hvc, rfl⟩ := lookup_charValue hc
    have hone : padding = 1 := by
      simp only [List.length_cons, List.length_nil] at hmod
      omega
    subst hone
    have hlast : lastValue [lookup va.toNat, lookup vb.toNat, lookup vc.toNat] = vc.toNat :=
      lastValue_lookup [lookup va.toNat, lookup vb.toNat] hvc
    have hzero : vc.toNat % 4 = 0 := by
      obtain h | h := hleft
      · cases h
      · exact (congrArg (· % 4) hlast).symm.trans h
    refine ⟨[UInt8.ofNat (va.toNat * 4 + vb.toNat / 16),
      UInt8.ofNat (vb.toNat % 16 * 16 + vc.toNat / 4)], ?_⟩
    have h1 : (va.toNat * 4 + vb.toNat / 16) % 2 ^ 8 / 4 = va.toNat := by omega
    have h2 : (va.toNat * 4 + vb.toNat / 16) % 2 ^ 8 % 4 * 16 +
        (vb.toNat % 16 * 16 + vc.toNat / 4) % 2 ^ 8 / 16 = vb.toNat := by omega
    have h3 : (vb.toNat % 16 * 16 + vc.toNat / 4) % 2 ^ 8 % 16 * 4 = vc.toNat := by omega
    rw [fromBytes_two]
    simp only [UInt8.toNat_ofNat', h1, h2, h3, lookup, List.cons_append, List.replicate_one,
      List.nil_append]
  | [a, b], padding, halpha, hfew, hmod, hleft => by
    simp only [List.forall_mem_cons, Option.isSome_iff_exists] at halpha
    obtain ⟨⟨va, ha⟩, ⟨vb, hb⟩, -⟩ := halpha
    obtain ⟨hva, rfl⟩ := lookup_charValue ha
    obtain ⟨hvb, rfl⟩ := lookup_charValue hb
    have htwo : padding = 2 := by
      simp only [List.length_cons, List.length_nil] at hmod
      omega
    subst htwo
    have hlast : lastValue [lookup va.toNat, lookup vb.toNat] = vb.toNat :=
      lastValue_lookup [lookup va.toNat] hvb
    have hzero : vb.toNat % 16 = 0 := by
      obtain h | h := hleft
      · cases h
      · exact (congrArg (· % 16) hlast).symm.trans h
    refine ⟨[UInt8.ofNat (va.toNat * 4 + vb.toNat / 16)], ?_⟩
    have h1 : (va.toNat * 4 + vb.toNat / 16) % 2 ^ 8 / 4 = va.toNat := by omega
    have h2 : (va.toNat * 4 + vb.toNat / 16) % 2 ^ 8 % 4 * 16 = vb.toNat := by omega
    rw [fromBytes_one]
    simp only [UInt8.toNat_ofNat', h1, h2, lookup, List.cons_append, List.replicate_succ,
      List.replicate_zero, List.nil_append]
  | [a], padding, halpha, hfew, hmod, hleft => by
    rw [List.length_singleton] at hmod
    omega
  | [], padding, halpha, hfew, hmod, hleft => by
    rw [List.length_nil] at hmod
    have hzero : padding = 0 := by omega
    subst hzero
    exact ⟨[], rfl⟩

/-! ### What the decoder writes -/

namespace Decoding

theorem toNat_shift (temp value : UInt32) (h : value.toNat < 64) :
    (temp <<< 6 ||| value).toNat = temp.toNat % 2 ^ 26 * 64 + value.toNat := by
  have hshift : (temp <<< 6).toNat = (temp.toNat % 2 ^ 26) <<< 6 := by
    rw [UInt32.toNat_shiftLeft]
    change temp.toNat <<< 6 % 2 ^ 32 = _
    rw [Nat.shiftLeft_eq, Nat.shiftLeft_eq]
    omega
  rw [UInt32.toNat_or, hshift, ← Nat.shiftLeft_add_eq_or_of_lt (i := 6) h, Nat.shiftLeft_eq]

/-- The bytes `written` are written, and room is left for `rest` more. -/
structure Wrote (st : Decoding) (written : List UInt8) (rest : Nat) : Prop where
  result : st.result = written.map some ++ List.replicate rest none
  offset : st.offset = written.length

theorem Wrote.put {st : Decoding} {written : List UInt8} {rest : Nat}
    (h : st.Wrote written (rest + 1)) {value : UInt32} {byte : UInt8}
    (hbyte : value.toNat % 256 = byte.toNat) : (st.put value).Wrote (written ++ [byte]) rest where
  result := by
    have hvalue : value.toUInt8 = byte := UInt8.toNat_inj.1 ((UInt32.toNat_toUInt8 value).trans hbyte)
    have hset := List.set_append_right (s := written.map some) (t := List.replicate (rest + 1) none)
      written.length (some byte) (by rw [List.length_map])
    rw [List.length_map, Nat.sub_self, List.replicate_succ, List.set_cons_zero] at hset
    rw [Decoding.put]
    dsimp only
    rw [h.result, h.offset, hvalue, List.replicate_succ, hset, List.map_append, List.append_assoc]
    rfl
  offset := by
    rw [List.length_append, List.length_singleton, ← h.offset]
    rfl

theorem loop_lookup {padding : Nat} {data : StdString} {st : Decoding} {v : Nat} (h : v < 64) :
    loop padding (lookup v :: data) st = loop padding data (st.character (UInt32.ofNat v)) := by
  rw [loop, lookup, charValue_lookup h]

theorem character_temp (st : Decoding) {v : Nat} (h : v < 64) :
    (st.character (UInt32.ofNat v)).temp.toNat = st.temp.toNat % 2 ^ 26 * 64 + v := by
  have hv : (UInt32.ofNat v).toNat = v := Nat.mod_eq_of_lt (Nat.lt_trans h (by decide))
  have hshift := toNat_shift st.temp (UInt32.ofNat v) (hv.symm ▸ h)
  rw [hv] at hshift
  rw [← hshift, character]
  split_ifs <;> rfl

/-- A character that does not complete a group. -/
theorem character_within (st : Decoding) (value : UInt32) (h : st.quantumPosition < 3) :
    (st.character value).quantumPosition = st.quantumPosition + 1 ∧
      ∀ {written rest}, st.Wrote written rest → (st.character value).Wrote written rest := by
  have hne : st.quantumPosition + 1 ≠ 4 := by omega
  rw [character, if_neg hne]
  exact ⟨rfl, fun h => ⟨h.result, h.offset⟩⟩

/-- The fourth character of a group. -/
theorem character_last {st : Decoding} {value temp : UInt32} {written : List UInt8} {rest : Nat}
    {x y z : UInt8} (h : st.quantumPosition = 3) (hw : st.Wrote written (rest + 3))
    (htemp : temp = st.temp <<< 6 ||| value) (hx : (temp >>> 16).toNat % 256 = x.toNat)
    (hy : (temp >>> 8).toNat % 256 = y.toNat) (hz : temp.toNat % 256 = z.toNat) :
    (st.character value).quantumPosition = 0 ∧
      (st.character value).Wrote (written ++ [x, y, z]) rest := by
  have hstart : ({ st with temp, quantumPosition := 4 } : Decoding).Wrote written (rest + 3) :=
    ⟨hw.result, hw.offset⟩
  have hend := ((hstart.put hx).put hy).put hz
  rw [List.append_assoc, List.append_assoc] at hend
  rw [character, ← htemp, h, if_pos rfl]
  exact ⟨rfl, hend.result, hend.offset⟩

theorem toNat_shiftRight (temp : UInt32) (n : Nat) (h : n < 32) :
    (temp >>> UInt32.ofNat n).toNat = temp.toNat / 2 ^ n := by
  have hn : (UInt32.ofNat n).toNat = n := Nat.mod_eq_of_lt (Nat.lt_trans h (by decide))
  rw [UInt32.toNat_shiftRight, hn, Nat.mod_eq_of_lt h, Nat.shiftRight_eq_div_pow]

/-- A group of four characters. -/
theorem loop_group {padding : Nat} {st : Decoding} {written : List UInt8} {rest : Nat}
    (hq : st.quantumPosition = 0) (hw : st.Wrote written (rest + 3)) (x y z : UInt8)
    (data : StdString) : ∃ st' : Decoding, st'.quantumPosition = 0 ∧
      st'.Wrote (written ++ [x, y, z]) rest ∧
      loop padding (lookup (x.toNat / 4) :: lookup (x.toNat % 4 * 16 + y.toNat / 16) ::
        lookup (y.toNat % 16 * 4 + z.toNat / 64) :: lookup (z.toNat % 64) :: data) st =
      loop padding data st' := by
  have hx := x.toNat_lt
  have hy := y.toNat_lt
  have hz := z.toNat_lt
  have h1 : x.toNat / 4 < 64 := by omega
  have h2 : x.toNat % 4 * 16 + y.toNat / 16 < 64 := by omega
  have h3 : y.toNat % 16 * 4 + z.toNat / 64 < 64 := by omega
  have h4 : z.toNat % 64 < 64 := by omega
  rw [loop_lookup h1, loop_lookup h2, loop_lookup h3, loop_lookup h4]
  have t1 := character_temp st h1
  obtain ⟨q1, w1⟩ := character_within st (UInt32.ofNat (x.toNat / 4)) (by omega)
  set st1 := st.character (UInt32.ofNat (x.toNat / 4))
  have t2 := character_temp st1 h2
  obtain ⟨q2, w2⟩ := character_within st1 (UInt32.ofNat (x.toNat % 4 * 16 + y.toNat / 16)) (by omega)
  set st2 := st1.character (UInt32.ofNat (x.toNat % 4 * 16 + y.toNat / 16))
  have t3 := character_temp st2 h3
  obtain ⟨q3, w3⟩ := character_within st2 (UInt32.ofNat (y.toNat % 16 * 4 + z.toNat / 64)) (by omega)
  set st3 := st2.character (UInt32.ofNat (y.toNat % 16 * 4 + z.toNat / 64))
  have t4 : (st3.temp <<< 6 ||| UInt32.ofNat (z.toNat % 64)).toNat =
      st3.temp.toNat % 2 ^ 26 * 64 + z.toNat % 64 := by
    have hv : (UInt32.ofNat (z.toNat % 64)).toNat = z.toNat % 64 :=
      Nat.mod_eq_of_lt (Nat.lt_trans h4 (by decide))
    have hshift := toNat_shift st3.temp (UInt32.ofNat (z.toNat % 64)) (hv.symm ▸ h4)
    rwa [hv] at hshift
  -- the low 24 bits are the three bytes
  have hlow : (st3.temp <<< 6 ||| UInt32.ofNat (z.toNat % 64)).toNat % 2 ^ 24 =
      x.toNat * 2 ^ 16 + y.toNat * 2 ^ 8 + z.toNat := by omega
  have htemp : st3.temp <<< 6 ||| UInt32.ofNat (z.toNat % 64) =
      st3.temp <<< 6 ||| UInt32.ofNat (z.toNat % 64) := rfl
  obtain ⟨hq', hw'⟩ := character_last (x := x) (y := y) (z := z) (by omega) (w3 (w2 (w1 hw))) htemp
    (by rw [show (16 : UInt32) = UInt32.ofNat 16 from rfl, toNat_shiftRight _ 16 (by decide)]; omega)
    (by rw [show (8 : UInt32) = UInt32.ofNat 8 from rfl, toNat_shiftRight _ 8 (by decide)]; omega)
    (by omega)
  exact ⟨_, hq', hw', rfl⟩

theorem toNat_shift_zero (temp : UInt32) : (temp <<< 6).toNat = temp.toNat % 2 ^ 26 * 64 := by
  have hshift := toNat_shift temp 0 (by decide)
  rwa [UInt32.or_zero] at hshift

theorem loop_pad (padding : Nat) (data : StdString) (st : Decoding) :
    loop padding (padCharacter :: data) st = st.finish padding := by
  rw [loop, charValue_pad]
  exact if_pos rfl

/-- The text of some bytes after the bytes that are written. -/
theorem loop_fromBytes (bytes : ConstDataBuffer) {padding : Nat} {st : Decoding}
    {written : List UInt8} (hpadding : padding = (3 - bytes.length % 3) % 3)
    (hq : st.quantumPosition = 0) (hw : st.Wrote written bytes.length) :
    loop padding (fromBytes bytes) st = .ok ((written ++ bytes).map some) := by
  induction bytes using fromBytes.induct generalizing st written with
  | case1 x y z rest ih =>
    obtain ⟨st', hq', hw', hloop⟩ := @loop_group padding _ _ _ hq hw x y z (fromBytes rest)
    rw [fromBytes_three, hloop, ih ?_ hq' hw', List.append_assoc]
    · rfl
    · rw [hpadding]
      simp only [List.length_cons]
      omega
  | case2 x y =>
    have hx := x.toNat_lt
    have hy := y.toNat_lt
    have h1 : x.toNat / 4 < 64 := by omega
    have h2 : x.toNat % 4 * 16 + y.toNat / 16 < 64 := by omega
    have h3 : y.toNat % 16 * 4 < 64 := by omega
    have hone : padding = 1 := hpadding
    rw [fromBytes_two, loop_lookup h1, loop_lookup h2, loop_lookup h3, loop_pad]
    have t1 := character_temp st h1
    obtain ⟨q1, w1⟩ := character_within st (UInt32.ofNat (x.toNat / 4)) (by omega)
    set st1 := st.character (UInt32.ofNat (x.toNat / 4))
    have t2 := character_temp st1 h2
    obtain ⟨q2, w2⟩ := character_within st1 (UInt32.ofNat (x.toNat % 4 * 16 + y.toNat / 16))
      (by omega)
    set st2 := st1.character (UInt32.ofNat (x.toNat % 4 * 16 + y.toNat / 16))
    have t3 := character_temp st2 h3
    obtain ⟨-, w3⟩ := character_within st2 (UInt32.ofNat (y.toNat % 16 * 4)) (by omega)
    set st3 := st2.character (UInt32.ofNat (y.toNat % 16 * 4))
    have hshift := toNat_shift_zero st3.temp
    have hwx : (st3.temp <<< 6 >>> UInt32.ofNat 16).toNat % 256 = x.toNat := by
      rw [toNat_shiftRight _ 16 (by decide)]
      omega
    have hwy : (st3.temp <<< 6 >>> UInt32.ofNat 8).toNat % 256 = y.toNat := by
      rw [toNat_shiftRight _ 8 (by decide)]
      omega
    have hend := ((w3 (w2 (w1 hw))).put hwx).put hwy
    rw [finish, if_pos hone]
    refine congrArg Except.ok (hend.result.trans ?_)
    rw [List.length_nil, List.replicate_zero, List.append_nil, List.append_assoc]
    rfl
  | case3 x =>
    have hx := x.toNat_lt
    have h1 : x.toNat / 4 < 64 := by omega
    have h2 : x.toNat % 4 * 16 < 64 := by omega
    have htwo : padding = 2 := hpadding
    have hne : padding ≠ 1 := by omega
    rw [fromBytes_one, loop_lookup h1, loop_lookup h2, loop_pad]
    have t1 := character_temp st h1
    obtain ⟨q1, w1⟩ := character_within st (UInt32.ofNat (x.toNat / 4)) (by omega)
    set st1 := st.character (UInt32.ofNat (x.toNat / 4))
    have t2 := character_temp st1 h2
    obtain ⟨-, w2⟩ := character_within st1 (UInt32.ofNat (x.toNat % 4 * 16)) (by omega)
    set st2 := st1.character (UInt32.ofNat (x.toNat % 4 * 16))
    have hshift := toNat_shift_zero st2.temp
    have hwx : (st2.temp <<< 6 >>> UInt32.ofNat 10).toNat % 256 = x.toNat := by
      rw [toNat_shiftRight _ 10 (by decide)]
      omega
    have hend := (w2 (w1 hw)).put hwx
    rw [finish, if_neg hne, if_pos htwo]
    refine congrArg Except.ok (hend.result.trans ?_)
    rw [List.length_nil, List.replicate_zero, List.append_nil]
  | case4 =>
    refine congrArg Except.ok (hw.result.trans ?_)
    rw [List.length_nil, List.replicate_zero, List.append_nil, List.append_nil]

end Decoding

theorem toBytes_fromBytes (bytes : ConstDataBuffer) :
    toBytes (fromBytes bytes) = .ok (bytes.map some) := by
  obtain ⟨core, padding, h⟩ := encoded bytes
  have hlen := h.bytes_length
  have hmod := h.length_mod
  have hfew := h.few
  rw [toBytes, if_neg (by rw [h.length_eq]; omega), h.paddingOf_eq, h.length_eq]
  dsimp only
  rw [hlen]
  have hstart : ({ result := List.replicate bytes.length none } : Decoding).Wrote [] bytes.length :=
    ⟨rfl, rfl⟩
  exact Decoding.loop_fromBytes bytes (by omega) rfl hstart

/-! ### The texts that are treated as the encoding does -/

theorem append_leading (text : StdString) :
    text = leading text ++ text.dropWhile (· ≠ padCharacter) :=
  (List.takeWhile_append_dropWhile).symm

/-- With the first padding character in its place, the rest of the text is the padding. -/
theorem padded_of_leading {text : StdString} (halpha : ∀ ch ∈ leading text, (charValue ch).isSome)
    (hlen : (leading text).length + paddingOf text = text.length) :
    Padded text (leading text) (paddingOf text) := by
  obtain ⟨tail, happend⟩ : ∃ tail, text = leading text ++ tail := ⟨_, append_leading text⟩
  have hfew : paddingOf text ≤ 2 := by
    rw [paddingOf]
    split_ifs <;> decide
  have htail : tail.length = paddingOf text := by
    have hsum := congrArg List.length happend
    rw [List.length_append] at hsum
    omega
  refine ⟨?_, halpha, hfew⟩
  rw [← htail]
  refine happend.trans (congrArg (leading text ++ ·) ?_)
  generalize leading text = core at happend
  rw [paddingOf] at htail
  obtain _ | ⟨c, _ | ⟨d, _ | ⟨e, rest⟩⟩⟩ := tail
  · rfl
  · rw [happend, List.getLast?_concat] at htail
    split_ifs at htail with hc
    · rw [Option.some.inj hc]
      rfl
    · rw [Option.some.inj hc]
      rfl
  · have hcons : core ++ [c, d] = core ++ [c] ++ [d] := (List.append_assoc core [c] [d]).symm
    rw [happend, hcons, List.getLast?_concat, List.dropLast_concat, List.getLast?_concat] at htail
    split_ifs at htail with hd hc
    · rw [Option.some.inj hd, Option.some.inj hc]
      rfl
    · cases htail
  · rw [← paddingOf] at htail
    simp only [List.length_cons] at htail
    omega

theorem exact_of_canonical {text : StdString} (h : Canonical text) {result : List (Option UInt8)}
    (hresult : toBytes text = .ok result) : ∃ b, result = b.map some ∧ fromBytes b = text := by
  by_cases hmod : text.length % 4 = 0
  · obtain ⟨halpha, hend⟩ := (toBytes_ok_iff hmod).1 ⟨result, hresult⟩
    have hform : ∃ core padding, Padded text core padding ∧
        (padding = 0 ∨ lastValue core % (if padding = 2 then 16 else 4) = 0) := by
      obtain h | h | ⟨ch, hch, hnone⟩ | ⟨hlen, hleft⟩ := h
      · exact absurd hmod h
      · obtain hend | hend := hend
        · refine ⟨leading text, 0, ⟨?_, halpha, by decide⟩, .inl rfl⟩
          rw [List.replicate_zero, List.append_nil, hend]
        · exact absurd h hend
      · have hsome := halpha ch hch
        rw [hnone] at hsome
        cases hsome
      · refine ⟨leading text, paddingOf text, padded_of_leading halpha hlen, .inr ?_⟩
        rw [leftoverBits] at hleft
        rw [lastValue]
        split_ifs at hleft ⊢ <;> exact hleft
    obtain ⟨core, padding, hp, hleft⟩ := hform
    obtain ⟨b, hb⟩ := exists_bytes core padding hp.alphabet hp.few (hp.length_eq ▸ hmod) hleft
    have htext : fromBytes b = text := hb.trans hp.eq.symm
    refine ⟨b, ?_, htext⟩
    rw [← htext, toBytes_fromBytes] at hresult
    exact (Except.ok.inj hresult).symm
  · rw [toBytes, if_pos hmod] at hresult
    cases hresult

theorem canonical_of_encoded (bytes : ConstDataBuffer) : Canonical (fromBytes bytes) := by
  obtain ⟨core, padding, h⟩ := encoded bytes
  obtain hzero | hleft := h.leftover
  · exact .inr (.inl (h.paddingOf_eq.trans hzero))
  · refine .inr (.inr (.inr ⟨?_, ?_⟩))
    · rw [h.leading_eq, h.paddingOf_eq, h.length_eq]
    · rw [leftoverBits, h.leading_eq, h.paddingOf_eq]
      rw [lastValue] at hleft
      split_ifs at hleft ⊢ <;> exact hleft

/-- Encoding and decoding are exact exactly at the canonical texts. -/
theorem exact_iff (bytes : ConstDataBuffer) (text : StdString) :
    Exact bytes text ↔ Canonical text := by
  constructor
  · rintro ⟨-, hexact⟩
    by_cases hresult : ∃ result, toBytes text = .ok result
    · obtain ⟨result, hresult⟩ := hresult
      obtain ⟨b, -, rfl⟩ := hexact result hresult
      exact canonical_of_encoded b
    · by_cases hmod : text.length % 4 = 0
      · rw [toBytes_ok_iff hmod, not_and_or, not_or, not_not] at hresult
        obtain hnone | ⟨-, hzero⟩ := hresult
        · push Not at hnone
          obtain ⟨ch, hch, hvalue⟩ := hnone
          exact .inr (.inr (.inl ⟨ch, hch, Option.not_isSome_iff_eq_none.1 hvalue⟩))
        · exact .inr (.inl hzero)
      · exact .inl hmod
  · exact fun h => ⟨toBytes_fromBytes bytes, fun result hresult => exact_of_canonical h hresult⟩

/-- A text whose last bits no byte gets is accepted. -/
theorem not_exact_leftover : ¬ ∀ bytes text, Exact bytes text := by
  intro h
  have htext : toBytes [0x41, 0x42, 0x3D, 0x3D] = .ok [some 0] := by decide +kernel
  obtain ⟨b, hb, htext'⟩ := (h [] [0x41, 0x42, 0x3D, 0x3D]).2 _ htext
  obtain _ | ⟨x, _ | ⟨y, rest⟩⟩ := b
  · cases hb
  · cases hb
    exact absurd htext' (by decide +kernel)
  · cases hb

end Vds.Base64
