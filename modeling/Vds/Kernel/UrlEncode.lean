import Vds.Kernel.Core
import Vds.Library.Bytes

/-! `url_encode`: the bytes from 0x80 on are negative characters, and their escapes have no first
digit. -/

namespace Vds.UrlEncode

open Library (forall_byte)

/-- `isalnum` in the locale "C", where no negative character is one. -/
def isAlnum (ch : UInt8) : Bool :=
  (0x30 ≤ ch && ch ≤ 0x39) || (0x41 ≤ ch && ch ≤ 0x5A) || (0x61 ≤ ch && ch ≤ 0x7A)

/-- Letters, digits and `-`, `_`, `.`, `~`. -/
def isUnreserved (ch : UInt8) : Bool :=
  isAlnum ch || ch == 0x2D || ch == 0x5F || ch == 0x2E || ch == 0x7E

/-- A digit of an escape, out of an `int`. -/
def digit (value : Int) : UInt8 :=
  if 10 ≤ value then UInt8.ofInt (0x41 + value - 10) else UInt8.ofInt (0x30 + value)

/-- What `encode` appends for a character, whose shift keeps its sign. -/
def escape (ch : UInt8) : StdString :=
  if isUnreserved ch then [ch]
  else [0x25, digit (ch.toInt8.toInt >>> 4), digit (ch &&& 0x0F).toNat]

def encode (original : StdString) : StdString := original.flatMap escape

/-- The variable `state` of `decode`, with `val` where it is set. -/
inductive State
  | text
  | first
  | second (val : UInt8)
  deriving DecidableEq

/-- The value of a digit in either case. -/
def digitValue (ch : UInt8) : Option UInt8 :=
  if 0x30 ≤ ch ∧ ch ≤ 0x39 then some (ch - 0x30)
  else if 0x61 ≤ ch ∧ ch ≤ 0x66 then some (ch - 0x61 + 10)
  else if 0x41 ≤ ch ∧ ch ≤ 0x46 then some (ch - 0x41 + 10)
  else none

/-- What a character appends, and the next state. -/
def symbol (ch : UInt8) : State → StdString × State
  | .text => if ch = 0x25 then ([], .first) else ([ch], .text)
  | .first =>
    match digitValue ch with
    | some val => ([], .second val)
    | none => ([0x25, ch], .text)
  | .second val =>
    match digitValue ch with
    | some low => ([val <<< 4 ||| low], .text)
    | none => ([0x25, ch], .text)

def decodeFrom : State → StdString → StdString
  | _, [] => []
  | state, ch :: original => (symbol ch state).1 ++ decodeFrom (symbol ch state).2 original

def decode (original : StdString) : StdString := decodeFrom .text original

/-- Unreserved characters, `+` and escapes of two digits. -/
def wellFormed : StdString → Bool
  | [] => true
  | ch :: text =>
    if ch = 0x25 then
      match text with
      | high :: low :: rest =>
        (digitValue high).isSome && (digitValue low).isSome && wellFormed rest
      | _ => false
    else (isUnreserved ch || ch == 0x2B) && wellFormed text

def RoundTrip (s : StdString) : Prop := decode (encode s) = s ∧ wellFormed (encode s)

/-! ### One character -/

theorem character_cases : ∀ ch : UInt8,
    (isUnreserved ch → ch ≠ 0x25 ∧ ch < 0x80) ∧
    (ch < 0x80 → digitValue (digit (ch.toInt8.toInt >>> 4)) = some (ch >>> 4) ∧
      digitValue (digit (ch &&& 0x0F).toNat) = some (ch &&& 0x0F) ∧
      (ch >>> 4) <<< 4 ||| (ch &&& 0x0F) = ch) ∧
    (¬ ch < 0x80 → digitValue (digit (ch.toInt8.toInt >>> 4)) = none ∧
      digit (ch &&& 0x0F).toNat ≠ 0x25) :=
  forall_byte (by decide +kernel)

theorem isUnreserved_negative {ch : UInt8} (h : ¬ ch < 0x80) : isUnreserved ch = false :=
  Bool.eq_false_of_not_eq_true fun hch => h ((character_cases ch).1 hch).2

theorem decode_escape {ch : UInt8} (h : ch < 0x80) (rest : StdString) :
    decode (escape ch ++ rest) = ch :: decode rest := by
  obtain ⟨hplain, hdigits, -⟩ := character_cases ch
  rw [escape]
  split_ifs with hch
  · simp only [decode, List.singleton_append, decodeFrom, symbol, if_neg (hplain hch).1]
  · obtain ⟨hhigh, hlow, hvalue⟩ := hdigits h
    simp only [decode, List.cons_append, List.nil_append, decodeFrom, symbol, if_true, hhigh, hlow,
      hvalue]

/-- The escape of a negative character is read as three characters. -/
theorem decode_negative {ch : UInt8} (h : ¬ ch < 0x80) (rest : StdString) :
    decode (escape ch ++ rest) = escape ch ++ decode rest := by
  obtain ⟨hhigh, hlow⟩ := (character_cases ch).2.2 h
  rw [escape, isUnreserved_negative h]
  simp only [decode, Bool.false_eq_true, if_false, List.cons_append, List.nil_append, decodeFrom,
    symbol, if_true, hhigh, if_neg hlow]

theorem escape_negative_length {ch : UInt8} (h : ¬ ch < 0x80) : (escape ch).length = 3 := by
  rw [escape, isUnreserved_negative h]
  rfl

theorem wellFormed_plain {ch : UInt8} (h : ch ≠ 0x25) (text : StdString) :
    wellFormed (ch :: text) = ((isUnreserved ch || ch == 0x2B) && wellFormed text) := by
  obtain _ | ⟨high, _ | ⟨low, rest⟩⟩ := text <;> simp only [wellFormed, if_neg h]

theorem wellFormed_percent (high low : UInt8) (rest : StdString) :
    wellFormed (0x25 :: high :: low :: rest) =
      ((digitValue high).isSome && (digitValue low).isSome && wellFormed rest) := by
  simp only [wellFormed, if_true]

theorem wellFormed_escape (ch : UInt8) (rest : StdString) :
    wellFormed (escape ch ++ rest) = (decide (ch < 0x80) && wellFormed rest) := by
  obtain ⟨hplain, hdigits, hnegative⟩ := character_cases ch
  rw [escape]
  split_ifs with hch
  · obtain ⟨hne, hlt⟩ := hplain hch
    rw [List.singleton_append, wellFormed_plain hne, hch, decide_eq_true hlt, Bool.true_or]
  · rw [List.cons_append, List.cons_append, List.singleton_append, wellFormed_percent]
    by_cases h : ch < 0x80
    · obtain ⟨hhigh, hlow, -⟩ := hdigits h
      rw [hhigh, hlow, decide_eq_true h]
      rfl
    · rw [(hnegative h).1, decide_eq_false h]
      rfl

/-! ### Whole strings -/

theorem encode_cons (ch : UInt8) (s : StdString) : encode (ch :: s) = escape ch ++ encode s :=
  List.flatMap_cons

theorem length_le_decode (s : StdString) : s.length ≤ (decode (encode s)).length := by
  induction s with
  | nil => exact Nat.le_refl 0
  | cons ch s ih =>
    rw [encode_cons]
    by_cases h : ch < 0x80
    · rw [decode_escape h]
      exact Nat.succ_le_succ ih
    · rw [decode_negative h, List.length_append, escape_negative_length h, List.length_cons]
      omega

theorem decode_encode_iff (s : StdString) : decode (encode s) = s ↔ ∀ ch ∈ s, ch < 0x80 := by
  induction s with
  | nil => exact iff_of_true rfl (fun ch hch => by cases hch)
  | cons ch s ih =>
    rw [encode_cons, List.forall_mem_cons, ← ih]
    by_cases h : ch < 0x80
    · rw [decode_escape h, List.cons_inj_right]
      exact ⟨fun h' => ⟨h, h'⟩, And.right⟩
    · refine ⟨fun h' => ?_, fun h' => absurd h'.1 h⟩
      have hlen := congrArg List.length h'
      rw [decode_negative h, List.length_append, escape_negative_length h, List.length_cons] at hlen
      have hle := length_le_decode s
      omega

theorem wellFormed_encode_iff (s : StdString) :
    wellFormed (encode s) ↔ ∀ ch ∈ s, ch < 0x80 := by
  induction s with
  | nil => exact iff_of_true rfl (fun ch hch => by cases hch)
  | cons ch s ih =>
    rw [encode_cons, wellFormed_escape, List.forall_mem_cons, ← ih, Bool.and_eq_true,
      decide_eq_true_iff]

/-- A string comes back, and its code is well formed, exactly if it has no byte from 0x80 on. -/
theorem keepsBytes_iff (s : StdString) : RoundTrip s ↔ ∀ ch ∈ s, ch < 0x80 := by
  rw [RoundTrip, decode_encode_iff, wellFormed_encode_iff, and_self]

example : decode (encode [0x61, 0x20, 0x25]) = [0x61, 0x20, 0x25] := by decide +kernel

/-- The two bytes of a Cyrillic letter come back as six. -/
theorem not_roundTrip_cyrillic : ¬ ∀ s, RoundTrip s := by
  intro h
  have hs := (h [0xD0, 0x96]).1
  exact absurd hs (by decide +kernel)

end Vds.UrlEncode
