import Vds.Kernel.Core

/-! `utf8`: characters out of bytes, and bytes out of characters. -/

namespace Vds.Utf8

/-- A byte that continues a character. -/
def isTail (b : UInt8) : Bool := b &&& 0b11000000 == 0b10000000

/-- The first character and what follows it. -/
def nextChar : StdString → Expected (UInt32 × StdString)
  | [] => .ok (0, [])
  | a :: rest =>
    if a &&& 0b10000000 == 0 then .ok (a.toUInt32, rest)
    else if a &&& 0b11100000 == 0b11000000 then
      match rest with
      | b :: rest =>
        if isTail b then
          .ok ((a &&& 0b00011111).toUInt32 <<< 6 ||| (b &&& 0b00111111).toUInt32, rest)
        else .error (.runtimeError "Invalid UTF8 string")
      | _ => .error (.runtimeError "Invalid UTF8 string")
    else if a &&& 0b11110000 == 0b11100000 then
      match rest with
      | b :: c :: rest =>
        if isTail b && isTail c then
          .ok ((a &&& 0b00011111).toUInt32 <<< 12 ||| (b &&& 0b00111111).toUInt32 <<< 6 |||
            (c &&& 0b00111111).toUInt32, rest)
        else .error (.runtimeError "Invalid UTF8 string")
      | _ => .error (.runtimeError "Invalid UTF8 string")
    else if a &&& 0b11111000 == 0b11110000 then
      match rest with
      | b :: c :: d :: rest =>
        if isTail b && isTail c && isTail d then
          .ok ((a &&& 0b00011111).toUInt32 <<< 18 ||| (b &&& 0b00111111).toUInt32 <<< 12 |||
            (c &&& 0b00111111).toUInt32 <<< 6 ||| (d &&& 0b00111111).toUInt32, rest)
        else .error (.runtimeError "Invalid UTF8 string")
      | _ => .error (.runtimeError "Invalid UTF8 string")
    else .error (.runtimeError "Invalid UTF8 string")

/-- The low six bits of `ch` from bit `shift` on, in a continuing byte. -/
def tailByte (ch : UInt32) (shift : UInt32) : UInt8 :=
  ((0b10000000 : UInt32) ||| ((0b00111111 : UInt32) &&& ch >>> shift)).toUInt8

/-- The bytes that `add` appends. -/
def encode (ch : UInt32) : Expected StdString :=
  if ch < 0x80 then .ok [ch.toUInt8]
  else if ch < 0x800 then .ok [((0b11000000 : UInt32) ||| ch >>> 6).toUInt8, tailByte ch 0]
  else if ch < 0x10000 then
    .ok [((0b11000000 : UInt32) ||| ch >>> 12).toUInt8, tailByte ch 6, tailByte ch 0]
  else if ch < 0x110000 then
    .ok [((0b11000000 : UInt32) ||| ch >>> 18).toUInt8, tailByte ch 12, tailByte ch 6,
      tailByte ch 0]
  else .error (.runtimeError "Invalid UTF16 string")

def add (result : StdString) (ch : UInt32) : Expected StdString :=
  match encode ch with
  | .ok bytes => .ok (result ++ bytes)
  | .error e => .error e

example : nextChar [0xD0, 0x96, 0x41] = .ok (0x416, [0x41]) := by decide

end Vds.Utf8
