import Vds.Kernel.Core

/-! `base64::from_bytes`, and the file name that a hash gets. -/

namespace Vds.Base64

/-- `encodeLookup`. -/
def encodeLookup : List UInt8 :=
  "ABCDEFGHIJKLMNOPQRSTUVWXYZabcdefghijklmnopqrstuvwxyz0123456789+/".toList.map
    fun ch => ch.toNat.toUInt8

/-- `padCharacter`. -/
def padCharacter : UInt8 := 0x3D

def digit (temp shift : Nat) : UInt8 := encodeLookup.getD (temp / 2 ^ shift % 64) 0

def fromBytes : ConstDataBuffer → StdString
  | a :: b :: c :: rest =>
    let temp := a.toNat * 2 ^ 16 + b.toNat * 2 ^ 8 + c.toNat
    digit temp 18 :: digit temp 12 :: digit temp 6 :: digit temp 0 :: fromBytes rest
  | [a, b] =>
    let temp := a.toNat * 2 ^ 16 + b.toNat * 2 ^ 8
    [digit temp 18, digit temp 12, digit temp 6, padCharacter]
  | [a] =>
    let temp := a.toNat * 2 ^ 16
    [digit temp 18, digit temp 12, padCharacter, padCharacter]
  | [] => []

/-- `str_replace`. -/
def strReplace (original target : UInt8) (s : StdString) : StdString :=
  s.map fun ch => if ch = original then target else ch

/-- The base64 form with `+` and `/` replaced by `#` and `_`. -/
def appendPath (hash : ConstDataBuffer) : StdString :=
  strReplace 0x2F 0x5F (strReplace 0x2B 0x23 (fromBytes hash))

example : fromBytes [0x4D, 0x61] = [0x54, 0x57, 0x45, 0x3D] := by decide +kernel

end Vds.Base64
