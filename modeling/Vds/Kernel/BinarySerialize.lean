import Vds.Kernel.Core
import Vds.Library.StateError

/-! The binary format of blocks and messages: `binary_serializer` and `binary_deserializer`. -/

namespace Vds

/-! ### Writing -/

namespace BinarySerializer

def putBool (value : Bool) : ConstDataBuffer := [if value then 0xFF else 0]

def putUInt8 (value : UInt8) : ConstDataBuffer := [value]

def putUInt16 (value : UInt16) : ConstDataBuffer := [(value >>> 8).toUInt8, value.toUInt8]

def putUInt32 (value : UInt32) : ConstDataBuffer :=
  [(value >>> 24).toUInt8, (value >>> 16).toUInt8, (value >>> 8).toUInt8, value.toUInt8]

def putUInt64 (value : UInt64) : ConstDataBuffer :=
  [(value >>> 56).toUInt8, (value >>> 48).toUInt8, (value >>> 40).toUInt8, (value >>> 32).toUInt8,
    (value >>> 24).toUInt8, (value >>> 16).toUInt8, (value >>> 8).toUInt8, value.toUInt8]

/-- The bytes that `write_number` collects, lowest first; eight of them hold any value. -/
def numberData : Nat → UInt64 → List UInt8
  | 0, _ => []
  | n + 1, value =>
    value.toUInt8 :: if value >>> 8 = 0 then [] else numberData n (value >>> 8)

def writeNumber (value : UInt64) : ConstDataBuffer :=
  if value < 128 then [value.toUInt8]
  else
    let data := numberData 8 (value - 128)
    (0x80 ||| UInt8.ofNat data.length) :: data.reverse

def putData (data : ConstDataBuffer) : ConstDataBuffer :=
  writeNumber (UInt64.ofNat data.length) ++ data

def putString (value : StdString) : ConstDataBuffer := putData value

/-- The containers: the number of items, then the items. -/
def putAll {α : Type} (put : α → ConstDataBuffer) (items : List α) : ConstDataBuffer :=
  writeNumber (UInt64.ofNat items.length) ++ items.flatMap put

end BinarySerializer

/-! ### Reading -/

/-- A reader takes bytes from the front of what is left. -/
abbrev BinaryDeserializer (α : Type) := EStateM Error ConstDataBuffer α

namespace BinaryDeserializer

def popData (size : Nat) : BinaryDeserializer ConstDataBuffer := do
  let data ← get
  if data.length < size then throw (.runtimeError "Invalid data")
  else do
    set (data.drop size)
    return data.take size

/-- The big-endian value of bytes that are shifted in one after the other. -/
def bigEndian (data : ConstDataBuffer) : UInt64 :=
  data.foldl (fun (value : UInt64) (b : UInt8) => value <<< 8 ||| b.toUInt64) 0

def getUInt8 : BinaryDeserializer UInt8 := do
  match ← popData 1 with
  | value :: _ => return value
  | [] => throw (.runtimeError "Invalid data")

def getBool : BinaryDeserializer Bool := do
  let value ← getUInt8
  return value ≠ 0

def getUInt16 : BinaryDeserializer UInt16 := do
  let data ← popData 2
  return (bigEndian data).toUInt16

def getUInt32 : BinaryDeserializer UInt32 := do
  let data ← popData 4
  return (bigEndian data).toUInt32

def getUInt64 : BinaryDeserializer UInt64 := do
  let data ← popData 8
  return bigEndian data

def readNumber : BinaryDeserializer UInt64 := do
  let value ← getUInt8
  if value < 0x80 then return value.toUInt64
  else do
    let data ← popData (value &&& 0x7F).toNat
    return bigEndian data + 0x80

def getString : BinaryDeserializer StdString := do
  let len ← readNumber
  popData len.toNat

def getData : BinaryDeserializer ConstDataBuffer := do
  let len ← readNumber
  if 1024 * 1024 * 1024 < len then throw (.runtimeError "very big object")
  else popData len.toNat

def getMany {α : Type} (item : BinaryDeserializer α) : Nat → BinaryDeserializer (List α)
  | 0 => return []
  | n + 1 => do
    let value ← item
    let rest ← getMany item n
    return value :: rest

/-- `std::vector` and `std::list`. -/
def getVector {α : Type} (item : BinaryDeserializer α) : BinaryDeserializer (List α) := do
  let count ← readNumber
  getMany item count.toNat

end BinaryDeserializer
end Vds
