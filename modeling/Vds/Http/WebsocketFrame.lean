import Vds.Kernel.Canonical
import Vds.Kernel.JsonStrings
import Vds.Kernel.JsonText

/-! The frames of the websocket protocol as the two sides write them, and the fields of their headers as
both of them read them. -/

namespace Vds.Http

open BinarySerializer BinaryDeserializer

/-- A message; no buffer is larger than half of the address space. -/
structure Message where
  isBinary : Bool
  payload : ConstDataBuffer
  small : payload.length < 2 ^ 63

namespace Message

def size (m : Message) : UInt64 := UInt64.ofNat m.payload.length

theorem toNat_size (m : Message) : m.size.toNat = m.payload.length :=
  UInt64.toNat_ofNat_of_lt' (m.small.trans (by decide))

/-- The first byte of the frame: the last fragment, and the opcode. -/
def firstByte (isBinary : Bool) : UInt8 := if isBinary then 0x82 else 0x81

end Message

/-- The second byte of a frame and the size field that follows it. -/
def sizeBytes (maskBit : UInt8) (size : UInt64) : ConstDataBuffer :=
  if size < 126 then [maskBit ||| size.toUInt8]
  else if size ≤ 0xFFFF then [maskBit ||| 126, (size >>> 8).toUInt8, size.toUInt8]
  else (maskBit ||| 127) :: putUInt64 size

/-! ### Reading the fields -/

/-- Does the second byte of a frame announce a mask? -/
def hasMaskBit (second : UInt8) : Bool := second &&& 0x80 = 0x80

/-- The payload length as it stands in the second byte. -/
def shortLength (second : UInt8) : UInt8 := second &&& 0x7F

/-- Where the mask, or the payload, begins. -/
def offsetOf (second : UInt8) : Nat :=
  if shortLength second = 126 then 4 else if shortLength second = 127 then 10 else 2

def maskSize (hasMask : Bool) : Nat := if hasMask then 4 else 0

def payloadLengthOf (buffer : ConstDataBuffer) : UInt64 :=
  let second := buffer.getD 1 0
  if shortLength second = 126 then bigEndian ((buffer.drop 2).take 2)
  else if shortLength second = 127 then bigEndian ((buffer.drop 2).take 8)
  else (shortLength second).toUInt64

/-! ### What is read of what is written -/

/-- The bit for a mask or its absence. -/
def maskBit (hasMask : Bool) : UInt8 := if hasMask then 0x80 else 0

theorem shortLength_maskBit (hasMask : Bool) : ∀ b : UInt8, b < 0x80 → shortLength (maskBit hasMask ||| b) = b := by
  cases hasMask <;> exact Library.forall_byte (by decide +kernel)

theorem hasMaskBit_maskBit (hasMask : Bool) : ∀ b : UInt8, b < 0x80 → hasMaskBit (maskBit hasMask ||| b) = hasMask := by
  cases hasMask <;> exact Library.forall_byte (by decide +kernel)

/-- The three forms of a size. -/
theorem sizeBytes_cases (bit : UInt8) (size : UInt64) :
    (size < 126 ∧ sizeBytes bit size = [bit ||| size.toUInt8]) ∨
    (size ≤ 0xFFFF ∧ sizeBytes bit size = [bit ||| 126, (size >>> 8).toUInt8, size.toUInt8]) ∨
    sizeBytes bit size = (bit ||| 127) :: putUInt64 size := by
  unfold sizeBytes
  split_ifs with h₁ h₂
  · exact .inl ⟨h₁, rfl⟩
  · exact .inr (.inl ⟨h₂, rfl⟩)
  · exact .inr (.inr rfl)

section

variable {size : UInt64}

theorem bigEndian_two (h : size ≤ 0xFFFF) : bigEndian [(size >>> 8).toUInt8, size.toUInt8] = size := by
  have hle : size.toNat ≤ 0xFFFF := UInt64.le_iff_toNat_le.mp h
  refine UInt64.toNat_inj.mp ?_
  rw [bigEndian_toNat (Nat.le_of_ble_eq_true rfl)]
  simp only [List.reverse_cons, List.reverse_nil, List.nil_append, List.cons_append, List.map_cons,
    List.map_nil, Nat.ofDigits_cons, Nat.ofDigits_nil, UInt64.toNat_toUInt8, UInt64.toNat_shiftRight]
  have hshift : size.toNat >>> ((8 : UInt64).toNat % 64) = size.toNat / 256 := Nat.shiftRight_eq_div_pow _ 8
  rw [hshift]
  omega

theorem toNat_byte (h : size < 126) : size.toUInt8.toNat = size.toNat := by
  have hlt : size.toNat < 126 := UInt64.lt_iff_toNat_lt.mp h
  rw [UInt64.toNat_toUInt8]
  exact Nat.mod_eq_of_lt (by omega)

/-- What both readers take from the front of a frame is what the writer has put there. -/
structure Fields (hasMask : Bool) (size : UInt64) (buffer : ConstDataBuffer) : Prop where
  mask : hasMaskBit (buffer.getD 1 0) = hasMask
  offset : offsetOf (buffer.getD 1 0) = 1 + (sizeBytes (maskBit hasMask) size).length
  payloadLength : payloadLengthOf buffer = size

theorem fields_header (hasMask : Bool) (first : UInt8) (tail : ConstDataBuffer) :
    Fields hasMask size (first :: (sizeBytes (maskBit hasMask) size ++ tail)) := by
  rcases sizeBytes_cases (maskBit hasMask) size with ⟨h₁, hsize⟩ | ⟨h₂, hsize⟩ | hsize <;> rw [hsize]
  · have hlt : size.toUInt8 < 126 := by
      refine UInt8.lt_iff_toNat_lt.mpr ?_
      rw [toNat_byte h₁]
      exact UInt64.lt_iff_toNat_lt.mp h₁
    have hlow : size.toUInt8 < 0x80 := UInt8.lt_trans hlt (show (126 : UInt8) < 0x80 by decide)
    have hshort : shortLength (maskBit hasMask ||| size.toUInt8) = size.toUInt8 := shortLength_maskBit hasMask _ hlow
    have h126 : size.toUInt8 ≠ 126 := UInt8.ne_of_lt hlt
    have h127 : size.toUInt8 ≠ 127 := UInt8.ne_of_lt (UInt8.lt_trans hlt (show (126 : UInt8) < 127 by decide))
    refine ⟨hasMaskBit_maskBit hasMask _ hlow, ?_, ?_⟩
    · rw [hsize]
      change offsetOf (maskBit hasMask ||| size.toUInt8) = 2
      unfold offsetOf
      rw [hshort, if_neg h126, if_neg h127]
    · unfold payloadLengthOf
      change (if shortLength (maskBit hasMask ||| size.toUInt8) = 126 then _ else _) = size
      rw [hshort, if_neg h126]
      change (if shortLength (maskBit hasMask ||| size.toUInt8) = 127 then _ else
        (shortLength (maskBit hasMask ||| size.toUInt8)).toUInt64) = size
      rw [hshort, if_neg h127]
      refine UInt64.toNat_inj.mp ?_
      rw [UInt8.toNat_toUInt64, toNat_byte h₁]
  · have hshort : shortLength (maskBit hasMask ||| 126) = 126 := shortLength_maskBit hasMask _ (by decide)
    refine ⟨hasMaskBit_maskBit hasMask _ (by decide), ?_, ?_⟩
    · rw [hsize]
      change offsetOf (maskBit hasMask ||| 126) = 4
      unfold offsetOf
      rw [hshort, if_pos rfl]
    · unfold payloadLengthOf
      change (if shortLength (maskBit hasMask ||| 126) = 126 then _ else _) = size
      rw [hshort, if_pos rfl]
      exact bigEndian_two h₂
  · have hshort : shortLength (maskBit hasMask ||| 127) = 127 := shortLength_maskBit hasMask _ (by decide)
    refine ⟨hasMaskBit_maskBit hasMask _ (by decide), ?_, ?_⟩
    · rw [hsize]
      change offsetOf (maskBit hasMask ||| 127) = 10
      unfold offsetOf
      rw [hshort, if_neg (by decide), if_pos rfl]
    · unfold payloadLengthOf
      change (if shortLength (maskBit hasMask ||| 127) = 126 then _ else _) = size
      rw [hshort, if_neg (by decide)]
      change (if shortLength (maskBit hasMask ||| 127) = 127 then _ else _) = size
      rw [hshort, if_pos rfl]
      exact bigEndian_putUInt64 size

end

end Vds.Http
