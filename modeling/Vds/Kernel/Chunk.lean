import Vds.Kernel.BinarySerialize
import Vds.Kernel.GaloisField

/-! The erasure code: `chunk_generator<uint16_t>` writes one replica of the data, and
`chunk_restore<uint16_t>` computes the data from as many replicas as a row has cells. -/

namespace Vds

/-- `chunk<uint16_t>::math_`. -/
def math : GfMath := GfMath.create

def cell (value : UInt16) : Gf16 := ⟨value.toBitVec⟩

def putCell (value : Gf16) : ConstDataBuffer := BinarySerializer.putUInt16 ⟨value.bits⟩

/-- `generate_multipliers`: the powers of the replica index. -/
def multiplier (n : Gf16) : Nat → Gf16
  | 0 => Gf16.one
  | j + 1 => math.mul (multiplier n j) n

/-! ### Writing -/

structure ChunkGenerator where
  k : Nat
  n : UInt16

namespace ChunkGenerator

/-- The two bytes at `start`, with zeros behind the end of the data. -/
def dataItem (data : ConstDataBuffer) (start : Nat) : Gf16 :=
  let shiftIn (item : BitVec 16) (offset : Nat) : BitVec 16 :=
    if h : start + offset < data.length then
      item <<< 8 ||| (data.get ⟨start + offset, h⟩).toBitVec.setWidth 16
    else item <<< 8
  ⟨shiftIn (shiftIn 0 0) 1⟩

def rowValue (g : ChunkGenerator) (data : ConstDataBuffer) (i : Nat) : Gf16 :=
  Fin.foldl g.k
    (fun value j =>
      GfMath.add value (math.mul (multiplier (cell g.n) j) (dataItem data (i + 2 * j))))
    0

/-- `i` from 0 in steps of one row while there is data. -/
def rowStarts (k size : Nat) : List Nat := List.range' 0 ((size + 2 * k - 1) / (2 * k)) (2 * k)

def write (g : ChunkGenerator) (data : ConstDataBuffer) : ConstDataBuffer :=
  (rowStarts g.k data.length).flatMap (fun i => putCell (g.rowValue data i)) ++
    BinarySerializer.putUInt16 (UInt16.ofNat (data.length % (2 * g.k)))

end ChunkGenerator

/-! ### Restoring -/

inductive RestoreError
  | runtimeError (what : String)
  /-- A read outside of a buffer. -/
  | outOfRange
  deriving DecidableEq, Repr

/-- The two matrices of the constructor: `left` and `multipliers_`. -/
structure Multipliers (k : Nat) where
  left : Fin k → Fin k → Gf16
  multipliers : Fin k → Fin k → Gf16

namespace Multipliers

variable {k : Nat}

def prepare (n : Fin k → UInt16) : Multipliers k where
  left i c := multiplier (cell (n i)) c
  multipliers i j := if i = j then Gf16.one else 0

/-- Row `j` is multiplied by `m1`, and `m2` times row `i` is taken from it. -/
def combine (m1 m2 : Gf16) (i j : Fin k) (rows : Fin k → Fin k → Gf16) : Fin k → Fin k → Gf16 :=
  Function.update rows j fun c => GfMath.sub (math.mul m1 (rows j c)) (math.mul m2 (rows i c))

def firstRow (st : Multipliers k) (i : Fin k) : Multipliers k :=
  let m1 := st.left i i
  Fin.foldl k
    (fun st j =>
      if i < j then
        let m2 := st.left j i
        ⟨combine m1 m2 i j st.left, combine m1 m2 i j st.multipliers⟩
      else st)
    st

def first (st : Multipliers k) : Multipliers k := Fin.foldl k firstRow st

def divide (st : Multipliers k) : Multipliers k where
  left i c := if c < i then st.left i c else math.div (st.left i c) (st.left i i)
  multipliers i c := math.div (st.multipliers i c) (st.left i i)

/-- `m1` times row `i` is taken from row `j`. -/
def subtract (m1 : Gf16) (i j : Fin k) (rows : Fin k → Fin k → Gf16) : Fin k → Fin k → Gf16 :=
  Function.update rows j fun c => GfMath.sub (rows j c) (math.mul (rows i c) m1)

/-- The rows before `i`, the last of them first. -/
def reverseRow (i : Fin k) (st : Multipliers k) : Multipliers k :=
  Fin.foldr k
    (fun j st =>
      if j < i then
        let m1 := st.left j i
        ⟨subtract m1 i j st.left, subtract m1 i j st.multipliers⟩
      else st)
    st

def reverse (st : Multipliers k) : Multipliers k := Fin.foldr k reverseRow st

end Multipliers

structure ChunkRestore (k : Nat) where
  multipliers : Fin k → Fin k → Gf16

namespace ChunkRestore

variable {k : Nat}

def create (n : Fin k → UInt16) : ChunkRestore k :=
  ⟨(Multipliers.prepare n).first.divide.reverse.multipliers⟩

def byteAt (chunk : ConstDataBuffer) (index : Nat) : Except RestoreError (BitVec 16) :=
  if h : index < chunk.length then .ok ((chunk.get ⟨index, h⟩).toBitVec.setWidth 16)
  else .error .outOfRange

def cellAt (chunk : ConstDataBuffer) (index : Nat) : Except RestoreError Gf16 := do
  let high ← byteAt chunk index
  let low ← byteAt chunk (index + 1)
  return ⟨high <<< 8 ||| low⟩

def valueAt (r : ChunkRestore k) (chunks : Fin k → ConstDataBuffer) (index : Nat) (i : Fin k) :
    Except RestoreError Gf16 :=
  Fin.foldl k
    (fun value j => do
      let value ← value
      let c ← cellAt (chunks j) index
      return GfMath.add value (math.mul (r.multipliers i j) c))
    (.ok 0)

/-- The cells are written until the expected size is reached. -/
def restoreLoop (r : ChunkRestore k) (chunks : Fin k → ConstDataBuffer) (expectedSize : Int) :
    List (Nat × Fin k) → ConstDataBuffer → Except RestoreError ConstDataBuffer
  | [], _ => .error (.runtimeError "Fatal error at chunk_restore::restore")
  | (index, i) :: rest, s => do
    let value ← r.valueAt chunks index i
    let s := s ++ putCell value
    if expectedSize ≤ s.length then return s.take expectedSize.toNat
    else r.restoreLoop chunks expectedSize rest s

def steps (k size : Nat) : List (Nat × Fin k) :=
  (List.range' 0 ((size + 1) / 2) 2).flatMap fun index => (List.finRange k).map fun i => (index, i)

def restore (r : ChunkRestore k) (chunks : Fin k → ConstDataBuffer) :
    Except RestoreError ConstDataBuffer := do
  if h : 0 < k then
    let size := (chunks ⟨0, h⟩).length
    if size < 2 then .error .outOfRange
    else
      let padding ← cellAt (chunks ⟨0, h⟩) (size - 2)
      let expectedSize : Int :=
        if padding.bits = 0 then (size - 2) * k
        else (size - 2) * k - k * 2 + padding.bits.toNat
      -- `size_t` wraps around below zero
      let expectedSize := if expectedSize < 0 then expectedSize + 2 ^ 64 else expectedSize
      r.restoreLoop chunks expectedSize (steps k size) []
  else .error .outOfRange

end ChunkRestore
end Vds
