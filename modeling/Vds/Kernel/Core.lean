import Mathlib

/-! Byte buffers, errors and `expected` results. -/

namespace Vds

/-- The bytes of a `const_data_buffer`. -/
abbrev ConstDataBuffer := List UInt8

instance lawfulBEq_buffer : LawfulBEq ConstDataBuffer := inferInstance

/-- The bytes of a `std::string`. -/
abbrev StdString := List UInt8

/-- `memcmp` below zero on buffers of one size. -/
def memcmpLess : List UInt8 → List UInt8 → Bool
  | a :: as, b :: bs => a < b || (a == b && memcmpLess as bs)
  | _, _ => false

/-- `const_data_buffer::operator <`: the shorter buffer comes first. -/
def bufferLess (left right : ConstDataBuffer) : Bool :=
  left.length < right.length || (left.length == right.length && memcmpLess left right)

inductive Error
  /-- A `std::runtime_error` with its text. -/
  | runtimeError (what : String)
  /-- The database refuses a statement because of a constraint of the table. -/
  | constraint (table : String)
  /-- An error of the crypto library. -/
  | cryptoException (what : String)
  /-- The evaluation of a loop was cut short; the code has no such error. -/
  | outOfFuel
  deriving DecidableEq, Repr

/-- `expected<value_type>`: a value or an error. -/
abbrev Expected (α : Type) := Except Error α

namespace Expected

variable {α : Type}

def hasValue : Expected α → Bool
  | .ok _ => true
  | .error _ => false

def hasError : Expected α → Bool
  | .ok _ => false
  | .error _ => true

/-- `expected::operator !`: neither a value nor an error, whatever the value is. -/
def operatorNot (v : Expected α) : Bool := !v.hasValue && !v.hasError

@[simp] theorem operatorNot_eq_false (v : Expected α) : operatorNot v = false := by
  cases v <;> rfl

end Expected

/-- `std::chrono::system_clock::time_point`, in microseconds. -/
abbrev TimePoint := Int64

/-- `system_clock::from_time_t` of a number of seconds, with the wrap of the 64-bit product. -/
def fromTimeT (seconds : Int64) : TimePoint := seconds * 1000000

/-- `system_clock::to_time_t`. -/
def toTimeT (timePoint : TimePoint) : Int64 := timePoint / 1000000

end Vds
