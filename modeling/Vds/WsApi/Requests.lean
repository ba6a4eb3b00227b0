import Vds.Kernel.Base64Decode
import Vds.Kernel.Json

/-! The requests of `websocket_api`: their properties, and the numbers that their texts stand for. -/

namespace Vds.WsApi

/-- How a request ends that has no value. -/
inductive Failure
  /-- A `std::runtime_error` with its text. -/
  | runtimeError (what : StdString)
  /-- An element outside of an array is read, or a text is converted to a number that its type does
  not hold. -/
  | undefined
  deriving DecidableEq

abbrev Answered (α : Type) := Except Failure α

def text (s : String) : StdString := s.toList.map ascii

def fail {α : Type} (what : StdString) : Answered α := .error (.runtimeError what)

/-- `what()` of the errors of `base64::to_bytes`. -/
def what : Error → StdString
  | .runtimeError what => text what
  | .constraint table => text table
  | .cryptoException what => text what
  | .outOfFuel => []

/-- The bytes of a decoded text; one that was not written has no value. -/
abbrev Decoded := List (Option UInt8)

def toBytes (data : StdString) : Answered Decoded :=
  match Base64.toBytes data with
  | .ok bytes => .ok bytes
  | .error e => fail (what e)

/-! ### Properties and arguments -/

abbrev Properties := List (StdString × JsonValue)

/-- `get_property`: a null pointer if there is none of the name. -/
def getProperty (properties : Properties) (name : StdString) : JsonValue :=
  match properties.find? fun property => property.1 = name with
  | some property => property.2
  | none => .null

/-- `get_property` with a string. -/
def getString (properties : Properties) (name : StdString) : Answered (Option StdString) :=
  match getProperty properties name with
  | .null => .ok none
  | .primitive value _ => .ok (some value)
  | _ => fail (text "Invalid property " ++ name ++ text " type: expected string")

/-- `dynamic_pointer_cast<json_primitive>` and the value. -/
def asPrimitive : JsonValue → Option StdString
  | .primitive value _ => some value
  | _ => none

/-- `dynamic_pointer_cast<json_array>` and the items. -/
def asArray : JsonValue → Option (List JsonValue)
  | .array items => some items
  | _ => none

/-- `json_array::get`, which does not look at the size. -/
def argument (args : List JsonValue) (index : Nat) : Answered JsonValue :=
  match args[index]? with
  | some arg => .ok arg
  | none => .error .undefined

/-- The array `params`, of a size that the method takes. -/
def params (request : Properties) (sizeTaken : Nat → Bool) (what : StdString) :
    Answered (List JsonValue) :=
  match asArray (getProperty request (text "params")) with
  | some args => if sizeTaken args.length then .ok args else fail what
  | none => fail what

/-- An argument that is a string or a number. -/
def primitiveArgument (args : List JsonValue) (index : Nat) (what : StdString) :
    Answered StdString := do
  let arg ← argument args index
  match asPrimitive arg with
  | some value => .ok value
  | none => fail what

/-! ### Numbers -/

/-- `std::to_string` of an unsigned number. -/
def decimal (n : Nat) : StdString :=
  if n = 0 then [0x30] else ((Nat.digits 10 n).map fun d => UInt8.ofNat (0x30 + d)).reverse

/-- `std::to_string` of a signed number. -/
def signedDecimal (n : Int) : StdString := if n < 0 then 0x2D :: decimal n.natAbs else decimal n.toNat

/-- The digits at the front of a text, after `n`. -/
def digitsFrom (n : Nat) : StdString → Nat
  | [] => n
  | ch :: s => if isDigit ch then digitsFrom (n * 10 + (ch.toNat - 0x30)) s else n

/-- The number that `strtol` reads, after the space. -/
def signedFrom : StdString → Int
  | ch :: s => if ch = 0x2D then -digitsFrom 0 s else if ch = 0x2B then digitsFrom 0 s
    else digitsFrom 0 (ch :: s)
  | [] => 0

def number (s : StdString) : Int := signedFrom (s.dropWhile isSpace)

def atoi (s : StdString) : Answered Int :=
  if -2 ^ 31 ≤ number s ∧ number s < 2 ^ 31 then .ok (number s) else .error .undefined

def atoll (s : StdString) : Answered Int :=
  if -2 ^ 63 ≤ number s ∧ number s < 2 ^ 63 then .ok (number s) else .error .undefined

/-- A number that is passed as an `uint64_t`. -/
def toUInt64 (n : Int) : Nat := (n % 2 ^ 64).toNat

def toUInt32 (n : Int) : Nat := (n % 2 ^ 32).toNat

/-- `add_property` with a number. -/
def numberValue (n : Int) : JsonValue := .primitive (decimal (toUInt64 n)) .string

/-- `get_property` with an `int`. -/
def getInt (properties : Properties) (name : StdString) : Answered (Option Int) := do
  match ← getString properties name with
  | none => .ok none
  | some value => do
    let n ← atoi value
    .ok (some n)

/-! ### A number is read as it was written -/

theorem digit_byte {d : Nat} (h : d < 10) :
    isDigit (UInt8.ofNat (0x30 + d)) ∧ (UInt8.ofNat (0x30 + d)).toNat - 0x30 = d := by
  have hall : ∀ d : Fin 10,
      isDigit (UInt8.ofNat (0x30 + d)) ∧ (UInt8.ofNat (0x30 + d.1)).toNat - 0x30 = d := by decide
  exact hall ⟨d, h⟩

theorem digitsFrom_append {digits : StdString} (h : ∀ ch ∈ digits, isDigit ch) (n : Nat)
    (s : StdString) : digitsFrom n (digits ++ s) = digitsFrom (digitsFrom n digits) s := by
  induction digits generalizing n with
  | nil => rfl
  | cons ch digits ih =>
    rw [List.cons_append, digitsFrom, digitsFrom, if_pos (h ch (List.mem_cons_self ..)),
      if_pos (h ch (List.mem_cons_self ..))]
    exact ih (fun c hc => h c (List.mem_cons_of_mem _ hc)) _

theorem isDigit_reverse {ds : List Nat} (h : ∀ d ∈ ds, d < 10) :
    ∀ ch ∈ (ds.map fun d => UInt8.ofNat (0x30 + d)).reverse, isDigit ch := by
  intro ch hch
  obtain ⟨d, hd, rfl⟩ := List.mem_map.1 (List.mem_reverse.1 hch)
  exact (digit_byte (h d hd)).1

theorem digitsFrom_reverse {ds : List Nat} (h : ∀ d ∈ ds, d < 10) :
    digitsFrom 0 (ds.map fun d => UInt8.ofNat (0x30 + d)).reverse = Nat.ofDigits 10 ds := by
  induction ds with
  | nil => rfl
  | cons d ds ih =>
    have hds : ∀ d ∈ ds, d < 10 := fun d hd => h d (List.mem_cons_of_mem _ hd)
    obtain ⟨hdigit, hvalue⟩ := digit_byte (h d (List.mem_cons_self ..))
    rw [List.map_cons, List.reverse_cons, digitsFrom_append (isDigit_reverse hds), ih hds,
      digitsFrom, if_pos hdigit, hvalue, digitsFrom, Nat.ofDigits_cons, Nat.mul_comm, Nat.add_comm]

theorem isDigit_decimal (n : Nat) : ∀ ch ∈ decimal n, isDigit ch := by
  rw [decimal]
  split_ifs with hzero
  · intro ch hch
    rw [List.mem_singleton.1 hch]
    rfl
  · exact isDigit_reverse fun d hd => Nat.digits_lt_base (by decide) hd

theorem decimal_ne_nil (n : Nat) : decimal n ≠ [] := by
  rw [decimal]
  split_ifs with hzero
  · exact List.cons_ne_nil _ _
  · rw [ne_eq, List.reverse_eq_nil_iff, List.map_eq_nil_iff, Nat.digits_eq_nil_iff_eq_zero]
    exact hzero

theorem digitsFrom_decimal (n : Nat) : digitsFrom 0 (decimal n) = n := by
  rw [decimal]
  split_ifs with hzero
  · rw [hzero]
    decide
  · rw [digitsFrom_reverse fun d hd => Nat.digits_lt_base (by decide) hd, Nat.ofDigits_digits]

/-- A digit is no space and no sign. -/
theorem isDigit_ne {ch : UInt8} (h : isDigit ch) : isSpace ch = false ∧ ch ≠ 0x2D ∧ ch ≠ 0x2B := by
  have hall : ∀ ch : UInt8, isDigit ch = true →
      isSpace ch = false ∧ ch ≠ 0x2D ∧ ch ≠ 0x2B := Library.forall_byte (by decide +kernel)
  exact hall ch h

theorem number_decimal (n : Nat) : number (decimal n) = n := by
  obtain ⟨ch, s, hs⟩ := List.exists_cons_of_ne_nil (decimal_ne_nil n)
  obtain ⟨hspace, hminus, hplus⟩ := isDigit_ne (isDigit_decimal n ch (by rw [hs]; exact List.mem_cons_self ..))
  have hvalue := digitsFrom_decimal n
  rw [hs] at hvalue
  rw [number, hs, List.dropWhile_cons_of_neg (by rw [hspace]; decide), signedFrom, if_neg hminus,
    if_neg hplus, hvalue]

theorem number_signedDecimal (n : Int) : number (signedDecimal n) = n := by
  rw [signedDecimal]
  split_ifs with hneg
  · rw [number, List.dropWhile_cons_of_neg (by decide), signedFrom, if_pos rfl, digitsFrom_decimal]
    omega
  · rw [number_decimal]
    omega

end Vds.WsApi
