import Vds.Kernel.Json
import Vds.Library.StateError

/-! `json_parser` with the objects it points to: the two stacks, the casts of the current object
and what stands complete when the parser has finished. -/

namespace Vds.JsonPointers

open JsonParser (State Options)

abbrev Pointer := Nat

/-- The states of a symbol behind `\u` are counted from zero. -/
scoped instance neZeroDigits : NeZero (4 : Nat) := ⟨by decide⟩

/-- A `json_value` that a shared pointer leads to. -/
inductive Cell
  | object (properties : List Pointer)
  | property (name : StdString) (value : Option Pointer)
  | array (items : List Pointer)
  | primitive (value : StdString) (type : PrimitiveType)
  deriving DecidableEq, Repr

structure PointerParser where
  streamName : StdString
  options : Options
  state : State
  savedStates : List State
  /-- The values made so far. -/
  heap : List Cell
  rootObject : Option Pointer
  currentPath : List (Option Pointer)
  currentObject : Option Pointer
  /-- What `result_` has been called with. -/
  results : List (Option Pointer)
  line : Int
  column : Int
  buffer : StdString
  numBuffer : UInt32
  deriving DecidableEq, Repr

/-- The state of the parser survives an error. -/
abbrev Action := EStateM JsonError PointerParser

def create (streamName : StdString) (options : Options) : PointerParser where
  streamName
  options
  state := .bof
  savedStates := []
  heap := []
  rootObject := none
  currentPath := []
  currentObject := none
  results := []
  line := 1
  column := 1
  buffer := []
  numBuffer := 0

def fail (message : String) (symbol : Option UInt8) : Action Unit := do
  let p ← get
  throw (.parseError p.streamName p.line p.column message symbol)

def unexpectedChar (symbol : UInt8) : Action Unit := fail "Unexpected char " (some symbol)

def goTo (state : State) : Action Unit := modify fun p => { p with state := state }

/-- `saved_states_.push`. -/
def pushState (state : State) : Action Unit :=
  modify fun p => { p with savedStates := state :: p.savedStates }

/-- `state_ = saved_states_.top()` and `saved_states_.pop()`. -/
def popState : Action Unit := do
  let p ← get
  match p.savedStates with
  | state :: states => set { p with state := state, savedStates := states }
  | [] => throw .undefined

/-- `current_path_.push(current_object_)`. -/
def pushPath : Action Unit :=
  modify fun p => { p with currentPath := p.currentObject :: p.currentPath }

/-- `current_object_ = current_path_.top()` and `current_path_.pop()`. -/
def popPath : Action Unit := do
  let p ← get
  match p.currentPath with
  | top :: path => set { p with currentObject := top, currentPath := path }
  | [] => throw .undefined

/-- `std::make_shared`. -/
def make (cell : Cell) : Action Pointer := do
  let p ← get
  set { p with heap := p.heap ++ [cell] }
  return p.heap.length

/-- The current object after a `static_pointer_cast`: `update` says what a cell of the right
class becomes. -/
def castCurrent (update : Cell → Option Cell) : Action Unit := do
  let p ← get
  match p.currentObject with
  | none => throw .undefined
  | some c =>
    match p.heap[c]?.bind update with
    | some cell => set { p with heap := p.heap.set c cell }
    | none => throw .undefined

/-- `json_array::add`. -/
def arrayAdd (item : Pointer) : Action Unit :=
  castCurrent fun
    | .array items => some (.array (items ++ [item]))
    | _ => none

/-- `json_object::add_property`. -/
def addProperty (property : Pointer) : Action Unit :=
  castCurrent fun
    | .object properties => some (.object (properties ++ [property]))
    | _ => none

/-- `json_property::value`. -/
def setValue (value : Pointer) : Action Unit :=
  castCurrent fun
    | .property name _ => some (.property name (some value))
    | _ => none

/-- The switch of `start_array` and `start_object`. -/
def linkNew (newObject : Pointer) : Action Unit := do
  let p ← get
  match p.state with
  | .objectPropertyValue => setValue newObject
  | .bof => pushState .bof
  | .array => do
    arrayAdd newObject
    pushState .arrayItem
    pushPath
  | _ => fail "Unexpected state" none

/-- `start_array` and `start_object` differ in the new object and the state after it. -/
def startContainer (cell : Cell) (state : State) : Action Unit := do
  let newObject ← make cell
  linkNew newObject
  modify fun p => { p with currentObject := some newObject, state := state }

def startArray : Action Unit := startContainer (.array []) .array

def startObject : Action Unit := startContainer (.object []) .object

/-- `root_object_ = current_object_`. -/
def setRoot : Action Unit := modify fun p => { p with rootObject := p.currentObject }

def afterSlesh : Action Unit := do
  let p ← get
  if p.options.enableInlineComments then do
    pushState p.state
    goTo .afterSlesh
  else fail "Unexpected char /" none

def clearBuffer : Action Unit := modify fun p => { p with buffer := [] }

def startProperty : Action Unit := do
  let p ← get
  let newProperty ← make (.property p.buffer none)
  addProperty newProperty
  pushPath
  modify fun p => { p with currentObject := some newProperty, buffer := [] }

/-- `final_string_property` and `final_integer_property`. -/
def finalProperty (type : PrimitiveType) : Action Unit := do
  let p ← get
  let value ← make (.primitive p.buffer type)
  setValue value
  popPath
  clearBuffer

/-- A primitive made of the buffer becomes an item of the current array. -/
def finalItem (type : PrimitiveType) : Action Unit := do
  let p ← get
  let value ← make (.primitive p.buffer type)
  arrayAdd value
  clearBuffer

def append (byte : UInt8) : Action Unit :=
  modify fun p => { p with buffer := p.buffer ++ [byte] }

/-- `line_` and `column_` after a symbol. -/
def advance (symbol : UInt8) : Action Unit :=
  modify fun p =>
    if symbol = ascii '\n' then { p with line := p.line + 1, column := 1 }
    else if symbol = ascii '\t' then { p with column := 1 + (p.column + 7) / 8 * 8 }
    else { p with column := p.column + 1 }

/-- White space is skipped; nothing else is expected. -/
def skipSpace (symbol : UInt8) : Action Unit :=
  if isSpace symbol then pure () else unexpectedChar symbol

section

-- `result_` answers with nothing or with an error.
variable (result : PointerParser → Option String)

/-- `final_array` and `final_object`. -/
def finalContainer : Action Unit := do
  popState
  let p ← get
  if p.state = .bof then do
    modify fun p => { p with
      state := if p.options.enableMultiRootObjects then p.state else .eof
      results := p.results ++ [p.rootObject] }
    let p ← get
    match result p with
    | none => pure ()
    | some what => throw (.runtimeError what)
  else popPath

def bofSymbol (symbol : UInt8) : Action Unit :=
  if symbol = ascii '/' then afterSlesh
  else if symbol = ascii '[' then do
    startArray
    setRoot
  else if symbol = ascii '{' then do
    startObject
    setRoot
  else skipSpace symbol

def arraySymbol (symbol : UInt8) : Action Unit :=
  if symbol = ascii ']' then finalContainer result
  else if symbol = ascii '[' then startArray
  else if symbol = ascii '{' then startObject
  else if symbol = ascii '/' then afterSlesh
  else if symbol = quote then do
    pushState .arrayItem
    goTo .string
  else if isDigit symbol then do
    modify fun p => { p with buffer := [symbol] }
    pushState .arrayItem
    goTo .number
  else skipSpace symbol

def arrayItemSymbol (symbol : UInt8) : Action Unit :=
  if symbol = ascii ']' then finalContainer result
  else if symbol = ascii ',' then goTo .array
  else skipSpace symbol

def objectSymbol (symbol : UInt8) : Action Unit :=
  if symbol = quote then do
    pushState .objectItem
    pushState .objectPropertyName
    goTo .string
  else if symbol = ascii '}' then finalContainer result
  else skipSpace symbol

def objectItemSymbol (symbol : UInt8) : Action Unit :=
  if symbol = ascii '}' then finalContainer result
  else if symbol = ascii ',' then goTo .object
  else skipSpace symbol

def stringSymbol (symbol : UInt8) : Action Unit :=
  if symbol = backslash then goTo .stringBackslesh
  else if symbol = quote then do
    popState
    let p ← get
    match p.state with
    | .objectPropertyName => startProperty
    | .objectItem => finalProperty .string
    | .arrayItem => finalItem .string
    | _ => unexpectedChar symbol
  else append symbol

def stringBacksleshSymbol (symbol : UInt8) : Action Unit :=
  let appendIt (byte : UInt8) : Action Unit := do
    append byte
    goTo .string
  if symbol = quote then appendIt symbol
  else if symbol = backslash then appendIt symbol
  else if symbol = ascii 'n' then appendIt 0x0A
  else if symbol = ascii 'r' then appendIt 0x0D
  else if symbol = ascii 'b' then appendIt 0x08
  else if symbol = ascii 't' then appendIt 0x09
  else if symbol = ascii 'f' then appendIt 0x0C
  else if symbol = ascii 'u' then goTo (.stringSymbol 0)
  else unexpectedChar symbol

/-- All but the first digit shift the number before they are looked at. -/
def shiftNumber (index : Fin 4) : Action Unit :=
  if index = 0 then pure () else modify fun p => { p with numBuffer := p.numBuffer <<< 4 }

/-- `ST_STRING_SYMBOL_1` to `ST_STRING_SYMBOL_4`. -/
def hexSymbol (index : Fin 4) (symbol : UInt8) : Action Unit := do
  shiftNumber index
  match JsonParser.hexValue symbol with
  | none => unexpectedChar symbol
  | some digit =>
    if index = 0 then
      modify fun p => { p with numBuffer := digit, state := .stringSymbol 1 }
    else if index = 3 then do
      modify fun p => { p with numBuffer := p.numBuffer ||| digit, state := .string }
      let p ← get
      match Utf8.add p.buffer p.numBuffer with
      | .ok buffer => modify fun p => { p with buffer := buffer }
      | .error _ => throw (.runtimeError "Invalid UTF16 string")
    else
      modify fun p => { p with
        numBuffer := p.numBuffer ||| digit
        state := .stringSymbol (index + 1) }

def propertyNameSymbol (symbol : UInt8) : Action Unit :=
  if symbol = ascii ':' then goTo .objectPropertyValue else skipSpace symbol

def propertyValueSymbol (symbol : UInt8) : Action Unit :=
  if symbol = quote then goTo .string
  else if symbol = ascii '{' then startObject
  else if symbol = ascii '[' then startArray
  else if symbol = ascii '+' ∨ symbol = ascii '-' ∨ isDigit symbol then do
    goTo .number
    append symbol
  else skipSpace symbol

/-- The switch over the states other than `ST_NUMBER`. -/
def symbolIn (symbol : UInt8) : Action Unit := do
  let p ← get
  match p.state with
  | .bof => bofSymbol symbol
  | .afterSlesh => if symbol = ascii '/' then goTo .inlineComment else unexpectedChar symbol
  | .inlineComment => if symbol = ascii '\n' then popState else pure ()
  | .array => arraySymbol result symbol
  | .arrayItem => arrayItemSymbol result symbol
  | .object => objectSymbol result symbol
  | .objectItem => objectItemSymbol result symbol
  | .string => stringSymbol symbol
  | .stringBackslesh => stringBacksleshSymbol symbol
  | .stringSymbol index => hexSymbol index symbol
  | .objectPropertyName => propertyNameSymbol symbol
  | .objectPropertyValue => propertyValueSymbol symbol
  | .number => unexpectedChar symbol
  | .eof => unexpectedChar symbol

/-- The end of a number is found at the symbol behind it, and the loop steps back. -/
def numberEnd (symbol : UInt8) : Action Unit := do
  popState
  let p ← get
  (match p.state with
    | .objectItem => finalProperty .integer
    | .arrayItem => finalItem .integer
    | _ => unexpectedChar symbol)
  modify fun p =>
    if symbol = ascii '\n' then { p with line := p.line - 1 }
    else { p with column := p.column - 1 }

/-- One turn of the loop of `write`, with the turn that reads the symbol behind a number again. -/
def symbol (symbol : UInt8) : Action Unit := do
  advance symbol
  let p ← get
  if p.state = .number then
    if isDigit symbol ∨ symbol = ascii '.' then append symbol
    else do
      numberEnd symbol
      advance symbol
      symbolIn result symbol
  else symbolIn result symbol

def finalData : Action Unit := do
  let p ← get
  match p.state with
  | .eof => pure ()
  | .bof =>
    if p.options.enableMultiRootObjects then pure () else fail "Unexpected end of data" none
  | _ => fail "Unexpected end of data" none

def write (inputBuffer : ConstDataBuffer) : Action Unit :=
  if inputBuffer.isEmpty then finalData else inputBuffer.forM (symbol result)

end

/-! ### Complete values and the open ones around the current object -/

/-- What a stretch of the heap holds. -/
inductive Part
  | value (value : JsonValue)
  | properties (cells : List Nat) (properties : List (StdString × JsonValue))
  | items (cells : List Nat) (items : List JsonValue)

/-- The cells from `lo` up to `hi` are the tree of a complete value, or those of a row of them. -/
inductive Reads (heap : List Cell) : Part → Nat → Nat → Prop
  | primitive {lo value type} (h : heap[lo]? = some (.primitive value type)) :
      Reads heap (.value (.primitive value type)) lo (lo + 1)
  | object {lo hi cells properties} (h : heap[lo]? = some (.object cells)) :
      Reads heap (.properties cells properties) (lo + 1) hi →
        Reads heap (.value (.object properties)) lo hi
  | array {lo hi cells items} (h : heap[lo]? = some (.array cells)) :
      Reads heap (.items cells items) (lo + 1) hi → Reads heap (.value (.array items)) lo hi
  | noProperties (lo) : Reads heap (.properties [] []) lo lo
  | property {lo mid hi cells properties name value} :
      Reads heap (.properties cells properties) lo mid →
        heap[mid]? = some (.property name (some (mid + 1))) →
        Reads heap (.value value) (mid + 1) hi →
        Reads heap (.properties (cells ++ [mid]) (properties ++ [(name, value)])) lo hi
  | noItems (lo) : Reads heap (.items [] []) lo lo
  | item {lo mid hi cells items value} :
      Reads heap (.items cells items) lo mid → Reads heap (.value value) mid hi →
        Reads heap (.items (cells ++ [mid]) (items ++ [value])) lo hi

/-- The containers around the one at `c`: the states saved for them and the path to them. -/
inductive Open (heap : List Cell) (root : Nat) :
    Nat → List State → List (Option Nat) → Prop
  | root : Open heap root root [.bof] []
  | item {a c saved path cells items} : Open heap root a saved path →
      heap[a]? = some (.array (cells ++ [c])) → Reads heap (.items cells items) (a + 1) c →
        Open heap root c (.arrayItem :: saved) (some a :: path)
  | value {o p saved path cells properties name} : Open heap root o saved path →
      heap[o]? = some (.object (cells ++ [p])) →
        Reads heap (.properties cells properties) (o + 1) p →
        heap[p]? = some (.property name (some (p + 1))) →
        Open heap root (p + 1) (.objectItem :: saved) (some o :: path)

/-- The heap has changed from `bound` on only. -/
def AgreeBelow (heap heap' : List Cell) (bound : Nat) : Prop :=
  ∀ i < bound, heap'[i]? = heap[i]?

theorem AgreeBelow.mono {heap heap' : List Cell} {bound bound' : Nat}
    (h : AgreeBelow heap heap' bound) (hle : bound' ≤ bound) : AgreeBelow heap heap' bound' :=
  fun i hi => h i (by omega)

theorem Reads.le {heap : List Cell} {part : Part} {lo hi : Nat} (h : Reads heap part lo hi) :
    lo ≤ hi := by
  induction h <;> omega

/-- A stretch of the heap in which nothing has changed. -/
theorem Reads.frame {heap heap' : List Cell} {part : Part} {lo hi : Nat}
    (h : Reads heap part lo hi) (hagree : ∀ i, lo ≤ i → i < hi → heap'[i]? = heap[i]?) :
    Reads heap' part lo hi := by
  induction h with
  | primitive h => exact .primitive (by rw [hagree _ le_rfl (by omega), h])
  | object h hproperties ih =>
    have hle := hproperties.le
    exact .object (by rw [hagree _ le_rfl (by omega), h])
      (ih fun i hlo hhi => hagree i (by omega) hhi)
  | array h hitems ih =>
    have hle := hitems.le
    exact .array (by rw [hagree _ le_rfl (by omega), h])
      (ih fun i hlo hhi => hagree i (by omega) hhi)
  | noProperties lo => exact .noProperties lo
  | property hproperties hname hvalue ihProperties ihValue =>
    have hle := hvalue.le
    have hle' := hproperties.le
    exact .property (ihProperties fun i hlo hhi => hagree i hlo (by omega))
      (by rw [hagree _ (by omega) (by omega), hname])
      (ihValue fun i hlo hhi => hagree i (by omega) hhi)
  | noItems lo => exact .noItems lo
  | item hitems hvalue ihItems ihValue =>
    have hle := hvalue.le
    have hle' := hitems.le
    exact .item (ihItems fun i hlo hhi => hagree i hlo (by omega))
      (ihValue fun i hlo hhi => hagree i (by omega) hhi)

theorem Reads.congr {heap heap' : List Cell} {part : Part} {lo hi : Nat}
    (h : Reads heap part lo hi) (hagree : AgreeBelow heap heap' hi) : Reads heap' part lo hi :=
  h.frame fun i _ hhi => hagree i hhi

theorem Open.le {heap : List Cell} {root c : Nat} {saved : List State}
    {path : List (Option Nat)} (h : Open heap root c saved path) : root ≤ c := by
  induction h with
  | root => exact le_rfl
  | item _ _ hitems ih =>
    have hle := hitems.le
    omega
  | value _ _ hproperties _ ih =>
    have hle := hproperties.le
    omega

/-- The containers around an object stand in front of it. -/
theorem Open.congr {heap heap' : List Cell} {root c : Nat} {saved : List State}
    {path : List (Option Nat)} (h : Open heap root c saved path)
    (hagree : AgreeBelow heap heap' c) : Open heap' root c saved path := by
  induction h with
  | root => exact .root
  | item _ harray hitems ih =>
    have hle := hitems.le
    exact .item (ih (hagree.mono (by omega))) (by rw [hagree _ (by omega), harray])
      (hitems.congr hagree)
  | value _ hobject hproperties hname ih =>
    have hle := hproperties.le
    exact .value (ih (hagree.mono (by omega))) (by rw [hagree _ (by omega), hobject])
      (hproperties.congr (hagree.mono (by omega))) (by rw [hagree _ (by omega), hname])

section

variable (heap : List Cell) (root : Nat) (current : Option Nat) (saved : List State)
  (path : List (Option Nat))

/-- The current object is an array whose items are complete. -/
def ArrayOpen : Prop :=
  ∃ c cells items, current = some c ∧ Open heap root c saved path ∧
    heap[c]? = some (.array cells) ∧ Reads heap (.items cells items) (c + 1) heap.length

/-- The current object is an object whose properties are complete. -/
def ObjectOpen : Prop :=
  ∃ c cells properties, current = some c ∧ Open heap root c saved path ∧
    heap[c]? = some (.object cells) ∧
    Reads heap (.properties cells properties) (c + 1) heap.length

/-- The current object is the last property of the object on top of the path, and has no value
yet. -/
def PropertyOpen : Prop :=
  ∃ o p cells properties name outer around, current = some p ∧
    saved = .objectItem :: outer ∧ path = some o :: around ∧ Open heap root o outer around ∧
    heap[o]? = some (.object (cells ++ [p])) ∧
    Reads heap (.properties cells properties) (o + 1) p ∧
    heap[p]? = some (.property name none) ∧ heap.length = p + 1

end

/-- A new cell, and another content of the one that points to it. -/
def link (heap : List Cell) (i : Nat) (cell new : Cell) : List Cell := (heap ++ [new]).set i cell

section Link

variable {heap : List Cell} {i : Nat} {cell new : Cell}

@[simp] theorem link_length : (link heap i cell new).length = heap.length + 1 := by
  simp [link]

theorem lt_of_cell {c : Nat} (h : heap[c]? = some cell) : c < heap.length := by
  by_contra hge
  rw [List.getElem?_eq_none (by omega)] at h
  cases h

theorem link_owner (h : i < heap.length) : (link heap i cell new)[i]? = some cell := by
  rw [link, List.getElem?_set_self]
  simp only [List.length_append, List.length_cons, List.length_nil]
  omega

theorem link_new (h : i < heap.length) : (link heap i cell new)[heap.length]? = some new := by
  rw [link, List.getElem?_set_ne (by omega), List.getElem?_append_right le_rfl, Nat.sub_self]
  rfl

theorem link_other {j : Nat} (h : j < heap.length) (hne : j ≠ i) :
    (link heap i cell new)[j]? = heap[j]? := by
  rw [link, List.getElem?_set_ne (Ne.symm hne), List.getElem?_append_left h]

theorem link_agree (h : i ≤ heap.length) : AgreeBelow heap (link heap i cell new) i :=
  fun _ hj => link_other (by omega) (by omega)

end Link

section Steps

variable {heap : List Cell} {root c : Nat} {saved : List State} {path : List (Option Nat)}

theorem reads_link {part : Part} {lo i : Nat} {cell new : Cell}
    (h : Reads heap part lo heap.length) (hi : i < lo) :
    Reads (link heap i cell new) part lo heap.length :=
  h.frame fun j hlo hhi => link_other hhi (by omega)

/-- A primitive becomes the last item of the current array. -/
theorem arrayOpen_add {cells : List Nat} {items : List JsonValue} (value : StdString)
    (type : PrimitiveType) (hopen : Open heap root c saved path)
    (harray : heap[c]? = some (.array cells))
    (hitems : Reads heap (.items cells items) (c + 1) heap.length) :
    ArrayOpen (link heap c (.array (cells ++ [heap.length])) (.primitive value type)) root
      (some c) saved path := by
  have hc := lt_of_cell harray
  refine ⟨c, _, items ++ [.primitive value type], rfl, hopen.congr (link_agree (by omega)),
    link_owner hc, ?_⟩
  rw [link_length]
  exact .item (reads_link hitems (by omega)) (.primitive (link_new hc))

/-- A container becomes the last item of the current array, and the current object. -/
theorem open_item {cells : List Nat} {items : List JsonValue} (new : Cell)
    (hopen : Open heap root c saved path) (harray : heap[c]? = some (.array cells))
    (hitems : Reads heap (.items cells items) (c + 1) heap.length) :
    Open (link heap c (.array (cells ++ [heap.length])) new) root heap.length
      (.arrayItem :: saved) (some c :: path) := by
  have hc := lt_of_cell harray
  exact .item (hopen.congr (link_agree (by omega))) (link_owner hc)
    (reads_link hitems (by omega))

/-- A property without a value becomes the last one of the current object. -/
theorem propertyOpen_start {cells : List Nat} {properties : List (StdString × JsonValue)}
    (name : StdString) (hopen : Open heap root c saved path)
    (hobject : heap[c]? = some (.object cells))
    (hproperties : Reads heap (.properties cells properties) (c + 1) heap.length) :
    PropertyOpen (link heap c (.object (cells ++ [heap.length])) (.property name none)) root
      (some heap.length) (.objectItem :: saved) (some c :: path) := by
  have hc := lt_of_cell hobject
  exact ⟨c, heap.length, cells, properties, name, saved, path, rfl, rfl, rfl,
    hopen.congr (link_agree (by omega)), link_owner hc, reads_link hproperties (by omega),
    link_new hc, link_length⟩

/-- A primitive becomes the value of the current property, and the object around it the current
object. -/
theorem objectOpen_value {o p : Nat} {cells : List Nat}
    {properties : List (StdString × JsonValue)} {name : StdString} (value : StdString)
    (type : PrimitiveType) (hopen : Open heap root o saved path)
    (hobject : heap[o]? = some (.object (cells ++ [p])))
    (hproperties : Reads heap (.properties cells properties) (o + 1) p)
    (hlength : heap.length = p + 1) :
    ObjectOpen (link heap p (.property name (some heap.length)) (.primitive value type)) root
      (some o) saved path := by
  have hle := hproperties.le
  have hagree := @link_agree heap p (.property name (some heap.length)) (.primitive value type)
    (by omega)
  have hname := @link_owner heap p (.property name (some heap.length)) (.primitive value type)
    (by omega)
  have hnew := @link_new heap p (.property name (some heap.length)) (.primitive value type)
    (by omega)
  rw [hlength] at hname hnew hagree ⊢
  refine ⟨o, cells ++ [p], properties ++ [(name, .primitive value type)], rfl,
    hopen.congr (hagree.mono (by omega)), ?_, ?_⟩
  · rw [hagree o (by omega), hobject]
  · rw [link_length, hlength]
    exact .property (hproperties.congr hagree) hname (.primitive hnew)

/-- A container becomes the value of the current property, and the current object. -/
theorem open_value {o p : Nat} {cells : List Nat} {properties : List (StdString × JsonValue)}
    {name : StdString} (new : Cell) (hopen : Open heap root o saved path)
    (hobject : heap[o]? = some (.object (cells ++ [p])))
    (hproperties : Reads heap (.properties cells properties) (o + 1) p)
    (hlength : heap.length = p + 1) :
    Open (link heap p (.property name (some heap.length)) new) root heap.length
      (.objectItem :: saved) (some o :: path) := by
  have hle := hproperties.le
  have hagree := @link_agree heap p (.property name (some heap.length)) new (by omega)
  have hname := @link_owner heap p (.property name (some heap.length)) new (by omega)
  rw [hlength] at hname ⊢
  rw [hlength] at hagree
  exact .value (hopen.congr (hagree.mono (by omega))) (by rw [hagree o (by omega), hobject])
    (hproperties.congr hagree) hname

/-- A complete container goes to the one around it, which is the current object of the state
that has been saved. -/
theorem open_close {value : JsonValue} (hopen : Open heap root c saved path)
    (hvalue : Reads heap (.value value) c heap.length) :
    (saved = [.bof] ∧ path = [] ∧ c = root) ∨
      (∃ a outer around, saved = .arrayItem :: outer ∧ path = some a :: around ∧
        ArrayOpen heap root (some a) outer around) ∨
      ∃ o outer around, saved = .objectItem :: outer ∧ path = some o :: around ∧
        ObjectOpen heap root (some o) outer around := by
  cases hopen with
  | root => exact Or.inl ⟨rfl, rfl, rfl⟩
  | item hopen harray hitems =>
    exact Or.inr (Or.inl ⟨_, _, _, rfl, rfl, _, _, _, rfl, hopen, harray, .item hitems hvalue⟩)
  | value hopen hobject hproperties hname =>
    exact Or.inr (Or.inr ⟨_, _, _, rfl, rfl, _, _, _, rfl, hopen, hobject,
      .property hproperties hname hvalue⟩)

end Steps

/-! ### The invariant -/

namespace PointerParser

section

variable (p : PointerParser) (root : Nat) (saved : List State)

def InArray : Prop :=
  p.rootObject = some root ∧ ArrayOpen p.heap root p.currentObject saved p.currentPath

def InObject : Prop :=
  p.rootObject = some root ∧ ObjectOpen p.heap root p.currentObject saved p.currentPath

def InProperty : Prop :=
  p.rootObject = some root ∧ PropertyOpen p.heap root p.currentObject saved p.currentPath

/-- Outside of every value. -/
def Outside : Prop := saved = [] ∧ p.currentPath = []

/-- A string is the name of a property, its value or an item. -/
def InString : Prop :=
  (∃ outer, saved = .arrayItem :: outer ∧ p.InArray root outer) ∨ p.InProperty root saved ∨
    ∃ outer, saved = .objectPropertyName :: .objectItem :: outer ∧ p.InObject root outer

def InNumber : Prop :=
  (∃ outer, saved = .arrayItem :: outer ∧ p.InArray root outer) ∨ p.InProperty root saved

/-- A comment stands before a root value or before an item. -/
def InComment : Prop :=
  (∃ outer, saved = .bof :: outer ∧ p.Outside outer) ∨
    ∃ outer, saved = .array :: outer ∧ p.InArray root outer

/-- What a state assumes of the stacks and of the current object. -/
def Place : State → Prop
  | .bof => p.Outside saved
  | .eof => p.Outside saved
  | .array => p.InArray root saved
  | .arrayItem => p.InArray root saved
  | .object => p.InObject root saved
  | .objectItem => p.InObject root saved
  | .objectPropertyName => p.InProperty root saved
  | .objectPropertyValue => p.InProperty root saved
  | .string => p.InString root saved
  | .stringBackslesh => p.InString root saved
  | .stringSymbol _ => p.InString root saved
  | .number => p.InNumber root saved
  | .afterSlesh => p.InComment root saved
  | .inlineComment => p.InComment root saved

/-- The values that `result_` has got are complete and end before the current root object. -/
def Delivered : Prop :=
  ∀ r ∈ p.results, ∃ lo hi value, r = some lo ∧ Reads p.heap (.value value) lo hi ∧ hi ≤ root

/-- There is one root value, and the end is reached when it has been delivered. -/
def Counted : Prop :=
  if p.options.enableMultiRootObjects then p.state ≠ .eof
  else p.results.length = if p.state = .eof then 1 else 0

end

def Consistent (p : PointerParser) : Prop :=
  ∃ root ≤ p.heap.length, p.Place root p.savedStates p.state ∧ p.Delivered root ∧ p.Counted

end PointerParser

open StateError

/-! ### What the operations do from a consistent state -/

/-- From `P`, the action ends in a consistent state, and an error is one that the code reports. -/
def Safe (P : PointerParser → Prop) (x : Action Unit) : Prop :=
  Triple P x (fun _ => PointerParser.Consistent) fun e p => p.Consistent ∧ e ≠ .undefined

theorem Safe.of_run {P : PointerParser → Prop} {x : Action Unit}
    (h : ∀ p, P p → ∃ p', x p = .ok () p' ∧ p'.Consistent) : Safe P x := by
  intro p hp
  obtain ⟨p', hrun, hp'⟩ := h p hp
  rw [hrun]
  exact hp'

theorem Safe.mono {P P' : PointerParser → Prop} {x : Action Unit} (h : Safe P x)
    (hP : ∀ p, P' p → P p) : Safe P' x :=
  h.conseq hP (fun _ _ hQ => hQ) fun _ _ hE => hE

theorem fail_safe (message : String) (symbol : Option UInt8) :
    Safe PointerParser.Consistent (fail message symbol) := by
  intro p hp
  change p.Consistent ∧ JsonError.parseError _ _ _ _ _ ≠ .undefined
  exact ⟨hp, by simp⟩

theorem skipSpace_safe (symbol : UInt8) : Safe PointerParser.Consistent (skipSpace symbol) := by
  rw [skipSpace]
  split
  · exact fun p hp => hp
  · exact fail_safe _ _

theorem castCurrent_run {p : PointerParser} {c : Nat} {cell cell' : Cell}
    {update : Cell → Option Cell} (hcurrent : p.currentObject = some c)
    (hcell : p.heap[c]? = some cell) (hupdate : update cell = some cell') :
    castCurrent update p = .ok () { p with heap := p.heap.set c cell' } := by
  change (match p.currentObject with
    | none => throw .undefined
    | some c =>
      match p.heap[c]?.bind update with
      | some cell => set { p with heap := p.heap.set c cell }
      | none => throw .undefined : Action Unit) p = _
  have hbind : p.heap[c]?.bind update = some cell' := by rw [hcell, Option.bind_some, hupdate]
  rw [hcurrent]
  dsimp only
  rw [hbind]
  rfl

/-- A value is made and then linked to the current object. -/
theorem castCurrent_made {p : PointerParser} {c : Nat} {cell cell' : Cell} (new : Cell)
    {update : Cell → Option Cell} (hcurrent : p.currentObject = some c)
    (hcell : p.heap[c]? = some cell) (hupdate : update cell = some cell') :
    castCurrent update { p with heap := p.heap ++ [new] }
      = .ok () { p with heap := link p.heap c cell' new } := by
  have hmade : (p.heap ++ [new])[c]? = some cell := by
    rw [List.getElem?_append_left (lt_of_cell hcell), hcell]
  exact @castCurrent_run { p with heap := p.heap ++ [new] } c cell cell' update hcurrent hmade
    hupdate

theorem finalItem_run {p : PointerParser} {c : Nat} {cells : List Nat} (type : PrimitiveType)
    (hcurrent : p.currentObject = some c) (harray : p.heap[c]? = some (.array cells)) :
    finalItem type p = .ok () { p with
      heap := link p.heap c (.array (cells ++ [p.heap.length])) (.primitive p.buffer type)
      buffer := [] } := by
  have hadd : arrayAdd p.heap.length { p with heap := p.heap ++ [.primitive p.buffer type] }
      = .ok () { p with
          heap := link p.heap c (.array (cells ++ [p.heap.length])) (.primitive p.buffer type) } :=
    castCurrent_made _ hcurrent harray rfl
  change (arrayAdd p.heap.length >>= fun _ => clearBuffer)
    { p with heap := p.heap ++ [.primitive p.buffer type] } = _
  rw [bind_of_ok hadd]
  rfl

theorem finalProperty_run {p : PointerParser} {c : Nat} {name : StdString} {value : Option Nat}
    {top : Option Nat} {path : List (Option Nat)} (type : PrimitiveType)
    (hcurrent : p.currentObject = some c) (hproperty : p.heap[c]? = some (.property name value))
    (hpath : p.currentPath = top :: path) :
    finalProperty type p = .ok () { p with
      heap := link p.heap c (.property name (some p.heap.length)) (.primitive p.buffer type)
      currentObject := top
      currentPath := path
      buffer := [] } := by
  have hset : setValue p.heap.length { p with heap := p.heap ++ [.primitive p.buffer type] }
      = .ok () { p with
          heap := link p.heap c (.property name (some p.heap.length))
            (.primitive p.buffer type) } :=
    castCurrent_made _ hcurrent hproperty rfl
  have hpop : ∀ heap, popPath { p with heap := heap } = .ok () { p with
      heap := heap
      currentObject := top
      currentPath := path } := by
    intro heap
    change (match p.currentPath with
      | top :: path =>
        set { p with heap := heap, currentObject := top, currentPath := path }
      | [] => throw .undefined : Action Unit) _ = _
    rw [hpath]
    rfl
  change (setValue p.heap.length >>= fun _ => popPath >>= fun _ => clearBuffer)
    { p with heap := p.heap ++ [.primitive p.buffer type] } = _
  rw [bind_of_ok hset, bind_of_ok (hpop _)]
  rfl

theorem startProperty_run {p : PointerParser} {c : Nat} {cells : List Nat}
    (hcurrent : p.currentObject = some c) (hobject : p.heap[c]? = some (.object cells)) :
    startProperty p = .ok () { p with
      heap := link p.heap c (.object (cells ++ [p.heap.length])) (.property p.buffer none)
      currentPath := p.currentObject :: p.currentPath
      currentObject := some p.heap.length
      buffer := [] } := by
  have hadd : addProperty p.heap.length { p with heap := p.heap ++ [.property p.buffer none] }
      = .ok () { p with
          heap := link p.heap c (.object (cells ++ [p.heap.length])) (.property p.buffer none) } :=
    castCurrent_made _ hcurrent hobject rfl
  change (addProperty p.heap.length >>= fun _ => pushPath >>= fun _ =>
    modify fun q => { q with currentObject := some p.heap.length, buffer := [] })
    { p with heap := p.heap ++ [.property p.buffer none] } = _
  rw [bind_of_ok hadd]
  rfl

theorem popState_run {p : PointerParser} {state : State} {states : List State}
    (h : p.savedStates = state :: states) :
    popState p = .ok () { p with state := state, savedStates := states } := by
  change (match p.savedStates with
    | state :: states => set { p with state := state, savedStates := states }
    | [] => throw .undefined : Action Unit) p = _
  rw [h]
  rfl

/-- A container that has just been made, and the state in which it is filled. -/
inductive Fresh : Cell → State → Prop
  | array : Fresh (.array []) .array
  | object : Fresh (.object []) .object

theorem startContainer_run {p q : PointerParser} (cell : Cell) (state : State)
    (hlink : linkNew p.heap.length { p with heap := p.heap ++ [cell] } = .ok () q) :
    startContainer cell state p
      = .ok () { q with currentObject := some p.heap.length, state := state } := by
  change (linkNew p.heap.length >>= fun _ => modify fun q =>
      { q with currentObject := some p.heap.length, state := state })
    { p with heap := p.heap ++ [cell] } = _
  rw [bind_of_ok hlink]
  rfl

theorem linkNew_array {p : PointerParser} {c : Nat} {cells : List Nat} (cell : Cell)
    (hstate : p.state = .array) (hcurrent : p.currentObject = some c)
    (harray : p.heap[c]? = some (.array cells)) :
    linkNew p.heap.length { p with heap := p.heap ++ [cell] } = .ok () { p with
      heap := link p.heap c (.array (cells ++ [p.heap.length])) cell
      savedStates := .arrayItem :: p.savedStates
      currentPath := p.currentObject :: p.currentPath } := by
  have hadd : arrayAdd p.heap.length { p with heap := p.heap ++ [cell] } = .ok () { p with
      heap := link p.heap c (.array (cells ++ [p.heap.length])) cell } :=
    castCurrent_made _ hcurrent harray rfl
  obtain ⟨streamName, options, state, savedStates, heap, rootObject, currentPath, currentObject,
    results, line, column, buffer, numBuffer⟩ := p
  obtain rfl : state = .array := hstate
  change (arrayAdd heap.length >>= fun _ => pushState .arrayItem >>= fun _ => pushPath) _ = _
  rw [bind_of_ok hadd]
  rfl

theorem linkNew_value {p : PointerParser} {c : Nat} {name : StdString} {value : Option Nat}
    (cell : Cell) (hstate : p.state = .objectPropertyValue) (hcurrent : p.currentObject = some c)
    (hproperty : p.heap[c]? = some (.property name value)) :
    linkNew p.heap.length { p with heap := p.heap ++ [cell] } = .ok () { p with
      heap := link p.heap c (.property name (some p.heap.length)) cell } := by
  have hset : setValue p.heap.length { p with heap := p.heap ++ [cell] } = .ok () { p with
      heap := link p.heap c (.property name (some p.heap.length)) cell } :=
    castCurrent_made _ hcurrent hproperty rfl
  obtain ⟨streamName, options, state, savedStates, heap, rootObject, currentPath, currentObject,
    results, line, column, buffer, numBuffer⟩ := p
  obtain rfl : state = .objectPropertyValue := hstate
  exact hset

theorem linkNew_bof {p : PointerParser} (cell : Cell) (hstate : p.state = .bof) :
    linkNew p.heap.length { p with heap := p.heap ++ [cell] } = .ok () { p with
      heap := p.heap ++ [cell]
      savedStates := .bof :: p.savedStates } := by
  obtain ⟨streamName, options, state, savedStates, heap, rootObject, currentPath, currentObject,
    results, line, column, buffer, numBuffer⟩ := p
  obtain rfl : state = .bof := hstate
  rfl

namespace PointerParser

variable {p q : PointerParser} {root : Nat}

theorem Delivered.congr (h : p.Delivered root) (hresults : q.results = p.results)
    (hagree : AgreeBelow p.heap q.heap root) : q.Delivered root := by
  intro r hr
  rw [hresults] at hr
  obtain ⟨lo, hi, value, heq, hreads, hle⟩ := h r hr
  exact ⟨lo, hi, value, heq, hreads.congr (hagree.mono hle), hle⟩

theorem Delivered.mono {root' : Nat} (h : p.Delivered root) (hle : root ≤ root') :
    p.Delivered root' := by
  intro r hr
  obtain ⟨lo, hi, value, heq, hreads, hhi⟩ := h r hr
  exact ⟨lo, hi, value, heq, hreads, by omega⟩

theorem Counted.congr (h : p.Counted) (hoptions : q.options = p.options)
    (hresults : q.results = p.results) (hp : p.state ≠ .eof) (hq : q.state ≠ .eof) :
    q.Counted := by
  rw [Counted, if_neg hp] at h
  rw [Counted, hoptions, hresults, if_neg hq]
  split at h
  · rw [if_pos ‹_›]
    exact hq
  · rw [if_neg ‹_›]
    exact h

/-- A step inside the root value. -/
theorem Consistent.step (hdelivered : p.Delivered root) (hcounted : p.Counted)
    (hplace : q.Place root q.savedStates q.state) (hlength : root ≤ q.heap.length)
    (hagree : AgreeBelow p.heap q.heap root) (hoptions : q.options = p.options)
    (hresults : q.results = p.results) (hp : p.state ≠ .eof) (hq : q.state ≠ .eof) :
    q.Consistent :=
  ⟨root, hlength, hplace, hdelivered.congr hresults hagree,
    hcounted.congr hoptions hresults hp hq⟩

end PointerParser

theorem place_fresh {q : PointerParser} {cell : Cell} {state : State} {root n : Nat}
    {saved : List State} (hfresh : Fresh cell state) (hroot : q.rootObject = some root)
    (hcurrent : q.currentObject = some n) (hopen : Open q.heap root n saved q.currentPath)
    (hcell : q.heap[n]? = some cell) (hlength : q.heap.length = n + 1) :
    q.Place root saved state := by
  cases hfresh with
  | array => exact ⟨hroot, n, [], [], hcurrent, hopen, hcell, hlength ▸ .noItems _⟩
  | object => exact ⟨hroot, n, [], [], hcurrent, hopen, hcell, hlength ▸ .noProperties _⟩

theorem Fresh.ne_eof {cell : Cell} {state : State} (h : Fresh cell state) : state ≠ .eof := by
  cases h <;> exact fun h => (by cases h)

/-- A consistent parser in one of the states. -/
def In (state : State) (p : PointerParser) : Prop := p.Consistent ∧ p.state = state

theorem startContainer_array_safe {cell : Cell} {state : State} (hfresh : Fresh cell state) :
    Safe (In .array) (startContainer cell state) := by
  apply Safe.of_run
  rintro p ⟨⟨root, hlength, hplace, hdelivered, hcounted⟩, hstate⟩
  rw [hstate] at hplace
  obtain ⟨hroot, c, cells, items, hcurrent, hopen, harray, hitems⟩ := hplace
  have hc := lt_of_cell harray
  have hle := hopen.le
  refine ⟨_, startContainer_run cell state (linkNew_array cell hstate hcurrent harray), ?_⟩
  have hagree : AgreeBelow p.heap
      (link p.heap c (.array (cells ++ [p.heap.length])) cell) root :=
    (link_agree (by omega)).mono hle
  refine PointerParser.Consistent.step hdelivered hcounted ?_ ?_ hagree ?_ ?_ ?_ hfresh.ne_eof
  · refine place_fresh hfresh ?_ rfl ?_ ?_ ?_
    · exact hroot
    · dsimp only
      rw [hcurrent]
      exact open_item cell hopen harray hitems
    · exact link_new hc
    · exact link_length
  · dsimp only
    rw [link_length]
    omega
  · rfl
  · rfl
  · rw [hstate]
    exact fun h => (by cases h)

theorem startContainer_value_safe {cell : Cell} {state : State} (hfresh : Fresh cell state) :
    Safe (In .objectPropertyValue) (startContainer cell state) := by
  apply Safe.of_run
  rintro p ⟨⟨root, hlength, hplace, hdelivered, hcounted⟩, hstate⟩
  rw [hstate] at hplace
  obtain ⟨hroot, o, c, cells, properties, name, outer, around, hcurrent, hsaved, hpath, hopen,
    hobject, hproperties, hproperty, hheap⟩ := hplace
  have hle := hopen.le
  have hle' := hproperties.le
  refine ⟨_, startContainer_run cell state (linkNew_value cell hstate hcurrent hproperty), ?_⟩
  have hagree : AgreeBelow p.heap
      (link p.heap c (.property name (some p.heap.length)) cell) root :=
    (link_agree (by omega)).mono (by omega)
  refine PointerParser.Consistent.step hdelivered hcounted ?_ ?_ hagree ?_ ?_ ?_ hfresh.ne_eof
  · refine place_fresh hfresh ?_ rfl ?_ ?_ ?_
    · exact hroot
    · dsimp only
      rw [hpath, hsaved]
      exact open_value cell hopen hobject hproperties hheap
    · exact link_new (by omega)
    · exact link_length
  · dsimp only
    rw [link_length]
    omega
  · rfl
  · rfl
  · rw [hstate]
    exact fun h => (by cases h)

/-- A root container starts, and `root_object_` leads to it. -/
theorem startRoot_safe {cell : Cell} {state : State} (hfresh : Fresh cell state) :
    Safe (In .bof) (do
      startContainer cell state
      setRoot) := by
  apply Safe.of_run
  rintro p ⟨⟨root, hlength, hplace, hdelivered, hcounted⟩, hstate⟩
  rw [hstate] at hplace
  obtain ⟨hsaved, hpath⟩ := hplace
  have hrun : (startContainer cell state >>= fun _ => setRoot) p = .ok () { p with
      heap := p.heap ++ [cell]
      savedStates := .bof :: p.savedStates
      currentObject := some p.heap.length
      state := state
      rootObject := some p.heap.length } := by
    rw [bind_of_ok (startContainer_run cell state (linkNew_bof cell hstate))]
    rfl
  have hagree : AgreeBelow p.heap (p.heap ++ [cell]) p.heap.length :=
    fun i hi => List.getElem?_append_left hi
  refine ⟨_, hrun, ?_⟩
  refine PointerParser.Consistent.step (hdelivered.mono hlength) hcounted ?_ ?_ hagree ?_ ?_ ?_
    hfresh.ne_eof
  · refine place_fresh hfresh rfl rfl ?_ ?_ ?_
    · dsimp only
      rw [hsaved, hpath]
      exact .root
    · simp
    · simp
  · simp
  · rfl
  · rfl
  · rw [hstate]
    exact fun h => (by cases h)

theorem finalItem_safe (type : PrimitiveType) : Safe (In .arrayItem) (finalItem type) := by
  apply Safe.of_run
  rintro p ⟨⟨root, hlength, hplace, hdelivered, hcounted⟩, hstate⟩
  rw [hstate] at hplace
  obtain ⟨hroot, c, cells, items, hcurrent, hopen, harray, hitems⟩ := hplace
  have hc := lt_of_cell harray
  have hagree : AgreeBelow p.heap
      (link p.heap c (.array (cells ++ [p.heap.length])) (.primitive p.buffer type)) root :=
    (link_agree (by omega)).mono hopen.le
  refine ⟨_, finalItem_run type hcurrent harray, ?_⟩
  refine PointerParser.Consistent.step hdelivered hcounted ?_ ?_ hagree ?_ ?_ ?_ ?_
  · dsimp only
    rw [hstate]
    refine ⟨hroot, ?_⟩
    dsimp only
    rw [hcurrent]
    exact arrayOpen_add p.buffer type hopen harray hitems
  · dsimp only
    rw [link_length]
    omega
  · rfl
  · rfl
  · rw [hstate]
    exact fun h => (by cases h)
  · dsimp only
    rw [hstate]
    exact fun h => (by cases h)

/-- The state behind a property's value has been restored, the value is still to be set. -/
def ValueRead (p : PointerParser) : Prop :=
  ∃ root ≤ p.heap.length, p.InProperty root (.objectItem :: p.savedStates) ∧ p.Delivered root ∧
    p.Counted ∧ p.state = .objectItem

theorem finalProperty_safe (type : PrimitiveType) : Safe ValueRead (finalProperty type) := by
  apply Safe.of_run
  rintro p ⟨root, hlength, ⟨hroot, hproperty⟩, hdelivered, hcounted, hstate⟩
  obtain ⟨o, c, cells, properties, name, outer, around, hcurrent, hsaved, hpath, hopen,
    hobject, hproperties, hproperty, hheap⟩ := hproperty
  obtain rfl : p.savedStates = outer := (List.cons.inj hsaved).2
  have hle := hopen.le
  have hle' := hproperties.le
  have hagree : AgreeBelow p.heap (link p.heap c (.property name (some p.heap.length))
      (.primitive p.buffer type)) root :=
    (link_agree (by omega)).mono (by omega)
  refine ⟨_, finalProperty_run type hcurrent hproperty hpath, ?_⟩
  refine PointerParser.Consistent.step hdelivered hcounted ?_ ?_ hagree ?_ ?_ ?_ ?_
  · dsimp only
    rw [hstate]
    exact ⟨hroot, objectOpen_value p.buffer type hopen hobject hproperties hheap⟩
  · dsimp only
    rw [link_length]
    omega
  · rfl
  · rfl
  · rw [hstate]
    exact fun h => (by cases h)
  · dsimp only
    rw [hstate]
    exact fun h => (by cases h)

/-- The state behind a property's name has been restored, the property is still to be made. -/
def NameRead (p : PointerParser) : Prop :=
  ∃ root ≤ p.heap.length, (∃ outer, p.savedStates = .objectItem :: outer ∧ p.InObject root outer) ∧
    p.Delivered root ∧ p.Counted ∧ p.state = .objectPropertyName

theorem startProperty_safe : Safe NameRead startProperty := by
  apply Safe.of_run
  rintro p ⟨root, hlength, ⟨outer, hsaved, hroot, hobject⟩, hdelivered, hcounted, hstate⟩
  obtain ⟨c, cells, properties, hcurrent, hopen, hobject, hproperties⟩ := hobject
  have hc := lt_of_cell hobject
  have hagree : AgreeBelow p.heap
      (link p.heap c (.object (cells ++ [p.heap.length])) (.property p.buffer none)) root :=
    (link_agree (by omega)).mono hopen.le
  refine ⟨_, startProperty_run hcurrent hobject, ?_⟩
  refine PointerParser.Consistent.step hdelivered hcounted ?_ ?_ hagree ?_ ?_ ?_ ?_
  · dsimp only
    rw [hstate, hsaved, hcurrent]
    exact ⟨hroot, propertyOpen_start p.buffer hopen hobject hproperties⟩
  · dsimp only
    rw [link_length]
    omega
  · rfl
  · rfl
  · rw [hstate]
    exact fun h => (by cases h)
  · dsimp only
    rw [hstate]
    exact fun h => (by cases h)

/-! ### The end of a container -/

section

variable (result : PointerParser → Option String)

theorem finalContainer_inner {p : PointerParser} {state : State} {outer : List State}
    {top : Option Nat} {around : List (Option Nat)} (hsaved : p.savedStates = state :: outer)
    (hpath : p.currentPath = top :: around) (hstate : state ≠ .bof) :
    finalContainer result p = .ok () { p with
      state := state
      savedStates := outer
      currentObject := top
      currentPath := around } := by
  rw [finalContainer, bind_of_ok (popState_run hsaved)]
  obtain ⟨streamName, options, before, savedStates, heap, rootObject, currentPath, currentObject,
    results, line, column, buffer, numBuffer⟩ := p
  obtain rfl : currentPath = top :: around := hpath
  rw [bind_of_ok (get_apply _)]
  rw [if_neg hstate]
  rfl

/-- The parser after a root value. -/
def delivered (p : PointerParser) (outer : List State) : PointerParser :=
  { p with
    state := if p.options.enableMultiRootObjects then .bof else .eof
    savedStates := outer
    results := p.results ++ [p.rootObject] }

theorem finalContainer_root {p : PointerParser} {outer : List State}
    (hsaved : p.savedStates = .bof :: outer) :
    finalContainer result p = match result (delivered p outer) with
      | none => .ok () (delivered p outer)
      | some what => .error (.runtimeError what) (delivered p outer) := by
  rw [finalContainer, bind_of_ok (popState_run hsaved), bind_of_ok (get_apply _), if_pos rfl]
  change (match result (delivered p outer) with
    | none => pure ()
    | some what => throw (.runtimeError what) : Action Unit) (delivered p outer) = _
  cases result (delivered p outer) with
  | none => rfl
  | some what => rfl

/-- The state of a container. -/
def Filling (state : State) : Prop :=
  state = .array ∨ state = .arrayItem ∨ state = .object ∨ state = .objectItem

theorem complete_of_filling {p : PointerParser} {root : Nat}
    (hplace : p.Place root p.savedStates p.state) (hstate : Filling p.state) :
    ∃ c value, p.rootObject = some root ∧ p.currentObject = some c ∧
      Open p.heap root c p.savedStates p.currentPath ∧
      Reads p.heap (.value value) c p.heap.length := by
  have harray : p.InArray root p.savedStates → ∃ c value, p.rootObject = some root ∧
      p.currentObject = some c ∧ Open p.heap root c p.savedStates p.currentPath ∧
      Reads p.heap (.value value) c p.heap.length := by
    rintro ⟨hroot, c, cells, items, hcurrent, hopen, hcell, hitems⟩
    exact ⟨c, .array items, hroot, hcurrent, hopen, .array hcell hitems⟩
  have hobject : p.InObject root p.savedStates → ∃ c value, p.rootObject = some root ∧
      p.currentObject = some c ∧ Open p.heap root c p.savedStates p.currentPath ∧
      Reads p.heap (.value value) c p.heap.length := by
    rintro ⟨hroot, c, cells, properties, hcurrent, hopen, hcell, hproperties⟩
    exact ⟨c, .object properties, hroot, hcurrent, hopen, .object hcell hproperties⟩
  rcases hstate with h | h | h | h
  · rw [h] at hplace
    exact harray hplace
  · rw [h] at hplace
    exact harray hplace
  · rw [h] at hplace
    exact hobject hplace
  · rw [h] at hplace
    exact hobject hplace

theorem delivered_consistent {p : PointerParser} {root : Nat} {value : JsonValue}
    (hroot : p.rootObject = some root) (hpath : p.currentPath = [])
    (hvalue : Reads p.heap (.value value) root p.heap.length) (hlength : root ≤ p.heap.length)
    (hdelivered : p.Delivered root) (hcounted : p.Counted) (hstate : p.state ≠ .eof) :
    (delivered p []).Consistent := by
  refine ⟨p.heap.length, le_rfl, ?_, ?_, ?_⟩
  · rw [delivered]
    dsimp only
    split
    · exact ⟨rfl, hpath⟩
    · exact ⟨rfl, hpath⟩
  · intro r hr
    rcases List.mem_append.mp hr with hold | hnew
    · exact hdelivered.mono hlength r hold
    · rw [List.mem_singleton] at hnew
      exact ⟨root, p.heap.length, value, hnew.trans hroot, hvalue, le_rfl⟩
  · rw [PointerParser.Counted, if_neg hstate] at hcounted
    rw [PointerParser.Counted, delivered]
    dsimp only
    cases hmulti : p.options.enableMultiRootObjects with
    | true => simp
    | false =>
      rw [hmulti] at hcounted
      simpa using hcounted

theorem finalContainer_safe :
    Safe (fun p => p.Consistent ∧ Filling p.state) (finalContainer result) := by
  rintro p ⟨⟨root, hlength, hplace, hdelivered, hcounted⟩, hfilling⟩
  obtain ⟨c, value, hroot, hcurrent, hopen, hvalue⟩ := complete_of_filling hplace hfilling
  have heof : p.state ≠ .eof := by
    rintro heof
    rw [heof] at hfilling
    rcases hfilling with h | h | h | h <;> cases h
  rcases open_close hopen hvalue with
    ⟨hsaved, hpath, rfl⟩ | ⟨a, outer, around, hsaved, hpath, harray⟩ |
      ⟨o, outer, around, hsaved, hpath, hobject⟩
  · have hconsistent :=
      delivered_consistent hroot hpath hvalue hlength hdelivered hcounted heof
    rw [finalContainer_root result hsaved]
    cases result (delivered p []) with
    | none => exact hconsistent
    | some what => exact ⟨hconsistent, fun h => (by cases h)⟩
  · rw [finalContainer_inner result hsaved hpath (fun h => (by cases h))]
    exact PointerParser.Consistent.step hdelivered hcounted ⟨hroot, harray⟩ hlength
      (fun _ _ => rfl) rfl rfl heof fun h => (by cases h)
  · rw [finalContainer_inner result hsaved hpath (fun h => (by cases h))]
    exact PointerParser.Consistent.step hdelivered hcounted ⟨hroot, hobject⟩ hlength
      (fun _ _ => rfl) rfl rfl heof fun h => (by cases h)

end

/-! ### The states one by one -/

theorem Consistent.keep {p q : PointerParser} (h : p.Consistent)
    (hplace : ∀ root, p.Place root p.savedStates p.state → q.Place root q.savedStates q.state)
    (hheap : q.heap = p.heap) (hoptions : q.options = p.options) (hresults : q.results = p.results)
    (hp : p.state ≠ .eof) (hq : q.state ≠ .eof) : q.Consistent := by
  obtain ⟨root, hlength, hat, hdelivered, hcounted⟩ := h
  exact PointerParser.Consistent.step hdelivered hcounted (hplace root hat) (by rw [hheap]; exact hlength)
    (by rw [hheap]; exact fun _ _ => rfl) hoptions hresults hp hq

/-- A move that leaves the values as they are. -/
theorem move_safe {state : State} {x : Action Unit} (f : PointerParser → PointerParser)
    (hx : ∀ p, x p = .ok () (f p))
    (hplace : ∀ (p : PointerParser) (root : Nat), p.Place root p.savedStates state →
      (f p).Place root (f p).savedStates (f p).state)
    (hheap : ∀ p, (f p).heap = p.heap) (hoptions : ∀ p, (f p).options = p.options)
    (hresults : ∀ p, (f p).results = p.results) (hstate : state ≠ .eof)
    (hstate' : ∀ p, (f p).state ≠ .eof) : Safe (In state) x := by
  apply Safe.of_run
  rintro p ⟨hp, heq⟩
  exact ⟨f p, hx p, Consistent.keep hp (fun root h => hplace p root (heq ▸ h)) (hheap p)
    (hoptions p) (hresults p) (by rw [heq]; exact hstate) (hstate' p)⟩

/-- Another state over the same stacks. -/
theorem goTo_safe {state state' : State} (hstate : state ≠ .eof) (hstate' : state' ≠ .eof)
    (hplace : ∀ (p : PointerParser) (root : Nat), p.Place root p.savedStates state →
      p.Place root p.savedStates state') : Safe (In state) (goTo state') :=
  move_safe (fun p => { p with state := state' }) (fun _ => rfl) hplace (fun _ => rfl)
    (fun _ => rfl) (fun _ => rfl) hstate fun _ => hstate'

theorem skipSpace_in {state : State} (symbol : UInt8) : Safe (In state) (skipSpace symbol) :=
  (skipSpace_safe symbol).mono fun _ hp => hp.1

theorem fail_in {state : State} (message : String) (symbol : Option UInt8) :
    Safe (In state) (fail message symbol) :=
  (fail_safe message symbol).mono fun _ hp => hp.1

theorem afterSlesh_safe {state : State} (hstate : state = .bof ∨ state = .array) :
    Safe (In state) afterSlesh := by
  rintro p ⟨hp, rfl⟩
  have heof : p.state ≠ .eof := by
    rcases hstate with h | h
    · rw [h]
      exact fun h => (by cases h)
    · rw [h]
      exact fun h => (by cases h)
  have hnext : ({ p with savedStates := p.state :: p.savedStates, state := .afterSlesh } :
      PointerParser).Consistent := by
    refine Consistent.keep hp ?_ ?_ ?_ ?_ heof ?_
    · intro root hplace
      rcases hstate with h | h
      · rw [h] at hplace
        exact Or.inl ⟨_, by rw [← h], hplace⟩
      · rw [h] at hplace
        exact Or.inr ⟨_, by rw [← h], hplace⟩
    · rfl
    · rfl
    · rfl
    · exact fun h => (by cases h)
  rw [afterSlesh, bind_of_ok (get_apply p)]
  by_cases hcomments : p.options.enableInlineComments
  · rw [if_pos hcomments]
    exact hnext
  · rw [if_neg hcomments]
    exact fail_safe _ _ p hp

theorem bofSymbol_safe (symbol : UInt8) : Safe (In .bof) (bofSymbol symbol) := by
  rw [bofSymbol]
  split_ifs
  · exact afterSlesh_safe (Or.inl rfl)
  · exact startRoot_safe .array
  · exact startRoot_safe .object
  · exact skipSpace_in symbol

section

variable (result : PointerParser → Option String)

theorem finalContainer_in {state : State} (h : Filling state) :
    Safe (In state) (finalContainer result) :=
  (finalContainer_safe result).mono fun _ hp => ⟨hp.1, hp.2 ▸ h⟩

theorem arraySymbol_safe (symbol : UInt8) : Safe (In .array) (arraySymbol result symbol) := by
  rw [arraySymbol]
  split_ifs
  · exact finalContainer_in result (Or.inl rfl)
  · exact startContainer_array_safe .array
  · exact startContainer_array_safe .object
  · exact afterSlesh_safe (Or.inr rfl)
  · exact move_safe
      (fun p => { p with savedStates := .arrayItem :: p.savedStates, state := .string })
      (fun _ => rfl) (fun p root h => Or.inl ⟨_, rfl, h⟩) (fun _ => rfl) (fun _ => rfl)
      (fun _ => rfl) (by decide) fun _ h => (by cases h)
  · exact move_safe
      (fun p => { p with
        buffer := [symbol]
        savedStates := .arrayItem :: p.savedStates
        state := .number })
      (fun _ => rfl) (fun p root h => Or.inl ⟨_, rfl, h⟩) (fun _ => rfl) (fun _ => rfl)
      (fun _ => rfl) (by decide) fun _ h => (by cases h)
  · exact skipSpace_in symbol

theorem arrayItemSymbol_safe (symbol : UInt8) :
    Safe (In .arrayItem) (arrayItemSymbol result symbol) := by
  rw [arrayItemSymbol]
  split_ifs
  · exact finalContainer_in result (Or.inr (Or.inl rfl))
  · exact goTo_safe (by decide) (by decide) fun p root h => h
  · exact skipSpace_in symbol

theorem objectSymbol_safe (symbol : UInt8) : Safe (In .object) (objectSymbol result symbol) := by
  rw [objectSymbol]
  split_ifs
  · exact move_safe
      (fun p => { p with
        savedStates := .objectPropertyName :: .objectItem :: p.savedStates
        state := .string })
      (fun _ => rfl) (fun p root h => Or.inr (Or.inr ⟨_, rfl, h⟩)) (fun _ => rfl) (fun _ => rfl)
      (fun _ => rfl) (by decide) fun _ h => (by cases h)
  · exact finalContainer_in result (Or.inr (Or.inr (Or.inl rfl)))
  · exact skipSpace_in symbol

theorem objectItemSymbol_safe (symbol : UInt8) :
    Safe (In .objectItem) (objectItemSymbol result symbol) := by
  rw [objectItemSymbol]
  split_ifs
  · exact finalContainer_in result (Or.inr (Or.inr (Or.inr rfl)))
  · exact goTo_safe (by decide) (by decide) fun p root h => h
  · exact skipSpace_in symbol

end

/-- The end of a string or a number restores the state that its place has saved. -/
theorem popState_item {p : PointerParser} {root : Nat} {outer : List State}
    (hlength : root ≤ p.heap.length) (harray : p.InArray root outer)
    (hdelivered : p.Delivered root) (hcounted : p.Counted) (hstate : p.state ≠ .eof) :
    In .arrayItem { p with state := .arrayItem, savedStates := outer } := by
  refine ⟨?_, rfl⟩
  exact PointerParser.Consistent.step hdelivered hcounted harray hlength (fun _ _ => rfl) rfl rfl
    hstate fun h => (by cases h)

theorem popState_value {p : PointerParser} {root : Nat} (hlength : root ≤ p.heap.length)
    (hproperty : p.InProperty root p.savedStates) (hdelivered : p.Delivered root)
    (hcounted : p.Counted) (hstate : p.state ≠ .eof) :
    ∃ outer, p.savedStates = .objectItem :: outer ∧
      ValueRead { p with state := .objectItem, savedStates := outer } := by
  obtain ⟨hroot, hopen⟩ := hproperty
  obtain ⟨o, c, cells, properties, name, outer, around, hcurrent, hsaved, hrest⟩ := id hopen
  refine ⟨outer, hsaved, root, hlength, ⟨hroot, ?_⟩, hdelivered, ?_, rfl⟩
  · rw [hsaved] at hopen
    exact hopen
  · exact hcounted.congr rfl rfl hstate fun h => (by cases h)

theorem stringSymbol_safe (symbol : UInt8) : Safe (In .string) (stringSymbol symbol) := by
  rw [stringSymbol]
  split_ifs
  · exact goTo_safe (by decide) (by decide) fun p root h => h
  · rintro p ⟨⟨root, hlength, hplace, hdelivered, hcounted⟩, hstate⟩
    have heof : p.state ≠ .eof := by
      rw [hstate]
      exact fun h => (by cases h)
    rw [hstate] at hplace
    rcases hplace with ⟨outer, hsaved, harray⟩ | hproperty | ⟨outer, hsaved, hobject⟩
    · rw [bind_of_ok (popState_run hsaved), bind_of_ok (get_apply _)]
      exact finalItem_safe .string _ (popState_item hlength harray hdelivered hcounted heof)
    · obtain ⟨outer, hsaved, hread⟩ :=
        popState_value hlength hproperty hdelivered hcounted heof
      rw [bind_of_ok (popState_run hsaved), bind_of_ok (get_apply _)]
      exact finalProperty_safe .string _ hread
    · rw [bind_of_ok (popState_run hsaved), bind_of_ok (get_apply _)]
      apply startProperty_safe
      exact ⟨root, hlength, ⟨outer, rfl, hobject⟩, hdelivered,
        hcounted.congr rfl rfl heof fun h => (by cases h), rfl⟩
  · rintro p ⟨hp, hstate⟩
    exact hp

theorem stringBacksleshSymbol_safe (symbol : UInt8) :
    Safe (In .stringBackslesh) (stringBacksleshSymbol symbol) := by
  have happend : ∀ byte, Safe (In .stringBackslesh) (do
      append byte
      goTo .string) := fun byte =>
    move_safe (fun p => { p with buffer := p.buffer ++ [byte], state := .string })
      (fun _ => rfl) (fun _ _ h => h) (fun _ => rfl) (fun _ => rfl) (fun _ => rfl) (by decide)
      fun _ h => (by cases h)
  rw [stringBacksleshSymbol]
  dsimp only
  split_ifs
  · exact happend _
  · exact happend _
  · exact happend _
  · exact happend _
  · exact happend _
  · exact happend _
  · exact happend _
  · exact goTo_safe (by decide) (by decide) fun p root h => h
  · exact fail_in _ _

theorem hexSymbol_safe (index : Fin 4) (symbol : UInt8) :
    Safe (In (.stringSymbol index)) (hexSymbol index symbol) := by
  have hshift : Triple (In (.stringSymbol index)) (shiftNumber index)
      (fun _ => In (.stringSymbol index)) fun e p => p.Consistent ∧ e ≠ .undefined := by
    apply Triple.ite
    · exact fun _ p hp => hp
    · exact fun _ p hp => hp
  rw [hexSymbol]
  apply hshift.bind
  rintro ⟨⟩
  cases JsonParser.hexValue symbol with
  | none => exact fail_in _ _
  | some digit =>
    dsimp only
    split_ifs
    · exact move_safe (fun p => { p with numBuffer := digit, state := .stringSymbol 1 })
        (fun _ => rfl) (fun _ _ h => h) (fun _ => rfl) (fun _ => rfl) (fun _ => rfl)
        (fun h => (by cases h)) fun _ h => (by cases h)
    · -- the state is restored before the code unit is looked at
      rintro p ⟨hp, hstate⟩
      have hnext : ({ p with numBuffer := p.numBuffer ||| digit, state := .string } :
          PointerParser).Consistent := by
        refine Consistent.keep hp ?_ ?_ ?_ ?_ ?_ ?_
        · intro root hplace
          rw [hstate] at hplace
          exact hplace
        · rfl
        · rfl
        · rfl
        · rw [hstate]
          exact fun h => (by cases h)
        · exact fun h => (by cases h)
      rw [bind_of_ok (modify_apply _ _), bind_of_ok (get_apply _)]
      cases Utf8.add p.buffer (p.numBuffer ||| digit) with
      | ok buffer => exact hnext
      | error e => exact ⟨hnext, fun h => (by cases h)⟩
    · exact move_safe
        (fun p => { p with
          numBuffer := p.numBuffer ||| digit
          state := .stringSymbol (index + 1) })
        (fun _ => rfl) (fun _ _ h => h) (fun _ => rfl) (fun _ => rfl) (fun _ => rfl)
        (fun h => (by cases h)) fun _ h => (by cases h)

theorem propertyNameSymbol_safe (symbol : UInt8) :
    Safe (In .objectPropertyName) (propertyNameSymbol symbol) := by
  rw [propertyNameSymbol]
  split_ifs
  · exact goTo_safe (by decide) (by decide) fun p root h => h
  · exact skipSpace_in symbol

theorem propertyValueSymbol_safe (symbol : UInt8) :
    Safe (In .objectPropertyValue) (propertyValueSymbol symbol) := by
  rw [propertyValueSymbol]
  split_ifs
  · exact goTo_safe (by decide) (by decide) fun p root h => Or.inr (Or.inl h)
  · exact startContainer_value_safe .object
  · exact startContainer_value_safe .array
  · exact move_safe
      (fun p => { p with state := .number, buffer := p.buffer ++ [symbol] })
      (fun _ => rfl) (fun p root h => Or.inr h) (fun _ => rfl) (fun _ => rfl)
      (fun _ => rfl) (by decide) fun _ h => (by cases h)
  · exact skipSpace_in symbol

theorem afterSleshSymbol_safe (symbol : UInt8) :
    Safe (In .afterSlesh)
      (if symbol = ascii '/' then goTo .inlineComment else unexpectedChar symbol) := by
  split_ifs
  · exact goTo_safe (by decide) (by decide) fun p root h => h
  · exact fail_in _ _

theorem inlineComment_safe (symbol : UInt8) :
    Safe (In .inlineComment) (if symbol = ascii '\n' then popState else pure ()) := by
  split_ifs
  · apply Safe.of_run
    rintro p ⟨⟨root, hlength, hplace, hdelivered, hcounted⟩, hstate⟩
    have heof : p.state ≠ .eof := by
      rw [hstate]
      exact fun h => (by cases h)
    rw [hstate] at hplace
    rcases hplace with ⟨outer, hsaved, houtside⟩ | ⟨outer, hsaved, harray⟩
    · refine ⟨_, popState_run hsaved, ?_⟩
      exact PointerParser.Consistent.step hdelivered hcounted houtside hlength
        (fun _ _ => rfl) rfl rfl heof fun h => (by cases h)
    · refine ⟨_, popState_run hsaved, ?_⟩
      exact PointerParser.Consistent.step hdelivered hcounted harray hlength
        (fun _ _ => rfl) rfl rfl heof fun h => (by cases h)
  · exact fun p hp => hp.1

section

variable (result : PointerParser → Option String)

theorem symbolIn_safe (symbol : UInt8) :
    Safe PointerParser.Consistent (symbolIn result symbol) := by
  intro p hp
  rw [symbolIn, bind_of_ok (get_apply p)]
  cases hstate : p.state with
  | bof => exact bofSymbol_safe symbol p ⟨hp, hstate⟩
  | afterSlesh => exact afterSleshSymbol_safe symbol p ⟨hp, hstate⟩
  | inlineComment => exact inlineComment_safe symbol p ⟨hp, hstate⟩
  | array => exact arraySymbol_safe result symbol p ⟨hp, hstate⟩
  | arrayItem => exact arrayItemSymbol_safe result symbol p ⟨hp, hstate⟩
  | object => exact objectSymbol_safe result symbol p ⟨hp, hstate⟩
  | objectItem => exact objectItemSymbol_safe result symbol p ⟨hp, hstate⟩
  | string => exact stringSymbol_safe symbol p ⟨hp, hstate⟩
  | stringBackslesh => exact stringBacksleshSymbol_safe symbol p ⟨hp, hstate⟩
  | stringSymbol index => exact hexSymbol_safe index symbol p ⟨hp, hstate⟩
  | objectPropertyName => exact propertyNameSymbol_safe symbol p ⟨hp, hstate⟩
  | objectPropertyValue => exact propertyValueSymbol_safe symbol p ⟨hp, hstate⟩
  | number => exact fail_safe _ _ p hp
  | eof => exact fail_safe _ _ p hp

theorem numberEnd_safe (symbol : UInt8) : Safe (In .number) (numberEnd symbol) := by
  have hback : Safe PointerParser.Consistent (modify fun p =>
      if symbol = ascii '\n' then { p with line := p.line - 1 }
      else { p with column := p.column - 1 }) := by
    intro p hp
    change (if symbol = ascii '\n' then { p with line := p.line - 1 }
      else { p with column := p.column - 1 } : PointerParser).Consistent
    split_ifs
    · exact hp
    · exact hp
  rintro p ⟨⟨root, hlength, hplace, hdelivered, hcounted⟩, hstate⟩
  have heof : p.state ≠ .eof := by
    rw [hstate]
    exact fun h => (by cases h)
  rw [hstate] at hplace
  rcases hplace with ⟨outer, hsaved, harray⟩ | hproperty
  · rw [numberEnd, bind_of_ok (popState_run hsaved), bind_of_ok (get_apply _)]
    exact Triple.bind (finalItem_safe .integer) (fun _ => hback) _
      (popState_item hlength harray hdelivered hcounted heof)
  · obtain ⟨outer, hsaved, hread⟩ :=
      popState_value hlength hproperty hdelivered hcounted heof
    rw [numberEnd, bind_of_ok (popState_run hsaved), bind_of_ok (get_apply _)]
    exact Triple.bind (finalProperty_safe .integer) (fun _ => hback) _ hread

theorem advance_safe (symbol : UInt8) : Safe PointerParser.Consistent (advance symbol) := by
  intro p hp
  change (if symbol = ascii '\n' then { p with line := p.line + 1, column := 1 }
    else if symbol = ascii '\t' then { p with column := 1 + (p.column + 7) / 8 * 8 }
    else { p with column := p.column + 1 } : PointerParser).Consistent
  split_ifs
  · exact hp
  · exact hp
  · exact hp

theorem symbol_safe (byte : UInt8) : Safe PointerParser.Consistent (symbol result byte) := by
  rw [symbol]
  apply (advance_safe byte).bind
  rintro ⟨⟩ p hp
  rw [bind_of_ok (get_apply p)]
  by_cases hnumber : p.state = .number
  · rw [if_pos hnumber]
    by_cases hdigit : isDigit byte ∨ byte = ascii '.'
    · rw [if_pos hdigit]
      exact hp
    · rw [if_neg hdigit]
      exact Triple.bind (numberEnd_safe byte)
        (fun _ => (advance_safe byte).bind fun _ => symbolIn_safe result byte) p ⟨hp, hnumber⟩
  · rw [if_neg hnumber]
    exact symbolIn_safe result byte p hp

theorem finalData_safe : Safe PointerParser.Consistent finalData := by
  apply Triple.getBind
  intro p hp
  have hsame : ∀ q, q = p → q.Consistent := by
    rintro _ rfl
    exact hp
  split
  · exact Triple.pure hsame
  · split
    · exact Triple.pure hsame
    · exact (fail_safe _ _).mono hsame
  · exact (fail_safe _ _).mono hsame

theorem write_safe (inputBuffer : ConstDataBuffer) :
    Safe PointerParser.Consistent (write result inputBuffer) := by
  rw [write]
  split_ifs
  · exact finalData_safe
  · exact Triple.forM (I := fun _ => PointerParser.Consistent)
      (fun byte _ => symbol_safe result byte) inputBuffer

end

/-! ### Runs -/

theorem create_consistent (streamName : StdString) (options : Options) :
    (create streamName options).Consistent := by
  refine ⟨0, le_rfl, ⟨rfl, rfl⟩, ?_, ?_⟩
  · intro r hr
    cases hr
  · rw [PointerParser.Counted]
    split
    · exact fun h => (by cases h)
    · rfl

/-- The parser after some calls of `write`, with or without success. -/
def calls (result : PointerParser → Option String) (p : PointerParser)
    (pieces : List ConstDataBuffer) : PointerParser :=
  pieces.foldl (fun p piece => final (write result piece p)) p

theorem calls_consistent (result : PointerParser → Option String) {p : PointerParser}
    (hp : p.Consistent) (pieces : List ConstDataBuffer) : (calls result p pieces).Consistent := by
  induction pieces generalizing p with
  | nil => exact hp
  | cons piece pieces ih =>
    have hwrite := write_safe result piece p hp
    apply ih
    change (final (write result piece p)).Consistent
    cases hrun : write result piece p with
    | ok a q =>
      rw [hrun] at hwrite
      exact hwrite
    | error e q =>
      rw [hrun] at hwrite
      exact hwrite.1

/-- Both stacks are empty, and what has been delivered are complete values: one of them, unless
several roots are allowed. -/
def Finished (p : PointerParser) : Prop :=
  p.savedStates = [] ∧ p.currentPath = [] ∧
    (∀ r ∈ p.results, ∃ lo hi value, r = some lo ∧ Reads p.heap (.value value) lo hi) ∧
    (p.options.enableMultiRootObjects = false → p.results.length = 1)

theorem finalData_ok {p p' : PointerParser} (h : finalData p = .ok () p') :
    p' = p ∧ (p.state = .eof ∨ p.state = .bof ∧ p.options.enableMultiRootObjects = true) := by
  rw [finalData, bind_of_ok (get_apply p)] at h
  have hfail : ∀ message, fail message none p ≠ .ok () p' := fun message h => (by cases h)
  cases hstate : p.state with
  | eof =>
    rw [hstate] at h
    cases h
    exact ⟨rfl, Or.inl rfl⟩
  | bof =>
    rw [hstate] at h
    dsimp only at h
    split at h
    · cases h
      exact ⟨rfl, Or.inr ⟨rfl, ‹_›⟩⟩
    · exact absurd h (hfail _)
  | _ =>
    rw [hstate] at h
    exact absurd h (hfail _)

theorem finished_of_ok {p p' : PointerParser} (hp : p.Consistent)
    (h : finalData p = .ok () p') : Finished p' := by
  obtain ⟨rfl, hstate⟩ := finalData_ok h
  obtain ⟨root, -, hplace, hdelivered, hcounted⟩ := hp
  have houtside : p'.Outside p'.savedStates := by
    rcases hstate with heof | ⟨hbof, -⟩
    · rw [heof] at hplace
      exact hplace
    · rw [hbof] at hplace
      exact hplace
  refine ⟨houtside.1, houtside.2, ?_, ?_⟩
  · intro r hr
    obtain ⟨lo, hi, value, heq, hreads, -⟩ := hdelivered r hr
    exact ⟨lo, hi, value, heq, hreads⟩
  · intro hsingle
    have heof : p'.state = .eof := by
      rcases hstate with heof | ⟨-, hmulti⟩
      · exact heof
      · rw [hsingle] at hmulti
        cases hmulti
    rw [PointerParser.Counted, if_neg (by simp [hsingle]), if_pos heof] at hcounted
    exact hcounted

/-- For every text in pieces and every set of options the stacks and the current object fit the
state, no stack is popped empty and no object is cast to a wrong class, and the parser finishes
outside of every value. -/
theorem parser_consistent (streamName : StdString) (options : Options)
    (result : PointerParser → Option String) (pieces : List ConstDataBuffer) :
    (calls result (create streamName options) pieces).Consistent ∧
      (∀ piece p', write result piece (calls result (create streamName options) pieces)
        ≠ .error .undefined p') ∧
      ∀ p', finalData (calls result (create streamName options) pieces) = .ok () p' →
        Finished p' := by
  have hp := calls_consistent result (create_consistent streamName options) pieces
  refine ⟨hp, ?_, fun p' h => finished_of_ok hp h⟩
  intro piece p' h
  have hwrite := write_safe result piece _ hp
  rw [h] at hwrite
  exact hwrite.2 rfl

/-- With several roots allowed an empty text is finished without a root value. -/
theorem multiRoot_no_root :
    ¬∀ (streamName : StdString) (options : Options) (result : PointerParser → Option String)
      (pieces : List ConstDataBuffer) (p' : PointerParser),
      finalData (calls result (create streamName options) pieces) = .ok () p' →
        p'.savedStates = [] ∧ p'.currentPath = [] ∧ p'.results.length = 1 := by
  intro h
  have hroot := (h [] ⟨false, true⟩ (fun _ => none) [] (create [] ⟨false, true⟩) rfl).2.2
  cases hroot

end Vds.JsonPointers
