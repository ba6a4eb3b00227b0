import Vds.Kernel.Encoding

/-! JSON: the values, `json_writer` and the push parser `json_parser`. -/

namespace Vds

inductive JsonError
  | runtimeError (what : String)
  /-- `parse_error`: the stream, the position, the message and the character it names. -/
  | parseError (streamName : StdString) (line column : Int) (message : String)
    (symbol : Option UInt8)
  /-- The code follows a null pointer, casts to the wrong class or takes from an empty stack. -/
  | undefined
  deriving DecidableEq, Repr

inductive PrimitiveType
  | string
  | integer
  deriving DecidableEq, Repr

/-- A `json_value` pointer; the properties of an object stand in the order they were added. -/
inductive JsonValue
  | null
  | primitive (value : StdString) (type : PrimitiveType)
  | object (properties : List (StdString × JsonValue))
  | array (items : List JsonValue)

/-- `isprint` in the C locale. -/
def isPrint (ch : UInt32) : Bool := 0x20 ≤ ch && ch < 0x7F

/-- `isspace` in the C locale. -/
def isSpace (symbol : UInt8) : Bool := symbol == 0x20 || (0x09 ≤ symbol && symbol ≤ 0x0D)

def isDigit (symbol : UInt8) : Bool := 0x30 ≤ symbol && symbol ≤ 0x39

/-- The byte of a character of the source text. -/
def ascii (c : Char) : UInt8 := c.toNat.toUInt8

def quote : UInt8 := 0x22

def backslash : UInt8 := 0x5C

/-! ### The writer -/

inductive JsonWriter.State
  | bof
  | startObject
  | objectBody
  | property
  | propertyEnd
  | startArray
  | arrayBody
  deriving DecidableEq, Repr

structure JsonWriter where
  state : JsonWriter.State
  statePath : List JsonWriter.State
  stream : StdString
  deriving DecidableEq, Repr

namespace JsonWriter

abbrev Result := Except JsonError JsonWriter

def create : JsonWriter := ⟨.bof, [], []⟩

def invalidState : Result := .error (.runtimeError "Invalid json_writer state")

def put (w : JsonWriter) (bytes : StdString) : JsonWriter := { w with stream := w.stream ++ bytes }

def hexDigit (n : UInt32) : UInt8 := if n < 10 then 0x30 + n.toUInt8 else 0x61 + (n - 10).toUInt8

/-- `std::setw(4) << std::setfill('0') << std::hex` of the character cut to 16 bits. -/
def hex4 (ch : UInt32) : StdString :=
  [hexDigit (ch >>> 12 &&& 0xF), hexDigit (ch >>> 8 &&& 0xF), hexDigit (ch >>> 4 &&& 0xF),
    hexDigit (ch &&& 0xF)]

/-- What `write_string` writes for one character. -/
def escape (ch : UInt32) : StdString :=
  if ch = 0x5C then [backslash, backslash]
  else if ch = 0x22 then [backslash, quote]
  else if ch = 0x0A then [backslash, ascii 'n']
  else if ch = 0x0D then [backslash, ascii 'r']
  else if ch = 0x08 then [backslash, ascii 'b']
  else if ch = 0x09 then [backslash, ascii 't']
  else if ch = 0x0C then [backslash, ascii 'f']
  else if ch < 0x80 ∧ isPrint ch then [ch.toUInt8]
  else backslash :: ascii 'u' :: hex4 ch

/-- The loop of `write_string`; a character takes at least one byte. -/
def escapeAll : Nat → StdString → Except JsonError StdString
  | 0, _ => .ok []
  | _ + 1, [] => .ok []
  | n + 1, a :: value =>
    match Utf8.nextChar (a :: value) with
    | .error _ => .error (.runtimeError "Invalid UTF8 string")
    | .ok (ch, rest) => do
      let text ← escapeAll n rest
      return escape ch ++ text

def quoted (value : StdString) : Except JsonError StdString := do
  let text ← escapeAll value.length value
  return quote :: text ++ [quote]

def writeString (w : JsonWriter) (value : StdString) : Result := do
  let text ← quoted value
  return w.put text

def writeStringValue (w : JsonWriter) (value : StdString) : Result :=
  match w.state with
  | .property => { w with state := .propertyEnd }.writeString value
  | .startArray => { w with state := .arrayBody }.writeString value
  | .arrayBody => (w.put [ascii ',']).writeString value
  | _ => invalidState

def nullText : StdString := [ascii 'n', ascii 'u', ascii 'l', ascii 'l']

def writeNullValue (w : JsonWriter) : Result :=
  match w.state with
  | .property => .ok ({ w with state := .propertyEnd }.put nullText)
  | .arrayBody => .ok ((w.put [ascii ',']).put nullText)
  | _ => invalidState

def startProperty (w : JsonWriter) (name : StdString) : Result :=
  let start (w : JsonWriter) : Result := do
    let w ← { w with statePath := w.state :: w.statePath, state := .property }.writeString name
    return w.put [ascii ':']
  match w.state with
  | .startObject => start { w with state := .objectBody }
  | .objectBody => start (w.put [ascii ','])
  | _ => invalidState

/-- `state_ = state_path_.top()` and `state_path_.pop()`. -/
def popState (w : JsonWriter) : Result :=
  match w.statePath with
  | state :: path => .ok { w with state := state, statePath := path }
  | [] => .error .undefined

def endProperty (w : JsonWriter) : Result :=
  match w.state with
  | .propertyEnd => w.popState
  | _ => invalidState

def startObject (w : JsonWriter) : Result :=
  let start (w : JsonWriter) : Result := .ok ({ w with state := .startObject }.put [ascii '{'])
  match w.state with
  | .bof => start { w with statePath := .arrayBody :: w.statePath }
  | .startArray => start { w with statePath := .arrayBody :: w.statePath }
  | .arrayBody => start { w.put [ascii ','] with statePath := .arrayBody :: w.statePath }
  | .property => start { w with statePath := .propertyEnd :: w.statePath }
  | _ => invalidState

def endObject (w : JsonWriter) : Result :=
  let finish : Result := do
    let w ← w.popState
    return w.put [ascii '}']
  match w.state with
  | .startObject => finish
  | .objectBody => finish
  | _ => invalidState

def startArray (w : JsonWriter) : Result :=
  let start (saved : State) : Result :=
    .ok ({ w with statePath := saved :: w.statePath, state := .startArray }.put [ascii '['])
  match w.state with
  | .bof => start .propertyEnd
  | .property => start .propertyEnd
  | .startArray => start .startArray
  | .arrayBody => start .arrayBody
  | _ => invalidState

def endArray (w : JsonWriter) : Result :=
  let finish : Result := do
    let w ← w.popState
    return w.put [ascii ']']
  match w.state with
  | .startArray => finish
  | .arrayBody => finish
  | _ => invalidState

end JsonWriter

/-! ### `json_value::str` -/

mutual

def JsonValue.write : JsonValue → JsonWriter → JsonWriter.Result
  | .null, _ => .error .undefined
  | .primitive value _, w => w.writeStringValue value
  | .object properties, w => do
    let w ← w.startObject
    let w ← writeProperties properties w
    w.endObject
  | .array items, w => do
    let w ← w.startArray
    let w ← writeItems items w
    w.endArray

/-- `json_property::str` of each property; a null value is written as such. -/
def JsonValue.writeProperties : List (StdString × JsonValue) → JsonWriter → JsonWriter.Result
  | [], w => .ok w
  | (name, value) :: properties, w => do
    let w ← w.startProperty name
    let w ← (match value with
      | .null => w.writeNullValue
      | _ => value.write w)
    let w ← w.endProperty
    writeProperties properties w

def JsonValue.writeItems : List JsonValue → JsonWriter → JsonWriter.Result
  | [], w => .ok w
  | item :: items, w => do
    let w ← item.write w
    writeItems items w

end

def JsonValue.str (value : JsonValue) : Except JsonError StdString := do
  let w ← value.write JsonWriter.create
  return w.stream

/-! ### The parser -/

inductive JsonParser.State
  | bof
  | afterSlesh
  | inlineComment
  | array
  | arrayItem
  | object
  | objectItem
  | number
  | objectPropertyName
  | objectPropertyValue
  | string
  | stringBackslesh
  | stringSymbol (index : Fin 4)
  | eof
  deriving DecidableEq, Repr

/-- A node whose value is not complete yet. -/
inductive JsonParser.Node
  | object (properties : List (StdString × JsonValue))
  | property (name : StdString)
  | array (items : List JsonValue)

structure JsonParser.Options where
  enableInlineComments : Bool
  enableMultiRootObjects : Bool
  deriving DecidableEq, Repr

structure JsonParser where
  streamName : StdString
  options : JsonParser.Options
  state : JsonParser.State
  savedStates : List JsonParser.State
  /-- `current_object_` and the nodes around it; a property stays with the value it waits for. -/
  nodes : List JsonParser.Node
  /-- What `result_` has been called with. -/
  results : List JsonValue
  line : Int
  column : Int
  buffer : StdString
  numBuffer : UInt32

namespace JsonParser

abbrev Result := Except JsonError JsonParser

def create (streamName : StdString) (options : Options) : JsonParser where
  streamName
  options
  state := .bof
  savedStates := []
  nodes := []
  results := []
  line := 1
  column := 1
  buffer := []
  numBuffer := 0

def fail (p : JsonParser) (message : String) (symbol : Option UInt8) : Result :=
  .error (.parseError p.streamName p.line p.column message symbol)

def unexpectedChar (p : JsonParser) (symbol : UInt8) : Result :=
  p.fail "Unexpected char " (some symbol)

/-- The node gets the value it waits for. -/
def attach (value : JsonValue) : List Node → Except JsonError (List Node)
  | .array items :: nodes => .ok (.array (items ++ [value]) :: nodes)
  | .property name :: .object properties :: nodes =>
    .ok (.object (properties ++ [(name, value)]) :: nodes)
  | _ => .error .undefined

def Node.value : Node → JsonValue
  | .object properties => .object properties
  | .array items => .array items
  | .property _ => .null

/-- `state_ = saved_states_.top()` and `saved_states_.pop()`. -/
def popState (p : JsonParser) : Result :=
  match p.savedStates with
  | state :: states => .ok { p with state := state, savedStates := states }
  | [] => .error .undefined

def pushState (p : JsonParser) (state : State) : JsonParser :=
  { p with savedStates := state :: p.savedStates }

/-- `start_array` and `start_object` differ in the node and the state after it. -/
def startContainer (p : JsonParser) (node : Node) (state : State) : Result :=
  let start (p : JsonParser) : Result := .ok { p with nodes := node :: p.nodes, state := state }
  match p.state with
  | .objectPropertyValue => start p
  | .bof => start (p.pushState .bof)
  | .array => start (p.pushState .arrayItem)
  | _ => p.fail "Unexpected state" none

def startArray (p : JsonParser) : Result := p.startContainer (.array []) .array

def startObject (p : JsonParser) : Result := p.startContainer (.object []) .object

/-- `final_array` and `final_object`. -/
def finalContainer (p : JsonParser) : Result := do
  let p ← p.popState
  match p.nodes with
  | node :: nodes =>
    if p.state = .bof then
      let state := if p.options.enableMultiRootObjects then p.state else .eof
      .ok { p with state := state, nodes := nodes, results := p.results ++ [node.value] }
    else do
      let nodes ← attach node.value nodes
      .ok { p with nodes := nodes }
  | [] => .error .undefined

def afterSlesh (p : JsonParser) : Result :=
  if p.options.enableInlineComments then .ok { p.pushState p.state with state := .afterSlesh }
  else p.fail "Unexpected char /" none

/-- `start_property`: the buffer is the name. -/
def startProperty (p : JsonParser) : JsonParser :=
  { p with nodes := .property p.buffer :: p.nodes, buffer := [] }

/-- A primitive made of the buffer goes to the node that waits for it. -/
def finalPrimitive (p : JsonParser) (type : PrimitiveType) : Result := do
  let nodes ← attach (.primitive p.buffer type) p.nodes
  .ok { p with nodes := nodes, buffer := [] }

/-- The value of a hexadecimal digit. -/
def hexValue (symbol : UInt8) : Option UInt32 :=
  if isDigit symbol then some (symbol - 0x30).toUInt32
  else if 0x61 ≤ symbol && symbol ≤ 0x66 then some (symbol - 0x61 + 10).toUInt32
  else if 0x41 ≤ symbol && symbol ≤ 0x46 then some (symbol - 0x41 + 10).toUInt32
  else none

/-- `line_` and `column_` after a symbol. -/
def advance (p : JsonParser) (symbol : UInt8) : JsonParser :=
  if symbol = ascii '\n' then { p with line := p.line + 1, column := 1 }
  else if symbol = ascii '\t' then { p with column := 1 + (p.column + 7) / 8 * 8 }
  else { p with column := p.column + 1 }

/-- White space is skipped; nothing else is expected. -/
def skipSpace (p : JsonParser) (symbol : UInt8) : Result :=
  if isSpace symbol then .ok p else p.unexpectedChar symbol

def bofSymbol (p : JsonParser) (symbol : UInt8) : Result :=
  if symbol = ascii '/' then p.afterSlesh
  else if symbol = ascii '[' then p.startArray
  else if symbol = ascii '{' then p.startObject
  else p.skipSpace symbol

def arraySymbol (p : JsonParser) (symbol : UInt8) : Result :=
  if symbol = ascii ']' then p.finalContainer
  else if symbol = ascii '[' then p.startArray
  else if symbol = ascii '{' then p.startObject
  else if symbol = ascii '/' then p.afterSlesh
  else if symbol = quote then .ok { p.pushState .arrayItem with state := .string }
  else if isDigit symbol then
    .ok { p.pushState .arrayItem with state := .number, buffer := [symbol] }
  else p.skipSpace symbol

def arrayItemSymbol (p : JsonParser) (symbol : UInt8) : Result :=
  if symbol = ascii ']' then p.finalContainer
  else if symbol = ascii ',' then .ok { p with state := .array }
  else p.skipSpace symbol

def objectSymbol (p : JsonParser) (symbol : UInt8) : Result :=
  if symbol = quote then
    .ok { (p.pushState .objectItem).pushState .objectPropertyName with state := .string }
  else if symbol = ascii '}' then p.finalContainer
  else p.skipSpace symbol

def objectItemSymbol (p : JsonParser) (symbol : UInt8) : Result :=
  if symbol = ascii '}' then p.finalContainer
  else if symbol = ascii ',' then .ok { p with state := .object }
  else p.skipSpace symbol

def stringSymbol (p : JsonParser) (symbol : UInt8) : Result :=
  if symbol = backslash then .ok { p with state := .stringBackslesh }
  else if symbol = quote then do
    let p ← p.popState
    match p.state with
    | .objectPropertyName => .ok p.startProperty
    | .objectItem => p.finalPrimitive .string
    | .arrayItem => p.finalPrimitive .string
    | _ => p.unexpectedChar symbol
  else .ok { p with buffer := p.buffer ++ [symbol] }

def stringBacksleshSymbol (p : JsonParser) (symbol : UInt8) : Result :=
  let append (byte : UInt8) : Result :=
    .ok { p with buffer := p.buffer ++ [byte], state := .string }
  if symbol = quote then append symbol
  else if symbol = backslash then append symbol
  else if symbol = ascii 'n' then append 0x0A
  else if symbol = ascii 'r' then append 0x0D
  else if symbol = ascii 'b' then append 0x08
  else if symbol = ascii 't' then append 0x09
  else if symbol = ascii 'f' then append 0x0C
  else if symbol = ascii 'u' then .ok { p with state := .stringSymbol 0 }
  else p.unexpectedChar symbol

/-- `ST_STRING_SYMBOL_1` to `ST_STRING_SYMBOL_4`. -/
def hexSymbol (p : JsonParser) (index : Fin 4) (symbol : UInt8) : Result :=
  match hexValue symbol with
  | none => p.unexpectedChar symbol
  | some digit =>
    if index = 0 then .ok { p with numBuffer := digit, state := .stringSymbol 1 }
    else
      let numBuffer := p.numBuffer <<< 4 ||| digit
      if index = 3 then
        match Utf8.add p.buffer numBuffer with
        | .ok buffer => .ok { p with numBuffer := numBuffer, buffer := buffer, state := .string }
        | .error _ => .error (.runtimeError "Invalid UTF16 string")
      else .ok { p with numBuffer := numBuffer, state := .stringSymbol (index + 1) }

def propertyNameSymbol (p : JsonParser) (symbol : UInt8) : Result :=
  if symbol = ascii ':' then .ok { p with state := .objectPropertyValue }
  else p.skipSpace symbol

def propertyValueSymbol (p : JsonParser) (symbol : UInt8) : Result :=
  if symbol = quote then .ok { p with state := .string }
  else if symbol = ascii '{' then p.startObject
  else if symbol = ascii '[' then p.startArray
  else if symbol = ascii '+' ∨ symbol = ascii '-' ∨ isDigit symbol then
    .ok { p with state := .number, buffer := p.buffer ++ [symbol] }
  else p.skipSpace symbol

/-- The switch over the states other than `ST_NUMBER`. -/
def symbolIn (p : JsonParser) (symbol : UInt8) : Result :=
  match p.state with
  | .bof => p.bofSymbol symbol
  | .afterSlesh =>
    if symbol = ascii '/' then .ok { p with state := .inlineComment } else p.unexpectedChar symbol
  | .inlineComment => if symbol = ascii '\n' then p.popState else .ok p
  | .array => p.arraySymbol symbol
  | .arrayItem => p.arrayItemSymbol symbol
  | .object => p.objectSymbol symbol
  | .objectItem => p.objectItemSymbol symbol
  | .string => p.stringSymbol symbol
  | .stringBackslesh => p.stringBacksleshSymbol symbol
  | .stringSymbol index => p.hexSymbol index symbol
  | .objectPropertyName => p.propertyNameSymbol symbol
  | .objectPropertyValue => p.propertyValueSymbol symbol
  | .number => p.unexpectedChar symbol
  | .eof => p.unexpectedChar symbol

/-- The end of a number is found at the symbol behind it, which is then read again. -/
def numberEnd (p : JsonParser) (symbol : UInt8) : Result := do
  let p ← p.popState
  let p ← (match p.state with
    | .objectItem => p.finalPrimitive .integer
    | .arrayItem => p.finalPrimitive .integer
    | _ => p.unexpectedChar symbol)
  if symbol = ascii '\n' then return { p with line := p.line - 1 }
  else return { p with column := p.column - 1 }

/-- One turn of the loop of `write`. -/
def symbol (p : JsonParser) (symbol : UInt8) : Result :=
  let p := p.advance symbol
  if p.state = .number then
    if isDigit symbol ∨ symbol = ascii '.' then .ok { p with buffer := p.buffer ++ [symbol] }
    else do
      let p ← p.numberEnd symbol
      (p.advance symbol).symbolIn symbol
  else p.symbolIn symbol

def run (p : JsonParser) (text : StdString) : Result := text.foldlM symbol p

def finalData (p : JsonParser) : Result :=
  match p.state with
  | .eof => .ok p
  | .bof =>
    if p.options.enableMultiRootObjects then .ok p else p.fail "Unexpected end of data" none
  | _ => p.fail "Unexpected end of data" none

def write (p : JsonParser) (inputBuffer : ConstDataBuffer) : Result :=
  if inputBuffer.isEmpty then p.finalData else p.run inputBuffer

/-- The text in pieces, and at last the empty one; `result_` keeps the value. -/
def parsePieces (streamName : StdString) (pieces : List ConstDataBuffer) :
    Except JsonError JsonValue := do
  let p ← pieces.foldlM write (create streamName ⟨false, false⟩)
  let p ← p.write []
  return p.results.getLast?.getD .null

/-- `json_parser::parse`. -/
def parse (streamName : StdString) (data : ConstDataBuffer) : Except JsonError JsonValue :=
  parsePieces streamName [data]

end JsonParser
end Vds
