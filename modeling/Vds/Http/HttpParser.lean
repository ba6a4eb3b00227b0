import Vds.Kernel.UrlParser
import Vds.Library.StateError

/-! `http_parser`: header lines, bodies with a length, and the chunks of a body without one. -/

namespace Vds.Http

open StateError

inductive HttpError
  | logicError (what : StdString)
  | runtimeError (what : StdString)
  /-- `std::stoul` finds no number. -/
  | invalidArgument
  /-- `std::stoul` finds a number above `ULONG_MAX`. -/
  | outOfRange
  /-- A callback has failed. -/
  | callback (what : String)
  /-- The code calls an empty handler or follows a null pointer. -/
  | undefined
  /-- The call is still running. -/
  | running
  deriving DecidableEq, Repr

def bytesOf (text : String) : StdString := text.toList.map ascii

def carriageReturn : UInt8 := ascii '\r'

def lineFeed : UInt8 := ascii '\n'

/-! ### Numbers and headers -/

/-- The value of a digit or a letter. -/
def digitValue (symbol : UInt8) : Option Nat :=
  if isDigit symbol then some (symbol.toNat - 0x30)
  else if 0x61 ≤ symbol && symbol ≤ 0x7A then some (symbol.toNat - 0x61 + 10)
  else if 0x41 ≤ symbol && symbol ≤ 0x5A then some (symbol.toNat - 0x41 + 10)
  else none

def leadingDigits (base : Nat) : StdString → List Nat
  | [] => []
  | symbol :: rest =>
    match digitValue symbol with
    | none => []
    | some digit => if digit < base then digit :: leadingDigits base rest else []

def signLength (text : StdString) : Nat :=
  match text with
  | symbol :: _ => if symbol = ascii '-' ∨ symbol = ascii '+' then 1 else 0
  | [] => 0

/-- `0x` in front of a hexadecimal digit. -/
def baseLength (base : Nat) (text : StdString) : Nat :=
  match text with
  | zero :: letter :: rest =>
    if base = 16 ∧ zero = ascii '0' ∧ (letter = ascii 'x' ∨ letter = ascii 'X') ∧
        leadingDigits base rest ≠ [] then 2
    else 0
  | _ => 0

/-- `std::stoul`: the number and the position behind it. -/
def stoul (text : StdString) (base : Nat) : Except HttpError (Nat × Nat) :=
  let blanks := (text.takeWhile isSpace).length
  let signed := text.drop blanks
  let sign := signLength signed
  let based := signed.drop sign
  let digits := leadingDigits base (based.drop (baseLength base based))
  let value := digits.foldl (fun value digit => value * base + digit) 0
  if digits = [] then .error .invalidArgument
  else if 2 ^ 64 ≤ value then .error .outOfRange
  else
    let result := if signed.head? = some (ascii '-') then (2 ^ 64 - value) % 2 ^ 64 else value
    .ok (result, blanks + sign + baseLength base based + digits.length)

def trim (text : StdString) : StdString := (text.dropWhile isSpace).rdropWhile isSpace

/-- `http_message::get_header`. -/
def getHeader (headers : List StdString) (name : StdString) : Option StdString :=
  headers.findSome? fun p =>
    if p.length > name.length && p.getD name.length 0 == UrlParser.colon &&
        p.take name.length == name then
      some (trim (p.drop (name.length + 1)))
    else none

/-! ### The parser -/

inductive ParserState
  | parseHeader
  | parseBody
  | parseSize
  | parseFinishChunk
  | parseFinishChunk1
  deriving DecidableEq, Repr

structure HttpParser where
  eof : Bool
  parseBuffer : StdString
  headers : List StdString
  state : ParserState
  contentLength : Nat
  chunkedEncoding : Bool
  expect100 : Bool
  /-- There is a stream for the body of the message. -/
  currentMessage : Bool
  deriving DecidableEq, Repr

namespace HttpParser

/-- A new parser; what the constructor leaves open is set before it is read. -/
def create : HttpParser where
  eof := false
  parseBuffer := []
  headers := []
  state := .parseHeader
  contentLength := 0
  chunkedEncoding := false
  expect100 := false
  currentMessage := false

/-- `(size_t)-1`. -/
def noLength : Nat := 2 ^ 64 - 1

/-- What the parser calls, over the state of its owner. -/
structure Callbacks (σ : Type) where
  /-- `message_callback_`: the answer says whether there is a stream. -/
  message : List StdString → EStateM String σ Bool
  /-- `current_message_->write_async`; the empty write ends the body. -/
  write : ConstDataBuffer → EStateM String σ Unit
  finishMessage : EStateM String σ Unit
  beforeClose : EStateM String σ Unit

abbrev ParserM (σ : Type) := EStateM HttpError (HttpParser × σ)

section

variable {σ : Type}

def update (f : HttpParser → HttpParser) : ParserM σ Unit := modify fun s => (f s.1, s.2)

/-- A callback works on the state of the owner. -/
def call {α : Type} (x : EStateM String σ α) : ParserM σ α := fun s =>
  match x s.2 with
  | .ok a t => .ok a (s.1, t)
  | .error e t => .error (.callback e) (s.1, t)

variable (callbacks : Callbacks σ)

def writeMessage (data : ConstDataBuffer) : ParserM σ Unit := do
  let s ← get
  if s.1.currentMessage then call (callbacks.write data) else throw .undefined

def endMessage : ParserM σ Unit := do
  let s ← get
  if s.1.currentMessage then do
    call (callbacks.write [])
    update fun p => { p with currentMessage := false }

def finishBody : ParserM σ Unit := do
  endMessage callbacks
  let s ← get
  if s.1.chunkedEncoding then
    update fun p => { p with state := .parseFinishChunk, parseBuffer := [] }
  else do
    call callbacks.finishMessage
    update fun p => { p with state := .parseHeader }

/-- The value of `Content-Length`. -/
def contentLengthOf (headers : List StdString) : Except HttpError Nat :=
  match getHeader headers (bytesOf "Content-Length") with
  | none => .ok noLength
  | some value =>
    match stoul value 10 with
    | .ok (length, _) => .ok length
    | .error e => .error e

def isChunked (headers : List StdString) : Bool :=
  getHeader headers (bytesOf "Transfer-Encoding") = some (bytesOf "chunked")

def expects100 (headers : List StdString) : Bool :=
  getHeader headers (bytesOf "Expect") = some (bytesOf "100-continue")

/-- The empty line behind the headers. -/
def endHeaders : ParserM σ Unit := do
  let s ← get
  if s.1.headers = [] then throw (.logicError (bytesOf "Invalid request"))
  else do
    update fun p => { p with
      chunkedEncoding := isChunked s.1.headers
      expect100 := expects100 s.1.headers }
    match contentLengthOf s.1.headers with
    | .error e => throw e
    | .ok length => do
      update fun p => { p with contentLength := length }
      let current ← call (callbacks.message s.1.headers)
      update fun p => { p with
        currentMessage := current
        headers := []
        contentLength := if current then p.contentLength else 0 }
      let s ← get
      if s.1.contentLength = 0 then finishBody callbacks
      else update fun p => { p with
        state := if p.chunkedEncoding then .parseSize else .parseBody }

/-- The carriage return at the end of a line is dropped. -/
def stripReturn (line : StdString) : StdString :=
  if line.getLast? = some carriageReturn then line.dropLast else line

/-- A line of the headers is complete. -/
def headerLine : ParserM σ Unit := do
  update fun p => { p with parseBuffer := stripReturn p.parseBuffer }
  let s ← get
  if s.1.parseBuffer = [] then endHeaders callbacks
  else update fun p => { p with headers := p.headers ++ [p.parseBuffer], parseBuffer := [] }

/-- `memchr` for a line feed. -/
def lineEnd (data : ConstDataBuffer) : Option Nat := data.findIdx? (· == lineFeed)

def append (data : ConstDataBuffer) : ParserM σ Unit :=
  update fun p => { p with parseBuffer := p.parseBuffer ++ data }

def headerTurn (data : ConstDataBuffer) : ParserM σ ConstDataBuffer := do
  match lineEnd data with
  | none => do
    append data
    return []
  | some size => do
    append (data.take size)
    headerLine callbacks
    return data.drop (size + 1)

def bodyTurn (data : ConstDataBuffer) : ParserM σ ConstDataBuffer := do
  let s ← get
  if s.1.contentLength = 0 then do
    finishBody callbacks
    return data
  else do
    let size := min data.length s.1.contentLength
    writeMessage callbacks (data.take size)
    update fun p => { p with contentLength := p.contentLength - size }
    let s ← get
    if s.1.contentLength = 0 then finishBody callbacks
    return data.drop size

/-- The line with the size of a chunk; the buffer keeps its line feed. -/
def sizeLine (data : ConstDataBuffer) : ParserM σ ConstDataBuffer := do
  let s ← get
  let line := s.1.parseBuffer
  if line.length < 3 ∨ line.getD (line.length - 2) 0 ≠ carriageReturn ∨
      line.getD (line.length - 1) 0 = lineFeed then
    throw (.runtimeError (bytesOf "Invalid protocol"))
  else do
    update fun p => { p with parseBuffer := line.take (line.length - 2) }
    match stoul (line.take (line.length - 2)) 16 with
    | .error e => throw e
    | .ok (length, pos) => do
      update fun p => { p with contentLength := length }
      if pos < line.length - 2 then
        throw (.runtimeError (bytesOf "Invalid size " ++ line.take (line.length - 2)))
      else do
        update fun p => { p with state := if 0 < length then .parseBody else .parseHeader }
        return data

/-- Without a line feed the loop goes on with the same data. -/
def sizeTurn (data : ConstDataBuffer) : ParserM σ ConstDataBuffer := do
  match lineEnd data with
  | none => do
    append data
    return data
  | some size => do
    append (data.take (size + 1))
    sizeLine (data.drop (size + 1))

def chunkEndTurn (expected : UInt8) (next : ParserState) (data : ConstDataBuffer) :
    ParserM σ ConstDataBuffer := do
  if data.head? = some expected then do
    update fun p => { p with state := next }
    return data.drop 1
  else throw (.runtimeError (bytesOf "Invalid data"))

/-- One turn of the loop; the data that is left. -/
def turn (data : ConstDataBuffer) : ParserM σ ConstDataBuffer := do
  let s ← get
  match s.1.state with
  | .parseHeader => headerTurn callbacks data
  | .parseBody => bodyTurn callbacks data
  | .parseSize => sizeTurn data
  | .parseFinishChunk => chunkEndTurn carriageReturn .parseFinishChunk1 data
  | .parseFinishChunk1 => chunkEndTurn lineFeed .parseSize data

/-- The loop of `write_async` for so many turns. -/
def loop : Nat → ConstDataBuffer → ParserM σ Unit
  | _, [] => pure ()
  | 0, _ :: _ => throw .running
  | fuel + 1, b :: data => do
    let rest ← turn callbacks (b :: data)
    loop fuel rest

/-- The end of the stream. -/
def close : ParserM σ Unit := do
  update fun p => { p with eof := true }
  let s ← get
  (match s.1.state with
    | .parseHeader => pure ()
    | _ => finishBody callbacks)
  call callbacks.beforeClose

/-- `write_async` for so many turns; no data is the end of the stream. -/
def writeAsync (fuel : Nat) (data : ConstDataBuffer) : ParserM σ Unit :=
  if data.isEmpty then close callbacks else loop callbacks fuel data

end

end HttpParser

end Vds.Http
