import Vds.Http.WebsocketFrame

/-! Messages from the client to the server: `websocket_client::send_message`, and `websocket_handler`, which
gets the bytes in pieces. -/

namespace Vds.Http

/-! ### The client -/

abbrev Mask := Fin 4 → UInt8

/-- A mask is never empty, so that its index may be taken modulo its size. -/
scoped instance neZeroMask : NeZero (4 : Nat) := ⟨by decide⟩

/-- The last loop of `send_message`; its index is a `uint8_t`. -/
def maskPayload (mask : Mask) : UInt8 → ConstDataBuffer → ConstDataBuffer
  | _, [] => []
  | index, b :: rest =>
    (mask (Fin.ofNat 4 (3 &&& index).toNat) ^^^ b) :: maskPayload mask (index + 1) rest

def clientHeader (mask : Mask) (m : Message) : ConstDataBuffer :=
  Message.firstByte m.isBinary :: (sizeBytes 0x80 m.size ++ List.ofFn mask)

/-- What `send_message` writes to the body stream when `std::rand` has given it the mask. -/
def sendMessage (mask : Mask) (m : Message) : ConstDataBuffer :=
  clientHeader mask m ++ maskPayload mask 0 m.payload

/-! ### The handler -/

/-- What the handler of a connection and the streams that it opens are called with. -/
inductive Delivery
  | start (isBinary : Bool)
  | startPong (size : Nat)
  | byte (b : UInt8)
  /-- `write_async(nullptr, 0)`. -/
  | finish
  deriving DecidableEq

inductive ReadState
  | header
  | text
  | binary
  | ping
  | closed
  deriving DecidableEq

inductive HandlerError
  | runtimeError (what : String)
  /-- The behaviour of the program is undefined: an `int` grows behind its greatest value. -/
  | undefined
  /-- The evaluation of the loop was cut short; the code has no such error. -/
  | outOfFuel
  deriving DecidableEq

structure HandlerState where
  readState : ReadState := .header
  /-- The first `readed_` bytes of `buffer_`. -/
  buffer : ConstDataBuffer := []
  hasMask : Bool := false
  payloadLength : Nat := 0
  mask : Mask := fun _ => 0
  maskIndex : Nat := 0
  deliveries : List Delivery := []

/-- The size of `buffer_`. -/
def bufferSize : Nat := 1024 * 1024

/-- One round of the loop of `write_async`: it returns, or goes on with what is left of the data. -/
inductive Turn
  | returns (result : Except HandlerError Unit) (s : HandlerState)
  | again (s : HandlerState) (data : ConstDataBuffer)

namespace HandlerState

/-- `read_minimal`: fills the buffer up to `minSize` bytes. -/
def readMinimal (minSize : Nat) (s : HandlerState) (data : ConstDataBuffer) : HandlerState × ConstDataBuffer :=
  let l := min data.length (minSize - s.buffer.length)
  ({ s with buffer := s.buffer ++ data.take l }, data.drop l)

/-- The switch over the opcode. -/
def openFrame (s : HandlerState) (data : ConstDataBuffer) : Turn :=
  let opcode := s.buffer.getD 0 0 &&& 0x0F
  if opcode = 0x1 then .again { s with readState := .text, deliveries := s.deliveries ++ [.start false] } data
  else if opcode = 0x2 then
    .again { s with readState := .binary, deliveries := s.deliveries ++ [.start true] } data
  else if opcode = 0x8 then .returns (.error (.runtimeError "Not implemented")) s
  else if opcode = 0x9 then
    .again { s with readState := .ping, deliveries := s.deliveries ++ [.startPong s.payloadLength] } data
  else .returns (.error (.runtimeError "Not implemented")) { s with readState := .closed }

/-- What the handler keeps of a header that is there as a whole. -/
def takeHeader (s : HandlerState) : HandlerState :=
  let offset := offsetOf (s.buffer.getD 1 0)
  { s with
    payloadLength := (payloadLengthOf s.buffer).toNat
    mask := if s.hasMask then fun i => s.buffer.getD (offset + i) 0 else s.mask
    maskIndex := if s.hasMask then 0 else s.maskIndex }

/-- The header behind its first two bytes. -/
def headerRest (s : HandlerState) (data : ConstDataBuffer) : Turn :=
  let second := s.buffer.getD 1 0
  let s := { s with hasMask := hasMaskBit second, payloadLength := (shortLength second).toNat }
  let minSize := offsetOf second + maskSize s.hasMask
  let whole := s.readMinimal minSize data
  if whole.1.buffer.length < minSize then .returns (.ok ()) whole.1
  else openFrame whole.1.takeHeader whole.2

def headerTurn (s : HandlerState) (data : ConstDataBuffer) : Turn :=
  let first := s.readMinimal 3 data
  if first.1.buffer.length < 3 then .returns (.ok ()) first.1
  else headerRest first.1 first.2

/-- Takes the mask off; the index is an `int`. -/
def unmask (mask : Mask) : Nat → ConstDataBuffer → Except HandlerError (ConstDataBuffer × Nat)
  | index, [] => .ok ([], index)
  | index, b :: rest =>
    if 2 ^ 31 ≤ index + 1 then .error .undefined
    else do
      let (bytes, last) ← unmask mask (index + 1) rest
      return ((b ^^^ mask (Fin.ofNat 4 index)) :: bytes, last)

/-- The end of the message, if nothing of it is left. -/
def closeFrame (s : HandlerState) (data : ConstDataBuffer) : Turn :=
  let s := { s with buffer := [] }
  if s.payloadLength = 0 then
    .again { s with readState := .header, deliveries := s.deliveries ++ [.finish] } data
  else .again s data

/-- The first `size` bytes of the data go to the stream. -/
def passBytes (s : HandlerState) (bytes : ConstDataBuffer) (size : Nat) (data : ConstDataBuffer) : Turn :=
  closeFrame { s with
    payloadLength := s.payloadLength - size
    deliveries := s.deliveries ++ bytes.map .byte } (data.drop size)

def payloadTurn (s : HandlerState) (data : ConstDataBuffer) : Turn :=
  let size := min data.length s.payloadLength
  if 0 < size then
    if s.hasMask then
      let size := min size bufferSize
      match unmask s.mask s.maskIndex (data.take size) with
      | .error e => .returns (.error e) s
      | .ok (bytes, maskIndex) => passBytes { s with maskIndex } bytes size data
    else passBytes s (data.take size) size data
  else closeFrame s data

def turn (s : HandlerState) (data : ConstDataBuffer) : Turn :=
  match s.readState with
  | .header => headerTurn s data
  | .ping => payloadTurn s data
  | .text => payloadTurn s data
  | .binary => payloadTurn s data
  | .closed => .returns (.error (.runtimeError "Not implemented")) s

def loop : Nat → HandlerState → ConstDataBuffer → Except HandlerError Unit × HandlerState
  | 0, s, _ => (.error .outOfFuel, s)
  | n + 1, s, data =>
    if data.isEmpty then (.ok (), s)
    else
      match turn s data with
      | .returns result s => (result, s)
      | .again s data => loop n s data

/-- `websocket_handler::write_async`. Two rounds take at least one byte. -/
def writeAsync (s : HandlerState) (data : ConstDataBuffer) : Except HandlerError Unit × HandlerState :=
  if data.isEmpty then (.ok (), { s with readState := .closed })
  else loop (2 * data.length + 2) s data

/-- The reads one after another, until one fails. -/
def receive (s : HandlerState) : List ConstDataBuffer → Except HandlerError Unit × HandlerState
  | [] => (.ok (), s)
  | data :: reads =>
    match s.writeAsync data with
    | (.ok (), s) => receive s reads
    | (.error e, s) => (.error e, s)

end HandlerState

/-! ### What should be delivered -/

/-- The messages that are sent, each with its mask. -/
abbrev Sends := List (Mask × Message)

def wire (sends : Sends) : ConstDataBuffer := sends.flatMap fun x => sendMessage x.1 x.2

def delivery (m : Message) : List Delivery :=
  .start m.isBinary :: (m.payload.map .byte ++ [.finish])

/-- What the first `n` bytes of the stream bring: a message begins with the last byte of its header and ends
with its own last byte. -/
def dueAt : Sends → Nat → List Delivery
  | [], _ => []
  | (mask, m) :: sends, n =>
    let header := (clientHeader mask m).length
    if n < header then []
    else if n < header + m.payload.length then .start m.isBinary :: (m.payload.take (n - header)).map .byte
    else delivery m ++ dueAt sends (n - (header + m.payload.length))

/-- After every read the handler has delivered what the bytes so far bring, and nothing else. -/
def DeliversAll (sends : Sends) (reads : List ConstDataBuffer) : Prop :=
  ∀ k, (HandlerState.receive {} (reads.take k)).2.deliveries = dueAt sends (reads.take k).flatten.length

end Vds.Http
