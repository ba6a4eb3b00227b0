import Vds.Http.WebsocketHandler

/-! Messages from the server to the client: `websocket_output`, and the input stream of `websocket_client`,
which looks for one message in every read. -/

namespace Vds.Http

/-! ### The server -/

inductive OutputError
  /-- The mutex is held, so that the call waits for a message that is never finished. -/
  | blocked
  /-- `unlock` of a mutex that nobody holds, or a size below zero. -/
  | undefined
  deriving DecidableEq

/-- `websocket_output` with the bytes of its target. -/
structure WebsocketOutput where
  target : ConstDataBuffer := []
  locked : Bool := false

abbrev OutputM (α : Type) := EStateM OutputError WebsocketOutput α

namespace WebsocketOutput

def serverHeader (isBinary : Bool) (size : UInt64) : ConstDataBuffer :=
  Message.firstByte isBinary :: sizeBytes 0 size

/-- `websocket_output::start`; the result is the size that the stream still expects. -/
def start (size : UInt64) (isBinary : Bool) : OutputM UInt64 := do
  let s ← get
  if s.locked then throw .blocked
  else do
    set { s with target := s.target ++ serverHeader isBinary size, locked := true }
    return size

/-- `output_stream::write_async`; the result is the size that is left. -/
def writeAsync (size : UInt64) (data : ConstDataBuffer) : OutputM UInt64 := do
  let s ← get
  if size.toNat < data.length then throw .undefined
  else
    let left := size - UInt64.ofNat data.length
    if left ≠ 0 then do
      set { s with target := s.target ++ data }
      return left
    else if s.locked then do
      set { s with target := s.target ++ data, locked := false }
      return left
    else throw .undefined

/-- The writes to one stream. -/
def writePieces : UInt64 → List ConstDataBuffer → OutputM UInt64
  | size, [] => return size
  | size, data :: pieces => do
    let size ← writeAsync size data
    writePieces size pieces

end WebsocketOutput

/-- A message with the pieces in which it is written; an empty one is one empty write. -/
structure Written where
  message : Message
  front : List ConstDataBuffer
  last : ConstDataBuffer
  whole : front.flatten ++ last = message.payload
  lastOnly : last ≠ [] ∨ front = []

namespace WebsocketOutput

def writeMessage (w : Written) : OutputM Unit := do
  let size ← start w.message.size w.message.isBinary
  let _ ← writePieces size (w.front ++ [w.last])

end WebsocketOutput

/-! ### The client -/

inductive InputError
  | runtimeError (what : String)
  deriving DecidableEq

/-- The input stream of the client, with what the text and the binary handler have got. -/
structure InputState where
  buffer : ConstDataBuffer := []
  received : List (Bool × ConstDataBuffer) := []

namespace InputState

/-- The switch over the opcode, and the end of the function. -/
def handle (s : InputState) (offset size : Nat) : Except InputError Unit × InputState :=
  let opcode := s.buffer.getD 0 0 &&& 0x0F
  let payload := (s.buffer.drop offset).take size
  let rest := s.buffer.drop (offset + size)
  if opcode = 0x1 then (.ok (), { buffer := rest, received := s.received ++ [(false, payload)] })
  else if opcode = 0x2 then (.ok (), { buffer := rest, received := s.received ++ [(true, payload)] })
  else (.error (.runtimeError "Unexpected opcode "), s)

/-- Takes the mask off in the buffer. -/
def unmaskBuffer (buffer : ConstDataBuffer) (offset size : Nat) : ConstDataBuffer :=
  let mask : Mask := fun i => buffer.getD (offset + i) 0
  let first := offset + 4
  buffer.take first ++ (maskPayload mask 0 ((buffer.drop first).take size) ++ buffer.drop (first + size))

/-- `input_stream::write_async`. The sum of the sizes is a `uint64_t`. -/
def writeAsync (s : InputState) (data : ConstDataBuffer) : Except InputError Unit × InputState :=
  if data.isEmpty then
    if s.buffer.isEmpty then (.ok (), s) else (.error (.runtimeError "Unexpected end of stream"), s)
  else
    let s := { s with buffer := s.buffer ++ data }
    if s.buffer.length < 2 then (.ok (), s)
    else
      let second := s.buffer.getD 1 0
      let hasMask := hasMaskBit second
      let offset := offsetOf second
      if s.buffer.length < offset + maskSize hasMask then (.ok (), s)
      else
        let size := payloadLengthOf s.buffer
        if s.buffer.length < (size + UInt64.ofNat offset + UInt64.ofNat (maskSize hasMask)).toNat then (.ok (), s)
        else if hasMask then
          { s with buffer := unmaskBuffer s.buffer offset size.toNat }.handle (offset + 4) size.toNat
        else s.handle offset size.toNat

/-- The reads one after another, until one fails. -/
def receive (s : InputState) : List ConstDataBuffer → Except InputError Unit × InputState
  | [] => (.ok (), s)
  | data :: reads =>
    match s.writeAsync data with
    | (.ok (), s) => receive s reads
    | (.error e, s) => (.error e, s)

end InputState

/-! ### What is written -/

open WebsocketOutput

def serverFrame (m : Message) : ConstDataBuffer := serverHeader m.isBinary m.size ++ m.payload

def serverWire (messages : List Message) : ConstDataBuffer := messages.flatMap serverFrame

/-- The number of messages whose last byte is among the first `n` bytes. -/
def completeAt : List Message → Nat → Nat
  | [], _ => 0
  | m :: messages, n =>
    if (serverFrame m).length ≤ n then completeAt messages (n - (serverFrame m).length) + 1 else 0

open StateError

section

variable {target : ConstDataBuffer} {n : Nat}

theorem ofNat_ne_zero (hn : n < 2 ^ 63) (h : 0 < n) : UInt64.ofNat n ≠ 0 := by
  intro h0
  have hv := congrArg UInt64.toNat h0
  rw [UInt64.toNat_ofNat_of_lt' (hn.trans (by decide))] at hv
  exact h.ne' hv

theorem writeAsync_more {data : ConstDataBuffer} (hn : n < 2 ^ 63) (h : data.length < n) :
    WebsocketOutput.writeAsync (UInt64.ofNat n) data ⟨target, true⟩ =
      .ok (UInt64.ofNat (n - data.length)) ⟨target ++ data, true⟩ := by
  have hsize : (UInt64.ofNat n).toNat = n := UInt64.toNat_ofNat_of_lt' (hn.trans (by decide))
  have hget : (get : OutputM WebsocketOutput) ⟨target, true⟩ = .ok ⟨target, true⟩ ⟨target, true⟩ := rfl
  unfold WebsocketOutput.writeAsync
  rw [bind_of_ok hget, if_neg (by omega), ← UInt64.ofNat_sub h.le]
  dsimp only
  rw [if_pos (ofNat_ne_zero (by omega) (by omega))]
  rfl

theorem writeAsync_last {data : ConstDataBuffer} (hn : n < 2 ^ 63) (h : data.length = n) :
    WebsocketOutput.writeAsync (UInt64.ofNat n) data ⟨target, true⟩ = .ok 0 ⟨target ++ data, false⟩ := by
  have hsize : (UInt64.ofNat n).toNat = n := UInt64.toNat_ofNat_of_lt' (hn.trans (by decide))
  have hget : (get : OutputM WebsocketOutput) ⟨target, true⟩ = .ok ⟨target, true⟩ ⟨target, true⟩ := rfl
  unfold WebsocketOutput.writeAsync
  rw [bind_of_ok hget, if_neg (by omega), h, UInt64.sub_self]
  rfl

theorem writePieces_apply {front : List ConstDataBuffer} {last : ConstDataBuffer} (hn : n < 2 ^ 63)
    (h : (front.flatten ++ last).length = n) (hlast : last ≠ [] ∨ front = []) :
    writePieces (UInt64.ofNat n) (front ++ [last]) ⟨target, true⟩ =
      .ok 0 ⟨target ++ (front.flatten ++ last), false⟩ := by
  induction front generalizing n target with
  | nil =>
    change (WebsocketOutput.writeAsync (UInt64.ofNat n) last >>= fun size => writePieces size []) _ = _
    rw [List.flatten_nil, List.nil_append] at h ⊢
    rw [bind_of_ok (writeAsync_last hn h)]
    rfl
  | cons data front ih =>
    have hne : last ≠ [] := hlast.resolve_right (List.cons_ne_nil _ _)
    have hpos := List.length_pos_iff.mpr hne
    rw [List.flatten_cons, List.append_assoc, List.length_append, List.length_append] at h
    change (WebsocketOutput.writeAsync (UInt64.ofNat n) data >>= fun size => writePieces size (front ++ [last])) _ = _
    rw [bind_of_ok (writeAsync_more hn (by omega)), ih (by omega) (by rw [List.length_append]; omega) (.inl hne),
      List.flatten_cons, List.append_assoc, List.append_assoc]

theorem writeMessage_apply (w : Written) :
    writeMessage w ⟨target, false⟩ = .ok () ⟨target ++ serverFrame w.message, false⟩ := by
  have hstart : start w.message.size w.message.isBinary ⟨target, false⟩ =
      .ok w.message.size ⟨target ++ serverHeader w.message.isBinary w.message.size, true⟩ := rfl
  unfold writeMessage
  rw [bind_of_ok hstart]
  have hpieces := @writePieces_apply (target ++ serverHeader w.message.isBinary w.message.size)
    _ w.front w.last w.message.small (congrArg List.length w.whole) w.lastOnly
  rw [w.whole, List.append_assoc] at hpieces
  change writePieces w.message.size _ _ = _ at hpieces
  rw [bind_of_ok hpieces]
  rfl

end

/-- The target of the output gets the frames one behind the other. -/
theorem writeMessages_apply (ws : List Written) (target : ConstDataBuffer) :
    ws.forM writeMessage ⟨target, false⟩ =
      .ok () ⟨target ++ serverWire (ws.map Written.message), false⟩ := by
  induction ws generalizing target with
  | nil =>
    rw [List.map_nil]
    unfold serverWire
    rw [List.flatMap_nil, List.append_nil]
    rfl
  | cons w ws ih =>
    refine forM_cons_eq_ok.mpr ⟨_, writeMessage_apply w, ?_⟩
    rw [ih, List.append_assoc]
    rfl

end Vds.Http
