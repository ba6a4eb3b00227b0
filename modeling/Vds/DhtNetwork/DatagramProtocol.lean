import Vds.Kernel.BinarySerialize
import Vds.Library.OrderedMap

/-! A session over datagrams, `dht_datagram_protocol`: messages are cut into numbered datagrams, the
receiver puts them together in their order and acknowledges what it has. -/

namespace Vds.DhtNetwork

open BinarySerializer BinaryDeserializer

/-- The `hmac` of the crypto library with SHA-256. -/
structure Hmac where
  signature : ConstDataBuffer → ConstDataBuffer → ConstDataBuffer
  size : ∀ key data, (signature key data).length = 32
  verify : ConstDataBuffer → ConstDataBuffer → ConstDataBuffer → Expected Bool

inductive ProtocolError
  | runtimeError (what : String)
  /-- The function reads behind the end of a datagram. -/
  | outOfRange
  /-- The transport fails to write. -/
  | notWritten
  /-- The function does not come back, or the evaluation of a loop was cut short. -/
  | outOfFuel
  deriving DecidableEq

/-! ### protocol_message_type_t -/

namespace MessageType

def continueData : UInt8 := 3

def mtuTest : UInt8 := 6

def acknowledgment : UInt8 := 7

/-- The bits of the command in the first byte of a datagram. -/
def specialCommand : UInt8 := 0xE0

def singleData : UInt8 := 0x20

def data : UInt8 := 0x40

def routeSingleData : UInt8 := 0x60

def routeData : UInt8 := 0x80

def proxySingleData : UInt8 := 0xA0

def proxyData : UInt8 := 0xC0

end MessageType

/-- What `process_message` is called with. -/
structure Incoming where
  messageType : UInt8
  targetNode : ConstDataBuffer
  hops : List ConstDataBuffer
  message : ConstDataBuffer
  deriving DecidableEq

def checkMtuTimeout : Nat := 10

def minMtu : Nat := 508

/-- In calls of `on_timer`. -/
def sendTimeout : Nat := 600

/-- Ten minutes of `steady_clock`, in nanoseconds. -/
def processTimeout : Int := 600000000000

/-- The numbers of datagrams are `uint32_t`. -/
def indexMod : Nat := 2 ^ 32

structure DatagramProtocol where
  failedState : Bool := false
  checkMtu : Nat := 0
  lastSent : Nat := 0
  thisNodeId : ConstDataBuffer
  partnerNodeId : ConstDataBuffer
  sessionKey : ConstDataBuffer
  mtu : Nat := minMtu
  inputMtu : Nat := 0
  lastOutputIndex : Nat := 0
  outputMessages : OrderedMap Nat ConstDataBuffer := .empty
  lastInputIndex : Nat := 0
  expectedIndex : Nat := 0
  lastProcessed : Int
  inputMessages : OrderedMap Nat ConstDataBuffer := .empty

/-- A session and what it does: the calls of `process_message` and the written datagrams, both in their
order. -/
structure Session where
  self : DatagramProtocol
  processed : List Incoming := []
  written : List ConstDataBuffer := []
  /-- `steady_clock::now()`. -/
  now : Int
  /-- Which of the next writes the transport refuses. -/
  refuses : List Bool := []

abbrev SessionM (α : Type) := EStateM ProtocolError Session α

def modifySelf (f : DatagramProtocol → DatagramProtocol) : SessionM Unit :=
  modify fun s => { s with self := f s.self }

def writeAsync (datagram : ConstDataBuffer) : SessionM Unit := do
  let s ← get
  match s.refuses with
  | true :: refuses => do
    set { s with refuses }
    throw .notWritten
  | false :: refuses => set { s with refuses, written := s.written ++ [datagram] }
  | [] => set { s with written := s.written ++ [datagram] }

variable (hmac : Hmac)

/-! ### Sending -/

def indexBytes (index : Nat) : ConstDataBuffer := putUInt32 (UInt32.ofNat index)

/-- Signs a datagram with the next number and queues it. -/
def addDatagram (command : UInt8) (body : ConstDataBuffer) : SessionM Unit :=
  modifySelf fun p =>
    let buffer := command :: indexBytes p.lastOutputIndex ++ body
    { p with
      outputMessages := p.outputMessages.emplace p.lastOutputIndex
        (buffer ++ hmac.signature p.sessionKey buffer)
      lastOutputIndex := (p.lastOutputIndex + 1) % indexMod }

/-- The datagrams after the first one; at least one is made. -/
def addContinueData (size : Nat) : Nat → ConstDataBuffer → SessionM Unit
  | 0, _ => throw .outOfFuel
  | n + 1, rest => do
    addDatagram hmac MessageType.continueData (rest.take size)
    if rest.length ≤ size then return ()
    else addContinueData size n (rest.drop size)

/-- The bytes between the number, or the size, and the message. -/
def routing (partnerNodeId targetNode : ConstDataBuffer) (hops : List ConstDataBuffer) : ConstDataBuffer :=
  if hops.isEmpty then
    if partnerNodeId = targetNode then [] else targetNode
  else targetNode ++ UInt8.ofNat hops.length :: hops.flatten

/-- One of three commands, by the way the message goes. -/
def byRoute (partnerNodeId targetNode : ConstDataBuffer) (hops : List ConstDataBuffer)
    (direct route proxy : UInt8) : UInt8 :=
  if hops.isEmpty then
    if partnerNodeId = targetNode then direct else route
  else proxy

/-- The size of `routing` as `prepare_to_send` counts it. -/
def routingSize (partnerNodeId targetNode : ConstDataBuffer) (hops : List ConstDataBuffer) : Nat :=
  if hops.isEmpty then
    if partnerNodeId = targetNode then 0 else 32
  else 32 + 1 + hops.length * 32

/-- The callers keep the MTU above the size of an empty first datagram. -/
def prepareToSend (messageType : UInt8) (targetNode : ConstDataBuffer) (hops : List ConstDataBuffer)
    (message : ConstDataBuffer) : SessionM (Nat × Nat) := do
  let p := (← get).self
  let startIndex := p.lastOutputIndex
  let extra := routing p.partnerNodeId targetNode hops
  let extraSize := routingSize p.partnerNodeId targetNode hops
  let command := byRoute p.partnerNodeId targetNode hops
  if 1 + 4 + 32 + message.length + extraSize < p.mtu then
    addDatagram hmac (command MessageType.singleData MessageType.routeSingleData
      MessageType.proxySingleData ||| messageType) (extra ++ message)
  else do
    let offset := p.mtu - (1 + 4 + 4 + 32 + extraSize)
    addDatagram hmac (command MessageType.data MessageType.routeData MessageType.proxyData ||| messageType)
      (putUInt32 (UInt32.ofNat message.length) ++ extra ++ message.take offset)
    addContinueData hmac (p.mtu - (1 + 4 + 32)) (message.length + 1) (message.drop offset)
  let finalIndex := (← get).self.lastOutputIndex
  if finalIndex < startIndex then do
    modifySelf fun p => { p with failedState := true }
    throw (.runtimeError "Overflow pipeline")
  else return (startIndex, finalIndex)

/-- Writes the datagram with a number, if it is still queued. -/
def resend (index : Nat) : SessionM Unit := do
  match (← get).self.outputMessages.find index with
  | some datagram => writeAsync datagram
  | none => return ()

/-- `send_message_async`. -/
def sendMessage (messageType : UInt8) (targetNode : ConstDataBuffer) (hops : List ConstDataBuffer)
    (message : ConstDataBuffer) : SessionM Unit := do
  let (startIndex, finalIndex) ← prepareToSend hmac messageType targetNode hops message
  (List.range' startIndex (finalIndex - startIndex)).forM resend

/-! ### Receiving -/

/-- `size` bytes of a datagram from `offset` on. -/
def bytesAt (datagram : ConstDataBuffer) (offset size : Nat) : Except ProtocolError ConstDataBuffer :=
  if offset + size ≤ datagram.length then .ok ((datagram.drop offset).take size)
  else .error .outOfRange

/-- What stands between `offset` and the signature. -/
def bodyFrom (datagram : ConstDataBuffer) (offset : Nat) : Except ProtocolError ConstDataBuffer :=
  if offset + 32 ≤ datagram.length then .ok ((datagram.drop offset).take (datagram.length - 32 - offset))
  else .error .outOfRange

def numberAt (datagram : ConstDataBuffer) (offset size : Nat) : Except ProtocolError Nat := do
  return (bigEndian (← bytesAt datagram offset size)).toNat

/-- The hops that a datagram lists from `offset` on. -/
def hopsAt (datagram : ConstDataBuffer) (offset : Nat) : Nat → Except ProtocolError (List ConstDataBuffer)
  | 0 => return []
  | n + 1 => do
    let hop ← bytesAt datagram offset 32
    return hop :: (← hopsAt datagram (offset + 32) n)

/-- What the first datagram of a message says. -/
inductive Head
  /-- The whole message. -/
  | single (incoming : Incoming)
  /-- The beginning of a message and the size of what is missing. -/
  | multi (incoming : Incoming) (size : Nat)
  /-- No datagram that a message begins with. -/
  | unknown

/-- The two `switch` statements of `continue_process_messages` on the datagram that is expected. The sizes
are unsigned: a datagram that is too short for its header has a huge one. -/
def readHead (thisNodeId partnerNodeId datagram : ConstDataBuffer) : Except ProtocolError Head := do
  let first ← numberAt datagram 0 1
  let command := UInt8.ofNat first &&& MessageType.specialCommand
  let messageType := UInt8.ofNat first &&& ~~~MessageType.specialCommand
  if command = MessageType.singleData then do
    let message ← bodyFrom datagram 5
    return .single ⟨messageType, thisNodeId, [partnerNodeId], message⟩
  else if command = MessageType.routeSingleData then do
    let targetNode ← bytesAt datagram 5 32
    let message ← bodyFrom datagram 37
    return .single ⟨messageType, targetNode, [partnerNodeId], message⟩
  else if command = MessageType.proxySingleData then do
    let targetNode ← bytesAt datagram 5 32
    let hopsCount ← numberAt datagram 37 1
    let hops ← hopsAt datagram 38 hopsCount
    let message ← bodyFrom datagram (38 + 32 * hopsCount)
    return .single ⟨messageType, targetNode, partnerNodeId :: hops, message⟩
  else if command = MessageType.data then do
    let size ← numberAt datagram 5 4
    if datagram.length < 41 ∨ size ≤ datagram.length - 41 then throw (.runtimeError "Invalid data")
    else do
      let message ← bodyFrom datagram 9
      return .multi ⟨messageType, thisNodeId, [partnerNodeId], message⟩ (size - (datagram.length - 41))
  else if command = MessageType.routeData then do
    let size ← numberAt datagram 5 4
    if datagram.length < 73 ∨ size ≤ datagram.length - 73 then throw (.runtimeError "Invalid data")
    else do
      let targetNode ← bytesAt datagram 9 32
      let message ← bodyFrom datagram 41
      return .multi ⟨messageType, targetNode, [partnerNodeId], message⟩ (size - (datagram.length - 73))
  else if command = MessageType.proxyData then do
    let size ← numberAt datagram 5 4
    -- this check counts one hop, whatever their number is
    if datagram.length < 106 ∨ size ≤ datagram.length - 106 then throw (.runtimeError "Invalid data")
    else do
      let targetNode ← bytesAt datagram 9 32
      let hopsCount ← numberAt datagram 41 1
      let hops ← hopsAt datagram 42 hopsCount
      let message ← bodyFrom datagram (42 + 32 * hopsCount)
      -- without hops the size may be too small, and wraps
      return .multi ⟨messageType, targetNode, partnerNodeId :: hops, message⟩
        ((size + 2 ^ 64 - (datagram.length - (74 + 32 * hopsCount))) % 2 ^ 64)
  else return .unknown

/-- Adds the datagrams after the first one to the message; `none` if one of them is still missing. The
result is the message with the number of the last datagram, counted from the first one. -/
def collect (inputMessages : OrderedMap Nat ConstDataBuffer) (expectedIndex : Nat) :
    Nat → Nat → Nat → ConstDataBuffer → Except ProtocolError (Option (ConstDataBuffer × Nat))
  | 0, _, _, _ => throw .outOfFuel
  | n + 1, index, size, message =>
    match inputMessages.find ((expectedIndex + (index + 1)) % indexMod) with
    | none => return none
    | some datagram => do
      if (← numberAt datagram 0 1) ≠ MessageType.continueData.toNat then
        throw (.runtimeError "Invalid data")
      else if datagram.length < 37 ∨ size < datagram.length - 37 then
        throw (.runtimeError "Invalid data")
      else do
        let message := message ++ (← bodyFrom datagram 5)
        let size := size - (datagram.length - 37)
        if size = 0 then return some (message, index + 1)
        else collect inputMessages expectedIndex n (index + 1) size message

/-- Moves `last_input_index_` behind all numbers without a gap. -/
def skipReceived (inputMessages : OrderedMap Nat ConstDataBuffer) : Nat → Nat → Nat
  | 0, index => index
  | n + 1, index =>
    if (inputMessages.find index).isSome then skipReceived inputMessages n ((index + 1) % indexMod)
    else index

/-- `process_message` is called for `incoming`, which `count` datagrams have brought. -/
def processMessage (incoming : Incoming) (count : Nat) : SessionM Unit :=
  modify fun s => { s with
    self := { s.self with
      expectedIndex := (s.self.expectedIndex + count) % indexMod
      lastProcessed := s.now }
    processed := s.processed ++ [incoming] }

def liftExcept {α : Type} (v : Except ProtocolError α) : SessionM α :=
  match v with
  | .ok a => return a
  | .error e => throw e

/-- The loop of `continue_process_messages`. -/
def continueLoop : Nat → SessionM Unit
  | 0 => throw .outOfFuel
  | n + 1 => do
    modifySelf fun p => { p with
      lastInputIndex := skipReceived p.inputMessages (p.inputMessages.size + 1) p.lastInputIndex }
    let p := (← get).self
    -- when every number is stored, the search for a gap does not end
    if (p.inputMessages.find p.lastInputIndex).isSome then throw .outOfFuel
    else
      match p.inputMessages.front with
      | none => return ()
      | some (index, datagram) =>
        if p.expectedIndex < index then return ()
        else if index < p.expectedIndex then do
          modifySelf fun p => { p with inputMessages := p.inputMessages.eraseFront }
          continueLoop n
        else do
          match ← liftExcept (readHead p.thisNodeId p.partnerNodeId datagram) with
          | .single incoming => do
            processMessage incoming 1
            continueLoop n
          | .multi incoming size => do
            match ← liftExcept (collect p.inputMessages p.expectedIndex (p.inputMessages.size + 1) 0 size
                incoming.message) with
            | none => return ()
            | some (message, index) => do
              processMessage { incoming with message } (index + 1)
              continueLoop n
          -- vds_assert(false) is empty, and the loop goes round for ever
          | .unknown => throw .outOfFuel

/-- Each round but the last one drops a datagram or hands a message on. -/
def continueProcessMessages : SessionM Unit := do
  let s ← get
  continueLoop (2 * s.self.inputMessages.size + 1)

/-! ### Acknowledgments -/

def maskBits (p : DatagramProtocol) : Nat :=
  ((List.range 32).map fun i =>
    if (p.inputMessages.find ((p.lastInputIndex + (i + 1)) % indexMod)).isSome then 0 else 2 ^ i).sum

def acknowledgment (p : DatagramProtocol) : ConstDataBuffer :=
  MessageType.acknowledgment :: indexBytes p.lastInputIndex ++ putUInt32 (UInt32.ofNat (maskBits p)) ++
    [UInt8.ofNat (p.inputMtu / 256), UInt8.ofNat (p.inputMtu % 256)]

def sendAcknowledgment : SessionM Unit := do
  let s ← get
  writeAsync (acknowledgment s.self)

/-- Erases the queued datagrams in front of `lastIndex`. -/
def eraseAcknowledged (lastIndex : Nat) : Nat → DatagramProtocol → DatagramProtocol
  | 0, p => p
  | n + 1, p =>
    match p.outputMessages.front with
    | some (index, _) =>
      if index < lastIndex then
        eraseAcknowledged lastIndex n
          { p with outputMessages := p.outputMessages.eraseFront, lastSent := 0 }
      else p
    | none => p

def processAcknowledgment (datagram : ConstDataBuffer) : SessionM Unit := do
  let lastIndex ← liftExcept (numberAt datagram 1 4)
  modifySelf fun p => eraseAcknowledged lastIndex p.outputMessages.size p
  resend lastIndex
  let mask ← liftExcept (numberAt datagram 5 4)
  (List.range 32).forM fun i =>
    if mask.testBit i then resend ((lastIndex + i + 1) % indexMod) else return ()
  let mtu ← liftExcept (numberAt datagram 9 2)
  modifySelf fun p => { p with mtu := max p.mtu mtu }

/-! ### Datagrams and the timer -/

/-- The commands of the datagrams that carry messages. -/
def isDataCommand (first : UInt8) : Bool :=
  let command := first &&& MessageType.specialCommand
  command = MessageType.singleData || command = MessageType.routeSingleData ||
    command = MessageType.proxySingleData || command = MessageType.data ||
    command = MessageType.routeData || command = MessageType.proxyData ||
    first = MessageType.continueData

/-- `process_datagram` behind the checks of the first byte and the size. -/
def processData (first : UInt8) (datagram : ConstDataBuffer) : SessionM Unit := do
  let s ← get
  let signed := datagram.length - 32
  -- `!hmac::verify(...)`
  if (hmac.verify s.self.sessionKey (datagram.take signed) (datagram.drop signed)).operatorNot then
    throw (.runtimeError "Invalid signature")
  else if !isDataCommand first then throw (.runtimeError "Invalid data")
  else do
    let index ← liftExcept (numberAt datagram 1 4)
    if s.self.lastProcessed < s.now - processTimeout then throw (.runtimeError "Process timeout")
    else if (s.self.inputMessages.find index).isNone then do
      modifySelf fun p => { p with inputMessages := p.inputMessages.assign index datagram }
      continueProcessMessages
    else return ()

def processDatagram (datagram : ConstDataBuffer) : SessionM Unit := do
  let s ← get
  if s.self.failedState then throw (.runtimeError "failed state")
  else if sendTimeout < s.self.lastSent then throw (.runtimeError "Send timeout")
  else do
    modifySelf fun p => { p with
      inputMtu := if p.inputMtu < datagram.length then datagram.length % 2 ^ 16 else p.inputMtu }
    match datagram with
    | [] => throw .outOfRange
    | first :: _ =>
      if first = MessageType.mtuTest then return ()
      else if first = MessageType.acknowledgment then processAcknowledgment datagram
      else if datagram.length < 33 then throw (.runtimeError "Invalid data")
      else processData hmac first datagram

/-- A datagram that is larger than the MTU. -/
def mtuTest (mtu : Nat) : ConstDataBuffer := MessageType.mtuTest :: List.replicate (mtu + 255) 0

/-- The outcome of the write is not looked at. -/
def testMtu : SessionM Unit := do
  let s ← get
  let tests : SessionM Unit := writeAsync (mtuTest s.self.mtu)
  if s.self.checkMtu < checkMtuTimeout ∧ s.self.mtu < 0xFFFF - 256 then
    tryCatch tests fun _ => return ()

def onTimer : SessionM Unit := do
  modifySelf fun p => { p with checkMtu := p.checkMtu + 1, lastSent := p.lastSent + 1 }
  testMtu
  sendAcknowledgment

def setMtu (value : Nat) : SessionM Unit := modifySelf fun p => { p with mtu := value }

end Vds.DhtNetwork
