import Vds.DhtNetwork.Authenticity
import Vds.DhtNetwork.Resending

/-! The receiving side of a session once more, with every subtraction of sizes checked: where the code
computes in unsigned numbers and would go below zero, the call stops with `underflow`. -/

namespace Vds.DhtNetwork

open BinaryDeserializer StateError

inductive CheckedError
  /-- An error of the unchecked code, or one of its bad reads or endless loops. -/
  | plain (e : ProtocolError)
  | underflow
  deriving DecidableEq

namespace CheckedError

/-- The errors that the code does not know of. -/
def IsFault : CheckedError → Prop
  | plain e => e = .outOfRange ∨ e = .outOfFuel
  | underflow => True

end CheckedError

abbrev Checked (α : Type) := Except CheckedError α

namespace Checked

def minus (a b : Nat) : Checked Nat := if b ≤ a then .ok (a - b) else .error .underflow

def plain {α : Type} (v : Except ProtocolError α) : Checked α :=
  match v with
  | .ok a => .ok a
  | .error e => .error (.plain e)

/-- `readHead` with its subtractions. -/
def readHead (thisNodeId partnerNodeId datagram : ConstDataBuffer) : Checked Head := do
  let first ← plain (numberAt datagram 0 1)
  let command := UInt8.ofNat first &&& MessageType.specialCommand
  let messageType := UInt8.ofNat first &&& ~~~MessageType.specialCommand
  if command = MessageType.singleData then do
    let size ← minus datagram.length 37
    let message ← plain (bytesAt datagram 5 size)
    return .single ⟨messageType, thisNodeId, [partnerNodeId], message⟩
  else if command = MessageType.routeSingleData then do
    let targetNode ← plain (bytesAt datagram 5 32)
    let size ← minus datagram.length 69
    let message ← plain (bytesAt datagram 37 size)
    return .single ⟨messageType, targetNode, [partnerNodeId], message⟩
  else if command = MessageType.proxySingleData then do
    let targetNode ← plain (bytesAt datagram 5 32)
    let hopsCount ← plain (numberAt datagram 37 1)
    let hops ← plain (hopsAt datagram 38 hopsCount)
    let size ← minus datagram.length (70 + 32 * hopsCount)
    let message ← plain (bytesAt datagram (38 + 32 * hopsCount) size)
    return .single ⟨messageType, targetNode, partnerNodeId :: hops, message⟩
  else if command = MessageType.data then do
    let size ← plain (numberAt datagram 5 4)
    let part ← minus datagram.length 41
    if size ≤ part then throw (.plain (.runtimeError "Invalid data"))
    else do
      let left ← minus size part
      let message ← plain (bytesAt datagram 9 part)
      return .multi ⟨messageType, thisNodeId, [partnerNodeId], message⟩ left
  else if command = MessageType.routeData then do
    let size ← plain (numberAt datagram 5 4)
    let part ← minus datagram.length 73
    if size ≤ part then throw (.plain (.runtimeError "Invalid data"))
    else do
      let left ← minus size part
      let targetNode ← plain (bytesAt datagram 9 32)
      let message ← plain (bytesAt datagram 41 part)
      return .multi ⟨messageType, targetNode, [partnerNodeId], message⟩ left
  else if command = MessageType.proxyData then do
    let size ← plain (numberAt datagram 5 4)
    let oneHop ← minus datagram.length 106
    if size ≤ oneHop then throw (.plain (.runtimeError "Invalid data"))
    else do
      let targetNode ← plain (bytesAt datagram 9 32)
      let hopsCount ← plain (numberAt datagram 41 1)
      let hops ← plain (hopsAt datagram 42 hopsCount)
      let part ← minus datagram.length (74 + 32 * hopsCount)
      let left ← minus size part
      let message ← plain (bytesAt datagram (42 + 32 * hopsCount) part)
      return .multi ⟨messageType, targetNode, partnerNodeId :: hops, message⟩ left
  else return .unknown

/-- `collect` with its subtractions. -/
def collect (inputMessages : OrderedMap Nat ConstDataBuffer) (expectedIndex : Nat) :
    Nat → Nat → Nat → ConstDataBuffer → Checked (Option (ConstDataBuffer × Nat))
  | 0, _, _, _ => throw (.plain .outOfFuel)
  | n + 1, index, size, message =>
    match inputMessages.find ((expectedIndex + (index + 1)) % indexMod) with
    | none => return none
    | some datagram => do
      if (← plain (numberAt datagram 0 1)) ≠ MessageType.continueData.toNat then
        throw (.plain (.runtimeError "Invalid data"))
      else do
        let part ← minus datagram.length 37
        if size < part then throw (.plain (.runtimeError "Invalid data"))
        else do
          let message := message ++ (← plain (bytesAt datagram 5 part))
          let size ← minus size part
          if size = 0 then return some (message, index + 1)
          else collect inputMessages expectedIndex n (index + 1) size message

/-- How a round of the loop goes on. -/
inductive Next
  | returns
  | drops
  | hands (incoming : Incoming) (count : Nat)

/-- One round of `continue_process_messages` behind its first loop. -/
def round (p : DatagramProtocol) : Checked Next :=
  if (p.inputMessages.find p.lastInputIndex).isSome then .error (.plain .outOfFuel)
  else
    match p.inputMessages.front with
    | none => return .returns
    | some (index, datagram) =>
      if p.expectedIndex < index then return .returns
      else if index < p.expectedIndex then return .drops
      else do
        match ← readHead p.thisNodeId p.partnerNodeId datagram with
        | .single incoming => return .hands incoming 1
        | .multi incoming size => do
          match ← collect p.inputMessages p.expectedIndex (p.inputMessages.size + 1) 0 size
              incoming.message with
          | none => return .returns
          | some (message, index) => return .hands { incoming with message } (index + 1)
        | .unknown => .error (.plain .outOfFuel)

abbrev CheckedM (α : Type) := EStateM CheckedError Session α

def lift {α : Type} (v : Checked α) : CheckedM α :=
  match v with
  | .ok a => return a
  | .error e => throw e

/-- The outcome of code without such subtractions. -/
def plainM {α : Type} (x : SessionM α) : CheckedM α := fun s =>
  match x s with
  | .ok a s' => .ok a s'
  | .error e s' => .error (.plain e) s'

def continueLoop : Nat → CheckedM Unit
  | 0 => throw (.plain .outOfFuel)
  | n + 1 => do
    modify afterSkip
    let s ← get
    match ← lift (round s.self) with
    | .returns => return ()
    | .drops => do
      modify afterDrop
      continueLoop n
    | .hands incoming count => do
      modify (afterMessage incoming count)
      continueLoop n

def continueProcessMessages : CheckedM Unit := do
  let s ← get
  continueLoop (2 * s.self.inputMessages.size + 1)

variable (hmac : Hmac)

def processData (first : UInt8) (datagram : ConstDataBuffer) : CheckedM Unit := do
  let s ← get
  let signed ← lift (minus datagram.length 32)
  if (hmac.verify s.self.sessionKey (datagram.take signed) (datagram.drop signed)).operatorNot then
    throw (.plain (.runtimeError "Invalid signature"))
  else if !isDataCommand first then throw (.plain (.runtimeError "Invalid data"))
  else do
    let index ← lift (plain (numberAt datagram 1 4))
    if TimedOut s then throw (.plain (.runtimeError "Process timeout"))
    else if (s.self.inputMessages.find index).isNone then do
      modify (stored index datagram)
      continueProcessMessages
    else return ()

def processDatagram (datagram : ConstDataBuffer) : CheckedM Unit := do
  let s ← get
  if s.self.failedState then throw (.plain (.runtimeError "failed state"))
  else if sendTimeout < s.self.lastSent then throw (.plain (.runtimeError "Send timeout"))
  else do
    modify (measured datagram)
    match datagram with
    | [] => throw (.plain .outOfRange)
    | first :: _ =>
      if first = MessageType.mtuTest then return ()
      else if first = MessageType.acknowledgment then plainM (processAcknowledgment datagram)
      else if datagram.length < 33 then throw (.plain (.runtimeError "Invalid data"))
      else processData hmac first datagram

/-- No subtraction underflows, no read leaves the datagram, and the call comes back. -/
def Safe (datagram : ConstDataBuffer) (s : Session) : Prop :=
  ∀ e s', processDatagram hmac datagram s = .error e s' → ¬e.IsFault

end Checked
end Vds.DhtNetwork
