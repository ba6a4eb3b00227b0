import Vds.DhtNetwork.Checked
import Vds.Kernel.Crypto

/-! `udp_transport`: the sessions with other nodes by their addresses, how they are opened and closed, and
the loop that reads the datagrams. -/

namespace Vds.DhtNetwork.Udp

/-! ### Datagrams -/

namespace Kind

def handshakeBroadcast : UInt8 := 0

def handshake : UInt8 := 1

def welcome : UInt8 := 2

def failed : UInt8 := 5

end Kind

/-- The datagrams that open or close a session; all others belong to one. -/
def isControl (first : UInt8) : Bool :=
  first = Kind.handshake || first = Kind.handshakeBroadcast || first = Kind.welcome || first = Kind.failed

def protocolVersion : UInt8 := 0

/-- One minute of `steady_clock`, in nanoseconds. -/
def minute : Int := 60000000000

/-- What a node is started with, and the functions of the crypto library. -/
structure Keys where
  crypto : Crypto
  /-- `asymmetric_public_key::encrypt`. -/
  encrypt : AsymmetricPublicKey → ConstDataBuffer → Expected ConstDataBuffer
  /-- `node_key_->decrypt`. -/
  decrypt : ConstDataBuffer → Expected ConstDataBuffer
  thisNodeId : ConstDataBuffer
  nodePublicKey : AsymmetricPublicKey
  magicLabel : UInt32
  hmac : Hmac

def Keys.label (keys : Keys) : ConstDataBuffer := BinarySerializer.putUInt32 keys.magicLabel

def handshakeMessage (keys : Keys) : ConstDataBuffer :=
  Kind.handshakeBroadcast :: keys.label ++ [protocolVersion] ++ BinarySerializer.putData keys.nodePublicKey.der

def welcomeMessage (keys : Keys) (encryptedKey : ConstDataBuffer) : ConstDataBuffer :=
  Kind.welcome :: keys.label ++ (BinarySerializer.putData keys.nodePublicKey.der ++
    BinarySerializer.putData encryptedKey)

def failedMessage : ConstDataBuffer := [Kind.failed]

/-! ### The transport -/

/-- How the loop ends. -/
inductive Ended
  /-- It returns an error. -/
  | error (e : Error)
  /-- It reads behind the end of a datagram. -/
  | undefined
  /-- It locks a mutex that is held, or a session does not come back. -/
  | hangs
  deriving DecidableEq

/-- A `dht_session` object. -/
structure DhtSession (α : Type) where
  serial : Nat
  address : α
  protocol : Session

def DhtSession.partnerNodeId {α : Type} (s : DhtSession α) : ConstDataBuffer := s.protocol.self.partnerNodeId

def DhtSession.sessionKey {α : Type} (s : DhtSession α) : ConstDataBuffer := s.protocol.self.sessionKey

/-- `session_state`. -/
structure SessionState (α : Type) where
  /-- `session_mutex_` is held. -/
  locked : Bool := false
  blocked : Bool := false
  updateTime : Int := 0
  session : Option (DhtSession α) := none
  sessionKey : ConstDataBuffer := []

/-- What the transport does outside of its sessions. -/
inductive Event (α : Type)
  /-- `client::add_session`, by the serial number of the session. -/
  | addSession (serial : Nat)
  | removeSession (serial : Nat)
  /-- `imessage_map::on_new_session`. -/
  | newSession (partnerId : ConstDataBuffer)
  /-- `rand_bytes`, for a session key. -/
  | drawKey (address : α) (sessionKey : ConstDataBuffer)
  | write (address : α) (datagram : ConstDataBuffer)
  | broadcast (datagram : ConstDataBuffer)
  deriving DecidableEq

structure Transport (α : Type) [LinearOrder α] where
  sessions : OrderedMap α (SessionState α) := .empty
  /-- The number of sessions made so far. -/
  made : Nat := 0
  events : List (Event α) := []

/-- What the rest of the program answers while a datagram is processed. -/
structure Outcome where
  now : Int
  /-- `rand_bytes`. -/
  randomKey : ConstDataBuffer := []
  addSession : Expected Unit := .ok ()
  newSession : Expected Unit := .ok ()
  writeAsync : Expected Unit := .ok ()
  /-- Which of the writes of a session are refused. -/
  refuses : List Bool := []

section Transport

variable {α : Type} [LinearOrder α]

namespace Transport

/-- `sessions_[address]`. -/
def info (t : Transport α) (address : α) : SessionState α := (t.sessions.find address).getD {}

def setInfo (t : Transport α) (address : α) (i : SessionState α) : Transport α :=
  { t with sessions := t.sessions.assign address i }

def emit (t : Transport α) (es : List (Event α)) : Transport α := { t with events := t.events ++ es }

def unlock (t : Transport α) (address : α) : Transport α :=
  t.setInfo address { t.info address with locked := false }

/-- The session of an address goes on to another state. -/
def proceed (t : Transport α) (address : α) (p : Session) : Transport α :=
  t.setInfo address { t.info address with
    session := (t.info address).session.map fun s => { s with protocol := p } }

end Transport

/-- What a datagram comes to: the loop goes on, or it ends. -/
inductive Turn (α : Type) [LinearOrder α]
  | continues (t : Transport α)
  | ends (e : Ended) (t : Transport α)

def Turn.transport : Turn α → Transport α
  | .continues t => t
  | .ends _ t => t

/-- `CHECK_EXPECTED_ASYNC` of a call that the rest of the program answers. -/
def check (result : Expected Unit) (t : Transport α) (next : Transport α → Turn α) : Turn α :=
  match result with
  | .ok () => next t
  | .error e => .ends (.error e) t

variable (keys : Keys)

/-! ### Opening a session -/

/-- The bytes are compared one by one, up to the first that differs. -/
def startsWith : ConstDataBuffer → ConstDataBuffer → Except Ended Bool
  | [], _ => .ok true
  | _ :: _, [] => .error .undefined
  | e :: es, d :: ds => if e = d then startsWith es ds else .ok false

def toEnded {β : Type} : EStateM.Result Error ConstDataBuffer β → Except Ended (β × ConstDataBuffer)
  | .ok b rest => .ok (b, rest)
  | .error e _ => .error (.error e)

def ofExpected {β : Type} : Expected β → Except Ended β
  | .ok b => .ok b
  | .error e => .error (.error e)

/-- The public key of a handshake; `none` when it is one of another network or version. -/
def handshakeKey (datagram : ConstDataBuffer) : Except Ended (Option AsymmetricPublicKey) := do
  if ← startsWith (keys.label ++ [protocolVersion]) datagram.tail then
    let (der, _) ← toEnded (BinaryDeserializer.getData (datagram.drop 6))
    let key ← ofExpected (keys.crypto.parseDer der)
    return some key
  else return none

def welcomeStarts (datagram : ConstDataBuffer) : Except Ended Bool :=
  if 5 < datagram.length then startsWith keys.label datagram.tail else .ok false

/-- The public key and the session key of a welcome; `none` when it is one of another network. -/
def welcomeKeys (datagram : ConstDataBuffer) :
    Except Ended (Option (AsymmetricPublicKey × ConstDataBuffer)) := do
  if ← welcomeStarts keys datagram then
    let (der, rest) ← toEnded (BinaryDeserializer.getData (datagram.drop 5))
    let (encryptedKey, _) ← toEnded (BinaryDeserializer.getData rest)
    let publicKey ← ofExpected (keys.crypto.parseDer der)
    let key ← ofExpected (keys.decrypt encryptedKey)
    return some (publicKey, key)
  else return none

/-- `std::make_shared<dht_session>`. -/
def makeSession (t : Transport α) (address : α) (partnerId sessionKey : ConstDataBuffer) (now : Int) :
    DhtSession α where
  serial := t.made
  address
  protocol :=
    { self := { thisNodeId := keys.thisNodeId, partnerNodeId := partnerId, sessionKey, lastProcessed := now }
      now }

/-- A session key is drawn for the address. -/
def Transport.draw (t : Transport α) (address : α) (o : Outcome) : Transport α :=
  (t.setInfo address { t.info address with updateTime := o.now, sessionKey := o.randomKey }).emit
    [.drawKey address o.randomKey]

/-- The session takes the place of the one before. -/
def Transport.attach (t : Transport α) (address : α) (s : DhtSession α) : Transport α :=
  { t.setInfo address { t.info address with session := some s } with made := t.made + 1 }

/-- The entry of the first session with the partner. -/
def Transport.partnerEntry (t : Transport α) (partnerId : ConstDataBuffer) : Option (α × SessionState α) :=
  t.sessions.entries.find? fun e => e.2.session.any fun s => s.partnerNodeId = partnerId

/-- The node whose handshake is accepted gets the session key. -/
def accept (address : α) (key : AsymmetricPublicKey) (o : Outcome) (t : Transport α) : Turn α :=
  let partnerId := keys.crypto.fingerprint key
  let t := t.draw address o
  match keys.encrypt key o.randomKey with
  | .error e => .ends (.error e) t
  | .ok encryptedKey =>
    let s := makeSession keys t address partnerId o.randomKey o.now
    let t := (t.attach address s).unlock address
    check o.addSession (t.emit [.addSession s.serial]) fun t =>
    check o.writeAsync (t.emit [.write address (welcomeMessage keys encryptedKey)]) fun t =>
    check o.newSession (t.emit [.newSession partnerId]) .continues

def handshake (address : α) (datagram : ConstDataBuffer) (o : Outcome) (t : Transport α) : Turn α :=
  if (t.info address).session.isSome then .continues (t.unlock address)
  else
    match handshakeKey keys datagram with
    | .error e => .ends e t
    | .ok none => .continues (t.unlock address)
    | .ok (some key) =>
      if keys.crypto.fingerprint key = keys.thisNodeId then .continues (t.unlock address)
      else
        match t.partnerEntry (keys.crypto.fingerprint key) with
        | some (other, i) =>
          if i.blocked then accept keys address key o { t with sessions := t.sessions.erase other }
          else .continues (t.unlock address)
        | none => accept keys address key o t

/-- A session that stands at the address is replaced; the client is not told that it is gone. -/
def welcome (address : α) (datagram : ConstDataBuffer) (o : Outcome) (t : Transport α) : Turn α :=
  match welcomeKeys keys datagram with
  | .error e => .ends e t
  | .ok none => .ends (.error (.runtimeError "Invalid protocol")) (t.unlock address)
  | .ok (some (publicKey, key)) =>
    let partnerId := keys.crypto.fingerprint publicKey
    let s := makeSession keys t address partnerId key o.now
    let t := (t.attach address s).unlock address
    check o.addSession (t.emit [.addSession s.serial]) fun t =>
    check o.newSession (t.emit [.newSession partnerId]) .continues

/-! ### Closing a session -/

/-- `remove_session`, if there is one. -/
def removal (i : SessionState α) : List (Event α) :=
  match i.session with
  | some s => [.removeSession s.serial]
  | none => []

/-- The session is dropped, and the address is blocked. -/
def Transport.close (t : Transport α) (address : α) (now : Int) : Transport α :=
  (t.emit (removal (t.info address))).setInfo address
    { t.info address with locked := false, session := none, blocked := true, updateTime := now }

def failed (address : α) (o : Outcome) (t : Transport α) : Turn α := .continues (t.close address o.now)

/-- A datagram for the session of the address. -/
def process (address : α) (datagram : ConstDataBuffer) (o : Outcome) (t : Transport α) : Turn α :=
  match (t.info address).session with
  | some s =>
    let t := t.unlock address
    match Checked.processDatagram keys.hmac datagram { s.protocol with now := o.now, refuses := o.refuses } with
    | .ok _ p => .continues (t.proceed address p)
    | .error .underflow p => .ends .undefined (t.proceed address p)
    | .error (.plain .outOfRange) p => .ends .undefined (t.proceed address p)
    | .error (.plain .outOfFuel) p => .ends .hangs (t.proceed address p)
    | .error (.plain _) p =>
      check o.writeAsync (((t.proceed address p).close address o.now).emit [.write address failedMessage])
        .continues
  | none =>
    -- the outcome of the write is not looked at
    .continues ((t.close address o.now).emit [.write address failedMessage])

/-! ### The loop -/

def dispatch (address : α) (first : UInt8) (datagram : ConstDataBuffer) (o : Outcome) (t : Transport α) :
    Turn α :=
  if first = Kind.handshakeBroadcast ∨ first = Kind.handshake then handshake keys address datagram o t
  else if first = Kind.welcome then welcome keys address datagram o t
  else if first = Kind.failed then failed address o t
  else process keys address datagram o t

/-- One round of `continue_read`. -/
def receive (address : α) (datagram : ConstDataBuffer) (o : Outcome) (t : Transport α) : Turn α :=
  let i := t.info address
  if i.locked then .ends .hangs (t.setInfo address i)
  else
    let t := t.setInfo address { i with locked := true }
    match datagram with
    | [] => .ends .undefined t
    | first :: _ =>
      if i.blocked then
        if minute < o.now - i.updateTime && isControl first then
          dispatch keys address first datagram o (t.setInfo address { i with locked := true, blocked := false })
        else
          .continues ((t.unlock address).emit (if isControl first then [] else [.write address failedMessage]))
      else dispatch keys address first datagram o t

/-! ### What other threads do -/

/-- `try_handshake`, for an address that is parsed. It does not come back while the mutex of the address is
held. -/
def tryHandshake (address : α) (now : Int) (t : Transport α) : Option (Transport α) :=
  let message : Event α := .write address (handshakeMessage keys)
  match t.sessions.find address with
  | none => some (t.emit [message])
  | some i =>
    if i.locked then none
    else if (if i.blocked then now - i.updateTime ≤ minute else i.session.isSome) then some t
    else some (t.emit [message])

def broadcastHandshake (t : Transport α) : Transport α := t.emit [.broadcast (handshakeMessage keys)]

/-- `on_timer` of the sessions at the addresses, up to the first that fails. -/
def timerLoop (refuses : α → List Bool) (now : Int) : List α → Transport α → Transport α
  | [], t => t
  | address :: rest, t =>
    match (t.info address).session with
    | none => timerLoop refuses now rest t
    | some s =>
      match DhtNetwork.onTimer { s.protocol with now, refuses := refuses address } with
      | .ok _ p => timerLoop refuses now rest (t.proceed address p)
      | .error _ p => t.proceed address p

def onTimer (refuses : α → List Bool) (now : Int) (t : Transport α) : Transport α :=
  timerLoop refuses now (t.sessions.entries.map Prod.fst) t

/-- `send_message` of the session of an address. -/
def sendMessage (address : α) (messageType : UInt8) (targetNode : ConstDataBuffer)
    (hops : List ConstDataBuffer) (message : ConstDataBuffer) (refuses : List Bool) (now : Int)
    (t : Transport α) : Transport α :=
  match (t.info address).session with
  | none => t
  | some s => t.proceed address (StateError.final (DhtNetwork.sendMessage keys.hmac messageType targetNode hops
      message { s.protocol with now, refuses }))

end Transport

end Vds.DhtNetwork.Udp
