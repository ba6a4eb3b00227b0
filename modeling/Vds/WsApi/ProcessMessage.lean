import Vds.WsApi.ChannelPages

/-! `websocket_api::process_message`: the requests, their arguments, and what the operations add to
the reply. What the database and the rest of the server answer is given. -/

namespace Vds.WsApi

open Library.Fallible

/-- An `expected` value of the rest of the server: a value or the text of an error. -/
abbrev Given (α : Type) := Except StdString α

/-- The rows of a reader; the reading ends with the first one that fails. -/
abbrev Rows (α : Type) := List (Given α)

/-- A `create_user_transaction`. -/
structure CreateUser where
  userEmail : StdString
  userPublicKey : Given StdString
  userProfileId : ConstDataBuffer

/-- `data_info_t`. -/
structure DataInfo where
  replicas : List ConstDataBuffer
  dataHash : ConstDataBuffer
  replicaSize : Int

structure DeviceRow where
  storageId : ConstDataBuffer
  localPath : StdString
  reservedSize : Int
  usedSize : Int
  usageType : StdString
  freeSize : Option Int

structure BalanceRow where
  issuer : ConstDataBuffer
  currency : StdString
  confirmedBalance : Int
  proposedBalance : Int

/-- The storage that `allocate_storage` finds or makes, and the statement that it runs in the end. -/
structure Allocation where
  storageId : ConstDataBuffer
  statement : Given Unit

/-- What the operations ask for. -/
structure Server where
  /-- The create user messages of each block of the log, the last block first. -/
  users : Rows (Rows CreateUser)
  leafs : Rows ConstDataBuffer
  uploadData : Decoded → Given DataInfo
  /-- The numbers and hashes of the replicas of an object, by number. -/
  replicas : Decoded → Rows (Int × ConstDataBuffer)
  restore : List Decoded → Given ConstDataBuffer
  devices : Decoded → Rows DeviceRow
  broadcast : Decoded → Given ConstDataBuffer
  channelMessages : ChannelTable
  parseDer : Decoded → Given Unit
  allocate : Decoded → StdString → Given Allocation
  subscribeTimerStarted : Bool
  startTimer : Given Unit
  balance : Decoded → Rows BalanceRow
  statistic : Given JsonValue
  nodes : ConstDataBuffer → Rows ConstDataBuffer

/-- `GENERATE_HORCRUX`. -/
def generateHorcrux : Nat := 64

def result (value : JsonValue) : Properties := [(text "result", value)]

def stringValue (value : StdString) : JsonValue := .primitive value .string

/-- `GET_EXPECTED` of what is given. -/
def get {α : Type} : Given α → Answered α
  | .ok a => .ok a
  | .error what => fail what

/-- A loop over all items, which ends with the first failure. -/
def forAll {α β : Type} (f : α → Answered β) : List α → Answered (List β)
  | [] => .ok []
  | a :: as => do
    let b ← f a
    let bs ← forAll f as
    .ok (b :: bs)

def readRows {α β : Type} (f : α → β) (rows : Rows α) : Answered (List β) :=
  forAll (fun row => (get row).map f) rows

/-- The text of bytes; those that were not written have some value. -/
def decodedValue (data : Decoded) : JsonValue := bufferValue (data.map fun b => b.getD 0)

/-! ### The operations -/

def userValue (publicKey : StdString) (message : CreateUser) : JsonValue :=
  .object [(text "public_key", stringValue publicKey),
    (text "user_profile_id", bufferValue message.userProfileId)]

/-- The visit of one block ends with the first message that names the user. -/
def loginBlock (login : StdString) : Rows CreateUser → Answered Properties
  | [] => .ok []
  | message :: messages => do
    let message ← get message
    if login = message.userEmail then do
      let publicKey ← get message.userPublicKey
      .ok (result (userValue publicKey message))
    else loginBlock login messages

def loginBlocks (login : StdString) : Rows (Rows CreateUser) → Answered Properties
  | [] => .ok []
  | block :: blocks => do
    let block ← get block
    let added ← loginBlock login block
    let rest ← loginBlocks login blocks
    .ok (added ++ rest)

def login (server : Server) (login : StdString) : Answered Properties := do
  let added ← loginBlocks login server.users
  .ok (if added = [] then [(text "error", stringValue (text "User not found"))] else added)

def logHead (server : Server) : Answered Properties := do
  let leafs ← readRows bufferValue server.leafs
  .ok (result (.array leafs))

def upload (server : Server) (body : Decoded) : Answered Properties := do
  let info ← get (server.uploadData body)
  .ok (result (.object [(text "replicas", .array (info.replicas.map bufferValue)),
    (text "hash", bufferValue info.dataHash), (text "replica_size", numberValue info.replicaSize)]))

/-- The hashes of the replicas, or nothing if a number is not the next one. -/
def readReplicas : List ConstDataBuffer → Rows (Int × ConstDataBuffer) →
    Answered (Option (List ConstDataBuffer))
  | hashes, [] => .ok (some hashes)
  | hashes, row :: rows => do
    let (replica, hash) ← get row
    if replica ≠ hashes.length then .ok none else readReplicas (hashes ++ [hash]) rows

def lookingBlock (server : Server) (dataHash : Decoded) : Answered Properties := do
  let found ← readReplicas [] (server.replicas dataHash)
  match found with
  | some hashes => .ok (result (.object [(text "replicas", .array (hashes.map bufferValue))]))
  | none => .ok [(text "error", stringValue
      (text "Data " ++ Base64.fromBytes (dataHash.map fun b => b.getD 0) ++ text " not found"))]

def download (server : Server) (objectIds : List Decoded) : Answered Properties := do
  let buffer ← get (server.restore objectIds)
  .ok (result (bufferValue buffer))

def deviceValue (row : DeviceRow) : JsonValue :=
  .object ([(text "id", bufferValue row.storageId), (text "local_path", stringValue row.localPath),
    (text "reserved_size", numberValue row.reservedSize), (text "used_size", numberValue row.usedSize),
    (text "usage_type", stringValue row.usageType)] ++
      (row.freeSize.map fun size => (text "free_size", numberValue size)).toList)

def devices (server : Server) (ownerId : Decoded) : Answered Properties := do
  let rows ← readRows id (server.devices ownerId)
  .ok (result (.array ((rows.filter fun row => !row.localPath.isEmpty).map deviceValue)))

def broadcast (server : Server) (body : Decoded) : Answered Properties := do
  let trxId ← get (server.broadcast body)
  .ok (result (bufferValue trxId))

def allocateStorage (server : Server) (publicKey : Decoded) (folder : StdString) :
    Answered Properties := do
  let allocation ← get (server.allocate publicKey folder)
  get allocation.statement
  .ok (result (bufferValue allocation.storageId))

/-- `subscribe_channel`, before the timer is looked at. -/
def subscribeChannel : Properties := result (stringValue (text "true"))

def balanceValue (row : BalanceRow) : JsonValue :=
  .object [(text "issuer", bufferValue row.issuer), (text "currency", stringValue row.currency),
    (text "confirmed_balance", numberValue row.confirmedBalance),
    (text "proposed_balance", numberValue row.proposedBalance)]

def getBalance (server : Server) (walletId : Decoded) : Answered Properties := do
  let rows ← readRows balanceValue (server.balance walletId)
  .ok (result (.array rows))

def statistics (server : Server) : Answered Properties := do
  let stat ← get server.statistic
  .ok (result stat)

/-- The first loop of `get_distribution_map`, over the objects. -/
def distributionReplicas (server : Server) : List Decoded →
    Answered (Option (List (Decoded × List ConstDataBuffer)))
  | [] => .ok (some [])
  | objectId :: objectIds => do
    let found ← readReplicas [] (server.replicas objectId)
    match found with
    | none => .ok none
    | some hashes => do
      let rest ← distributionReplicas server objectIds
      .ok (rest.map ((objectId, hashes) :: ·))

def replicaValue (server : Server) (hash : ConstDataBuffer) : Answered JsonValue := do
  let nodes ← readRows bufferValue (server.nodes hash)
  .ok (.object [(text "replica", bufferValue hash), (text "nodes", .array nodes)])

def blockValue (server : Server) (block : Decoded × List ConstDataBuffer) : Answered JsonValue := do
  let replicas ← forAll (replicaValue server) block.2
  .ok (.object [(text "block", decodedValue block.1), (text "replicas", .array replicas)])

def getDistributionMap (server : Server) (objectIds : List Decoded) : Answered Properties := do
  let found ← distributionReplicas server objectIds
  match found with
  | none => .ok []
  | some blocks => do
    let items ← forAll (blockValue server) blocks
    .ok (result (.array items))

/-! ### The requests -/

def loginRequest (server : Server) (request : Properties) : Answered Properties := do
  let args ← params request (1 ≤ ·) (text "invalid arguments at invoke method 'login'")
  let name ← primitiveArgument args 0 (text "missing login argument at invoke method 'login'")
  login server name

def logHeadRequest (server : Server) (_request : Properties) : Answered Properties := logHead server

def uploadRequest (server : Server) (request : Properties) : Answered Properties := do
  let args ← params request (fun _ => true) (text "invalid arguments at invoke method 'upload'")
  let body ← primitiveArgument args 0 (text "missing body argument at invoke method 'upload'")
  let body ← toBytes body
  upload server body

def lookingBlockRequest (server : Server) (request : Properties) : Answered Properties := do
  let args ← params request (· = 1) (text "invalid arguments at invoke method 'looking_block'")
  let id ← primitiveArgument args 0 (text "missing argument at invoke method 'looking_block'")
  let objId ← toBytes id
  lookingBlock server objId

/-- The decoded items of an array, each of which has to be a string. -/
def decodeAll (missing : Nat → StdString) : Nat → List JsonValue → Answered (List Decoded)
  | _, [] => .ok []
  | i, arg :: args => do
    match asPrimitive arg with
    | none => fail (missing i)
    | some value => do
      let bytes ← toBytes value
      let rest ← decodeAll missing (i + 1) args
      .ok (bytes :: rest)

/-- `prepare_download` has the same body as `download`, its texts and its operation. -/
def downloadRequest (server : Server) (request : Properties) : Answered Properties := do
  let args ← params request (· = generateHorcrux)
    (text "invalid arguments at invoke method 'download'")
  let objectIds ← decodeAll (fun _ => text "missing argument at invoke method 'download'") 0 args
  download server objectIds

def devicesRequest (server : Server) (request : Properties) : Answered Properties := do
  let args ← params request (fun _ => true) (text "invalid arguments at invoke method 'devices'")
  let ownerId ← primitiveArgument args 0 (text "missing body argument at invoke method 'devices'")
  let ownerId ← toBytes ownerId
  devices server ownerId

/-- An argument that must not be empty either. -/
def filledArgument (args : List JsonValue) (index : Nat) (what : StdString) : Answered StdString := do
  let value ← primitiveArgument args index what
  if value = [] then fail what else .ok value

def broadcastRequest (server : Server) (request : Properties) : Answered Properties := do
  let args ← params request (fun _ => true) (text "invalid arguments at invoke method 'broadcast'")
  let body ← filledArgument args 0 (text "missing body argument at invoke method 'broadcast'")
  let body ← toBytes body
  broadcast server body

def getChannelMessagesRequest (server : Server) (request : Properties) : Answered Properties := do
  let items ← channelMessagesRequest server.channelMessages request
  .ok (result items)

def allocateStorageRequest (server : Server) (request : Properties) : Answered Properties := do
  let args ← params request (2 ≤ ·) (text "invalid arguments at invoke method 'allocate_storage'")
  let publicKey ← filledArgument args 0
    (text "missing public_key argument at invoke method 'allocate_storage'")
  let publicKey ← toBytes publicKey
  get (server.parseDer publicKey)
  let folder ← filledArgument args 1
    (text "missing folder argument at invoke method 'allocate_storage'")
  allocateStorage server publicKey folder

def subscribeRequest (server : Server) (request : Properties) : Answered Properties := do
  let args ← params request (2 ≤ ·) (text "invalid arguments at invoke method 'subscribe'")
  let _ ← primitiveArgument args 0 (text "missing cb argument at invoke method 'subscribe'")
  let method ← primitiveArgument args 1 (text "missing method argument at invoke method 'subscribe'")
  if method = text "channel" then do
    let channelId ← primitiveArgument args 2
      (text "missing channel_id argument at invoke method 'subscribe/channel'")
    let _ ← toBytes channelId
    if server.subscribeTimerStarted then .ok subscribeChannel
    else do
      get server.startTimer
      .ok subscribeChannel
  else fail (text "invalid subscription '" ++ method ++ text "'")

def balanceRequest (server : Server) (request : Properties) : Answered Properties := do
  let args ← params request (1 ≤ ·) (text "invalid arguments at invoke method 'balance'")
  let walletId ← primitiveArgument args 0 (text "missing cb argument at invoke method 'balance'")
  let walletId ← toBytes walletId
  getBalance server walletId

def statisticsRequest (server : Server) (_request : Properties) : Answered Properties :=
  statistics server

def replicaArray (args : List JsonValue) : Answered (List JsonValue) := do
  let arg ← argument args 0
  match asArray arg with
  | some items => .ok items
  | none => fail (text "missing replica_array argument at invoke method 'distribution_map'")

def distributionMapRequest (server : Server) (request : Properties) : Answered Properties := do
  let args ← params request (1 ≤ ·) (text "invalid arguments at invoke method 'distribution_map'")
  let items ← replicaArray args
  let replicas ← decodeAll (fun i => text "invalid item replica_array[" ++ decimal i ++
    text "] at invoke method 'distribution_map'") 0 items
  getDistributionMap server replicas

/-- The methods in the order in which their names are compared. -/
def methods : List (String × (Server → Properties → Answered Properties)) :=
  [("login", loginRequest), ("log_head", logHeadRequest), ("upload", uploadRequest),
    ("looking_block", lookingBlockRequest), ("prepare_download", downloadRequest),
    ("download", downloadRequest), ("devices", devicesRequest), ("broadcast", broadcastRequest),
    ("get_channel_messages", getChannelMessagesRequest),
    ("allocate_storage", allocateStorageRequest), ("subscribe", subscribeRequest),
    ("balance", balanceRequest), ("statistics", statisticsRequest),
    ("distribution_map", distributionMapRequest)]

/-- The part of `process_message` behind the lookup of the id: the properties that the operation
adds to the reply. -/
def invoke (server : Server) (request : Properties) : Answered Properties := do
  match ← getString request (text "invoke") with
  | none => fail (text "method name is expected")
  | some name =>
    match methods.find? fun method => text method.1 = name with
    | some method => method.2 server request
    | none => fail (text "invalid method '" ++ name ++ text "'")

/-- An error of the operation is the reply, in place of what was added before it. -/
def processMessage (server : Server) (message : JsonValue) : Answered JsonValue :=
  match message with
  | .object request => do
    match ← getInt request (text "id") with
    | none => fail (text "id field is expected")
    | some id =>
      match invoke server request with
      | .ok added => .ok (.object ((text "id", numberValue id) :: added))
      | .error (.runtimeError what) =>
        .ok (.object [(text "id", numberValue id), (text "error", stringValue what)])
      | .error .undefined => .error .undefined
  | _ => fail (text "JSON object is expected")

end Vds.WsApi
