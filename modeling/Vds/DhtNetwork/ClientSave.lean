import Vds.DhtNetwork.ReplicaStorage
import Vds.LogSync.BlockBuilder

/-! `client::save`: the node loads or makes its keys, registers itself with its first block, moves
the replicas of the block to their storages and saves the block. -/

namespace Vds.DhtNetwork

open StateError NodeState LogSync Transactions BinarySerializer

/-- The members of `client` that `save` reads and writes. -/
structure Client where
  nodePublicKey : Option AsymmetricPublicKey := none
  nodeKey : Option AsymmetricPrivateKey := none
  isNewNode : Bool := true
  deriving DecidableEq

structure ClientState where
  client : Client := {}
  node : NodeState := {}
  /-- The messages given to `transaction_block::build`, the last ones first. No function reads
  them. -/
  built : List ConstDataBuffer := []

abbrev ClientM (α : Type) := EStateM Error ClientState α

/-- A step on the node, its tables and files. -/
def onNode {α : Type} (x : NodeM α) : ClientM α := fun s =>
  match x s.node with
  | .ok a node => .ok a { s with node }
  | .error e node => .error e { s with node }

/-- A step of the log, on its tables. -/
def onLog {α : Type} (x : LogM α) : NodeM α := fun s =>
  match x { db := s.tables.db, now := s.now } with
  | .ok a t => .ok a { s with tables := { s.tables with db := t.db } }
  | .error e t => .error e { s with tables := { s.tables with db := t.db } }

def modifyClient (f : Client → Client) : ClientM Unit :=
  modify fun s => { s with client := f s.client }

/-- What `client` finds in the services of the node. -/
structure ClientServices where
  sp : ServiceProvider
  nodeCrypto : NodeCrypto
  /-- `persistence::current_user`. -/
  currentUser : Expected StdString
  /-- `keys_control::root_id()`. -/
  rootId : ConstDataBuffer
  /-- The rounds that the loops of the log may take. -/
  rounds : Nat

variable (services : ClientServices)

/-! ### The keys of the node -/

/-- The branch of `load_keys` for a node that has its keys. -/
def readKeys (row : CurrentConfig) : ClientM Unit := do
  let publicKey ← onNode (getExpected (services.sp.crypto.parseDer row.publicKey))
  modifyClient fun client => { client with nodePublicKey := some publicKey }
  let nodeKey ← onNode (getExpected (services.nodeCrypto.parsePrivateDer row.privateKey))
  modifyClient fun client => { client with nodeKey := some nodeKey }

/-- The row of a new storage. -/
def insertNodeStorage (storageId : ConstDataBuffer) (storage : NodeStorage) : NodeM Unit := do
  attempt "SQL error"
  let s ← get
  match s.tables.nodeStorages.lookup storageId with
  | some _ => throw (.constraint "node_storage_dbo")
  | none =>
    writeTables fun tables => { tables with
      nodeStorages := tables.nodeStorages.insert storageId storage }

def insertCurrentConfig (nodeId : ConstDataBuffer) (row : CurrentConfig) : NodeM Unit := do
  attempt "SQL error"
  let s ← get
  match s.tables.currentConfig.lookup nodeId with
  | some _ => throw (.constraint "current_config")
  | none =>
    writeTables fun tables => { tables with
      currentConfig := tables.currentConfig.insert nodeId row }

/-- `"storage"`. -/
def storageFolder : StdString := [0x73, 0x74, 0x6F, 0x72, 0x61, 0x67, 0x65]

/-- The branch of `load_keys` for a node that makes its keys and its default storage. -/
def makeKeys : ClientM Unit := do
  let nodeKey ← onNode (getExpected services.nodeCrypto.generate)
  modifyClient fun client => { client with nodeKey := some nodeKey }
  let publicKey ← onNode (getExpected (services.nodeCrypto.createPublicKey nodeKey))
  let keyId := services.sp.crypto.fingerprint publicKey
  modifyClient fun client => { client with nodePublicKey := some publicKey }
  onNode do
    insertCurrentConfig keyId ⟨publicKey.der, nodeKey.der⟩
    let root ← getExpected services.currentUser
    let folder := join root storageFolder
    attempt "Unable to create folder "
    let storageId := services.sp.crypto.sha256
      (putData keyId ++ putData services.rootId ++ putString folder)
    insertNodeStorage storageId
      { localPath := folder
        ownerId := services.rootId
        reservedSize := 1024 * 1024 * 1024
        usageType := .share }

def loadKeys : ClientM Unit := do
  let rows ← onNode (select fun tables => tables.currentConfig.select fun _ _ => true)
  match rows with
  | (_, row) :: _ => readKeys services row
  | [] => makeKeys services

/-! ### Saving a block -/

/-- The block of a node that does not know itself to be registered. -/
def registerNode (block : ConstDataBuffer) (nodePublicKey : AsymmetricPublicKey) :
    ClientM ConstDataBuffer := do
  let nodeId := services.sp.crypto.fingerprint nodePublicKey
  let found ← onNode (select fun tables => tables.db.nodeInfos.lookup nodeId)
  let block ← (match found with
    | some _ => return block
    | none => do
      onNode (attempt "Unable to serialize")
      return block ++ Message.serialize (.nodeAdd ⟨nodePublicKey⟩) : ClientM ConstDataBuffer)
  modifyClient fun client => { client with isNewNode := false }
  return block

/-- `load_keys` is called once for the life of the client. -/
def ensureKeys : ClientM Unit := do
  let s ← get
  if s.client.nodePublicKey.isNone then loadKeys services else return ()

/-- The part of `save` before the block is built. -/
def beforeBuild (block : ConstDataBuffer) : ClientM ConstDataBuffer := do
  ensureKeys services
  let s ← get
  match s.client.nodePublicKey with
  | none => throw (.runtimeError "Invalid key")   -- `load_keys` has set the key or failed
  | some nodePublicKey =>
    if s.client.isNewNode then registerNode services block nodePublicKey else return block

def buildBlock (messages : ConstDataBuffer) : ClientM ConstDataBuffer := do
  modify fun s => { s with built := messages :: s.built }
  let s ← get
  match s.client.nodePublicKey, s.client.nodeKey with
  | some nodePublicKey, some nodeKey =>
    onNode (onLog (build services.sp services.nodeCrypto messages nodePublicKey nodeKey))
  | _, _ => throw (.runtimeError "Invalid key")   -- a null pointer in the code

/-- `"tmp"`. -/
def tmpFolder : StdString := [0x74, 0x6D, 0x70]

/-- The file that `save_temp` keeps a replica in. -/
def tmpFile (root : StdString) (replica : ConstDataBuffer) : StdString :=
  join (join root tmpFolder) (Base64.appendPath replica)

/-- `file::exists`. -/
def fileExists (fn : StdString) : NodeM Bool := do
  let s ← get
  return (s.files.lookup fn).isSome

/-- A replica of the block leaves the folder of temporary files. -/
def storeTmpReplica (root : StdString) (ownerId replica : ConstDataBuffer) : NodeM Unit := do
  let row ← select fun tables => tables.chunkTmpData.lookup replica
  match row with
  | none => return ()
  | some _ => do
    let fn := tmpFile root replica
    if ← fileExists fn then
      let _ ← saveDataFile replica fn ownerId
    attempt "SQL error"
    writeTables fun tables => { tables with chunkTmpData := tables.chunkTmpData.erase replica }

/-- The replicas of a message that no message before it has named. -/
def storeReplicas (root : StdString) (ownerId : ConstDataBuffer) :
    List ConstDataBuffer → EStateM Error (NodeState × List ConstDataBuffer) Unit
  | [] => return ()
  | replica :: replicas => do
    let (_, processed) ← get
    if replica ∈ processed then storeReplicas root ownerId replicas
    else do
      modify fun s => (s.1, replica :: s.2)
      fun s => match storeTmpReplica root ownerId replica s.1 with
        | .ok _ node => .ok () (node, s.2)
        | .error e node => .error e (node, s.2)
      storeReplicas root ownerId replicas

/-- What the walk over the messages of the block does with one of them. -/
def visitMessage : Message → EStateM Error (NodeState × List ConstDataBuffer) Bool
  | .storeBlock message => do
    match services.currentUser with
    | .error e => throw e
    | .ok root => do
      storeReplicas root message.ownerId message.replicas
      return true
  | _ => return true

def walkReplicas (block : TransactionBlock) : NodeM Bool := fun s =>
  match block.walkMessages services.sp.crypto (visitMessage services) (s, []) with
  | .ok result (node, _) => .ok result node
  | .error e (node, _) => .error e node

def clientSave (block : ConstDataBuffer) (allowRoot : Bool) : ClientM ConstDataBuffer := do
  let messages ← beforeBuild services block
  let data ← buildBlock services messages
  onNode do
    let logBlock ← getExpected (TransactionBlock.create services.sp.crypto data)
    let _ ← walkReplicas services logBlock
    onLog (save services.sp services.rounds data allowRoot)

end Vds.DhtNetwork
