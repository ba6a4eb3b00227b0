import Vds.Database.Model
import Vds.Kernel.Base64
import Vds.Kernel.Chunk
import Vds.Kernel.Crypto

/-! The replicas that a node keeps: the storages it reserves, the rows of the replicas in them and
their files (`_client::save_data` in its three variants). -/

namespace Vds.DhtNetwork

open StateError

/-! ### Tables and files -/

/-- `node_storage_dbo::usage_type_t`. -/
inductive UsageType
  | share
  | exclusive
  deriving DecidableEq, Repr

/-- A row of `node_storage_dbo` under its `storage_id`. -/
structure NodeStorage where
  localPath : StdString
  ownerId : ConstDataBuffer
  reservedSize : Int64
  usageType : UsageType
  deriving DecidableEq

/-- A row of `local_data_dbo` under `(replica_hash, owner)`. -/
structure LocalData where
  storageId : ConstDataBuffer
  replicaSize : Int64
  storagePath : StdString
  lastAccess : Int64
  deriving DecidableEq

/-- A row of `current_config` under its `node_id`. -/
structure CurrentConfig where
  publicKey : ConstDataBuffer
  privateKey : ConstDataBuffer
  deriving DecidableEq

/-- What a database transaction can roll back. -/
structure NodeTables where
  db : Database := {}
  nodeStorages : Table ConstDataBuffer NodeStorage := ∅
  localData : Table (ConstDataBuffer × ConstDataBuffer) LocalData := ∅
  /-- `chunk_tmp_data`: the `last_sync` of each `object_id`. -/
  chunkTmpData : Table ConstDataBuffer Int64 := ∅
  currentConfig : Table ConstDataBuffer CurrentConfig := ∅

/-- How the operating system or sqlite ends an operation. -/
inductive FileOutcome
  | done
  | refused
  /-- The operation fails; a file that it was writing is left with these bytes. -/
  | torn (rest : ConstDataBuffer)
  deriving DecidableEq

structure NodeState where
  tables : NodeTables := {}
  files : Table StdString ConstDataBuffer := ∅
  /-- The outcomes of the operations to come; they are done where the list ends. -/
  outcomes : List FileOutcome := []
  /-- `system_clock::now()`. -/
  now : TimePoint := 0

abbrev NodeM (α : Type) := EStateM Error NodeState α

namespace NodeState

def writeTables (f : NodeTables → NodeTables) : NodeM Unit :=
  modify fun s => { s with tables := f s.tables }

/-- The outcome of the next operation. -/
def nextOutcome : NodeM FileOutcome := do
  let s ← get
  set { s with outcomes := s.outcomes.tail }
  return s.outcomes.headD .done

/-- An operation that leaves nothing behind when it fails. -/
def attempt (what : String) : NodeM Unit := do
  match ← nextOutcome with
  | .done => return ()
  | _ => throw (.runtimeError what)

/-- A select: it may fail before its first row. -/
def select {α : Type} (rows : NodeTables → α) : NodeM α := do
  attempt "SQL error"
  let s ← get
  return rows s.tables

/-- `file::write_all`: opened with `truncate`, so that a failure can leave other bytes. -/
def writeAll (fn : StdString) (data : ConstDataBuffer) : NodeM Unit := do
  match ← nextOutcome with
  | .done => modify fun s => { s with files := s.files.insert fn data }
  | .refused => throw (.runtimeError "Unable to open file")
  | .torn rest => do
    modify fun s => { s with files := s.files.insert fn rest }
    throw (.runtimeError "Failed to write file")

def fileLength (fn : StdString) : NodeM Nat := do
  attempt "Unable to get file size of "
  let s ← get
  match s.files.lookup fn with
  | some data => return data.length
  | none => throw (.runtimeError "Unable to get file size of ")

/-- `file::move`, a `rename`. -/
def move (source target : StdString) : NodeM Unit := do
  attempt "Rename file "
  let s ← get
  match s.files.lookup source with
  | some data => modify fun s => { s with files := (s.files.erase source).insert target data }
  | none => throw (.runtimeError "Rename file ")

end NodeState

open NodeState

/-! ### Saving a replica -/

/-- `filename(foldername, relative)` and `foldername(foldername, relative)`. -/
def join (base relative : StdString) : StdString := base ++ 0x2F :: relative

/-- The `storage_path` of a replica in its storage. -/
def storagePath (dataHash : ConstDataBuffer) : StdString :=
  let append := Base64.appendPath dataHash
  append.take 10 ++ 0x2F :: (append.drop 10).take 10 ++ 0x2F :: append.drop 20

/-- The first row of the replica in a known storage. -/
def findReplica (tables : NodeTables) (dataHash : ConstDataBuffer) :
    Option (LocalData × NodeStorage) :=
  (tables.localData.select fun key _ => key.1 = dataHash).findSome? fun row =>
    (tables.nodeStorages.lookup row.2.storageId).map fun storage => (row.2, storage)

/-- The answer for a replica that is there; the folder and the name are exchanged. -/
def foundPath (found : LocalData × NodeStorage) : StdString :=
  join found.1.storagePath found.2.localPath

/-- What the loop over the storages has chosen. -/
structure Selected where
  allowedSize : UInt64 := 0
  localPath : StdString := []
  storageId : ConstDataBuffer := []

def NodeStorage.usable (storage : NodeStorage) (owner : ConstDataBuffer) : Bool :=
  storage.usageType == .share || storage.usageType == .exclusive && storage.ownerId == owner

/-- The sizes recorded for a storage. -/
def recordedSize (tables : NodeTables) (storageId : ConstDataBuffer) : Int :=
  tables.localData.total fun _ row => if row.storageId = storageId then row.replicaSize.toInt else 0

/-- `SUM(replica_size)` of the joined rows, zero where there are none. -/
def dataSize (tables : NodeTables) (storageId : ConstDataBuffer) : Expected Int64 :=
  let sum := recordedSize tables storageId
  if -2 ^ 63 ≤ sum ∧ sum < 2 ^ 63 then .ok (Int64.ofInt sum)
  else .error (.runtimeError "integer overflow")

/-- The body of the loop over the storages. -/
def Selected.offer (s : Selected) (storageId : ConstDataBuffer) (storage : NodeStorage)
    (size : Int64) : Selected :=
  if storage.reservedSize > size ∧ s.allowedSize < (storage.reservedSize - size).toUInt64 then
    ⟨(storage.reservedSize - size).toUInt64, storage.localPath, storageId⟩
  else s

def selectLoop (tables : NodeTables) :
    List (ConstDataBuffer × NodeStorage) → Selected → Expected Selected
  | [], s => .ok s
  | (storageId, storage) :: storages, s =>
    match dataSize tables storageId with
    | .error e => .error e
    | .ok size => selectLoop tables storages (s.offer storageId storage size)

/-- The storage with the most free space among those that the owner may use. -/
def selectStorage (tables : NodeTables) (owner : ConstDataBuffer) : Expected Selected :=
  selectLoop tables (tables.nodeStorages.select fun _ storage => storage.usable owner) {}

def getExpected {α : Type} : Expected α → NodeM α
  | .ok a => return a
  | .error e => throw e

/-- The checks and folders before the file is written; the result is the storage and the file. -/
def prepareFile (dataHash owner : ConstDataBuffer) (size : NodeM Nat) :
    NodeM (Selected × StdString × Nat) := do
  let selected ← select fun tables => selectStorage tables owner
  let selected ← getExpected selected
  let size ← size
  if selected.localPath.isEmpty ∨ selected.allowedSize.toNat < size then
    throw (.runtimeError "No disk space")
  else do
    attempt "Unable to create folder "
    attempt "Unable to create folder "
    attempt "Unable to create folder "
    return (selected, join selected.localPath (storagePath dataHash), size)

/-- The row of the replica. -/
def insertLocalData (selected : Selected) (dataHash owner : ConstDataBuffer) (size : Nat) :
    NodeM Unit := do
  attempt "SQL error"
  let s ← get
  match s.tables.localData.lookup (dataHash, owner) with
  | some _ => throw (.constraint "local_data_dbo")
  | none =>
    writeTables fun tables => { tables with
      localData := tables.localData.insert (dataHash, owner)
        { storageId := selected.storageId
          replicaSize := Int64.ofNat size
          storagePath := storagePath dataHash
          lastAccess := toTimeT s.now } }

/-- `save_data` of bytes. -/
def saveData (dataHash data owner : ConstDataBuffer) : NodeM StdString := do
  let rows ← select fun tables =>
    tables.db.chunkReplicaData.select fun _ row => row.replicaHash = dataHash
  if rows.head?.any (fun row => data.length ≠ row.2.replicaSize.toNat) then
    throw (.runtimeError "Data collusion ")
  else do
    match ← select fun tables => findReplica tables dataHash with
    | some found => return foundPath found
    | none => do
      let (selected, fn, size) ← prepareFile dataHash owner (return data.length)
      writeAll fn data
      insertLocalData selected dataHash owner size
      return fn

/-- `save_data` of a file, which is moved. -/
def saveDataFile (dataHash : ConstDataBuffer) (originalFile : StdString) (owner : ConstDataBuffer) :
    NodeM StdString := do
  match ← select fun tables => findReplica tables dataHash with
  | some found => return foundPath found
  | none => do
    let (selected, fn, size) ← prepareFile dataHash owner (fileLength originalFile)
    move originalFile fn
    insertLocalData selected dataHash owner size
    return fn

/-- `service::MIN_HORCRUX`. -/
def minHorcrux : Nat := 32

/-- `service::GENERATE_HORCRUX`. -/
def generateHorcrux : Nat := 64

/-- The replica that the generator of its number writes. -/
def replicaData (data : ConstDataBuffer) (replica : Nat) : ConstDataBuffer :=
  ChunkGenerator.write { k := minHorcrux, n := UInt16.ofNat replica } data

variable (sp : ServiceProvider)

/-- The body of the loop of `save_data` over the replicas of an object. -/
def saveReplica (data owner : ConstDataBuffer) (replica : Nat) : NodeM Unit := do
  let bytes := replicaData data replica
  let replicaHash := sp.crypto.sha256 bytes
  match ← select fun tables => findReplica tables replicaHash with
  | some _ => return ()
  | none => do
    let (selected, fn, size) ← prepareFile replicaHash owner (return bytes.length)
    writeAll fn bytes
    insertLocalData selected replicaHash owner size

/-- `save_data` of an object, which generates the replicas. -/
def saveDataObject (data owner : ConstDataBuffer) : NodeM Unit :=
  (List.range generateHorcrux).forM fun replica => saveReplica sp data owner replica

end Vds.DhtNetwork
