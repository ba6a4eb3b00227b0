import Vds.Kernel.Core
import Vds.Library.StateError
import Vds.Library.Table

/-! The tables of the node's database that the transaction log reads and writes, and the
statements on them. -/

namespace Vds

/-! ### Rows -/

/-- `transaction_log_record_dbo::state_t`. -/
inductive RecordState
  | validated
  | processed
  | leaf
  | invalid
  deriving DecidableEq, Repr

/-- `transaction_log_record_dbo::have_state`: the records of the block are applied. -/
def RecordState.haveState (state : RecordState) : Bool := state == .leaf || state == .processed

structure LogRecord where
  data : ConstDataBuffer
  state : RecordState
  consensus : Bool
  orderNo : Int64
  timePoint : Int64

/-- The columns that are never updated. -/
def LogRecord.core (row : LogRecord) : ConstDataBuffer × Int64 × Int64 :=
  (row.data, row.orderNo, row.timePoint)

structure VoteRequest where
  approved : Bool
  newMember : Bool
  deriving DecidableEq

/-- The primary key of `datacoin_balance_dbo`. -/
structure BalanceKey where
  owner : ConstDataBuffer
  issuer : ConstDataBuffer
  currency : StdString
  sourceTransaction : ConstDataBuffer
  deriving DecidableEq

structure DatacoinBalance where
  confirmedBalance : Int64
  proposedBalance : Int64
  deriving DecidableEq

structure NodeInfo where
  publicKey : ConstDataBuffer
  lastActivity : Int64
  deriving DecidableEq

structure ChannelMessageRow where
  blockId : ConstDataBuffer
  channelId : ConstDataBuffer
  readId : ConstDataBuffer
  writeId : ConstDataBuffer
  cryptedKey : ConstDataBuffer
  cryptedData : ConstDataBuffer
  signature : ConstDataBuffer
  deriving DecidableEq

/-- The primary key of `chunk_replica_data`. -/
structure ReplicaKey where
  ownerId : ConstDataBuffer
  objectHash : ConstDataBuffer
  replica : Int16
  deriving DecidableEq

structure ChunkReplicaData where
  replicaHash : ConstDataBuffer
  replicaSize : UInt32
  distance : UInt32
  deriving DecidableEq

/-- The primary key of `chunk_replica_payment`. -/
structure ReplicaPaymentKey where
  ownerId : ConstDataBuffer
  replicaHash : ConstDataBuffer
  node : ConstDataBuffer
  deriving DecidableEq

/-! ### Tables -/

structure Database where
  logRecords : Table ConstDataBuffer LogRecord := ∅
  /-- Rows `(id, follower_id)`; both columns are the key. -/
  logHierarchy : Table (ConstDataBuffer × ConstDataBuffer) Unit := ∅
  /-- Rows under `(id, owner)`. -/
  voteRequests : Table (ConstDataBuffer × ConstDataBuffer) VoteRequest := ∅
  balances : Table BalanceKey DatacoinBalance := ∅
  wallets : Table ConstDataBuffer ConstDataBuffer := ∅
  memberUsers : Table ConstDataBuffer ConstDataBuffer := ∅
  nodeInfos : Table ConstDataBuffer NodeInfo := ∅
  channelMessages : Table Nat ChannelMessageRow := ∅
  /-- The counter of the AUTOINCREMENT column of `channel_message_dbo`. -/
  channelMessageSeq : Nat := 0
  chunkReplicaData : Table ReplicaKey ChunkReplicaData := ∅
  /-- Rows under `(replica_hash, node)`. -/
  chunkReplicaMap : Table (ConstDataBuffer × ConstDataBuffer) Int64 := ∅
  chunkReplicaPayment : Table ReplicaPaymentKey Int64 := ∅

/-- A text column takes the value up to its first NUL (`sqlite3_bind_text` of `c_str()`). -/
def textColumn (value : StdString) : StdString := value.takeWhile (· ≠ 0)

/-! ### A transaction -/

/-- What a run of the log does, in the order it does it, with the database in front of each
step. No function reads it. -/
inductive Event
  /-- `process_block_with_followers` takes the block `id`; `pending` is what is left to take. -/
  | visit (db : Database) (id : ConstDataBuffer) (pending : List ConstDataBuffer)
  /-- `update_consensus` gives a vote on a confirmed block to a node that had none. -/
  | newVoter (db : Database) (id owner : ConstDataBuffer)
  /-- `update_consensus` starts to confirm the blocks `ids`, in this order. -/
  | confirm (db : Database) (ids : List ConstDataBuffer)
  /-- `consensus_records` runs for the block `id`. -/
  | consensusRecords (db : Database) (id : ConstDataBuffer)
  /-- `rollback_all` starts. -/
  | rollback (db : Database) (minOrder : UInt64)
  /-- `update_consensus` looks, after a rollback, for the blocks that wait for leaves. -/
  | reprocess (db : Database)

def Event.isRollback : Event → Bool
  | .rollback .. => true
  | _ => false

structure DatabaseTransaction where
  db : Database
  journal : List Event := []
  /-- `system_clock::now()`. -/
  now : TimePoint := 0

/-- A function of the log on an open transaction. -/
abbrev LogM (α : Type) := EStateM Error DatabaseTransaction α

def writeDb (f : Database → Database) : LogM Unit := modify fun t => { t with db := f t.db }

def record (event : Database → Event) : LogM Unit :=
  modify fun t => { t with journal := event t.db :: t.journal }

/-- A table of the database under its name in SQL. -/
structure Dbo (K V : Type) where
  tableName : String
  rows : Database → Table K V
  write : Table K V → Database → Database

namespace Dbo

variable {K V : Type} [DecidableEq K]

/-- The row under a primary key, if there is one. -/
def find (dbo : Dbo K V) (k : K) : LogM (Option V) := do
  let t ← get
  return (dbo.rows t.db).lookup k

def select (dbo : Dbo K V) (p : K → V → Bool) : LogM (List (K × V)) := do
  let t ← get
  return (dbo.rows t.db).select p

def insert (dbo : Dbo K V) (k : K) (v : V) : LogM Unit := do
  match ← dbo.find k with
  | some _ => throw (.constraint dbo.tableName)
  | none => writeDb fun db => dbo.write ((dbo.rows db).insert k v) db

def update (dbo : Dbo K V) (k : K) (g : V → V) : LogM Unit :=
  writeDb fun db => dbo.write ((dbo.rows db).update k g) db

def delete (dbo : Dbo K V) (k : K) : LogM Unit :=
  writeDb fun db => dbo.write ((dbo.rows db).erase k) db

def deleteIf (dbo : Dbo K V) (p : K → V → Bool) : LogM Unit :=
  writeDb fun db => dbo.write ((dbo.rows db).filterOut p) db

variable (dbo : Dbo K V) (t : DatabaseTransaction)

@[simp] theorem find_apply (k : K) : dbo.find k t = .ok ((dbo.rows t.db).lookup k) t := rfl

omit [DecidableEq K] in
@[simp] theorem select_apply (p : K → V → Bool) :
    dbo.select p t = .ok ((dbo.rows t.db).select p) t := rfl

@[simp] theorem update_apply (k : K) (g : V → V) :
    dbo.update k g t = .ok () { t with db := dbo.write ((dbo.rows t.db).update k g) t.db } := rfl

@[simp] theorem delete_apply (k : K) :
    dbo.delete k t = .ok () { t with db := dbo.write ((dbo.rows t.db).erase k) t.db } := rfl

omit [DecidableEq K] in
@[simp] theorem deleteIf_apply (p : K → V → Bool) :
    dbo.deleteIf p t = .ok () { t with db := dbo.write ((dbo.rows t.db).filterOut p) t.db } := rfl

theorem insert_of_none {k : K} (v : V) (h : (dbo.rows t.db).lookup k = none) :
    dbo.insert k v t = .ok () { t with db := dbo.write ((dbo.rows t.db).insert k v) t.db } := by
  unfold insert
  rw [StateError.bind_of_ok (find_apply dbo t k), h]
  rfl

theorem insert_of_some {k : K} (v : V) {old : V} (h : (dbo.rows t.db).lookup k = some old) :
    dbo.insert k v t = .error (.constraint dbo.tableName) t := by
  unfold insert
  rw [StateError.bind_of_ok (find_apply dbo t k), h]
  rfl

theorem insert_eq_ok {k : K} {v : V} {t t' : DatabaseTransaction} {u : Unit} :
    dbo.insert k v t = .ok u t' ↔ (dbo.rows t.db).lookup k = none ∧
      t' = { t with db := dbo.write ((dbo.rows t.db).insert k v) t.db } := by
  cases h : (dbo.rows t.db).lookup k with
  | none =>
    rw [insert_of_none dbo t v h]
    exact ⟨fun h => by cases h; exact ⟨rfl, rfl⟩, by rintro ⟨-, rfl⟩; rfl⟩
  | some old =>
    rw [insert_of_some dbo t v h]
    exact ⟨fun h => (nomatch h), fun h => (nomatch h.1)⟩

section Bind

variable {β : Type}

@[simp] theorem find_bind (k : K) (f : Option V → LogM β) :
    (dbo.find k >>= f) t = f ((dbo.rows t.db).lookup k) t := rfl

omit [DecidableEq K] in
@[simp] theorem select_bind (p : K → V → Bool) (f : List (K × V) → LogM β) :
    (dbo.select p >>= f) t = f ((dbo.rows t.db).select p) t := rfl

@[simp] theorem update_bind (k : K) (g : V → V) (f : Unit → LogM β) :
    (dbo.update k g >>= f) t =
      f () { t with db := dbo.write ((dbo.rows t.db).update k g) t.db } := rfl

theorem insert_bind_eq_ok {k : K} {v : V} {f : Unit → LogM β} {t t' : DatabaseTransaction} {b : β} :
    (dbo.insert k v >>= f) t = .ok b t' ↔ (dbo.rows t.db).lookup k = none ∧
      f () { t with db := dbo.write ((dbo.rows t.db).insert k v) t.db } = .ok b t' := by
  rw [StateError.bind_eq_ok]
  constructor
  · rintro ⟨_, t₁, hi, h⟩
    obtain ⟨hn, rfl⟩ := (insert_eq_ok dbo).mp hi
    exact ⟨hn, h⟩
  · rintro ⟨hn, h⟩
    exact ⟨(), _, (insert_eq_ok dbo).mpr ⟨hn, rfl⟩, h⟩

end Bind

/-! ### Moves -/

section Moves

open StateError

variable {R : DatabaseTransaction → DatabaseTransaction → Prop} {dbo}

/-- `R` allows writes to the table. -/
def Writes (dbo : Dbo K V) (R : DatabaseTransaction → DatabaseTransaction → Prop) : Prop :=
  ∀ rows t, R t { t with db := dbo.write rows t.db }

omit [DecidableEq K] in
theorem moves_select [Std.Refl R] (p : K → V → Bool) : Moves R (dbo.select p) := fun t => refl_of R t

omit [DecidableEq K] in
theorem moves_deleteIf (h : dbo.Writes R) (p : K → V → Bool) : Moves R (dbo.deleteIf p) :=
  fun t => h _ t

theorem moves_find [Std.Refl R] (k : K) : Moves R (dbo.find k) := fun t => refl_of R t

theorem moves_update (h : dbo.Writes R) (k : K) (g : V → V) : Moves R (dbo.update k g) :=
  fun t => h _ t

theorem moves_delete (h : dbo.Writes R) (k : K) : Moves R (dbo.delete k) := fun t => h _ t

theorem moves_insert [Std.Refl R] (h : dbo.Writes R) (k : K) (v : V) : Moves R (dbo.insert k v) := by
  intro t
  cases hk : (dbo.rows t.db).lookup k with
  | none =>
    rw [insert_of_none dbo t v hk]
    exact h _ t
  | some old =>
    rw [insert_of_some dbo t v hk]
    exact refl_of R t

end Moves

end Dbo

@[simp] theorem writeDb_apply (f : Database → Database) (t : DatabaseTransaction) :
    writeDb f t = .ok () { t with db := f t.db } := rfl

@[simp] theorem record_apply (event : Database → Event) (t : DatabaseTransaction) :
    record event t = .ok () { t with journal := event t.db :: t.journal } := rfl

@[simp] theorem record_bind {β : Type} (event : Database → Event) (f : Unit → LogM β)
    (t : DatabaseTransaction) :
    (record event >>= f) t = f () { t with journal := event t.db :: t.journal } := rfl

namespace Orm

def transactionLogRecord : Dbo ConstDataBuffer LogRecord :=
  ⟨"transaction_log_record", (·.logRecords), fun rows db => { db with logRecords := rows }⟩

def transactionLogHierarchy : Dbo (ConstDataBuffer × ConstDataBuffer) Unit :=
  ⟨"transaction_log_hierarchy", (·.logHierarchy), fun rows db => { db with logHierarchy := rows }⟩

def transactionLogVoteRequest : Dbo (ConstDataBuffer × ConstDataBuffer) VoteRequest :=
  ⟨"transaction_log_vote_request", (·.voteRequests),
    fun rows db => { db with voteRequests := rows }⟩

def datacoinBalance : Dbo BalanceKey DatacoinBalance :=
  ⟨"datacoin_balance_dbo", (·.balances), fun rows db => { db with balances := rows }⟩

def wallet : Dbo ConstDataBuffer ConstDataBuffer :=
  ⟨"wallet_dbo", (·.wallets), fun rows db => { db with wallets := rows }⟩

def memberUser : Dbo ConstDataBuffer ConstDataBuffer :=
  ⟨"member_user_dbo", (·.memberUsers), fun rows db => { db with memberUsers := rows }⟩

def nodeInfo : Dbo ConstDataBuffer NodeInfo :=
  ⟨"node_info_dbo", (·.nodeInfos), fun rows db => { db with nodeInfos := rows }⟩

def channelMessage : Dbo Nat ChannelMessageRow :=
  ⟨"channel_message_dbo", (·.channelMessages), fun rows db => { db with channelMessages := rows }⟩

def chunkReplicaData : Dbo ReplicaKey ChunkReplicaData :=
  ⟨"chunk_replica_data", (·.chunkReplicaData),
    fun rows db => { db with chunkReplicaData := rows }⟩

def chunkReplicaMap : Dbo (ConstDataBuffer × ConstDataBuffer) Int64 :=
  ⟨"chunk_replica_map", (·.chunkReplicaMap), fun rows db => { db with chunkReplicaMap := rows }⟩

def chunkReplicaPayment : Dbo ReplicaPaymentKey Int64 :=
  ⟨"chunk_replica_payment", (·.chunkReplicaPayment),
    fun rows db => { db with chunkReplicaPayment := rows }⟩

variable (db : Database)

@[simp] theorem transactionLogRecord_rows : transactionLogRecord.rows db = db.logRecords := rfl

@[simp] theorem transactionLogRecord_write (rows) : transactionLogRecord.write rows db = { db with logRecords := rows } := rfl

@[simp] theorem transactionLogHierarchy_rows : transactionLogHierarchy.rows db = db.logHierarchy := rfl

@[simp] theorem transactionLogHierarchy_write (rows) : transactionLogHierarchy.write rows db = { db with logHierarchy := rows } := rfl

@[simp] theorem transactionLogVoteRequest_rows : transactionLogVoteRequest.rows db = db.voteRequests := rfl

@[simp] theorem transactionLogVoteRequest_write (rows) : transactionLogVoteRequest.write rows db = { db with voteRequests := rows } := rfl

@[simp] theorem datacoinBalance_rows : datacoinBalance.rows db = db.balances := rfl

@[simp] theorem datacoinBalance_write (rows) : datacoinBalance.write rows db = { db with balances := rows } := rfl

@[simp] theorem wallet_rows : wallet.rows db = db.wallets := rfl

@[simp] theorem memberUser_rows : memberUser.rows db = db.memberUsers := rfl

@[simp] theorem nodeInfo_rows : nodeInfo.rows db = db.nodeInfos := rfl

@[simp] theorem channelMessage_rows : channelMessage.rows db = db.channelMessages := rfl

@[simp] theorem chunkReplicaData_rows : chunkReplicaData.rows db = db.chunkReplicaData := rfl

@[simp] theorem chunkReplicaMap_rows : chunkReplicaMap.rows db = db.chunkReplicaMap := rfl

@[simp] theorem chunkReplicaPayment_rows : chunkReplicaPayment.rows db = db.chunkReplicaPayment := rfl

end Orm

/-- `async_transaction` of a handler: an error rolls the database back, a result commits it. -/
def asyncTransaction {α : Type} (handler : LogM α) (db : Database) (now : TimePoint) :
    Expected α × Database :=
  match handler { db, now } with
  | .ok a t => (.ok a, t.db)
  | .error e _ => (.error e, db)

end Vds
