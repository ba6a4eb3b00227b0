import Vds.LogSync.TransactionBlock

/-! What the messages of a block do to the database: applying a message, confirming it and
undoing it, and the same for all the messages of a block. -/

namespace Vds.LogSync

open Transactions

/-- `GET_EXPECTED` of a result that does not touch the database. -/
def getExpected {α : Type} (v : Expected α) : LogM α :=
  match v with
  | .ok a => return a
  | .error e => throw e

theorem getExpected_eq_ok {α : Type} {v : Expected α} {a : α} {t t' : DatabaseTransaction} :
    getExpected v t = .ok a t' ↔ v = .ok a ∧ t' = t := by
  cases v with
  | ok b => exact ⟨fun h => by cases h; exact ⟨rfl, rfl⟩, by rintro ⟨⟨⟩, rfl⟩; rfl⟩
  | error e => exact ⟨fun h => (nomatch h), fun h => (nomatch h.1)⟩

theorem getExpected_bind_eq_ok {α β : Type} {v : Expected α} {f : α → LogM β} {b : β}
    {t t' : DatabaseTransaction} :
    (getExpected v >>= f) t = .ok b t' ↔ ∃ a, v = .ok a ∧ f a t = .ok b t' := by
  cases v with
  | ok a => exact ⟨fun h => ⟨a, rfl, h⟩, by rintro ⟨_, ⟨⟩, h⟩; exact h⟩
  | error e => exact ⟨fun h => (nomatch h), fun ⟨_, h, _⟩ => (nomatch h)⟩

def leadingZeros : Nat → UInt8 → Nat
  | 0, _ => 0
  | n + 1, b => if 0x80 ≤ b then 0 else leadingZeros n (b <<< 1) + 1

/-- `dht_object_id::distance_exp`: the number of the first bit in which two ids differ. -/
def distanceExp : ConstDataBuffer → ConstDataBuffer → Nat :=
  go 0
where
  go (i : Nat) : ConstDataBuffer → ConstDataBuffer → Nat
    | a :: as, b :: bs =>
      if a ^^^ b = 0 then go (i + 1) as bs else 8 * i + leadingZeros 8 (a ^^^ b)
    | [], [] => 0
    | _, _ => 8 * i

variable (sp : ServiceProvider)

/-! ### payment_transaction -/

/-- The row a payment takes from. -/
def sourceKey (m : PaymentTransaction) : BalanceKey :=
  ⟨m.sourceWallet, m.issuer, textColumn m.currency, m.sourceTransaction⟩

/-- The row a payment in the block `id` makes. -/
def targetKey (m : PaymentTransaction) (id : ConstDataBuffer) : BalanceKey :=
  ⟨m.targetWallet, m.issuer, textColumn m.currency, id⟩

def applyPayment (message : PaymentTransaction) (block : TransactionBlock) : LogM Bool := do
  match ← Orm.wallet.find message.sourceWallet with
  | none => return false
  | some publicKey => do
    let key ← getExpected (sp.crypto.parseDer publicKey)
    let signatureOk ← getExpected (sp.crypto.verify key message.signature message.signatureData)
    if !signatureOk then return false
    else do
      match ← Orm.datacoinBalance.find (sourceKey message) with
      | none => return false
      | some row =>
        -- the signed column is compared with the unsigned value as an unsigned number
        let balance := row.proposedBalance
        if balance.toUInt64 < message.value then return false
        else do
          Orm.datacoinBalance.update (sourceKey message) fun row =>
            { row with proposedBalance := (balance.toUInt64 - message.value).toInt64 }
          Orm.datacoinBalance.insert (targetKey message block.id)
            { proposedBalance := message.value.toInt64, confirmedBalance := 0 }
          return true

def consensusPayment (message : PaymentTransaction) (block : TransactionBlock) : LogM Unit := do
  match ← Orm.datacoinBalance.find (sourceKey message) with
  | none => throw (.runtimeError "Database state is corrupted")
  | some row =>
    let confirmedBalance := row.confirmedBalance
    if confirmedBalance.toUInt64 < message.value then
      throw (.runtimeError "Database state is corrupted")
    else do
      Orm.datacoinBalance.update (sourceKey message) fun row =>
        { row with confirmedBalance := (confirmedBalance.toUInt64 - message.value).toInt64 }
      match ← Orm.datacoinBalance.find (targetKey message block.id) with
      | none => throw (.runtimeError "Database state is corrupted")
      | some row =>
        let confirmedBalance := row.confirmedBalance
        Orm.datacoinBalance.update (targetKey message block.id) fun row =>
          { row with confirmedBalance := (confirmedBalance.toUInt64 + message.value).toInt64 }

def undoPayment (message : PaymentTransaction) (block : TransactionBlock) : LogM Unit := do
  match ← Orm.datacoinBalance.find (sourceKey message) with
  | some row =>
    let balance := row.proposedBalance
    Orm.datacoinBalance.update (sourceKey message) fun row =>
      { row with proposedBalance := (balance.toUInt64 + message.value).toInt64 }
  | none =>
    -- the insert names no confirmed_balance, a NOT NULL column without a default
    throw (.constraint Orm.datacoinBalance.tableName)
  Orm.datacoinBalance.delete (targetKey message block.id)

/-! ### channel_message -/

def applyChannelMessage (message : ChannelMessage) (block : TransactionBlock) : LogM Bool := do
  -- an empty buffer is bound as NULL to the NOT NULL column crypted_data
  if message.cryptedData = [] then throw (.constraint Orm.channelMessage.tableName)
  else do
    writeDb fun db => { db with channelMessageSeq := db.channelMessageSeq + 1 }
    let t ← get
    Orm.channelMessage.insert t.db.channelMessageSeq
      { blockId := block.id, channelId := message.channelId, readId := message.readId,
        writeId := message.writeId, cryptedKey := message.cryptedKey,
        cryptedData := message.cryptedData, signature := message.signature }
    return true

def undoChannelMessage (message : ChannelMessage) (block : TransactionBlock) : LogM Unit :=
  Orm.channelMessage.deleteIf fun _ row =>
    row.blockId = block.id && row.channelId = message.channelId && row.readId = message.readId &&
      row.writeId = message.writeId && row.cryptedKey = message.cryptedKey &&
      row.signature = message.signature

/-! ### create_user_transaction -/

def applyCreateUser (message : CreateUserTransaction) : LogM Bool := do
  Orm.memberUser.insert (sp.crypto.fingerprint message.userPublicKey) message.userPublicKey.der
  return true

/-! ### node_add_transaction -/

def applyNodeAdd (message : NodeAddTransaction) (block : TransactionBlock) : LogM Bool := do
  let nodeId := sp.crypto.fingerprint message.nodePublicKey
  match ← Orm.nodeInfo.find nodeId with
  | some row =>
    if fromTimeT row.lastActivity < block.timePoint then
      Orm.nodeInfo.update nodeId fun row => { row with lastActivity := toTimeT block.timePoint }
  | none =>
    Orm.nodeInfo.insert nodeId
      { publicKey := message.nodePublicKey.der, lastActivity := toTimeT block.timePoint }
  Orm.transactionLogVoteRequest.insert (block.id, nodeId) { approved := false, newMember := true }
  return true

/-- The vote row stays. -/
def undoNodeAdd (message : NodeAddTransaction) : LogM Unit :=
  Orm.nodeInfo.delete (sp.crypto.fingerprint message.nodePublicKey)

/-! ### create_wallet_transaction -/

def applyCreateWallet (message : CreateWalletTransaction) : LogM Bool := do
  let publicKey ← getExpected (sp.crypto.parseDer message.publicKey)
  if message.publicKey = [] then throw (.constraint Orm.wallet.tableName)
  else do
    Orm.wallet.insert (sp.crypto.fingerprint publicKey) message.publicKey
    return true

def undoCreateWallet (message : CreateWalletTransaction) : LogM Unit := do
  let publicKey ← getExpected (sp.crypto.parseDer message.publicKey)
  Orm.wallet.delete (sp.crypto.fingerprint publicKey)

/-! ### asset_issue_transaction -/

/-- The row an asset issue in the block `id` makes. -/
def assetKey (m : AssetIssueTransaction) (id : ConstDataBuffer) : BalanceKey :=
  ⟨m.walletId, m.issuer, textColumn m.currency, id⟩

def applyAssetIssue (message : AssetIssueTransaction) (block : TransactionBlock) : LogM Bool := do
  match ← Orm.memberUser.find message.issuer with
  | none => return false
  | some publicKey => do
    let key ← getExpected (sp.crypto.parseDer publicKey)
    let signatureOk ← getExpected (sp.crypto.verify key message.signature message.signatureData)
    if !signatureOk then return false
    else do
      Orm.datacoinBalance.insert (assetKey message block.id)
        { proposedBalance := message.value.toInt64, confirmedBalance := 0 }
      return true

def consensusAssetIssue (message : AssetIssueTransaction) (block : TransactionBlock) :
    LogM Unit := do
  match ← Orm.datacoinBalance.find (assetKey message block.id) with
  | none => throw (.runtimeError "Database state is corrupted")
  | some row =>
    if row.proposedBalance.toUInt64 ≠ message.value ∨ row.confirmedBalance ≠ 0 then
      throw (.runtimeError "Database state is corrupted")
    else
      Orm.datacoinBalance.update (assetKey message block.id) fun _ =>
        { proposedBalance := message.value.toInt64, confirmedBalance := message.value.toInt64 }

def undoAssetIssue (message : AssetIssueTransaction) (block : TransactionBlock) : LogM Unit :=
  Orm.datacoinBalance.delete (assetKey message block.id)

/-! ### store_block_transaction -/

/-- The values the `uint16_t` index of the loop takes. From 65536 replicas on it comes back to
0, where the insert breaks the primary key. -/
def replicaIndexes (count : Nat) : List Nat :=
  if count < 65536 then List.range count else List.range 65536 ++ [0]

def insertReplicaPayment (ownerId replicaHash : ConstDataBuffer) (block : TransactionBlock) :
    LogM Unit := do
  let t ← get
  Orm.chunkReplicaMap.insert (replicaHash, block.writePublicKeyId) (toTimeT t.now)
  Orm.chunkReplicaPayment.insert ⟨ownerId, replicaHash, block.writePublicKeyId⟩
    (toTimeT block.timePoint)

def deleteReplicaPayment (ownerId replicaHash : ConstDataBuffer) (block : TransactionBlock) :
    LogM Unit := do
  Orm.chunkReplicaMap.delete (replicaHash, block.writePublicKeyId)
  Orm.chunkReplicaPayment.delete ⟨ownerId, replicaHash, block.writePublicKeyId⟩

def applyStoreBlock (message : StoreBlockTransaction) (block : TransactionBlock) : LogM Bool := do
  (replicaIndexes message.replicas.length).forM fun index => do
    let replicaHash := message.replicas.getD index []
    -- UNIQUE(replica_hash)
    let same ← Orm.chunkReplicaData.select fun _ row => row.replicaHash = replicaHash
    if same.isEmpty then
      Orm.chunkReplicaData.insert ⟨message.ownerId, message.objectId, Int16.ofNat index⟩
        { replicaHash, replicaSize := message.replicaSize,
          distance := UInt32.ofNat (distanceExp sp.currentNodeId replicaHash) }
    else throw (.constraint Orm.chunkReplicaData.tableName)
    insertReplicaPayment message.ownerId replicaHash block
  return true

def undoStoreBlock (message : StoreBlockTransaction) (block : TransactionBlock) : LogM Unit :=
  (replicaIndexes message.replicas.length).forM fun index => do
    let replicaHash := message.replicas.getD index []
    Orm.chunkReplicaData.deleteIf fun key row =>
      key.objectHash = message.objectId && key.replica = Int16.ofNat index &&
        row.replicaHash = replicaHash
    deleteReplicaPayment message.ownerId replicaHash block

/-! ### host_block_transaction -/

def applyHostBlock (message : HostBlockTransaction) (block : TransactionBlock) : LogM Bool := do
  insertReplicaPayment message.ownerId message.replicaHash block
  return true

def undoHostBlock (message : HostBlockTransaction) (block : TransactionBlock) : LogM Unit :=
  deleteReplicaPayment message.ownerId message.replicaHash block

/-! ### All messages of a block -/

/-- `apply_record`: `false` if the message cannot be applied. -/
def applyRecord (message : Message) (block : TransactionBlock) : LogM Bool :=
  match message with
  | .payment m => applyPayment sp m block
  | .channelMessage m => applyChannelMessage m block
  | .createUser m => applyCreateUser sp m
  | .nodeAdd m => applyNodeAdd sp m block
  | .createWallet m => applyCreateWallet sp m
  | .assetIssue m => applyAssetIssue sp m block
  | .storeBlock m => applyStoreBlock sp m block
  | .hostBlock m => applyHostBlock m block

def consensusRecord (message : Message) (block : TransactionBlock) : LogM Unit :=
  match message with
  | .payment m => consensusPayment m block
  | .assetIssue m => consensusAssetIssue m block
  | .channelMessage _ | .createUser _ | .nodeAdd _ | .createWallet _ | .storeBlock _
  | .hostBlock _ => return ()

def undoRecord (message : Message) (block : TransactionBlock) : LogM Unit :=
  match message with
  | .payment m => undoPayment m block
  | .channelMessage m => undoChannelMessage m block
  | .createUser _ => return ()
  | .nodeAdd m => undoNodeAdd sp m
  | .createWallet m => undoCreateWallet sp m
  | .assetIssue m => undoAssetIssue m block
  | .storeBlock m => undoStoreBlock m block
  | .hostBlock m => undoHostBlock m block

/-- The visitor of `process_records`: an applied message goes on the stack of undo actions. -/
def applyVisitor (block : TransactionBlock) (message : Message) :
    EStateM Error (DatabaseTransaction × List Message) Bool := fun (t, undoActions) =>
  match applyRecord sp message block t with
  | .ok true t => .ok true (t, message :: undoActions)
  | .ok false t => .ok false (t, undoActions)
  | .error e t => .error e (t, undoActions)

/-- Applies the messages in their order. If one cannot be applied, those before it are undone,
the last one first. -/
def processRecords (block : TransactionBlock) : LogM Bool := fun t =>
  match block.walkMessages sp.crypto (applyVisitor sp block) (t, []) with
  | .error e (t, _) => .error e t
  | .ok true (t, _) => .ok true t
  | .ok false (t, undoActions) =>
    (do undoActions.forM fun message => undoRecord sp message block
        return false : LogM Bool) t

def consensusRecords (block : TransactionBlock) : LogM Unit := do
  record fun db => .consensusRecords db block.id
  let _ ← block.walkMessages sp.crypto fun message => do
    consensusRecord message block
    return true

/-- Undoes all messages of an applied block, the last one first. -/
def undoRecords (block : TransactionBlock) : LogM Unit := fun t =>
  match block.walkMessages sp.crypto
      (fun message => do modify (message :: ·); return true : Message → EStateM Error _ Bool)
      ([] : List Message) with
  | .error e _ => .error e t
  | .ok _ toProcess => (toProcess.forM fun message => undoRecord sp message block : LogM Unit) t

end Vds.LogSync
