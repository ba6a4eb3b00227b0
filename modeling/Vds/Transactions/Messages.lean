import Vds.Kernel.BinarySerialize
import Vds.Kernel.Crypto

/-! The eight kinds of messages in a block, their binary form, and the walk over the messages
of a block. -/

namespace Vds.Transactions

open BinarySerializer BinaryDeserializer

structure PaymentTransaction where
  issuer : ConstDataBuffer
  currency : StdString
  sourceTransaction : ConstDataBuffer
  sourceWallet : ConstDataBuffer
  targetWallet : ConstDataBuffer
  value : UInt64
  paymentType : StdString
  notes : StdString
  signature : ConstDataBuffer
  deriving DecidableEq

structure AssetIssueTransaction where
  issuer : ConstDataBuffer
  walletId : ConstDataBuffer
  currency : StdString
  value : UInt64
  signature : ConstDataBuffer
  deriving DecidableEq

structure CreateWalletTransaction where
  id : ConstDataBuffer
  publicKey : ConstDataBuffer
  deriving DecidableEq

structure ChannelMessage where
  channelId : ConstDataBuffer
  readId : ConstDataBuffer
  writeId : ConstDataBuffer
  cryptedKey : ConstDataBuffer
  cryptedData : ConstDataBuffer
  signature : ConstDataBuffer
  deriving DecidableEq

structure CreateUserTransaction where
  userEmail : StdString
  userPublicKey : AsymmetricPublicKey
  userProfileId : ConstDataBuffer
  userName : StdString
  deriving DecidableEq

structure NodeAddTransaction where
  nodePublicKey : AsymmetricPublicKey
  deriving DecidableEq

structure StoreBlockTransaction where
  ownerId : ConstDataBuffer
  objectId : ConstDataBuffer
  objectSize : UInt64
  replicaSize : UInt32
  replicas : List ConstDataBuffer
  ownerSig : ConstDataBuffer
  deriving DecidableEq

structure HostBlockTransaction where
  ownerId : ConstDataBuffer
  replicaHash : ConstDataBuffer
  deriving DecidableEq

inductive Message
  | payment (message : PaymentTransaction)
  | channelMessage (message : ChannelMessage)
  | createUser (message : CreateUserTransaction)
  | nodeAdd (message : NodeAddTransaction)
  | createWallet (message : CreateWalletTransaction)
  | assetIssue (message : AssetIssueTransaction)
  | storeBlock (message : StoreBlockTransaction)
  | hostBlock (message : HostBlockTransaction)
  deriving DecidableEq

/-! ### Signed data -/

/-- `payment_transaction::signature_data`; the message id is `'p'`. -/
def PaymentTransaction.signatureData (m : PaymentTransaction) : ConstDataBuffer :=
  putUInt8 0x70 ++ putData m.issuer ++ putString m.currency ++ putData m.sourceTransaction ++
    putData m.sourceWallet ++ putData m.targetWallet ++ putUInt64 m.value ++
    putString m.paymentType ++ putString m.notes

/-- `asset_issue_transaction::signature_data`; the message id is `'i'`. -/
def AssetIssueTransaction.signatureData (m : AssetIssueTransaction) : ConstDataBuffer :=
  putUInt8 0x69 ++ putData m.issuer ++ putData m.walletId ++ putString m.currency ++
    putUInt64 m.value

/-! ### Binary form -/

/-- `transaction_block_builder::add`: the message id, then the fields. -/
def Message.serialize : Message → ConstDataBuffer
  | .payment m =>
    putUInt8 0x70 ++ putData m.issuer ++ putString m.currency ++ putData m.sourceTransaction ++
      putData m.sourceWallet ++ putData m.targetWallet ++ putUInt64 m.value ++
      putString m.paymentType ++ putString m.notes ++ putData m.signature
  | .channelMessage m =>
    putUInt8 0x63 ++ putData m.channelId ++ putData m.readId ++ putData m.writeId ++
      putData m.cryptedKey ++ putData m.cryptedData ++ putData m.signature
  | .createUser m =>
    putUInt8 0x75 ++ putString m.userEmail ++ putData m.userPublicKey.der ++
      putData m.userProfileId ++ putString m.userName
  | .nodeAdd m => putUInt8 0x6d ++ putData m.nodePublicKey.der
  | .createWallet m => putUInt8 0x77 ++ putData m.id ++ putData m.publicKey
  | .assetIssue m =>
    putUInt8 0x69 ++ putData m.issuer ++ putData m.walletId ++ putString m.currency ++
      putUInt64 m.value ++ putData m.signature
  | .storeBlock m =>
    putUInt8 0x73 ++ putData m.ownerId ++ putData m.objectId ++ putUInt64 m.objectSize ++
      putUInt32 m.replicaSize ++ putAll putData m.replicas ++ putData m.ownerSig
  | .hostBlock m => putUInt8 0x68 ++ putData m.ownerId ++ putData m.replicaHash

variable (crypto : Crypto)

/-- `operator >>` of a shared public key. -/
def getPublicKey : BinaryDeserializer AsymmetricPublicKey := do
  let keyData ← getData
  match crypto.parseDer keyData with
  | .ok key => return key
  | .error e => throw e

def getPayment : BinaryDeserializer PaymentTransaction := do
  let issuer ← getData
  let currency ← getString
  let sourceTransaction ← getData
  let sourceWallet ← getData
  let targetWallet ← getData
  let value ← getUInt64
  let paymentType ← getString
  let notes ← getString
  let signature ← getData
  return { issuer, currency, sourceTransaction, sourceWallet, targetWallet, value, paymentType,
           notes, signature }

def getChannelMessage : BinaryDeserializer ChannelMessage := do
  let channelId ← getData
  let readId ← getData
  let writeId ← getData
  let cryptedKey ← getData
  let cryptedData ← getData
  let signature ← getData
  return { channelId, readId, writeId, cryptedKey, cryptedData, signature }

def getCreateUser : BinaryDeserializer CreateUserTransaction := do
  let userEmail ← getString
  let userPublicKey ← getPublicKey crypto
  let userProfileId ← getData
  let userName ← getString
  return { userEmail, userPublicKey, userProfileId, userName }

def getNodeAdd : BinaryDeserializer NodeAddTransaction := do
  let nodePublicKey ← getPublicKey crypto
  return { nodePublicKey }

def getCreateWallet : BinaryDeserializer CreateWalletTransaction := do
  let id ← getData
  let publicKey ← getData
  return { id, publicKey }

def getAssetIssue : BinaryDeserializer AssetIssueTransaction := do
  let issuer ← getData
  let walletId ← getData
  let currency ← getString
  let value ← getUInt64
  let signature ← getData
  return { issuer, walletId, currency, value, signature }

def getStoreBlock : BinaryDeserializer StoreBlockTransaction := do
  let ownerId ← getData
  let objectId ← getData
  let objectSize ← getUInt64
  let replicaSize ← getUInt32
  let replicas ← getVector getData
  let ownerSig ← getData
  return { ownerId, objectId, objectSize, replicaSize, replicas, ownerSig }

def getHostBlock : BinaryDeserializer HostBlockTransaction := do
  let ownerId ← getData
  let replicaHash ← getData
  return { ownerId, replicaHash }

/-- The message id and the fields of the message of that kind. -/
def getMessage : BinaryDeserializer Message := do
  let messageId ← getUInt8
  match messageId.toNat with
  | 0x70 => .payment <$> getPayment
  | 0x75 => .createUser <$> getCreateUser crypto
  | 0x63 => .channelMessage <$> getChannelMessage
  | 0x6d => .nodeAdd <$> getNodeAdd crypto
  | 0x77 => .createWallet <$> getCreateWallet
  | 0x69 => .assetIssue <$> getAssetIssue
  | 0x73 => .storeBlock <$> getStoreBlock
  | 0x68 => .hostBlock <$> getHostBlock
  | id => throw (.runtimeError ("Invalid message " ++ toString id))

/-! ### The walk over a block's messages -/

/-- `transaction_messages_walker::process`. Every message takes at least one byte, so the
length of the data bounds the number of rounds. -/
def walk {σ : Type} (visit : Message → EStateM Error σ Bool) :
    Nat → ConstDataBuffer → EStateM Error σ Bool
  | _, [] => return true
  | 0, _ => throw .outOfFuel
  | n + 1, data =>
    match getMessage crypto data with
    | .error e _ => throw e
    | .ok message rest => do
      if ← visit message then walk visit n rest else return false

/-- All messages of the data. -/
def parseMessages : Nat → ConstDataBuffer → Expected (List Message)
  | _, [] => .ok []
  | 0, _ => .error .outOfFuel
  | n + 1, data =>
    match getMessage crypto data with
    | .error e _ => .error e
    | .ok message rest =>
      match parseMessages n rest with
      | .error e => .error e
      | .ok messages => .ok (message :: messages)

/-- The visits of messages up to the first that stops. -/
def visitAll {σ : Type} (visit : Message → EStateM Error σ Bool) :
    List Message → EStateM Error σ Bool
  | [] => return true
  | message :: messages => do
    if ← visit message then visitAll visit messages else return false

section Walk

open StateError

variable {crypto} {σ : Type} {visit : Message → EStateM Error σ Bool}

theorem walk_moves {R : σ → σ → Prop} [Std.Refl R] [IsTrans σ R] (h : ∀ m, Moves R (visit m))
    (n : Nat) (data : ConstDataBuffer) : Moves R (walk crypto visit n data) := by
  induction n generalizing data with
  | zero =>
    cases data with
    | nil => exact Moves.pure true
    | cons => exact Moves.throw _
  | succ n ih =>
    cases data with
    | nil => exact Moves.pure true
    | cons b data =>
      unfold walk
      split
      · exact Moves.throw _
      · exact (h _).bind fun go => Moves.ite (fun _ => ih _) fun _ => Moves.pure false

theorem visitAll_cons_eq_ok_true {m : Message} {ms : List Message} {s s' : σ} :
    visitAll visit (m :: ms) s = .ok true s' ↔
      ∃ s₁, visit m s = .ok true s₁ ∧ visitAll visit ms s₁ = .ok true s' := by
  rw [visitAll, bind_eq_ok]
  constructor
  · rintro ⟨go, s₁, hm, h⟩
    cases go with
    | true => exact ⟨s₁, hm, h⟩
    | false => cases h
  · rintro ⟨s₁, hm, h⟩
    exact ⟨true, s₁, hm, h⟩

theorem walk_eq_ok_true {n : Nat} {data : ConstDataBuffer} {s s' : σ} :
    walk crypto visit n data s = .ok true s' ↔
      ∃ ms, parseMessages crypto n data = .ok ms ∧ visitAll visit ms s = .ok true s' := by
  induction n generalizing data s with
  | zero =>
    cases data with
    | nil => simp [walk, parseMessages, visitAll]
    | cons => simp [walk, parseMessages]
  | succ n ih =>
    cases data with
    | nil => simp [walk, parseMessages, visitAll]
    | cons b data =>
      unfold walk parseMessages
      cases hm : getMessage crypto (b :: data) with
      | error e rest => simp
      | ok m rest =>
        simp only [bind_eq_ok]
        constructor
        · rintro ⟨go, s₁, hv, h⟩
          cases go with
          | false => cases h
          | true =>
            obtain ⟨ms, hp, hms⟩ := ih.mp h
            exact ⟨m :: ms, by rw [hp], visitAll_cons_eq_ok_true.mpr ⟨s₁, hv, hms⟩⟩
        · rintro ⟨ms, hp, hms⟩
          cases hr : parseMessages crypto n rest with
          | error e =>
            rw [hr] at hp
            cases hp
          | ok ms' =>
            rw [hr] at hp
            cases hp
            obtain ⟨s₁, hv, hrest⟩ := visitAll_cons_eq_ok_true.mp hms
            exact ⟨true, s₁, hv, ih.mpr ⟨ms', hr, hrest⟩⟩

/-- A walk that stops has visited some messages and stopped at the next one. -/
theorem walk_eq_ok_false {n : Nat} {data : ConstDataBuffer} {s s' : σ}
    (h : walk crypto visit n data s = .ok false s') :
    ∃ ms m s₁, visitAll visit ms s = .ok true s₁ ∧ visit m s₁ = .ok false s' := by
  induction n generalizing data s with
  | zero =>
    cases data with
    | nil => cases h
    | cons => cases h
  | succ n ih =>
    cases data with
    | nil => cases h
    | cons b data =>
      unfold walk at h
      cases hm : getMessage crypto (b :: data) with
      | error e rest =>
        rw [hm] at h
        cases h
      | ok m rest =>
        rw [hm] at h
        obtain ⟨go, s₁, hv, hg⟩ := bind_eq_ok.mp h
        cases go with
        | false =>
          cases hg
          exact ⟨[], m, s, rfl, hv⟩
        | true =>
          obtain ⟨ms, m', s₂, hms, hm'⟩ := ih hg
          exact ⟨m :: ms, m', s₂, visitAll_cons_eq_ok_true.mpr ⟨s₁, hv, hms⟩, hm'⟩

end Walk

def process {σ : Type} (visit : Message → EStateM Error σ Bool) (messageData : ConstDataBuffer) :
    EStateM Error σ Bool :=
  walk crypto visit messageData.length messageData

end Vds.Transactions
