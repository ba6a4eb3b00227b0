import Vds.Kernel.Serialization
import Vds.Transactions.Messages

/-! The fields of the transactions and of the messages inside channels, in the order of their
`visit`. -/

namespace Vds

/-- A private key; its DER form without a password determines it. -/
structure AsymmetricPrivateKey where
  der : ConstDataBuffer
  deriving DecidableEq

/-- The readers of keys that the crypto library has. -/
structure KeyReaders where
  /-- `asymmetric_public_key::parse_der`. -/
  parsePublicDer : ConstDataBuffer → Expected AsymmetricPublicKey
  /-- `asymmetric_private_key::parse_der` with an empty password. -/
  parsePrivateDer : ConstDataBuffer → Expected AsymmetricPrivateKey

namespace Serializable

def publicKey (keys : KeyReaders) : Serializable AsymmetricPublicKey :=
  key AsymmetricPublicKey.der keys.parsePublicDer

def privateKey (keys : KeyReaders) : Serializable AsymmetricPrivateKey :=
  key AsymmetricPrivateKey.der keys.parsePrivateDer

theorem publicKey_law (keys : KeyReaders) : (publicKey keys).Law := key_law _ _

theorem privateKey_law (keys : KeyReaders) : (privateKey keys).Law := key_law _ _

end Serializable

namespace Transactions

open Serializable

/-! ### Transactions -/

def PaymentTransaction.visit : Serializable PaymentTransaction :=
  (buffer.both <| string.both <| buffer.both <| buffer.both <| buffer.both <| uint64.both <|
    string.both <| string.both buffer).as
    (fun m => (m.issuer, m.currency, m.sourceTransaction, m.sourceWallet, m.targetWallet, m.value,
      m.paymentType, m.notes, m.signature))
    (fun (issuer, currency, sourceTransaction, sourceWallet, targetWallet, value, paymentType,
      notes, signature) =>
      ⟨issuer, currency, sourceTransaction, sourceWallet, targetWallet, value, paymentType, notes,
        signature⟩)

def AssetIssueTransaction.visit : Serializable AssetIssueTransaction :=
  (buffer.both <| buffer.both <| string.both <| uint64.both buffer).as
    (fun m => (m.issuer, m.walletId, m.currency, m.value, m.signature))
    (fun (issuer, walletId, currency, value, signature) =>
      ⟨issuer, walletId, currency, value, signature⟩)

def CreateWalletTransaction.visit : Serializable CreateWalletTransaction :=
  (buffer.both buffer).as (fun m => (m.id, m.publicKey)) (fun (id, publicKey) =>
      ⟨id, publicKey⟩)

structure PaymentRequestTransaction where
  issuer : ConstDataBuffer
  currency : StdString
  targetWallet : ConstDataBuffer
  value : UInt64
  paymentType : StdString
  notes : StdString
  signature : ConstDataBuffer

def PaymentRequestTransaction.visit : Serializable PaymentRequestTransaction :=
  (buffer.both <| string.both <| buffer.both <| uint64.both <| string.both <|
    string.both buffer).as
    (fun m => (m.issuer, m.currency, m.targetWallet, m.value, m.paymentType, m.notes, m.signature))
    (fun (issuer, currency, targetWallet, value, paymentType, notes, signature) =>
      ⟨issuer, currency, targetWallet, value, paymentType, notes, signature⟩)

def ChannelMessage.visit : Serializable ChannelMessage :=
  (buffer.both <| buffer.both <| buffer.both <| buffer.both <| buffer.both buffer).as
    (fun m => (m.channelId, m.readId, m.writeId, m.cryptedKey, m.cryptedData, m.signature))
    (fun (channelId, readId, writeId, cryptedKey, cryptedData, signature) =>
      ⟨channelId, readId, writeId, cryptedKey, cryptedData, signature⟩)

def StoreBlockTransaction.visit : Serializable StoreBlockTransaction :=
  (buffer.both <| buffer.both <| uint64.both <| uint32.both <| buffer.list.both buffer).as
    (fun m => (m.ownerId, m.objectId, m.objectSize, m.replicaSize, m.replicas, m.ownerSig))
    (fun (ownerId, objectId, objectSize, replicaSize, replicas, ownerSig) =>
      ⟨ownerId, objectId, objectSize, replicaSize, replicas, ownerSig⟩)

def HostBlockTransaction.visit : Serializable HostBlockTransaction :=
  (buffer.both buffer).as (fun m => (m.ownerId, m.replicaHash))
    (fun (ownerId, replicaHash) =>
      ⟨ownerId, replicaHash⟩)

section Keys

variable (keys : KeyReaders)

def CreateUserTransaction.visit : Serializable CreateUserTransaction :=
  (string.both <| (publicKey keys).both <| buffer.both string).as
    (fun m => (m.userEmail, m.userPublicKey, m.userProfileId, m.userName))
    (fun (userEmail, userPublicKey, userProfileId, userName) =>
      ⟨userEmail, userPublicKey, userProfileId, userName⟩)

def NodeAddTransaction.visit : Serializable NodeAddTransaction :=
  (publicKey keys).as (fun m => m.nodePublicKey) (fun nodePublicKey =>
      ⟨nodePublicKey⟩)

/-! ### Messages inside a channel -/

structure ChannelCreateTransaction where
  channelType : StdString
  name : StdString
  readPublicKey : AsymmetricPublicKey
  readPrivateKey : AsymmetricPrivateKey
  writePublicKey : AsymmetricPublicKey
  writePrivateKey : AsymmetricPrivateKey
  adminPublicKey : AsymmetricPublicKey
  adminPrivateKey : AsymmetricPrivateKey

def ChannelCreateTransaction.visit : Serializable ChannelCreateTransaction :=
  (string.both <| string.both <| (publicKey keys).both <| (privateKey keys).both <|
    (publicKey keys).both <| (privateKey keys).both <| (publicKey keys).both
    (privateKey keys)).as
    (fun m => (m.channelType, m.name, m.readPublicKey, m.readPrivateKey, m.writePublicKey,
      m.writePrivateKey, m.adminPublicKey, m.adminPrivateKey))
    (fun (channelType, name, readPublicKey, readPrivateKey, writePublicKey, writePrivateKey,
      adminPublicKey, adminPrivateKey) =>
      ⟨channelType, name, readPublicKey, readPrivateKey, writePublicKey, writePrivateKey,
        adminPublicKey, adminPrivateKey⟩)

structure ChannelAddReaderTransaction where
  id : ConstDataBuffer
  channelType : StdString
  name : StdString
  readPublicKey : AsymmetricPublicKey
  readPrivateKey : AsymmetricPrivateKey
  writePublicKey : AsymmetricPublicKey

def ChannelAddReaderTransaction.visit : Serializable ChannelAddReaderTransaction :=
  (buffer.both <| string.both <| string.both <| (publicKey keys).both <|
    (privateKey keys).both (publicKey keys)).as
    (fun m => (m.id, m.channelType, m.name, m.readPublicKey, m.readPrivateKey, m.writePublicKey))
    (fun (id, channelType, name, readPublicKey, readPrivateKey, writePublicKey) =>
      ⟨id, channelType, name, readPublicKey, readPrivateKey, writePublicKey⟩)

structure ChannelAddWriterTransaction where
  id : ConstDataBuffer
  channelType : StdString
  name : StdString
  readPublicKey : AsymmetricPublicKey
  readPrivateKey : AsymmetricPrivateKey
  writePublicKey : AsymmetricPublicKey
  writePrivateKey : AsymmetricPrivateKey

def ChannelAddWriterTransaction.visit : Serializable ChannelAddWriterTransaction :=
  (buffer.both <| string.both <| string.both <| (publicKey keys).both <|
    (privateKey keys).both <| (publicKey keys).both (privateKey keys)).as
    (fun m => (m.id, m.channelType, m.name, m.readPublicKey, m.readPrivateKey, m.writePublicKey,
      m.writePrivateKey))
    (fun (id, channelType, name, readPublicKey, readPrivateKey, writePublicKey,
      writePrivateKey) =>
      ⟨id, channelType, name, readPublicKey, readPrivateKey, writePublicKey, writePrivateKey⟩)

end Keys

structure CreateWalletMessage where
  name : StdString
  publicKey : ConstDataBuffer
  privateKey : ConstDataBuffer

def CreateWalletMessage.visit : Serializable CreateWalletMessage :=
  (string.both <| buffer.both buffer).as (fun m => (m.name, m.publicKey, m.privateKey))
    (fun (name, publicKey, privateKey) =>
      ⟨name, publicKey, privateKey⟩)

structure ControlMessageTransaction where
  message : JsonValue
  /-- In the order of the names. -/
  attachments : List (StdString × ConstDataBuffer)

/-- `operator <` of strings: the first byte that differs decides, then the length. -/
def stringLess : StdString → StdString → Bool
  | [], [] => false
  | [], _ :: _ => true
  | _ :: _, [] => false
  | a :: as, b :: bs => a < b || (a == b && stringLess as bs)

def ControlMessageTransaction.visit : Serializable ControlMessageTransaction :=
  (json.both (string.map stringLess buffer)).as (fun m => (m.message, m.attachments))
    (fun (message, attachments) =>
      ⟨message, attachments⟩)

structure FileBlock where
  blockId : ConstDataBuffer
  blockKey : ConstDataBuffer
  blockSize : UInt64

def FileBlock.fields : Serializable FileBlock :=
  (buffer.both <| buffer.both uint64).as (fun b => (b.blockId, b.blockKey, b.blockSize))
    (fun (blockId, blockKey, blockSize) =>
      ⟨blockId, blockKey, blockSize⟩)

structure FileInfo where
  name : StdString
  mimeType : StdString
  size : UInt64
  fileId : ConstDataBuffer
  fileBlocks : List FileBlock

def FileInfo.fields : Serializable FileInfo :=
  (string.both <| string.both <| uint64.both <| buffer.both FileBlock.fields.list).as
    (fun f => (f.name, f.mimeType, f.size, f.fileId, f.fileBlocks))
    (fun (name, mimeType, size, fileId, fileBlocks) =>
      ⟨name, mimeType, size, fileId, fileBlocks⟩)

structure UserMessageTransaction where
  message : JsonValue
  files : List FileInfo

def UserMessageTransaction.visit : Serializable UserMessageTransaction :=
  (json.both FileInfo.fields.list).as (fun m => (m.message, m.files))
    (fun (message, files) =>
      ⟨message, files⟩)

structure UserProfile where
  passwordHash : ConstDataBuffer
  userPrivateKey : ConstDataBuffer

def UserProfile.visit : Serializable UserProfile :=
  (buffer.both buffer).as (fun p => (p.passwordHash, p.userPrivateKey))
    (fun (passwordHash, userPrivateKey) =>
      ⟨passwordHash, userPrivateKey⟩)

/-! ### Their laws -/

theorem PaymentTransaction.visit_law : PaymentTransaction.visit.Law := by
  refine Law.as ?_ (fun _ => rfl) fun _ => rfl
  exact buffer_law.both <| string_law.both <| buffer_law.both <| buffer_law.both <|
    buffer_law.both <| uint64_law.both <| string_law.both <| string_law.both buffer_law

theorem AssetIssueTransaction.visit_law : AssetIssueTransaction.visit.Law := by
  refine Law.as ?_ (fun _ => rfl) fun _ => rfl
  exact buffer_law.both <| buffer_law.both <| string_law.both <| uint64_law.both buffer_law

theorem CreateWalletTransaction.visit_law : CreateWalletTransaction.visit.Law := by
  refine Law.as ?_ (fun _ => rfl) fun _ => rfl
  exact buffer_law.both buffer_law

theorem PaymentRequestTransaction.visit_law : PaymentRequestTransaction.visit.Law := by
  refine Law.as ?_ (fun _ => rfl) fun _ => rfl
  exact buffer_law.both <| string_law.both <| buffer_law.both <| uint64_law.both <|
    string_law.both <| string_law.both buffer_law

theorem ChannelMessage.visit_law : ChannelMessage.visit.Law := by
  refine Law.as ?_ (fun _ => rfl) fun _ => rfl
  exact buffer_law.both <| buffer_law.both <| buffer_law.both <| buffer_law.both <|
    buffer_law.both buffer_law

theorem StoreBlockTransaction.visit_law : StoreBlockTransaction.visit.Law := by
  refine Law.as ?_ (fun _ => rfl) fun _ => rfl
  exact buffer_law.both <| buffer_law.both <| uint64_law.both <| uint32_law.both <|
    buffer_law.list.both buffer_law

theorem HostBlockTransaction.visit_law : HostBlockTransaction.visit.Law := by
  refine Law.as ?_ (fun _ => rfl) fun _ => rfl
  exact buffer_law.both buffer_law

theorem CreateWalletMessage.visit_law : CreateWalletMessage.visit.Law := by
  refine Law.as ?_ (fun _ => rfl) fun _ => rfl
  exact string_law.both <| buffer_law.both buffer_law

theorem FileBlock.fields_law : FileBlock.fields.Law := by
  refine Law.as ?_ (fun _ => rfl) fun _ => rfl
  exact buffer_law.both <| buffer_law.both uint64_law

theorem FileInfo.fields_law : FileInfo.fields.Law := by
  refine Law.as ?_ (fun _ => rfl) fun _ => rfl
  exact string_law.both <| string_law.both <| uint64_law.both <|
    buffer_law.both FileBlock.fields_law.list

theorem UserMessageTransaction.visit_law : UserMessageTransaction.visit.Law := by
  refine Law.as ?_ (fun _ => rfl) fun _ => rfl
  exact json_law.both FileInfo.fields_law.list

theorem UserProfile.visit_law : UserProfile.visit.Law := by
  refine Law.as ?_ (fun _ => rfl) fun _ => rfl
  exact buffer_law.both buffer_law

section Keys

variable (keys : KeyReaders)

theorem CreateUserTransaction.visit_law : (CreateUserTransaction.visit keys).Law := by
  refine Law.as ?_ (fun _ => rfl) fun _ => rfl
  exact string_law.both <| (publicKey_law keys).both <| buffer_law.both string_law

theorem NodeAddTransaction.visit_law : (NodeAddTransaction.visit keys).Law := by
  refine Law.as ?_ (fun _ => rfl) fun _ => rfl
  exact publicKey_law keys

theorem ChannelCreateTransaction.visit_law : (ChannelCreateTransaction.visit keys).Law := by
  refine Law.as ?_ (fun _ => rfl) fun _ => rfl
  exact string_law.both <| string_law.both <| (publicKey_law keys).both <|
    (privateKey_law keys).both <| (publicKey_law keys).both <| (privateKey_law keys).both <|
    (publicKey_law keys).both (privateKey_law keys)

theorem ChannelAddReaderTransaction.visit_law : (ChannelAddReaderTransaction.visit keys).Law := by
  refine Law.as ?_ (fun _ => rfl) fun _ => rfl
  exact buffer_law.both <| string_law.both <| string_law.both <| (publicKey_law keys).both <|
    (privateKey_law keys).both (publicKey_law keys)

theorem ChannelAddWriterTransaction.visit_law : (ChannelAddWriterTransaction.visit keys).Law := by
  refine Law.as ?_ (fun _ => rfl) fun _ => rfl
  exact buffer_law.both <| string_law.both <| string_law.both <| (publicKey_law keys).both <|
    (privateKey_law keys).both <| (publicKey_law keys).both (privateKey_law keys)

end Keys

/-- The order of the strings. -/
def stringOrder (s : StdString) : List ℕ := s.map UInt8.toNat

theorem stringLess_iff (s t : StdString) :
    stringLess s t = true ↔ stringOrder s < stringOrder t := by
  induction s generalizing t with
  | nil => cases t <;> simp [stringLess, stringOrder]
  | cons a s ih =>
    cases t with
    | nil => simp [stringLess, stringOrder]
    | cons b t =>
      have ht := ih t
      simp only [stringOrder] at ht
      simp [stringLess, stringOrder, List.cons_lt_cons_iff, ← ht, UInt8.lt_iff_toNat_lt,
        UInt8.toNat_inj]

theorem ControlMessageTransaction.visit_law : ControlMessageTransaction.visit.Law := by
  refine Law.as ?_ (fun _ => rfl) fun _ => rfl
  exact json_law.both (Law.map stringLess_iff (string_law.exact fun _ => trivial) buffer_law)

end Transactions
end Vds
