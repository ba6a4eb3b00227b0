import Vds.DhtNetwork.Messages
import Vds.Transactions.Visits

/-! The types that the program writes and reads: the plain ones, the containers of them nested to
any depth, and the messages. Their values come back, but for the JSON inside. -/

namespace Vds

open Serializable LogSync DhtNetwork Transactions

/-- `α` is a type of the program, with these operators. The keys of sets and maps hold no JSON:
shared values are ordered by their addresses. -/
inductive Supported (keys : KeyReaders) : (α : Type) → Serializable α → Prop
  | bool : Supported keys Bool bool
  | uint8 : Supported keys UInt8 uint8
  | uint16 : Supported keys UInt16 uint16
  | uint32 : Supported keys UInt32 uint32
  | uint64 : Supported keys UInt64 uint64
  | number : Supported keys UInt64 number
  | string : Supported keys StdString string
  | buffer : Supported keys ConstDataBuffer buffer
  | publicKey : Supported keys AsymmetricPublicKey (publicKey keys)
  | privateKey : Supported keys AsymmetricPrivateKey (privateKey keys)
  | json : Supported keys JsonValue json
  | list {α : Type} {c : Serializable α} : Supported keys α c → Supported keys (List α) c.list
  | set {α O : Type} [DecidableEq α] [LinearOrder O] {c : Serializable α} (less : α → α → Bool)
      (order : α → O) (hless : ∀ x y, less x y = true ↔ order x < order y)
      (hequal : Function.Injective order) (hread : ∀ x, c.readable x) :
      Supported keys α c → Supported keys (List α) (c.set less)
  | map {α β O : Type} [DecidableEq α] [LinearOrder O] {a : Serializable α} {b : Serializable β}
      (less : α → α → Bool) (order : α → O) (hless : ∀ x y, less x y = true ↔ order x < order y)
      (hequal : Function.Injective order) (hread : ∀ x, a.readable x) :
      Supported keys α a → Supported keys β b → Supported keys (List (α × β)) (a.map less b)
  | targetNode : Supported keys TargetNode TargetNode.fields
  | fileBlock : Supported keys FileBlock FileBlock.fields
  | fileInfo : Supported keys FileInfo FileInfo.fields
  | transactionLogState : Supported keys TransactionLogState TransactionLogState.visit
  | transactionLogRequest : Supported keys TransactionLogRequest TransactionLogRequest.visit
  | transactionLogRecord : Supported keys TransactionLogRecord TransactionLogRecord.visit
  | dhtPing : Supported keys DhtPing DhtPing.visit
  | dhtPong : Supported keys DhtPong DhtPong.visit
  | dhtFindNode : Supported keys DhtFindNode DhtFindNode.visit
  | dhtFindNodeResponse : Supported keys DhtFindNodeResponse DhtFindNodeResponse.visit
  | syncReplicaRequest : Supported keys SyncReplicaRequest SyncReplicaRequest.visit
  | syncReplicaData : Supported keys SyncReplicaData SyncReplicaData.visit
  | payment : Supported keys PaymentTransaction PaymentTransaction.visit
  | assetIssue : Supported keys AssetIssueTransaction AssetIssueTransaction.visit
  | createWallet : Supported keys CreateWalletTransaction CreateWalletTransaction.visit
  | paymentRequest : Supported keys PaymentRequestTransaction PaymentRequestTransaction.visit
  | channelMessage : Supported keys ChannelMessage ChannelMessage.visit
  | storeBlock : Supported keys StoreBlockTransaction StoreBlockTransaction.visit
  | hostBlock : Supported keys HostBlockTransaction HostBlockTransaction.visit
  | createUser : Supported keys CreateUserTransaction (CreateUserTransaction.visit keys)
  | nodeAdd : Supported keys NodeAddTransaction (NodeAddTransaction.visit keys)
  | channelCreate : Supported keys ChannelCreateTransaction (ChannelCreateTransaction.visit keys)
  | channelAddReader :
      Supported keys ChannelAddReaderTransaction (ChannelAddReaderTransaction.visit keys)
  | channelAddWriter :
      Supported keys ChannelAddWriterTransaction (ChannelAddWriterTransaction.visit keys)
  | createWalletMessage : Supported keys CreateWalletMessage CreateWalletMessage.visit
  | controlMessage : Supported keys ControlMessageTransaction ControlMessageTransaction.visit
  | userMessage : Supported keys UserMessageTransaction UserMessageTransaction.visit
  | userProfile : Supported keys UserProfile UserProfile.visit

theorem Supported.law {keys : KeyReaders} {α : Type} {c : Serializable α}
    (h : Supported keys α c) : c.Law := by
  induction h with
  | bool => exact bool_law
  | uint8 => exact uint8_law
  | uint16 => exact uint16_law
  | uint32 => exact uint32_law
  | uint64 => exact uint64_law
  | number => exact number_law
  | string => exact string_law
  | buffer => exact buffer_law
  | publicKey => exact publicKey_law keys
  | privateKey => exact privateKey_law keys
  | json => exact json_law
  | list _ ih => exact ih.list
  | set less order hless _ hread _ ih => exact Law.set hless (ih.exact hread)
  | map less order hless _ hread _ _ iha ihb => exact Law.map hless (iha.exact hread) ihb
  | targetNode => exact TargetNode.fields_law
  | fileBlock => exact FileBlock.fields_law
  | fileInfo => exact FileInfo.fields_law
  | transactionLogState => exact TransactionLogState.visit_law
  | transactionLogRequest => exact TransactionLogRequest.visit_law
  | transactionLogRecord => exact TransactionLogRecord.visit_law
  | dhtPing => exact DhtPing.visit_law
  | dhtPong => exact DhtPong.visit_law
  | dhtFindNode => exact DhtFindNode.visit_law
  | dhtFindNodeResponse => exact DhtFindNodeResponse.visit_law
  | syncReplicaRequest => exact SyncReplicaRequest.visit_law
  | syncReplicaData => exact SyncReplicaData.visit_law
  | payment => exact PaymentTransaction.visit_law
  | assetIssue => exact AssetIssueTransaction.visit_law
  | createWallet => exact CreateWalletTransaction.visit_law
  | paymentRequest => exact PaymentRequestTransaction.visit_law
  | channelMessage => exact ChannelMessage.visit_law
  | storeBlock => exact StoreBlockTransaction.visit_law
  | hostBlock => exact HostBlockTransaction.visit_law
  | createUser => exact CreateUserTransaction.visit_law keys
  | nodeAdd => exact NodeAddTransaction.visit_law keys
  | channelCreate => exact ChannelCreateTransaction.visit_law keys
  | channelAddReader => exact ChannelAddReaderTransaction.visit_law keys
  | channelAddWriter => exact ChannelAddWriterTransaction.visit_law keys
  | createWalletMessage => exact CreateWalletMessage.visit_law
  | controlMessage => exact ControlMessageTransaction.visit_law
  | userMessage => exact UserMessageTransaction.visit_law
  | userProfile => exact UserProfile.visit_law

/-- A value of a supported type comes back from its bytes, whatever follows them, if and only if
each JSON value inside is readable. -/
theorem Supported.roundTrips_iff_jsonReadable {keys : KeyReaders} {α : Type} {c : Serializable α}
    (h : Supported keys α c) {x : α} (hx : c.holds x) : c.RoundTrips x ↔ c.readable x :=
  h.law.roundTrips_iff hx

/-- Two lists in a vector. -/
theorem Supported.roundTrips_nested :
    Serializable.uint8.list.list.RoundTrips [[1, 2], []] := by
  have h : Supported ⟨fun der => .ok ⟨der⟩, fun der => .ok ⟨der⟩⟩ _
      Serializable.uint8.list.list := .list (.list .uint8)
  refine (Supported.roundTrips_iff_jsonReadable h ?_).2 ?_
  · refine ⟨by decide, fun xs hxs => ⟨?_, fun _ _ => trivial⟩⟩
    simp only [List.mem_cons, List.not_mem_nil, or_false] at hxs
    obtain rfl | rfl := hxs <;> decide
  · exact fun _ _ _ _ => trivial

/-- A message to a user whose text is an object with the euro sign. -/
def priceMessage : UserMessageTransaction := ⟨JsonValue.priceObject, []⟩

theorem priceMessage_not_roundTrips :
    UserMessageTransaction.visit.holds priceMessage ∧
      ¬UserMessageTransaction.visit.RoundTrips priceMessage := by
  have hholds : UserMessageTransaction.visit.holds priceMessage := by
    refine ⟨fun text htext => ?_, by decide, fun _ h => absurd h List.not_mem_nil⟩
    have hstr : JsonValue.priceObject.str = .ok [ascii '{', quote, ascii 'a', quote, ascii ':',
      quote, backslash, ascii 'u', ascii '2', ascii '0', ascii 'a', ascii 'c', quote,
      ascii '}'] := rfl
    cases hstr.symm.trans htext
    decide
  refine ⟨hholds, fun h => ?_⟩
  have hread := (UserMessageTransaction.visit_law.roundTrips_iff hholds).1 h
  exact absurd hread.1.2 (by decide)

end Vds
