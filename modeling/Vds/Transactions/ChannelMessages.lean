import Vds.Kernel.SerializationLimits
import Vds.Kernel.SymmetricCrypto
import Vds.Transactions.Visits

/-! Messages inside a channel: `channel_message`, which carries them encrypted, and
`channel_messages_walker`, which hands them to the handlers of their kinds. -/

namespace Vds

open BinarySerializer BinaryDeserializer StateError

/-! ### Keys of messages -/

/-- A `symmetric_key` of `aes_256_cbc`. -/
structure SymmetricKey where
  key : ConstDataBuffer
  iv : ConstDataBuffer
  key_size : key.length = 32
  iv_size : iv.length = 16

namespace SymmetricKey

instance : Inhabited SymmetricKey :=
  ⟨⟨List.replicate 32 0, List.replicate 16 0, List.length_replicate .., List.length_replicate ..⟩⟩

def serialize (k : SymmetricKey) : ConstDataBuffer := putData k.key ++ putData k.iv

/-- `pop_data` into a buffer of `size` bytes, which gives back how many there were, and the check
that they fill it. -/
def popSized (size : Nat) : BinaryDeserializer {data : ConstDataBuffer // data.length = size} := do
  let len ← readNumber
  if size < len.toNat then throw (.runtimeError "Buffer too small")
  else do
    let data ← popData len.toNat
    if h : data.length = size then return ⟨data, h⟩ else throw (.runtimeError "Invalid data")

def deserialize : BinaryDeserializer SymmetricKey := do
  let key ← popSized 32
  let iv ← popSized 16
  return ⟨key.1, iv.1, key.2, iv.2⟩

theorem popSized_putData {size : Nat} (hsize : size < 2 ^ 64)
    (data : {data : ConstDataBuffer // data.length = size}) (rest : ConstDataBuffer) :
    popSized size (putData data.1 ++ rest) = .ok data rest := by
  have hlength : data.1.length < 2 ^ 64 := data.2.trans_lt hsize
  have hn : (UInt64.ofNat data.1.length).toNat = data.1.length := UInt64.toNat_ofNat_of_lt' hlength
  have hle : ¬size < data.1.length := by
    rw [data.2]
    exact lt_irrefl size
  unfold popSized
  rw [putData, List.append_assoc, bind_of_ok (readNumber_writeNumber _ _), hn, if_neg hle,
    bind_of_ok (popData_append data.1 rest), dif_pos data.2]
  rfl

theorem deserialize_serialize (k : SymmetricKey) (rest : ConstDataBuffer) :
    deserialize (k.serialize ++ rest) = .ok k rest := by
  unfold deserialize serialize
  rw [List.append_assoc, bind_of_ok (popSized_putData (by decide) ⟨k.key, k.key_size⟩ _),
    bind_of_ok (popSized_putData (by decide) ⟨k.iv, k.iv_size⟩ rest)]
  rfl

end SymmetricKey

/-- The crypto library as far as the channels use it. RSA and AES invert, and public keys differ in
their fingerprints, which are hashes. -/
structure ChannelCrypto where
  keys : KeyReaders
  /-- `asymmetric_public_key::create`. -/
  publicKeyOf : AsymmetricPrivateKey → AsymmetricPublicKey
  fingerprint : AsymmetricPublicKey → ConstDataBuffer
  fingerprint_injective : Function.Injective fingerprint
  fingerprint_ne_nil : ∀ key, fingerprint key ≠ []
  encrypt : AsymmetricPublicKey → ConstDataBuffer → Expected ConstDataBuffer
  decrypt : AsymmetricPrivateKey → ConstDataBuffer → Expected ConstDataBuffer
  decrypt_encrypt : ∀ key (k : SymmetricKey), ∃ crypted,
    encrypt (publicKeyOf key) k.serialize = .ok crypted ∧ decrypt key crypted = .ok k.serialize
  cipher : SymmetricKey → SymmetricCipher
  /-- `asymmetric_sign::signature` with `hash::sha256()`. -/
  signature : AsymmetricPrivateKey → ConstDataBuffer → Expected ConstDataBuffer
  signature_ok : ∀ key data, ∃ s, signature key data = .ok s

/-- What the input buffers of the ciphers hold when they are made. -/
structure CipherMemory (crypto : ChannelCrypto) where
  encrypt : ∀ key, Buffer (crypto.cipher key).encrypt.blockSize
  decrypt : ∀ key, Buffer (crypto.cipher key).decrypt.blockSize

namespace CipherMemory

variable {crypto : ChannelCrypto} (memory : CipherMemory crypto)

instance : Inhabited (CipherMemory crypto) :=
  ⟨fun _ => ⟨List.replicate _ 0, List.length_replicate ..⟩,
    fun _ => ⟨List.replicate _ 0, List.length_replicate ..⟩⟩

/-- `symmetric_encrypt::encrypt` -/
def symmetricEncrypt (key : SymmetricKey) (data : ConstDataBuffer) : Expected ConstDataBuffer :=
  ((crypto.cipher key).encryptOneShot (memory.encrypt key) data).map SymmetricStream.written

/-- `symmetric_decrypt::decrypt` -/
def symmetricDecrypt (key : SymmetricKey) (data : ConstDataBuffer) : Expected ConstDataBuffer :=
  ((crypto.cipher key).decryptOneShot (memory.decrypt key) data).map SymmetricStream.written

theorem symmetric_inverse (memory' : CipherMemory crypto) (key : SymmetricKey) {data : ConstDataBuffer}
    (hne : data ≠ []) : ∃ crypted, memory.symmetricEncrypt key data = .ok crypted ∧
      memory'.symmetricDecrypt key crypted = .ok data := by
  obtain ⟨⟨s, hs, -, hwritten⟩, ⟨s', hs', -, hwritten'⟩⟩ :=
    SymmetricCipher.oneShot_inverse (crypto.cipher key) (memory.encrypt key) (memory'.decrypt key) hne
  refine ⟨(crypto.cipher key).ciphertext data, ?_, ?_⟩
  · rw [symmetricEncrypt, hs, ← hwritten]
    rfl
  · rw [symmetricDecrypt, hs', ← hwritten']
    rfl

end CipherMemory

namespace Transactions

open Serializable

/-! ### The kinds of messages -/

/-- The messages with a `message_id` of `channel_message_id`. -/
inductive ChannelMessageKind
  | channelAddReader
  | channelAddWriter
  | channelCreate
  | userMessage
  | controlMessage
  | createWallet
  deriving DecidableEq, Repr

namespace ChannelMessageKind

def messageId : ChannelMessageKind → UInt8
  | channelAddReader => ascii 'r'
  | channelAddWriter => ascii 'w'
  | channelCreate => ascii 'n'
  | userMessage => ascii 'a'
  | controlMessage => ascii 'c'
  | createWallet => ascii 'l'

def Fields : ChannelMessageKind → Type
  | channelAddReader => ChannelAddReaderTransaction
  | channelAddWriter => ChannelAddWriterTransaction
  | channelCreate => ChannelCreateTransaction
  | userMessage => UserMessageTransaction
  | controlMessage => ControlMessageTransaction
  | createWallet => CreateWalletMessage

variable (keys : KeyReaders)

def visit : (kind : ChannelMessageKind) → Serializable kind.Fields
  | channelAddReader => ChannelAddReaderTransaction.visit keys
  | channelAddWriter => ChannelAddWriterTransaction.visit keys
  | channelCreate => ChannelCreateTransaction.visit keys
  | userMessage => UserMessageTransaction.visit
  | controlMessage => ControlMessageTransaction.visit
  | createWallet => CreateWalletMessage.visit

theorem visit_law : ∀ kind : ChannelMessageKind, (kind.visit keys).Law
  | channelAddReader => ChannelAddReaderTransaction.visit_law keys
  | channelAddWriter => ChannelAddWriterTransaction.visit_law keys
  | channelCreate => ChannelCreateTransaction.visit_law keys
  | userMessage => UserMessageTransaction.visit_law
  | controlMessage => ControlMessageTransaction.visit_law
  | createWallet => CreateWalletMessage.visit_law

theorem string_strict : string.Strict := string_takes.strict string_sound

theorem buffer_strict : buffer.Strict := buffer_takes.strict buffer_sound

theorem publicKey_strict : (publicKey keys).Strict := key_strict _ _

theorem privateKey_strict : (privateKey keys).Strict := key_strict _ _

theorem fileBlock_sound : FileBlock.fields.Sound := by
  refine Sound.as ?_ fun _ => rfl
  exact buffer_sound.both <| buffer_sound.both uint64_sound

theorem fileInfo_sound : FileInfo.fields.Sound := by
  refine Sound.as ?_ fun _ => rfl
  exact string_sound.both <| string_sound.both <| uint64_sound.both <|
    buffer_sound.both fileBlock_sound.list

theorem fileInfo_takes : FileInfo.fields.Takes := by
  refine Takes.as ?_ _ _
  refine string_takes.both <| string_takes.both <| uint64_takes.both <| buffer_takes.both <| Takes.list ?_
  refine Takes.as ?_ _ _
  exact buffer_takes.both <| buffer_takes.both uint64_takes

theorem stringOrder_injective : Function.Injective stringOrder := fun s t h =>
  List.map_injective_iff.2 (fun _ _ => UInt8.toNat_inj.1) h

theorem attachments_strict : (string.map stringLess buffer).Strict :=
  (string_takes.map buffer_takes stringLess).strict
    (string_sound.map buffer_sound stringLess_iff stringOrder_injective)

theorem visit_strict : ∀ kind : ChannelMessageKind, (kind.visit keys).Strict
  | channelAddReader => by
    refine Strict.as ?_ fun _ => rfl
    exact buffer_strict.both buffer_law <| string_strict.both string_law <|
      string_strict.both string_law <| (publicKey_strict keys).both (publicKey_law keys) <|
      (privateKey_strict keys).both (privateKey_law keys) (publicKey_strict keys)
  | channelAddWriter => by
    refine Strict.as ?_ fun _ => rfl
    exact buffer_strict.both buffer_law <| string_strict.both string_law <|
      string_strict.both string_law <| (publicKey_strict keys).both (publicKey_law keys) <|
      (privateKey_strict keys).both (privateKey_law keys) <|
      (publicKey_strict keys).both (publicKey_law keys) (privateKey_strict keys)
  | channelCreate => by
    refine Strict.as ?_ fun _ => rfl
    exact string_strict.both string_law <| string_strict.both string_law <|
      (publicKey_strict keys).both (publicKey_law keys) <|
      (privateKey_strict keys).both (privateKey_law keys) <|
      (publicKey_strict keys).both (publicKey_law keys) <|
      (privateKey_strict keys).both (privateKey_law keys) <|
      (publicKey_strict keys).both (publicKey_law keys) (privateKey_strict keys)
  | userMessage => by
    refine Strict.as ?_ fun _ => rfl
    exact json_strict.both json_law (fileInfo_takes.list.strict fileInfo_sound.list)
  | controlMessage => by
    refine Strict.as ?_ fun _ => rfl
    exact json_strict.both json_law attachments_strict
  | createWallet => by
    refine Strict.as ?_ fun _ => rfl
    exact string_strict.both string_law <| buffer_strict.both buffer_law buffer_strict

end ChannelMessageKind

/-- A message of a channel with its fields. -/
structure ChannelItem where
  kind : ChannelMessageKind
  fields : kind.Fields

namespace ChannelItem

variable (keys : KeyReaders)

/-- The message is a value of its types: no buffer is above the limit of the reader, and the library
reads its keys back. -/
def holds (item : ChannelItem) : Prop := (item.kind.visit keys).holds item.fields

/-- Every JSON value in the message is a readable object or array. -/
def readable (item : ChannelItem) : Prop := (item.kind.visit keys).readable item.fields

/-- The id of the kind and the fields. -/
def serialize (item : ChannelItem) : Expected ConstDataBuffer := do
  let fields ← (item.kind.visit keys).put item.fields
  return item.kind.messageId :: fields

theorem serialize_eq {keys : KeyReaders} {item : ChannelItem} {fields : ConstDataBuffer}
    (h : (item.kind.visit keys).put item.fields = .ok fields) :
    item.serialize keys = .ok (item.kind.messageId :: fields) := by
  unfold serialize
  rw [h]
  rfl

end ChannelItem

/-! ### The walker -/

namespace ChannelMessagesWalker

/-- The cases of the `switch` in `channel_messages_walker::process`. -/
def caseOf (messageId : UInt8) : Option ChannelMessageKind :=
  [.channelAddReader, .channelAddWriter, .channelCreate, .userMessage, .controlMessage].find?
    fun kind => kind.messageId = messageId

/-- `message_deserialize` of the message of a case. -/
def readItem (keys : KeyReaders) (messageId : UInt8) : BinaryDeserializer ChannelItem :=
  match caseOf messageId with
  | some kind => (fun fields => ⟨kind, fields⟩) <$> (kind.visit keys).get
  | none => throw (.runtimeError ("Invalid channel message " ++ toString messageId.toNat))

/-- The handlers that `channel_messages_walker::process` has called, in this order, and what it returns. -/
structure Walked (α : Type) where
  calls : List ChannelItem
  result : Expected α

/-- What `walk_messages` makes of the result. -/
def Walked.discard (walked : Walked Bool) : Walked Unit :=
  ⟨walked.calls, walked.result.map fun _ => ()⟩

/-- The handler of a message, and how the loop goes on. -/
def handle (visit : ChannelItem → Expected Bool) (item : ChannelItem) (next : Walked Bool) :
    Walked Bool :=
  match visit item with
  | .error e => ⟨[item], .error e⟩
  | .ok false => ⟨[item], .ok false⟩
  | .ok true => ⟨item :: next.calls, next.result⟩

/-- The loop of `channel_messages_walker::process`. -/
def processLoop (keys : KeyReaders) (visit : ChannelItem → Expected Bool) :
    Nat → ConstDataBuffer → Walked Bool
  | _, [] => ⟨[], .ok true⟩
  | 0, _ :: _ => ⟨[], .error .outOfFuel⟩
  | fuel + 1, messageId :: s =>
    match readItem keys messageId s with
    | .error e _ => ⟨[], .error e⟩
    | .ok item rest => handle visit item (processLoop keys visit fuel rest)

def process (keys : KeyReaders) (visit : ChannelItem → Expected Bool) (data : ConstDataBuffer) :
    Walked Bool :=
  processLoop keys visit data.length data

theorem caseOf_messageId (kind : ChannelMessageKind) :
    caseOf kind.messageId = if kind = .createWallet then none else some kind := by
  cases kind <;> decide

/-- The handler of the message is called with its fields, once, and nothing else is; the walk succeeds
if the handler does. -/
def HandledOnce (visit : ChannelItem → Expected Bool) (item : ChannelItem) (walked : Walked Unit) :
    Prop :=
  walked.calls = [item] ∧ walked.result = (visit item).map fun _ => ()

theorem handle_calls (visit : ChannelItem → Expected Bool) (item : ChannelItem) (next : Walked Bool) :
    ∃ calls, (handle visit item next).calls = item :: calls := by
  unfold handle
  split
  · exact ⟨[], rfl⟩
  · exact ⟨[], rfl⟩
  · exact ⟨next.calls, rfl⟩

theorem handledOnce_handle (visit : ChannelItem → Expected Bool) (item : ChannelItem) :
    HandledOnce visit item (handle visit item ⟨[], .ok true⟩).discard := by
  unfold HandledOnce handle Walked.discard
  cases visit item with
  | error e => exact ⟨rfl, rfl⟩
  | ok go => cases go <;> exact ⟨rfl, rfl⟩

theorem process_cons (keys : KeyReaders) (visit : ChannelItem → Expected Bool) (messageId : UInt8)
    (s : ConstDataBuffer) : process keys visit (messageId :: s) =
      match readItem keys messageId s with
      | .error e _ => ⟨[], .error e⟩
      | .ok item rest => handle visit item (processLoop keys visit s.length rest) := rfl

theorem readItem_messageId (keys : KeyReaders) {kind : ChannelMessageKind} (h : kind ≠ .createWallet) :
    readItem keys kind.messageId =
      (fun fields => (⟨kind, fields⟩ : ChannelItem)) <$> (kind.visit keys).get := by
  unfold readItem
  rw [caseOf_messageId, if_neg h]

theorem readItem_createWallet (keys : KeyReaders) (s : ConstDataBuffer) :
    readItem keys ChannelMessageKind.createWallet.messageId s =
      .error (.runtimeError "Invalid channel message 108") s := rfl

/-- The walker hands a message over exactly if its kind has a case and its fields come back. -/
theorem handledOnce_iff (keys : KeyReaders) (visit : ChannelItem → Expected Bool) {item : ChannelItem}
    {bytes : ConstDataBuffer} (hput : (item.kind.visit keys).put item.fields = .ok bytes)
    (hsize : bytes.length < 2 ^ 64) :
    HandledOnce visit item (process keys visit (item.kind.messageId :: bytes)).discard ↔
      item.kind ≠ .createWallet ∧ item.holds keys ∧ item.readable keys := by
  obtain ⟨kind, fields⟩ := item
  by_cases hwallet : kind = .createWallet
  · subst hwallet
    rw [process_cons, readItem_createWallet]
    constructor
    · rintro ⟨hcalls, -⟩
      cases hcalls
    · rintro ⟨hkind, -⟩
      exact absurd rfl hkind
  have hget := get_iff (kind.visit_law keys) (kind.visit_strict keys) hput hsize []
  rw [List.append_nil] at hget
  rw [process_cons, readItem_messageId keys hwallet]
  constructor
  · intro h
    refine ⟨hwallet, hget.1 ?_⟩
    obtain ⟨hcalls, -⟩ := h
    cases hread : ((fun fields => (⟨kind, fields⟩ : ChannelItem)) <$> (kind.visit keys).get) bytes with
    | error e s =>
      rw [hread] at hcalls
      cases hcalls
    | ok item' rest' =>
      rw [hread] at hcalls
      obtain ⟨fields', hfields, rfl⟩ := map_eq_ok.1 hread
      obtain ⟨calls, hfirst⟩ := handle_calls visit ⟨kind, fields'⟩
        (processLoop keys visit bytes.length rest')
      cases hfirst.symm.trans hcalls
      exact ⟨rest', hfields⟩
  · rintro ⟨-, hholds, hreadable⟩
    have hback := get_readable (kind.visit_law keys) hput hholds hreadable []
    rw [List.append_nil] at hback
    rw [map_eq_ok.2 ⟨fields, hback, rfl⟩]
    have hdone : processLoop keys visit bytes.length [] = ⟨[], .ok true⟩ := by
      cases bytes.length <;> rfl
    change HandledOnce visit _ (handle visit _ (processLoop keys visit bytes.length [])).discard
    rw [hdone]
    exact handledOnce_handle visit _

end ChannelMessagesWalker

/-! ### `channel_message` -/

open ChannelMessagesWalker

/-- The bytes that `channel_message::create` signs. -/
def ChannelMessage.signedData (channelId readId writeId cryptedKey cryptedData : ConstDataBuffer) :
    ConstDataBuffer :=
  ascii 'c' :: (putData channelId ++ putData readId ++ putData writeId ++ putData cryptedKey ++
    putData cryptedData)

def ChannelMessage.create (crypto : ChannelCrypto)
    (channelId readId writeId cryptedKey cryptedData : ConstDataBuffer)
    (writeKey : AsymmetricPrivateKey) : Expected ChannelMessage := do
  let signature ← crypto.signature writeKey
    (signedData channelId readId writeId cryptedKey cryptedData)
  return ⟨channelId, readId, writeId, cryptedKey, cryptedData, signature⟩

theorem ChannelMessage.create_eq {crypto : ChannelCrypto}
    {channelId readId writeId cryptedKey cryptedData signature : ConstDataBuffer}
    {writeKey : AsymmetricPrivateKey}
    (h : crypto.signature writeKey (signedData channelId readId writeId cryptedKey cryptedData) =
      .ok signature) :
    create crypto channelId readId writeId cryptedKey cryptedData writeKey =
      .ok ⟨channelId, readId, writeId, cryptedKey, cryptedData, signature⟩ := by
  unfold create
  rw [h]
  rfl

/-- `walk_messages` with the handlers. -/
def ChannelMessage.walkMessages (crypto : ChannelCrypto) (memory : CipherMemory crypto)
    (channelReadKey : AsymmetricPrivateKey) (visit : ChannelItem → Expected Bool)
    (m : ChannelMessage) : Walked Unit :=
  match crypto.decrypt channelReadKey m.cryptedKey with
  | .error e => ⟨[], .error e⟩
  | .ok decryptedData =>
    match SymmetricKey.deserialize decryptedData with
    | .error e _ => ⟨[], .error e⟩
    | .ok key _ =>
      match memory.symmetricDecrypt key m.cryptedData with
      | .error e => ⟨[], .error e⟩
      | .ok data =>
        (ChannelMessagesWalker.process crypto.keys visit data).discard

theorem ChannelMessage.walkMessages_eq {crypto : ChannelCrypto} {memory : CipherMemory crypto}
    {readKey : AsymmetricPrivateKey} {m : ChannelMessage} {key : SymmetricKey} {data : ConstDataBuffer}
    (hkey : crypto.decrypt readKey m.cryptedKey = .ok key.serialize)
    (hdata : memory.symmetricDecrypt key m.cryptedData = .ok data) (visit : ChannelItem → Expected Bool) :
    m.walkMessages crypto memory readKey visit =
      (ChannelMessagesWalker.process crypto.keys visit data).discard := by
  have hback := SymmetricKey.deserialize_serialize key []
  rw [List.append_nil] at hback
  unfold walkMessages
  simp only [hkey, hback, hdata]

end Transactions
end Vds
