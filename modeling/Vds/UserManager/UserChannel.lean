import Vds.Library.SortedMap
import Vds.Transactions.ChannelMessages

/-! `user_channel`: the keys of a channel by their ids, and the messages that it puts into the log. -/

namespace Vds

open Transactions

inductive ChannelError
  | invalidArgument (what : String)
  | other (error : Error)
  deriving DecidableEq, Repr

/-- `none` where the code dereferences the end of a map. -/
abbrev ChannelM (α : Type) := ExceptT ChannelError Option α

namespace ChannelM

variable {α : Type}

/-- `find(..)->second` -/
def second (entry : Option α) : ChannelM α := entry.map Except.ok

def expected : Expected α → ChannelM α
  | .ok value => pure value
  | .error e => throw (.other e)

end ChannelM

/-- `_user_channel` -/
structure UserChannel where
  channelType : StdString
  name : StdString
  readCertificates : List (ConstDataBuffer × AsymmetricPublicKey)
  writeCertificates : List (ConstDataBuffer × AsymmetricPublicKey)
  adminCertificates : List (ConstDataBuffer × AsymmetricPublicKey)
  readPrivateKeys : List (ConstDataBuffer × AsymmetricPrivateKey)
  writePrivateKeys : List (ConstDataBuffer × AsymmetricPrivateKey)
  adminPrivateKeys : List (ConstDataBuffer × AsymmetricPrivateKey)
  currentReadCertificate : ConstDataBuffer
  currentWriteCertificate : ConstDataBuffer
  currentAdminCertificate : ConstDataBuffer

/-- What `add_log` uses of the `member_user` that writes. -/
structure MemberUser where
  userPublicKey : AsymmetricPublicKey
  privateKey : AsymmetricPrivateKey

namespace UserChannel

open SortedMap ChannelM

def create (channelType name : StdString)
    (readId : ConstDataBuffer) (readCert : AsymmetricPublicKey) (readPrivateKey : AsymmetricPrivateKey)
    (writeId : ConstDataBuffer) (writeCert : AsymmetricPublicKey) (writePrivateKey : AsymmetricPrivateKey)
    (adminId : ConstDataBuffer) (adminCert : AsymmetricPublicKey)
    (adminPrivateKey : AsymmetricPrivateKey) : UserChannel where
  channelType := channelType
  name := name
  readCertificates := assign bufferLess readId readCert []
  readPrivateKeys := assign bufferLess readId readPrivateKey []
  currentReadCertificate := readId
  writeCertificates := assign bufferLess writeId writeCert []
  writePrivateKeys := assign bufferLess writeId writePrivateKey []
  currentWriteCertificate := writeId
  adminCertificates := assign bufferLess adminId adminCert []
  -- the key of the administrator stands under the id of the writer
  adminPrivateKeys := assign bufferLess writeId adminPrivateKey []
  currentAdminCertificate := adminId

def readCert (c : UserChannel) : ChannelM AsymmetricPublicKey :=
  if c.currentReadCertificate = [] then throw (.invalidArgument "vds::_user_channel::add_reader")
  else second (c.readCertificates.lookup c.currentReadCertificate)

def writeCert (c : UserChannel) : ChannelM AsymmetricPublicKey :=
  if c.currentReadCertificate = [] ∨ c.currentWriteCertificate = [] then
    throw (.invalidArgument "vds::_user_channel::add_reader")
  else second (c.writeCertificates.lookup c.currentWriteCertificate)

def readPrivateKey (c : UserChannel) : ChannelM AsymmetricPrivateKey :=
  if c.currentReadCertificate = [] then throw (.invalidArgument "vds::_user_channel::read_private_key")
  else second (c.readPrivateKeys.lookup c.currentReadCertificate)

def writePrivateKey (c : UserChannel) : ChannelM AsymmetricPrivateKey :=
  if c.currentWriteCertificate = [] then throw (.invalidArgument "vds::_user_channel::write_private_key")
  else second (c.writePrivateKeys.lookup c.currentWriteCertificate)

def adminPrivateKey (c : UserChannel) : ChannelM AsymmetricPrivateKey :=
  if c.currentAdminCertificate = [] then throw (.invalidArgument "vds::user_channel::admin_private_key")
  else second (c.adminPrivateKeys.lookup c.currentAdminCertificate)

section AddLog

variable (crypto : ChannelCrypto) (memory : CipherMemory crypto) (c : UserChannel) (key : SymmetricKey)

/-- `add_to_log` with the key that it generates: the message that it gives to the block builder. -/
def addToLog (data : ConstDataBuffer) : ChannelM ChannelMessage := do
  let writeCert ← c.writeCert
  let readCert ← c.readCert
  let keyData := key.serialize
  let readId := crypto.fingerprint readCert
  let writeId := crypto.fingerprint writeCert
  let readCertPublicKeyData ← expected (crypto.encrypt readCert keyData)
  let writePrivateKey ← c.writePrivateKey
  let keyCrypted ← expected (memory.symmetricEncrypt key data)
  expected (ChannelMessage.create crypto c.currentAdminCertificate readId writeId
    readCertPublicKeyData keyCrypted writePrivateKey)

/-- `user_channel::add_log` -/
def addLog (item : ChannelItem) : ChannelM ChannelMessage := do
  let s ← expected (item.serialize crypto.keys)
  addToLog crypto memory c key s

/-- `_user_channel::add_log` without a writer does not look at the error of the visitor. Only a JSON
value has one, and it is the first field of its message. -/
def addLogUnchecked (item : ChannelItem) : ChannelM ChannelMessage :=
  match item.serialize crypto.keys with
  | .ok s => addToLog crypto memory c key s
  | .error _ => addToLog crypto memory c key [item.kind.messageId]

/-- `_user_channel::add_log` with a writer. -/
def addLogAs (writter : MemberUser) (item : ChannelItem) : ChannelM ChannelMessage := do
  let s ← expected (item.serialize crypto.keys)
  let readCert ← c.readCert
  let readId := crypto.fingerprint readCert
  let keyCrypted ← expected (crypto.encrypt readCert key.serialize)
  let sCrypted ← expected (memory.symmetricEncrypt key s)
  let writeId := crypto.fingerprint writter.userPublicKey
  expected (ChannelMessage.create crypto c.currentAdminCertificate readId writeId keyCrypted sCrypted
    writter.privateKey)

end AddLog

/-- The ways to put a message into the log. -/
inductive LogCall
  | addLog
  | addLogUnchecked
  | addLogAs (writter : MemberUser)

def LogCall.run (crypto : ChannelCrypto) (memory : CipherMemory crypto) (c : UserChannel)
    (key : SymmetricKey) (item : ChannelItem) : LogCall → ChannelM ChannelMessage
  | addLog => c.addLog crypto memory key item
  | addLogUnchecked => c.addLogUnchecked crypto memory key item
  | addLogAs writter => c.addLogAs crypto memory key writter item

/-- A channel with these three private keys, as `create_channel` makes it. -/
def ofKeys (crypto : ChannelCrypto) (channelType name : StdString)
    (read write admin : AsymmetricPrivateKey) : UserChannel :=
  create channelType name
    (crypto.fingerprint (crypto.publicKeyOf read)) (crypto.publicKeyOf read) read
    (crypto.fingerprint (crypto.publicKeyOf write)) (crypto.publicKeyOf write) write
    (crypto.fingerprint (crypto.publicKeyOf admin)) (crypto.publicKeyOf admin) admin

/-- A message whose bytes fit into the address space. -/
structure HeldItem (keys : KeyReaders) where
  item : ChannelItem
  size_lt : ∀ bytes, (item.kind.visit keys).put item.fields = .ok bytes → bytes.length < 2 ^ 64

/-- The getter returns the private key of the public key under the id. -/
def KeyFound (crypto : ChannelCrypto) (certificates : List (ConstDataBuffer × AsymmetricPublicKey))
    (id : ConstDataBuffer) (getter : ChannelM AsymmetricPrivateKey) : Prop :=
  ∃ key, getter = some (.ok key) ∧ certificates.lookup id = some (crypto.publicKeyOf key)

/-- Whichever call puts the message into the log, whatever the ciphers find in their memory and
whichever handlers read it back, it is handed over once; and the keys are found. -/
structure Carries (crypto : ChannelCrypto) (c : UserChannel) (item : ChannelItem) : Prop where
  handled : ∀ (call : LogCall) (key : SymmetricKey) (memory memory' : CipherMemory crypto)
    (visit : ChannelItem → Expected Bool), ∃ m, call.run crypto memory c key item = some (.ok m) ∧
      ∀ readKey, crypto.fingerprint (crypto.publicKeyOf readKey) = m.readId →
        ChannelMessagesWalker.HandledOnce visit item (m.walkMessages crypto memory' readKey visit)
  readKeyFound : KeyFound crypto c.readCertificates c.currentReadCertificate c.readPrivateKey
  writeKeyFound : KeyFound crypto c.writeCertificates c.currentWriteCertificate c.writePrivateKey
  adminKeyFound : KeyFound crypto c.adminCertificates c.currentAdminCertificate c.adminPrivateKey

/-! ### The keys -/

@[simp] theorem lookup_assign_nil {V : Type} (k k' : ConstDataBuffer) (v : V) :
    (assign bufferLess k v []).lookup k' = if k' = k then some v else none := by
  change List.lookup k' [(k, v)] = _
  rw [List.lookup_cons]
  split_ifs with h
  · rw [beq_iff_eq.2 h]
  · rw [beq_false_of_ne h]
    rfl

section Keys

variable (crypto : ChannelCrypto) (channelType name : StdString) (read write admin : AsymmetricPrivateKey)

theorem readCert_ofKeys : (ofKeys crypto channelType name read write admin).readCert =
    some (.ok (crypto.publicKeyOf read)) := by
  have hne := crypto.fingerprint_ne_nil (crypto.publicKeyOf read)
  simp [readCert, ofKeys, create, second, hne]

theorem writeCert_ofKeys : (ofKeys crypto channelType name read write admin).writeCert =
    some (.ok (crypto.publicKeyOf write)) := by
  have hread := crypto.fingerprint_ne_nil (crypto.publicKeyOf read)
  have hwrite := crypto.fingerprint_ne_nil (crypto.publicKeyOf write)
  simp [writeCert, ofKeys, create, second, hread, hwrite]

theorem readPrivateKey_ofKeys : (ofKeys crypto channelType name read write admin).readPrivateKey =
    some (.ok read) := by
  have hne := crypto.fingerprint_ne_nil (crypto.publicKeyOf read)
  simp [readPrivateKey, ofKeys, create, second, hne]

theorem writePrivateKey_ofKeys : (ofKeys crypto channelType name read write admin).writePrivateKey =
    some (.ok write) := by
  have hne := crypto.fingerprint_ne_nil (crypto.publicKeyOf write)
  simp [writePrivateKey, ofKeys, create, second, hne]

/-- The key of the administrator is found only under the id of the writer. -/
theorem adminPrivateKey_ofKeys : (ofKeys crypto channelType name read write admin).adminPrivateKey =
    if crypto.publicKeyOf admin = crypto.publicKeyOf write then some (.ok admin) else none := by
  have hne := crypto.fingerprint_ne_nil (crypto.publicKeyOf admin)
  have hid := crypto.fingerprint_injective.eq_iff (a := crypto.publicKeyOf admin)
    (b := crypto.publicKeyOf write)
  simp only [adminPrivateKey, ofKeys, create, hne, if_false, second, lookup_assign_nil, hid]
  split_ifs <;> rfl

theorem keyFound_read : KeyFound crypto (ofKeys crypto channelType name read write admin).readCertificates
    (ofKeys crypto channelType name read write admin).currentReadCertificate
    (ofKeys crypto channelType name read write admin).readPrivateKey := by
  refine ⟨read, readPrivateKey_ofKeys crypto channelType name read write admin, ?_⟩
  simp [ofKeys, create]

theorem keyFound_write : KeyFound crypto (ofKeys crypto channelType name read write admin).writeCertificates
    (ofKeys crypto channelType name read write admin).currentWriteCertificate
    (ofKeys crypto channelType name read write admin).writePrivateKey := by
  refine ⟨write, writePrivateKey_ofKeys crypto channelType name read write admin, ?_⟩
  simp [ofKeys, create]

theorem keyFound_admin_iff :
    KeyFound crypto (ofKeys crypto channelType name read write admin).adminCertificates
      (ofKeys crypto channelType name read write admin).currentAdminCertificate
      (ofKeys crypto channelType name read write admin).adminPrivateKey ↔
    crypto.publicKeyOf admin = crypto.publicKeyOf write := by
  unfold KeyFound
  rw [adminPrivateKey_ofKeys]
  constructor
  · rintro ⟨key, hkey, -⟩
    by_contra hne
    rw [if_neg hne] at hkey
    cases hkey
  · intro h
    refine ⟨admin, if_pos h, ?_⟩
    simp [ofKeys, create]

end Keys

/-! ### What goes into the log -/

/-- A message for the reader of the channel: its own key opens it. -/
structure Sealed (crypto : ChannelCrypto) (memory' : CipherMemory crypto) (read : AsymmetricPrivateKey)
    (data : ConstDataBuffer) (m : ChannelMessage) : Prop where
  readId : m.readId = crypto.fingerprint (crypto.publicKeyOf read)
  opens : ∀ readKey, crypto.publicKeyOf readKey = crypto.publicKeyOf read → ∃ key : SymmetricKey,
    crypto.decrypt readKey m.cryptedKey = .ok key.serialize ∧
      memory'.symmetricDecrypt key m.cryptedData = .ok data

section AddLog

variable (crypto : ChannelCrypto) (channelType name : StdString) (read write admin : AsymmetricPrivateKey)
  (memory memory' : CipherMemory crypto) (key : SymmetricKey)

/-- What the fields of a message in the log have to be for the reader to open it. -/
theorem sealed_of_encrypt {data cryptedKey cryptedData : ConstDataBuffer}
    (hkey : crypto.encrypt (crypto.publicKeyOf read) key.serialize = .ok cryptedKey)
    (hdata : memory'.symmetricDecrypt key cryptedData = .ok data)
    (channelId writeId signature : ConstDataBuffer) :
    Sealed crypto memory' read data ⟨channelId, crypto.fingerprint (crypto.publicKeyOf read), writeId,
      cryptedKey, cryptedData, signature⟩ where
  readId := rfl
  opens := by
    intro readKey hread
    obtain ⟨crypted, hcrypted, hback⟩ := crypto.decrypt_encrypt readKey key
    rw [hread, hkey] at hcrypted
    cases hcrypted
    exact ⟨key, hback, hdata⟩

theorem addToLog_sealed {data : ConstDataBuffer} (hne : data ≠ []) :
    ∃ m, (ofKeys crypto channelType name read write admin).addToLog crypto memory key data =
      some (.ok m) ∧ Sealed crypto memory' read data m := by
  obtain ⟨cryptedKey, hkey, -⟩ := crypto.decrypt_encrypt read key
  obtain ⟨cryptedData, hdata, hback⟩ := memory.symmetric_inverse memory' key hne
  set c := ofKeys crypto channelType name read write admin with hc
  obtain ⟨signature, hsignature⟩ := crypto.signature_ok write (ChannelMessage.signedData
    c.currentAdminCertificate (crypto.fingerprint (crypto.publicKeyOf read))
    (crypto.fingerprint (crypto.publicKeyOf write)) cryptedKey cryptedData)
  refine ⟨_, ?_, sealed_of_encrypt crypto read memory' key hkey hback c.currentAdminCertificate
    (crypto.fingerprint (crypto.publicKeyOf write)) signature⟩
  have hwriteCert : c.writeCert = pure (crypto.publicKeyOf write) := writeCert_ofKeys ..
  have hreadCert : c.readCert = pure (crypto.publicKeyOf read) := readCert_ofKeys ..
  have hprivate : c.writePrivateKey = pure write := writePrivateKey_ofKeys ..
  have hcreate := ChannelMessage.create_eq hsignature
  unfold addToLog
  rw [hwriteCert, pure_bind, hreadCert, pure_bind]
  simp only [hkey, hprivate, hdata, expected, pure_bind, hcreate]
  rfl

theorem addLogAs_sealed (writter : MemberUser) {item : ChannelItem} {s : ConstDataBuffer}
    (hs : item.serialize crypto.keys = .ok s) (hne : s ≠ []) :
    ∃ m, (ofKeys crypto channelType name read write admin).addLogAs crypto memory key writter item =
      some (.ok m) ∧ Sealed crypto memory' read s m := by
  obtain ⟨cryptedKey, hkey, -⟩ := crypto.decrypt_encrypt read key
  obtain ⟨cryptedData, hdata, hback⟩ := memory.symmetric_inverse memory' key hne
  set c := ofKeys crypto channelType name read write admin with hc
  obtain ⟨signature, hsignature⟩ := crypto.signature_ok writter.privateKey (ChannelMessage.signedData
    c.currentAdminCertificate (crypto.fingerprint (crypto.publicKeyOf read))
    (crypto.fingerprint writter.userPublicKey) cryptedKey cryptedData)
  refine ⟨_, ?_, sealed_of_encrypt crypto read memory' key hkey hback c.currentAdminCertificate
    (crypto.fingerprint writter.userPublicKey) signature⟩
  have hreadCert : c.readCert = pure (crypto.publicKeyOf read) := readCert_ofKeys ..
  have hcreate := ChannelMessage.create_eq hsignature
  unfold addLogAs
  rw [hs]
  simp only [expected, pure_bind]
  rw [hreadCert, pure_bind]
  simp only [hkey, hdata, pure_bind, hcreate]
  rfl

/-- Each of the calls puts the bytes of a message into the log for the reader. -/
theorem run_sealed {item : ChannelItem} {s : ConstDataBuffer} (hs : item.serialize crypto.keys = .ok s)
    (hne : s ≠ []) (call : LogCall) :
    ∃ m, call.run crypto memory (ofKeys crypto channelType name read write admin) key item =
      some (.ok m) ∧ Sealed crypto memory' read s m := by
  have hlog := addToLog_sealed crypto channelType name read write admin memory memory' key hne
  cases call with
  | addLog =>
    obtain ⟨m, hm, hsealed⟩ := hlog
    refine ⟨m, ?_, hsealed⟩
    change ChannelM.expected (item.serialize crypto.keys) >>= _ = _
    rw [hs]
    exact hm
  | addLogUnchecked =>
    obtain ⟨m, hm, hsealed⟩ := hlog
    refine ⟨m, ?_, hsealed⟩
    change addLogUnchecked crypto memory _ key item = _
    unfold addLogUnchecked
    rw [hs]
    exact hm
  | addLogAs writter =>
    exact addLogAs_sealed crypto channelType name read write admin memory memory' key writter hs hne

end AddLog

/-- A message that is handed over has a case in the walker and fields that can be read. -/
theorem Carries.readable {crypto : ChannelCrypto} {channelType name : StdString}
    {read write admin : AsymmetricPrivateKey} {held : HeldItem crypto.keys}
    (h : (ofKeys crypto channelType name read write admin).Carries crypto held.item) :
    held.item.kind ≠ .createWallet ∧ held.item.holds crypto.keys ∧
      held.item.readable crypto.keys := by
  obtain ⟨m, hm, hhandled⟩ := h.handled .addLog default default default fun _ => .ok true
  cases hput : (held.item.kind.visit crypto.keys).put held.item.fields with
  | error e =>
    have hfail : held.item.serialize crypto.keys = .error e := by
      unfold ChannelItem.serialize
      rw [hput]
      rfl
    change ChannelM.expected (held.item.serialize crypto.keys) >>= _ = _ at hm
    rw [hfail] at hm
    cases hm
  | ok fields =>
    have hs := ChannelItem.serialize_eq hput
    obtain ⟨m', hm', hsealed⟩ := run_sealed crypto channelType name read write admin default default
      default hs (List.cons_ne_nil _ _) .addLog
    cases hm.symm.trans hm'
    obtain ⟨k, hkey, hdata⟩ := hsealed.opens read rfl
    have honce := hhandled read hsealed.readId.symm
    rw [ChannelMessage.walkMessages_eq hkey hdata] at honce
    have hsize := held.size_lt fields hput
    exact (ChannelMessagesWalker.handledOnce_iff crypto.keys _ hput hsize).1 honce

/-- A message comes back from the log exactly if its kind has a case in the walker, its fields are
readable values of their types, and the administrator has the key of the writer. -/
theorem carries_iff (crypto : ChannelCrypto) (channelType name : StdString)
    (read write admin : AsymmetricPrivateKey) (held : HeldItem crypto.keys) :
    (ofKeys crypto channelType name read write admin).Carries crypto held.item ↔
      crypto.publicKeyOf admin = crypto.publicKeyOf write ∧ held.item.kind ≠ .createWallet ∧
        held.item.holds crypto.keys ∧ held.item.readable crypto.keys := by
  have hadmin := keyFound_admin_iff crypto channelType name read write admin
  constructor
  · intro h
    exact ⟨hadmin.1 h.adminKeyFound, h.readable⟩
  · rintro ⟨hkeys, hkind, hholds, hreadable⟩
    refine ⟨?_, keyFound_read crypto channelType name read write admin,
      keyFound_write crypto channelType name read write admin, hadmin.2 hkeys⟩
    intro call k memory memory' visit
    obtain ⟨fields, hput, -⟩ :=
      ((held.item.kind.visit_law crypto.keys).roundTrips_iff hholds).2 hreadable
    have hs := ChannelItem.serialize_eq hput
    obtain ⟨m, hm, hsealed⟩ := run_sealed crypto channelType name read write admin memory memory' k
      hs (List.cons_ne_nil _ _) call
    refine ⟨m, hm, fun readKey hread => ?_⟩
    have hpublic : crypto.publicKeyOf readKey = crypto.publicKeyOf read :=
      crypto.fingerprint_injective (hread.trans hsealed.readId)
    obtain ⟨k', hkey, hdata⟩ := hsealed.opens readKey hpublic
    rw [ChannelMessage.walkMessages_eq hkey hdata]
    have hsize := held.size_lt fields hput
    exact (ChannelMessagesWalker.handledOnce_iff crypto.keys visit hput hsize).2
      ⟨hkind, hholds, hreadable⟩

/-- A library that leaves everything in the clear. -/
def plainCrypto : ChannelCrypto where
  keys := ⟨fun der => .ok ⟨der⟩, fun der => .ok ⟨der⟩⟩
  publicKeyOf key := ⟨key.der⟩
  fingerprint key := 1 :: key.der
  fingerprint_injective := by
    rintro ⟨der⟩ ⟨der'⟩ h
    have hder : der = der' := (List.cons.inj h).2
    rw [hder]
  fingerprint_ne_nil _ := List.cons_ne_nil _ _
  encrypt _ data := .ok data
  decrypt _ data := .ok data
  decrypt_encrypt _ k := ⟨k.serialize, rfl, rfl⟩
  cipher _ := paddingCipher
  signature _ _ := .ok []
  signature_ok _ _ := ⟨[], rfl⟩

/-- A channel with three keys does not find the key of its administrator; and one with a single key
puts a wallet into the log that the walker does not know. -/
theorem not_carries_three :
    (¬(ofKeys plainCrypto [] [] ⟨[1]⟩ ⟨[2]⟩ ⟨[3]⟩).Carries plainCrypto
        ⟨.channelAddReader, ⟨[], [], [], ⟨[4]⟩, ⟨[5]⟩, ⟨[6]⟩⟩⟩) ∧
      ¬(ofKeys plainCrypto [] [] ⟨[1]⟩ ⟨[1]⟩ ⟨[1]⟩).Carries plainCrypto ⟨.createWallet, ⟨[], [], []⟩⟩ := by
  constructor
  · intro h
    have hkeys := (keyFound_admin_iff plainCrypto [] [] ⟨[1]⟩ ⟨[2]⟩ ⟨[3]⟩).1 h.adminKeyFound
    exact absurd hkeys (by decide)
  · intro h
    have hsize : ∀ bytes, (ChannelMessageKind.createWallet.visit plainCrypto.keys).put
        (⟨[], [], []⟩ : CreateWalletMessage) = .ok bytes → bytes.length < 2 ^ 64 := by
      rintro bytes ⟨⟩
      decide
    have hread := @Carries.readable plainCrypto [] [] ⟨[1]⟩ ⟨[1]⟩ ⟨[1]⟩
      ⟨⟨.createWallet, ⟨[], [], []⟩⟩, hsize⟩ h
    exact hread.1 rfl

end UserChannel
end Vds
