import Vds.Transactions.ChannelMessages

/-! What the web client reads of the binary format: the readers of `vds_crypto.js`, whose bit
operators work on signed 32-bit integers, and `decrypt` of `vds_ws.js` behind the decryption. -/

namespace Vds.Web

open BinarySerializer BinaryDeserializer StateError Transactions

variable {β : Type}

/-- What the client throws. -/
inductive JsError
  | uriError
  | thrown (what : String)
  deriving DecidableEq, Repr

/-- The buffers of the crypto library of the client and its encodings. -/
structure Forge (β : Type) where
  /-- These bytes of the buffer are still to be read. -/
  Unread : β → ConstDataBuffer → Prop
  /-- Nothing stands for `NaN`. -/
  getByte : β → Option UInt8 × β
  getBytes : β → Int → ConstDataBuffer × β
  length : β → Int
  decodeUtf8 : ConstDataBuffer → Option String
  encode64 : ConstDataBuffer → String

def utf8 (text : String) : StdString := text.toList.flatMap String.utf8EncodeChar

/-- What the library documents. -/
structure Forge.Lawful (forge : Forge β) : Prop where
  getByte : ∀ b x rest, forge.Unread b (x :: rest) →
    (forge.getByte b).1 = some x ∧ forge.Unread (forge.getByte b).2 rest
  getBytes : ∀ b data rest, forge.Unread b (data ++ rest) →
    (forge.getBytes b data.length).1 = data ∧ forge.Unread (forge.getBytes b data.length).2 rest
  length : ∀ b data, forge.Unread b data → forge.length b = data.length
  decodeUtf8 : ∀ text, forge.decodeUtf8 (utf8 text) = some text
  /-- A string of the engine has fewer than 2^31 units. -/
  size : ∀ b data, forge.Unread b data → data.length < 2 ^ 31

/-! ### Reading -/

abbrev Reader (β : Type) := EStateM JsError β

/-- A bit operator takes `NaN` for zero. -/
def toInt32 : Option UInt8 → BitVec 32
  | some value => value.toBitVec.setWidth 32
  | none => 0

section Readers

variable (forge : Forge β)

def getByte : Reader β (Option UInt8) := fun b => .ok (forge.getByte b).1 (forge.getByte b).2

def getBytes (count : Int) : Reader β ConstDataBuffer := fun b =>
  .ok (forge.getBytes b count).1 (forge.getBytes b count).2

def readNumberLoop : Nat → BitVec 32 → Reader β (BitVec 32)
  | 0, result => return result
  | i + 1, result => do
    let value ← getByte forge
    readNumberLoop i (result <<< 8 ||| toInt32 value)

/-- No comparison with `NaN` holds. -/
def bufferReadNumber : Reader β Int := do
  let value ← getByte forge
  if value.any (· < 0x80) then return (toInt32 value).toInt
  else do
    let result ← readNumberLoop forge (toInt32 value &&& 0x7F).toNat 0
    return result.toInt + 0x80

def bufferPopData : Reader β ConstDataBuffer := do
  let len ← bufferReadNumber forge
  getBytes forge len

def bufferGetString : Reader β String := do
  let data ← bufferPopData forge
  match forge.decodeUtf8 data with
  | some text => return text
  | none => throw .uriError

structure ChannelCreate where
  channelId : String
  channelType : String
  channelName : String
  deriving DecidableEq, Repr

/-- The case of `channel_create_transaction`. -/
def decryptChannelCreate : Reader β ChannelCreate := do
  let channelId ← bufferPopData forge
  let channelType ← bufferGetString forge
  let name ← bufferGetString forge
  let _ ← bufferPopData forge
  let _ ← bufferPopData forge
  let _ ← bufferPopData forge
  let _ ← bufferPopData forge
  let data ← get
  if forge.length data ≠ 0 then throw (.thrown "Invalid message")
  else return ⟨forge.encode64 channelId, channelType, name⟩

/-- `decrypt` from where the data is decrypted. -/
def decrypt : Reader β ChannelCreate := do
  let messageId ← getByte forge
  if messageId = some 110 then decryptChannelCreate forge
  else throw (.thrown "Invalid message")

end Readers

/-! ### What was written -/

inductive Item
  | number (value : UInt64)
  | data (value : ConstDataBuffer)
  | string (text : String)

inductive Value
  | number (value : Int)
  | data (value : ConstDataBuffer)
  | string (text : String)
  deriving DecidableEq

namespace Item

def write : Item → ConstDataBuffer
  | number value => writeNumber value
  | data value => putData value
  | string text => putString (utf8 text)

def value : Item → Value
  | number value => .number value.toNat
  | data value => .data value
  | string text => .string text

/-- The reader of the client for this kind of item. -/
def read (forge : Forge β) : Item → Reader β Value
  | number _ => do
    let value ← bufferReadNumber forge
    return .number value
  | data _ => do
    let value ← bufferPopData forge
    return .data value
  | string _ => do
    let value ← bufferGetString forge
    return .string value

/-- The client has room for it: numbers are 32-bit integers above 0x80. -/
def Fits : Item → Prop
  | number value => value.toNat < 2 ^ 31 + 128
  | data _ => True
  | string _ => True

end Item

def readAll (forge : Forge β) : List Item → Reader β (List Value)
  | [] => return []
  | item :: items => do
    let value ← item.read forge
    let values ← readAll forge items
    return value :: values

/-- The items come out of the buffer as they were written. -/
def ReadsBack (forge : Forge β) (items : List Item) (b : β) : Prop :=
  ∃ b', readAll forge items b = .ok (items.map Item.value) b'

/-- `decrypt` makes of the message what was written. -/
def Decrypts (forge : Forge β) (message : ChannelCreateTransaction) (b : β) : Prop :=
  ∃ b' found, decrypt forge b = .ok found b' ∧ utf8 found.channelType = message.channelType ∧
    utf8 found.channelName = message.name

/-! ### Numbers -/

/-- What the client reads where a number was written. -/
def jsNumber (value : UInt64) : Int :=
  if value < 128 then value.toNat else ((value - 128).toBitVec.setWidth 32).toInt + 0x80

theorem jsNumber_eq_iff (value : UInt64) : jsNumber value = value.toNat ↔ value.toNat < 2 ^ 31 + 128 := by
  unfold jsNumber
  have h128 : (128 : UInt64).toNat = 128 := rfl
  split_ifs with h
  · have hlt := UInt64.lt_iff_toNat_lt.mp h
    constructor
    · intro _
      omega
    · intro _
      rfl
  · have hge := UInt64.lt_iff_toNat_lt.not.mp h
    have hsub : (value - 128).toNat = value.toNat - 128 :=
      UInt64.toNat_sub_of_le _ _ (UInt64.not_lt.mp h)
    have hval : ((value - 128).toBitVec.setWidth 32).toNat = (value.toNat - 128) % 2 ^ 32 := by
      rw [BitVec.toNat_setWidth, UInt64.toNat_toBitVec, hsub]
    rw [BitVec.toInt_eq_toNat_cond, hval]
    constructor
    · intro he
      split_ifs at he <;> omega
    · intro hlt
      rw [Nat.mod_eq_of_lt (by omega), if_pos (by omega)]
      omega

theorem toInt32_toNat (value : UInt8) : (toInt32 (some value)).toNat = value.toNat := by
  have hlt := value.toNat_lt
  rw [toInt32, BitVec.toNat_setWidth, UInt8.toNat_toBitVec]
  exact Nat.mod_eq_of_lt (by omega)

theorem toInt32_toInt (value : UInt8) : (toInt32 (some value)).toInt = value.toNat := by
  have hlt := value.toNat_lt
  rw [BitVec.toInt_eq_toNat_of_lt (by rw [toInt32_toNat]; omega), toInt32_toNat]

theorem toInt32_and (value : UInt8) :
    (toInt32 (some value) &&& 0x7F).toNat = (value &&& 0x7F).toNat := by
  rw [BitVec.toNat_and, toInt32_toNat, UInt8.toNat_and]
  rfl

theorem writeNumber_ne_nil (value : UInt64) : writeNumber value ≠ [] := by
  unfold writeNumber
  split_ifs
  · exact List.cons_ne_nil _ _
  · exact List.cons_ne_nil _ _

section Lawful

variable {forge : Forge β} (h : forge.Lawful)
include h

theorem getByte_cons {b : β} {x : UInt8} {rest : ConstDataBuffer} (hb : forge.Unread b (x :: rest)) :
    ∃ b', getByte forge b = .ok (some x) b' ∧ forge.Unread b' rest := by
  obtain ⟨hx, hrest⟩ := h.getByte b x rest hb
  refine ⟨_, ?_, hrest⟩
  rw [getByte, hx]

theorem getBytes_append {b : β} {data rest : ConstDataBuffer} (hb : forge.Unread b (data ++ rest)) :
    ∃ b', getBytes forge data.length b = .ok data b' ∧ forge.Unread b' rest := by
  obtain ⟨hdata, hrest⟩ := h.getBytes b data rest hb
  refine ⟨_, ?_, hrest⟩
  rw [getBytes, hdata]

/-- The loop keeps the low 32 bits of what the deserialiser shifts together. -/
theorem readNumberLoop_append (data rest : ConstDataBuffer) (value : UInt64) {b : β}
    (hb : forge.Unread b (data ++ rest)) :
    ∃ b', readNumberLoop forge data.length (value.toBitVec.setWidth 32) b =
      .ok ((data.foldl (fun (value : UInt64) (x : UInt8) => value <<< 8 ||| x.toUInt64)
        value).toBitVec.setWidth 32) b' ∧ forge.Unread b' rest := by
  induction data generalizing value b with
  | nil => exact ⟨b, rfl, hb⟩
  | cons x data ih =>
    obtain ⟨b₁, hx, hb₁⟩ := getByte_cons h hb
    obtain ⟨b', hloop, hb'⟩ := ih (value <<< 8 ||| x.toUInt64) hb₁
    refine ⟨b', ?_, hb'⟩
    rw [List.length_cons, readNumberLoop, bind_of_ok hx]
    have hstep : value.toBitVec.setWidth 32 <<< 8 ||| toInt32 (some x) =
        (value <<< 8 ||| x.toUInt64).toBitVec.setWidth 32 := by
      rw [UInt64.toBitVec_or, BitVec.setWidth_or]
      congr 1
      · exact (BitVec.setWidth_shiftLeft_of_le (by decide)).symm
      · rw [UInt8.toBitVec_toUInt64]
        exact (BitVec.setWidth_setWidth_of_le _ (by decide)).symm
    rw [hstep, hloop]
    rfl

theorem bufferReadNumber_writeNumber (value : UInt64) (rest : ConstDataBuffer) {b : β}
    (hb : forge.Unread b (writeNumber value ++ rest)) :
    ∃ b', bufferReadNumber forge b = .ok (jsNumber value) b' ∧ forge.Unread b' rest := by
  unfold writeNumber at hb
  unfold bufferReadNumber jsNumber
  split_ifs at hb ⊢ with h128
  · obtain ⟨b₁, hx, hb₁⟩ := getByte_cons h hb
    obtain ⟨he, hlt⟩ := toUInt64_toUInt8 h128
    refine ⟨b₁, ?_, hb₁⟩
    rw [bind_of_ok hx, if_pos (by rw [Option.any_some, decide_eq_true_iff]; exact hlt)]
    have hval : (toInt32 (some value.toUInt8)).toInt = value.toNat := by
      rw [toInt32_toInt, ← UInt8.toNat_toUInt64, he]
    rw [hval]
    rfl
  · obtain ⟨hpos, hle⟩ := numberData_length (by decide : 0 < 8) (value - 128)
    obtain ⟨b₁, hx, hb₁⟩ := getByte_cons h hb
    obtain ⟨hbyte, hcount⟩ := count_byte ⟨(numberData 8 (value - 128)).length, by omega⟩
    simp only at hbyte hcount
    rw [bind_of_ok hx, if_neg (by rw [Option.any_some, decide_eq_true_iff]; exact hbyte)]
    obtain ⟨b₂, hloop, hb₂⟩ := readNumberLoop_append h (numberData 8 (value - 128)).reverse rest 0 hb₁
    refine ⟨b₂, ?_, hb₂⟩
    rw [toInt32_and, hcount, ← List.length_reverse]
    refine (bind_of_ok hloop).trans ?_
    have hvalue := numberData_value (value - 128)
    unfold bigEndian at hvalue
    rw [hvalue]
    rfl

theorem bufferPopData_putData (data rest : ConstDataBuffer) {b : β}
    (hb : forge.Unread b (putData data ++ rest)) :
    ∃ b', bufferPopData forge b = .ok data b' ∧ forge.Unread b' rest := by
  have hsize := h.size _ _ hb
  rw [putData, List.length_append, List.length_append] at hsize
  have hn : (UInt64.ofNat data.length).toNat = data.length := UInt64.toNat_ofNat_of_lt' (by change _ < 2 ^ 64; omega)
  rw [putData, List.append_assoc] at hb
  obtain ⟨b₁, hlen, hb₁⟩ := bufferReadNumber_writeNumber h _ _ hb
  obtain ⟨b', hdata, hb'⟩ := getBytes_append h hb₁
  refine ⟨b', ?_, hb'⟩
  rw [(jsNumber_eq_iff _).mpr (by omega), hn] at hlen
  rw [bufferPopData, bind_of_ok hlen, hdata]

/-- A text comes out, or the bytes are no text. -/
theorem bufferGetString_putString (data rest : ConstDataBuffer) {b : β}
    (hb : forge.Unread b (putString data ++ rest)) :
    (∃ b' text, bufferGetString forge b = .ok text b' ∧ forge.decodeUtf8 data = some text ∧
      forge.Unread b' rest) ∨ ∃ b', bufferGetString forge b = .error .uriError b' := by
  obtain ⟨b', hdata, hb'⟩ := bufferPopData_putData h data rest hb
  rw [bufferGetString, bind_of_ok hdata]
  cases htext : forge.decodeUtf8 data with
  | some text => exact .inl ⟨b', text, rfl, rfl, hb'⟩
  | none => exact .inr ⟨b', rfl⟩

theorem bufferGetString_utf8 (text : String) (rest : ConstDataBuffer) {b : β}
    (hb : forge.Unread b (putString (utf8 text) ++ rest)) :
    ∃ b', bufferGetString forge b = .ok text b' ∧ forge.Unread b' rest := by
  obtain ⟨b', hdata, hb'⟩ := bufferPopData_putData h (utf8 text) rest hb
  refine ⟨b', ?_, hb'⟩
  rw [bufferGetString, bind_of_ok hdata, h.decodeUtf8]
  rfl

/-! ### Sequences of items -/

/-- Every item is taken as a whole, and only a number can come out changed. -/
theorem read_write (item : Item) (rest : ConstDataBuffer) {b : β}
    (hb : forge.Unread b (item.write ++ rest)) :
    ∃ b' value, item.read forge b = .ok value b' ∧ forge.Unread b' rest ∧
      (value = item.value ↔ item.Fits) := by
  cases item with
  | number value =>
    obtain ⟨b', hread, hb'⟩ := bufferReadNumber_writeNumber h value rest hb
    refine ⟨b', .number (jsNumber value), ?_, hb', ?_⟩
    · rw [Item.read, bind_of_ok hread]
      rfl
    · rw [Item.Fits, ← jsNumber_eq_iff]
      exact ⟨Value.number.inj, congrArg Value.number⟩
  | data data =>
    obtain ⟨b', hread, hb'⟩ := bufferPopData_putData h data rest hb
    refine ⟨b', .data data, ?_, hb', iff_of_true rfl trivial⟩
    rw [Item.read, bind_of_ok hread]
    rfl
  | string text =>
    obtain ⟨b', hread, hb'⟩ := bufferGetString_utf8 h text rest hb
    refine ⟨b', .string text, ?_, hb', iff_of_true rfl trivial⟩
    rw [Item.read, bind_of_ok hread]
    rfl

theorem readAll_write (items : List Item) (rest : ConstDataBuffer) {b : β}
    (hb : forge.Unread b (items.flatMap Item.write ++ rest)) :
    ∃ b' values, readAll forge items b = .ok values b' ∧ forge.Unread b' rest ∧
      (values = items.map Item.value ↔ ∀ item ∈ items, item.Fits) := by
  induction items generalizing b with
  | nil => exact ⟨b, [], rfl, hb, iff_of_true rfl (fun _ hi => absurd hi List.not_mem_nil)⟩
  | cons item items ih =>
    rw [List.flatMap_cons, List.append_assoc] at hb
    obtain ⟨b₁, value, hvalue, hb₁, hfits⟩ := read_write h item _ hb
    obtain ⟨b', values, hvalues, hb', hall⟩ := ih hb₁
    refine ⟨b', value :: values, ?_, hb', ?_⟩
    · rw [readAll, bind_of_ok hvalue, bind_of_ok hvalues]
      rfl
    · rw [List.map_cons, List.cons.injEq, hfits, hall, List.forall_mem_cons]

theorem readsBack_iff (items : List Item) {b : β} (hb : forge.Unread b (items.flatMap Item.write)) :
    ReadsBack forge items b ↔ ∀ item ∈ items, item.Fits := by
  rw [← List.append_nil (items.flatMap Item.write)] at hb
  obtain ⟨b', values, hread, -, hfits⟩ := readAll_write h items [] hb
  rw [← hfits]
  constructor
  · rintro ⟨b'', hback⟩
    cases hread.symm.trans hback
    rfl
  · rintro rfl
    exact ⟨b', hread⟩

/-! ### The message -/

/-- The client reads the first seven of the eight fields, the first one as an id. -/
theorem decryptChannelCreate_throws {channelId channelType name readPublicKey readPrivateKey
    writePublicKey writePrivateKey left : ConstDataBuffer} {b : β}
    (hb : forge.Unread b (putString channelId ++ (putString channelType ++ (putString name ++
      (putData readPublicKey ++ (putData readPrivateKey ++ (putData writePublicKey ++
        (putData writePrivateKey ++ left)))))))) (hleft : left ≠ []) :
    ∃ e b', decryptChannelCreate forge b = .error e b' := by
  unfold decryptChannelCreate
  obtain ⟨b₁, h₁, hb₁⟩ := bufferPopData_putData h _ _ hb
  rw [bind_of_ok h₁]
  obtain ⟨b₂, text, h₂, -, hb₂⟩ | ⟨b₂, h₂⟩ := bufferGetString_putString h _ _ hb₁
  · rw [bind_of_ok h₂]
    obtain ⟨b₃, text', h₃, -, hb₃⟩ | ⟨b₃, h₃⟩ := bufferGetString_putString h _ _ hb₂
    · obtain ⟨b₄, h₄, hb₄⟩ := bufferPopData_putData h _ _ hb₃
      obtain ⟨b₅, h₅, hb₅⟩ := bufferPopData_putData h _ _ hb₄
      obtain ⟨b₆, h₆, hb₆⟩ := bufferPopData_putData h _ _ hb₅
      obtain ⟨b₇, h₇, hb₇⟩ := bufferPopData_putData h _ _ hb₆
      rw [bind_of_ok h₃, bind_of_ok h₄, bind_of_ok h₅, bind_of_ok h₆, bind_of_ok h₇]
      have hlen : forge.length b₇ ≠ 0 := by
        rw [h.length _ _ hb₇]
        exact fun he => hleft (List.length_eq_zero_iff.mp (Int.ofNat.inj he))
      refine ⟨.thrown "Invalid message", b₇, ?_⟩
      rw [bind_of_ok (show (get : Reader β β) b₇ = .ok b₇ b₇ from rfl), if_pos hlen]
      rfl
    · exact ⟨_, _, bind_of_error h₃⟩
  · exact ⟨_, _, bind_of_error h₂⟩

theorem decrypt_throws (keys : KeyReaders) (message : ChannelCreateTransaction)
    {bytes : ConstDataBuffer} (hput : (ChannelCreateTransaction.visit keys).put message = .ok bytes)
    {b : β} (hb : forge.Unread b (ChannelMessageKind.channelCreate.messageId :: bytes)) :
    ∃ e b', decrypt forge b = .error e b' := by
  obtain ⟨b₁, hid, hb₁⟩ := getByte_cons h hb
  obtain rfl : putString message.channelType ++ (putString message.name ++
      (putData message.readPublicKey.der ++ (putData message.readPrivateKey.der ++
        (putData message.writePublicKey.der ++ (putData message.writePrivateKey.der ++
          (putData message.adminPublicKey.der ++ putData message.adminPrivateKey.der)))))) =
      bytes := Except.ok.inj hput
  have hn : some ChannelMessageKind.channelCreate.messageId = some 110 := rfl
  rw [decrypt, bind_of_ok hid, if_pos hn]
  refine decryptChannelCreate_throws h hb₁ ?_
  rw [putData]
  exact fun he => writeNumber_ne_nil _ (List.append_eq_nil_iff.mp he).1

end Lawful

/-- The client reads a sequence of items as it was written if and only if the numbers in it fit;
what was written of a channel it throws away. -/
theorem reads_iff_and_throws {forge : Forge β} (h : forge.Lawful) (keys : KeyReaders)
    (items : List Item) {itemsBuffer : β}
    (hitems : forge.Unread itemsBuffer (items.flatMap Item.write))
    (message : ChannelCreateTransaction) {bytes : ConstDataBuffer}
    (hput : (ChannelCreateTransaction.visit keys).put message = .ok bytes) {messageBuffer : β}
    (hmessage : forge.Unread messageBuffer (ChannelMessageKind.channelCreate.messageId :: bytes)) :
    (ReadsBack forge items itemsBuffer ↔ ∀ item ∈ items, item.Fits) ∧
      ¬Decrypts forge message messageBuffer := by
  refine ⟨readsBack_iff h items hitems, ?_⟩
  rintro ⟨b', found, hfound, -⟩
  obtain ⟨e, b'', hthrow⟩ := decrypt_throws h keys message hput hmessage
  cases hfound.symm.trans hthrow

/-! ### A client -/

/-- A library over plain lists of bytes. -/
def plainForge : Forge ConstDataBuffer where
  Unread b data := b = data ∧ data.length < 2 ^ 31
  getByte b := (b.head?, b.tail)
  getBytes b count := (b.take count.toNat, b.drop count.toNat)
  length b := b.length
  decodeUtf8 data := data.toByteArray.utf8Decode?.map fun chars => String.ofList chars.toList
  encode64 _ := ""

theorem plainForge_lawful : plainForge.Lawful where
  getByte := by
    rintro b x rest ⟨rfl, hsize⟩
    rw [List.length_cons] at hsize
    exact ⟨rfl, rfl, by omega⟩
  getBytes := by
    rintro b data rest ⟨rfl, hsize⟩
    rw [List.length_append] at hsize
    refine ⟨List.take_left, List.drop_left, by omega⟩
  length := by
    rintro b data ⟨rfl, -⟩
    rfl
  decodeUtf8 := by
    intro text
    have hdecode := List.utf8Decode?_utf8Encode (l := text.toList)
    change Option.map _ text.toList.utf8Encode.utf8Decode? = _
    rw [hdecode]
    exact congrArg some String.ofList_toList
  size := by
    rintro b data ⟨rfl, hsize⟩
    exact hsize

def sampleKeys : KeyReaders where
  parsePublicDer _ := .error (.runtimeError "")
  parsePrivateDer _ := .error (.runtimeError "")

def sampleChannel : ChannelCreateTransaction where
  channelType := utf8 "file"
  name := utf8 "news"
  readPublicKey := ⟨[1]⟩
  readPrivateKey := ⟨[2]⟩
  writePublicKey := ⟨[3]⟩
  writePrivateKey := ⟨[4]⟩
  adminPublicKey := ⟨[5]⟩
  adminPrivateKey := ⟨[6]⟩

def sampleBytes : ConstDataBuffer :=
  [4, 0x66, 0x69, 0x6C, 0x65, 4, 0x6E, 0x65, 0x77, 0x73, 1, 1, 1, 2, 1, 3, 1, 4, 1, 5, 1, 6]

theorem reads_iff_and_throws_plain :
    (ReadsBack plainForge [.number 7] [7] ↔ ∀ item ∈ [Item.number 7], item.Fits) ∧
      ¬Decrypts plainForge sampleChannel (110 :: sampleBytes) :=
  reads_iff_and_throws plainForge_lawful sampleKeys [.number 7] ⟨rfl, by decide⟩ sampleChannel rfl
    ⟨rfl, by decide⟩

/-- The channel `news` is lost, and so is the number 2^31 + 128. -/
theorem not_agrees_channelCreate :
    ¬Decrypts plainForge sampleChannel (ChannelMessageKind.channelCreate.messageId :: sampleBytes) ∧
      ¬ReadsBack plainForge [.number 0x80000080] (writeNumber 0x80000080) := by
  constructor
  · rintro ⟨b', found, hfound, -⟩
    have hput : (ChannelCreateTransaction.visit sampleKeys).put sampleChannel = .ok sampleBytes := rfl
    obtain ⟨e, b'', hthrow⟩ :=
      decrypt_throws plainForge_lawful sampleKeys sampleChannel hput ⟨rfl, by decide⟩
    cases hfound.symm.trans hthrow
  · rintro ⟨b', hread⟩
    cases hread

end Vds.Web
