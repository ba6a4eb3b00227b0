import Vds.Transactions.Visits

/-! The messages of a block, as `transaction_block_builder` writes them one behind the other and
`transaction_messages_walker` takes them. -/

namespace Vds.Transactions

open BinarySerializer BinaryDeserializer Serializable StateError

/-! ### The messages as their fields -/

/-- The readers of keys, of which the transactions use the one of public keys. -/
def keyReaders (crypto : Crypto) : KeyReaders where
  parsePublicDer := crypto.parseDer
  parsePrivateDer _ := .error (.runtimeError "Invalid data")

theorem getPayment_eq : getPayment = PaymentTransaction.visit.get := by
  simp only [getPayment, PaymentTransaction.visit, Serializable.as, both, plain, buffer, string,
    uint64, map_eq_pure_bind, bind_assoc,
    pure_bind]

theorem getChannelMessage_eq : getChannelMessage = ChannelMessage.visit.get := by
  simp only [getChannelMessage, ChannelMessage.visit, Serializable.as, both, plain, buffer,
    map_eq_pure_bind, bind_assoc,
    pure_bind]

theorem getCreateWallet_eq : getCreateWallet = CreateWalletTransaction.visit.get := by
  simp only [getCreateWallet, CreateWalletTransaction.visit, Serializable.as, both, plain, buffer,
    map_eq_pure_bind, bind_assoc,
    pure_bind]

theorem getAssetIssue_eq : getAssetIssue = AssetIssueTransaction.visit.get := by
  simp only [getAssetIssue, AssetIssueTransaction.visit, Serializable.as, both, plain, buffer, string,
    uint64, map_eq_pure_bind, bind_assoc,
    pure_bind]

theorem getStoreBlock_eq : getStoreBlock = StoreBlockTransaction.visit.get := by
  simp only [getStoreBlock, StoreBlockTransaction.visit, Serializable.as, both, plain, buffer, list,
    uint64, uint32, map_eq_pure_bind, bind_assoc,
    pure_bind]

theorem getHostBlock_eq : getHostBlock = HostBlockTransaction.visit.get := by
  simp only [getHostBlock, HostBlockTransaction.visit, Serializable.as, both, plain, buffer,
    map_eq_pure_bind, bind_assoc,
    pure_bind]

variable (crypto : Crypto)

theorem getPublicKey_eq : getPublicKey crypto = (publicKey (keyReaders crypto)).get := by
  change (getData >>= _) = (getData >>= _)
  refine congrArg (getData >>= ·) (funext fun keyData => ?_)
  cases h : crypto.parseDer keyData with
  | ok key => simp only [keyReaders, h]
  | error e => simp only [keyReaders, h]

theorem getCreateUser_eq :
    getCreateUser crypto = (CreateUserTransaction.visit (keyReaders crypto)).get := by
  simp only [getCreateUser, CreateUserTransaction.visit, Serializable.as, both, plain, buffer,
    string, getPublicKey_eq, map_eq_pure_bind, bind_assoc, pure_bind]

theorem getNodeAdd_eq :
    getNodeAdd crypto = (NodeAddTransaction.visit (keyReaders crypto)).get := by
  simp only [getNodeAdd, NodeAddTransaction.visit, Serializable.as, getPublicKey_eq,
    map_eq_pure_bind]

/-- The message is one that the types can hold. -/
def Message.holds : Message → Prop
  | .payment m => PaymentTransaction.visit.holds m
  | .channelMessage m => ChannelMessage.visit.holds m
  | .createUser m => (CreateUserTransaction.visit (keyReaders crypto)).holds m
  | .nodeAdd m => (NodeAddTransaction.visit (keyReaders crypto)).holds m
  | .createWallet m => CreateWalletTransaction.visit.holds m
  | .assetIssue m => AssetIssueTransaction.visit.holds m
  | .storeBlock m => StoreBlockTransaction.visit.holds m
  | .hostBlock m => HostBlockTransaction.visit.holds m

/-- The bytes are the id of the message and a form of its fields. -/
def Message.form (d : ConstDataBuffer) : Message → Prop
  | .payment m => ∃ fields, d = 0x70 :: fields ∧ PaymentTransaction.visit.form fields m
  | .channelMessage m => ∃ fields, d = 0x63 :: fields ∧ ChannelMessage.visit.form fields m
  | .createUser m =>
    ∃ fields, d = 0x75 :: fields ∧ (CreateUserTransaction.visit (keyReaders crypto)).form fields m
  | .nodeAdd m =>
    ∃ fields, d = 0x6d :: fields ∧ (NodeAddTransaction.visit (keyReaders crypto)).form fields m
  | .createWallet m =>
    ∃ fields, d = 0x77 :: fields ∧ CreateWalletTransaction.visit.form fields m
  | .assetIssue m => ∃ fields, d = 0x69 :: fields ∧ AssetIssueTransaction.visit.form fields m
  | .storeBlock m => ∃ fields, d = 0x73 :: fields ∧ StoreBlockTransaction.visit.form fields m
  | .hostBlock m => ∃ fields, d = 0x68 :: fields ∧ HostBlockTransaction.visit.form fields m

theorem PaymentTransaction.visit_takes : PaymentTransaction.visit.Takes := by
  refine Takes.as ?_ _ _
  exact buffer_takes.both <| string_takes.both <| buffer_takes.both <| buffer_takes.both <|
    buffer_takes.both <| uint64_takes.both <| string_takes.both <| string_takes.both buffer_takes

theorem ChannelMessage.visit_takes : ChannelMessage.visit.Takes := by
  refine Takes.as ?_ _ _
  exact buffer_takes.both <| buffer_takes.both <| buffer_takes.both <| buffer_takes.both <|
    buffer_takes.both buffer_takes

theorem CreateUserTransaction.visit_takes (keys : KeyReaders) :
    (CreateUserTransaction.visit keys).Takes := by
  refine Takes.as ?_ _ _
  exact string_takes.both <| (key_takes _ _).both <| buffer_takes.both string_takes

theorem NodeAddTransaction.visit_takes (keys : KeyReaders) :
    (NodeAddTransaction.visit keys).Takes := by
  refine Takes.as ?_ _ _
  exact key_takes _ _

theorem CreateWalletTransaction.visit_takes : CreateWalletTransaction.visit.Takes := by
  refine Takes.as ?_ _ _
  exact buffer_takes.both buffer_takes

theorem AssetIssueTransaction.visit_takes : AssetIssueTransaction.visit.Takes := by
  refine Takes.as ?_ _ _
  exact buffer_takes.both <| buffer_takes.both <| string_takes.both <|
    uint64_takes.both buffer_takes

theorem StoreBlockTransaction.visit_takes : StoreBlockTransaction.visit.Takes := by
  refine Takes.as ?_ _ _
  exact buffer_takes.both <| buffer_takes.both <| uint64_takes.both <| uint32_takes.both <|
    buffer_takes.list.both buffer_takes

theorem HostBlockTransaction.visit_takes : HostBlockTransaction.visit.Takes := by
  refine Takes.as ?_ _ _
  exact buffer_takes.both buffer_takes

/-! ### One message -/

/-- The reader of the fields behind a message id. -/
def getFields (id : UInt8) : BinaryDeserializer Message :=
  match id.toNat with
  | 0x70 => .payment <$> PaymentTransaction.visit.get
  | 0x75 => .createUser <$> (CreateUserTransaction.visit (keyReaders crypto)).get
  | 0x63 => .channelMessage <$> ChannelMessage.visit.get
  | 0x6d => .nodeAdd <$> (NodeAddTransaction.visit (keyReaders crypto)).get
  | 0x77 => .createWallet <$> CreateWalletTransaction.visit.get
  | 0x69 => .assetIssue <$> AssetIssueTransaction.visit.get
  | 0x73 => .storeBlock <$> StoreBlockTransaction.visit.get
  | 0x68 => .hostBlock <$> HostBlockTransaction.visit.get
  | id => throw (.runtimeError ("Invalid message " ++ toString id))

theorem getMessage_cons (id : UInt8) (d : ConstDataBuffer) :
    getMessage crypto (id :: d) = getFields crypto id d := by
  have hid : getUInt8 (id :: d) = .ok id d := getUInt8_eq_ok.mpr rfl
  unfold getMessage
  rw [bind_of_ok hid, getPayment_eq, getCreateUser_eq, getChannelMessage_eq, getNodeAdd_eq,
    getCreateWallet_eq, getAssetIssue_eq, getStoreBlock_eq, getHostBlock_eq]
  rfl

/-- The fields of one kind behind its id. -/
theorem map_takes {α : Type} {c : Serializable α} (h : c.Takes) (make : α → Message)
    (d rest : ConstDataBuffer) (m : Message) :
    (make <$> c.get) d = .ok m rest ↔
      ∃ used x, d = used ++ rest ∧ c.form used x ∧ m = make x := by
  refine map_eq_ok.trans ?_
  constructor
  · rintro ⟨x, hx, rfl⟩
    obtain ⟨used, rfl, hform⟩ := (h _ _ _).mp hx
    exact ⟨used, x, rfl, hform, rfl⟩
  · rintro ⟨used, x, rfl, hform, rfl⟩
    exact ⟨x, (h _ _ _).mpr ⟨used, rfl, hform⟩, rfl⟩

/-- The reader takes a message in one of its forms from the front, and nothing else. -/
theorem getMessage_eq_ok {d rest : ConstDataBuffer} {m : Message} :
    getMessage crypto d = .ok m rest ↔ ∃ used, d = used ++ rest ∧ m.form crypto used := by
  constructor
  · intro h
    match d with
    | [] => cases h
    | id :: d =>
      rw [getMessage_cons] at h
      generalize hread : getFields crypto id = read at h
      unfold getFields at hread
      split at hread
      next hid =>
        subst hread
        obtain ⟨used, x, rfl, hform, rfl⟩ := (map_takes PaymentTransaction.visit_takes _ _ _ _).mp h
        exact ⟨id :: used, rfl, used, congrArg (· :: used) (UInt8.toNat_inj.mp hid), hform⟩
      next hid =>
        subst hread
        obtain ⟨used, x, rfl, hform, rfl⟩ := (map_takes (CreateUserTransaction.visit_takes (keyReaders crypto)) _ _ _ _).mp h
        exact ⟨id :: used, rfl, used, congrArg (· :: used) (UInt8.toNat_inj.mp hid), hform⟩
      next hid =>
        subst hread
        obtain ⟨used, x, rfl, hform, rfl⟩ := (map_takes ChannelMessage.visit_takes _ _ _ _).mp h
        exact ⟨id :: used, rfl, used, congrArg (· :: used) (UInt8.toNat_inj.mp hid), hform⟩
      next hid =>
        subst hread
        obtain ⟨used, x, rfl, hform, rfl⟩ := (map_takes (NodeAddTransaction.visit_takes (keyReaders crypto)) _ _ _ _).mp h
        exact ⟨id :: used, rfl, used, congrArg (· :: used) (UInt8.toNat_inj.mp hid), hform⟩
      next hid =>
        subst hread
        obtain ⟨used, x, rfl, hform, rfl⟩ := (map_takes CreateWalletTransaction.visit_takes _ _ _ _).mp h
        exact ⟨id :: used, rfl, used, congrArg (· :: used) (UInt8.toNat_inj.mp hid), hform⟩
      next hid =>
        subst hread
        obtain ⟨used, x, rfl, hform, rfl⟩ := (map_takes AssetIssueTransaction.visit_takes _ _ _ _).mp h
        exact ⟨id :: used, rfl, used, congrArg (· :: used) (UInt8.toNat_inj.mp hid), hform⟩
      next hid =>
        subst hread
        obtain ⟨used, x, rfl, hform, rfl⟩ := (map_takes StoreBlockTransaction.visit_takes _ _ _ _).mp h
        exact ⟨id :: used, rfl, used, congrArg (· :: used) (UInt8.toNat_inj.mp hid), hform⟩
      next hid =>
        subst hread
        obtain ⟨used, x, rfl, hform, rfl⟩ := (map_takes HostBlockTransaction.visit_takes _ _ _ _).mp h
        exact ⟨id :: used, rfl, used, congrArg (· :: used) (UInt8.toNat_inj.mp hid), hform⟩
      next =>
        subst hread
        cases h
  · rintro ⟨used, rfl, hform⟩
    cases m with
    | payment m =>
      obtain ⟨fields, rfl, hfields⟩ := hform
      rw [List.cons_append, getMessage_cons]
      exact (map_takes PaymentTransaction.visit_takes _ _ _ _).mpr ⟨fields, m, rfl, hfields, rfl⟩
    | createUser m =>
      obtain ⟨fields, rfl, hfields⟩ := hform
      rw [List.cons_append, getMessage_cons]
      exact (map_takes (CreateUserTransaction.visit_takes (keyReaders crypto)) _ _ _ _).mpr ⟨fields, m, rfl, hfields, rfl⟩
    | channelMessage m =>
      obtain ⟨fields, rfl, hfields⟩ := hform
      rw [List.cons_append, getMessage_cons]
      exact (map_takes ChannelMessage.visit_takes _ _ _ _).mpr ⟨fields, m, rfl, hfields, rfl⟩
    | nodeAdd m =>
      obtain ⟨fields, rfl, hfields⟩ := hform
      rw [List.cons_append, getMessage_cons]
      exact (map_takes (NodeAddTransaction.visit_takes (keyReaders crypto)) _ _ _ _).mpr ⟨fields, m, rfl, hfields, rfl⟩
    | createWallet m =>
      obtain ⟨fields, rfl, hfields⟩ := hform
      rw [List.cons_append, getMessage_cons]
      exact (map_takes CreateWalletTransaction.visit_takes _ _ _ _).mpr ⟨fields, m, rfl, hfields, rfl⟩
    | assetIssue m =>
      obtain ⟨fields, rfl, hfields⟩ := hform
      rw [List.cons_append, getMessage_cons]
      exact (map_takes AssetIssueTransaction.visit_takes _ _ _ _).mpr ⟨fields, m, rfl, hfields, rfl⟩
    | storeBlock m =>
      obtain ⟨fields, rfl, hfields⟩ := hform
      rw [List.cons_append, getMessage_cons]
      exact (map_takes StoreBlockTransaction.visit_takes _ _ _ _).mpr ⟨fields, m, rfl, hfields, rfl⟩
    | hostBlock m =>
      obtain ⟨fields, rfl, hfields⟩ := hform
      rw [List.cons_append, getMessage_cons]
      exact (map_takes HostBlockTransaction.visit_takes _ _ _ _).mpr ⟨fields, m, rfl, hfields, rfl⟩

/-- `message_id`. -/
def Message.messageId : Message → UInt8
  | .payment _ => 0x70
  | .channelMessage _ => 0x63
  | .createUser _ => 0x75
  | .nodeAdd _ => 0x6d
  | .createWallet _ => 0x77
  | .assetIssue _ => 0x69
  | .storeBlock _ => 0x73
  | .hostBlock _ => 0x68

/-- The bytes of the fields, as the visitor of the serializer writes them. -/
def Message.putFields : Message → Expected ConstDataBuffer
  | .payment m => PaymentTransaction.visit.put m
  | .channelMessage m => ChannelMessage.visit.put m
  | .createUser m => (CreateUserTransaction.visit (keyReaders crypto)).put m
  | .nodeAdd m => (NodeAddTransaction.visit (keyReaders crypto)).put m
  | .createWallet m => CreateWalletTransaction.visit.put m
  | .assetIssue m => AssetIssueTransaction.visit.put m
  | .storeBlock m => StoreBlockTransaction.visit.put m
  | .hostBlock m => HostBlockTransaction.visit.put m

theorem putMany_ok {α : Type} (put : α → ConstDataBuffer) (xs : List α) :
    putMany (fun x => .ok (put x)) xs = .ok (xs.flatMap put) := by
  induction xs with
  | nil => rfl
  | cons x xs ih =>
    rw [putMany, ih]
    rfl

/-- What the builder writes is the id and the fields. -/
theorem Message.serialize_eq (m : Message) :
    ∃ fields, m.putFields crypto = .ok fields ∧ m.serialize = m.messageId :: fields := by
  cases m with
  | storeBlock m =>
    refine ⟨putData m.ownerId ++ (putData m.objectId ++ (putUInt64 m.objectSize ++
      (putUInt32 m.replicaSize ++ (putAll putData m.replicas ++ putData m.ownerSig)))), ?_, ?_⟩
    · have hlist : buffer.list.put m.replicas = .ok (putAll putData m.replicas) := by
        change putCounted (fun x => .ok (putData x)) m.replicas = _
        rw [putCounted, putMany_ok]
        rfl
      simp only [putFields, StoreBlockTransaction.visit, Serializable.as, both, hlist]
      rfl
    · simp [serialize, putUInt8, messageId]
  | _ =>
    refine ⟨_, rfl, ?_⟩
    simp [serialize, putUInt8, messageId]

theorem form_of_put {α : Type} {c : Serializable α} (hlaw : c.Law) (htakes : c.Takes) {x : α}
    (hx : c.holds x) (hread : c.readable x) {bytes : ConstDataBuffer} (h : c.put x = .ok bytes) :
    c.form bytes x := by
  obtain ⟨bytes', hput, hget⟩ := (hlaw.roundTrips_iff hx).2 hread
  cases h.symm.trans hput
  obtain ⟨used, hused, hform⟩ := (htakes _ _ _).mp (hget [])
  rw [List.append_cancel_right hused]
  exact hform

theorem Message.form_serialize {m : Message} (h : m.holds crypto) :
    m.form crypto m.serialize := by
  obtain ⟨fields, hput, hbytes⟩ := m.serialize_eq crypto
  rw [hbytes]
  cases m with
  | payment m =>
    refine ⟨fields, rfl, form_of_put PaymentTransaction.visit_law
      PaymentTransaction.visit_takes h ?_ hput⟩
    exact ⟨trivial, trivial, trivial, trivial, trivial, trivial, trivial, trivial, trivial⟩
  | channelMessage m =>
    refine ⟨fields, rfl, form_of_put ChannelMessage.visit_law
      ChannelMessage.visit_takes h ?_ hput⟩
    exact ⟨trivial, trivial, trivial, trivial, trivial, trivial⟩
  | createUser m =>
    refine ⟨fields, rfl, form_of_put (CreateUserTransaction.visit_law (keyReaders crypto))
      (CreateUserTransaction.visit_takes (keyReaders crypto)) h ?_ hput⟩
    exact ⟨trivial, trivial, trivial, trivial⟩
  | nodeAdd m =>
    refine ⟨fields, rfl, form_of_put (NodeAddTransaction.visit_law (keyReaders crypto))
      (NodeAddTransaction.visit_takes (keyReaders crypto)) h ?_ hput⟩
    exact trivial
  | createWallet m =>
    refine ⟨fields, rfl, form_of_put CreateWalletTransaction.visit_law
      CreateWalletTransaction.visit_takes h ?_ hput⟩
    exact ⟨trivial, trivial⟩
  | assetIssue m =>
    refine ⟨fields, rfl, form_of_put AssetIssueTransaction.visit_law
      AssetIssueTransaction.visit_takes h ?_ hput⟩
    exact ⟨trivial, trivial, trivial, trivial, trivial⟩
  | storeBlock m =>
    refine ⟨fields, rfl, form_of_put StoreBlockTransaction.visit_law
      StoreBlockTransaction.visit_takes h ?_ hput⟩
    exact ⟨trivial, trivial, trivial, trivial, fun _ _ => trivial, trivial⟩
  | hostBlock m =>
    refine ⟨fields, rfl, form_of_put HostBlockTransaction.visit_law
      HostBlockTransaction.visit_takes h ?_ hput⟩
    exact ⟨trivial, trivial⟩

/-! ### The messages of a block -/

/-- `transaction_block_builder`: the messages that have been added, in their order. -/
def buildMessages (messages : List Message) : ConstDataBuffer :=
  messages.foldl (fun data message => data ++ message.serialize) []

theorem buildMessages_eq (messages : List Message) :
    buildMessages messages = messages.flatMap Message.serialize := by
  have hfold : ∀ data : ConstDataBuffer, messages.foldl
      (fun data message => data ++ message.serialize) data =
        data ++ messages.flatMap Message.serialize := by
    induction messages with
    | nil => exact fun data => (List.append_nil data).symm
    | cons m messages ih =>
      intro data
      rw [List.foldl_cons, ih, List.flatMap_cons, List.append_assoc]
  exact hfold []

/-- The bytes are forms of these messages, one behind the other. -/
abbrev Concatenation (data : ConstDataBuffer) (messages : List Message) : Prop :=
  ManyForm (fun d m => m.form crypto d) data messages

theorem concatenation_build {messages : List Message} (h : ∀ m ∈ messages, m.holds crypto) :
    Concatenation crypto (buildMessages messages) messages := by
  rw [buildMessages_eq]
  induction messages with
  | nil => exact ManyForm.nil
  | cons m messages ih =>
    rw [List.flatMap_cons]
    exact ManyForm.cons (Message.form_serialize crypto (h m List.mem_cons_self))
      (ih fun m' hm' => h m' (List.mem_cons_of_mem m hm'))

theorem Message.form_ne_nil {m : Message} {d : ConstDataBuffer} (h : m.form crypto d) :
    d ≠ [] := by
  cases m <;> obtain ⟨fields, rfl, -⟩ := h <;> exact List.cons_ne_nil _ _

section Walk

variable {σ : Type} (visit : Message → EStateM Error σ Bool)

/-- The walk over forms of messages visits these messages. -/
theorem walk_concatenation {data : ConstDataBuffer} {messages : List Message} {n : ℕ} (s : σ)
    (h : Concatenation crypto data messages) (hn : data.length ≤ n) :
    walk crypto visit n data s = visitAll visit messages s := by
  induction h generalizing n s with
  | nil =>
    cases n <;> rfl
  | @cons d rest m messages hform _ ih =>
    obtain ⟨b, d', rfl⟩ := List.exists_cons_of_ne_nil (Message.form_ne_nil crypto hform)
    have hmessage : getMessage crypto ((b :: d') ++ rest) = .ok m rest :=
      (getMessage_eq_ok crypto).mpr ⟨b :: d', rfl, hform⟩
    rw [List.length_append, List.length_cons] at hn
    match n with
    | 0 => omega
    | n + 1 =>
      have hrest : rest.length ≤ n := by omega
      rw [List.cons_append] at hmessage ⊢
      have hstep : walk crypto visit (n + 1) (b :: (d' ++ rest)) s = (visit m >>= fun go =>
          if go then walk crypto visit n rest else pure false) s := by
        rw [walk]
        · cases hm : getMessage crypto (b :: (d' ++ rest)) with
          | error e s' => cases hm.symm.trans hmessage
          | ok m' rest' =>
            cases hm.symm.trans hmessage
            rfl
        · exact List.cons_ne_nil _ _
      rw [hstep, visitAll]
      cases hv : visit m s with
      | error e s' => rw [bind_of_error hv, bind_of_error hv]
      | ok go s' =>
        rw [bind_of_ok hv, bind_of_ok hv]
        cases go with
        | true => exact ih s' hrest
        | false => rfl

/-- A walk whose handlers go on ends with an error, unless the bytes are forms of messages. -/
theorem walk_error (hgo : ∀ m s, ∃ s', visit m s = .ok true s') {n : ℕ} {data : ConstDataBuffer}
    (s : σ) (hn : data.length ≤ n) (h : ∀ messages, ¬Concatenation crypto data messages) :
    ∃ e s', walk crypto visit n data s = .error e s' := by
  induction n generalizing data s with
  | zero =>
    obtain rfl := List.eq_nil_of_length_eq_zero (Nat.le_zero.mp hn)
    exact absurd ManyForm.nil (h [])
  | succ n ih =>
    match data with
    | [] => exact absurd ManyForm.nil (h [])
    | b :: data =>
      unfold walk
      cases hm : getMessage crypto (b :: data) with
      | error e rest => exact ⟨e, s, rfl⟩
      | ok m rest =>
        obtain ⟨used, hused, hform⟩ := (getMessage_eq_ok crypto).mp hm
        have hlen := congrArg List.length hused
        have hpos := List.length_pos_of_ne_nil (Message.form_ne_nil crypto hform)
        rw [List.length_append] at hlen
        obtain ⟨s', hv⟩ := hgo m s
        have hrest : ∀ messages, ¬Concatenation crypto rest messages := fun messages hc =>
          h (m :: messages) (hused ▸ ManyForm.cons hform hc)
        obtain ⟨e, s'', he⟩ := ih s' (by omega) hrest
        exact ⟨e, s'', (bind_of_ok hv).trans he⟩

end Walk

/-- The first message of the bytes is determined, and so is what follows it. -/
theorem concatenation_append {used rest : ConstDataBuffer} {m : Message}
    (hform : m.form crypto used) {messages : List Message}
    (h : Concatenation crypto (used ++ rest) messages) :
    ∃ messages', messages = m :: messages' ∧ Concatenation crypto rest messages' := by
  have hm : getMessage crypto (used ++ rest) = .ok m rest :=
    (getMessage_eq_ok crypto).mpr ⟨used, rfl, hform⟩
  generalize hdata : used ++ rest = data at h hm
  cases h with
  | nil => exact absurd (List.append_eq_nil_iff.mp hdata).1 (Message.form_ne_nil crypto hform)
  | @cons d rest' m' messages' hform' hrest =>
    have hm' : getMessage crypto (d ++ rest') = .ok m' rest' :=
      (getMessage_eq_ok crypto).mpr ⟨d, rfl, hform'⟩
    cases hm.symm.trans hm'
    exact ⟨messages', rfl, hrest⟩

/-- Behind whole messages there is nothing that is no message. -/
theorem not_concatenation_of_tail {messages : List Message} {tail : ConstDataBuffer}
    (h : ∀ m ∈ messages, m.holds crypto) (htail : tail ≠ [])
    (hmessage : ∀ m rest, getMessage crypto tail ≠ .ok m rest) (messages' : List Message) :
    ¬Concatenation crypto (buildMessages messages ++ tail) messages' := by
  rw [buildMessages_eq]
  induction messages generalizing messages' with
  | nil =>
    intro hc
    rw [List.flatMap_nil, List.nil_append] at hc
    cases hc with
    | nil => exact htail rfl
    | @cons d rest m messages' hform _ =>
      exact hmessage m rest ((getMessage_eq_ok crypto).mpr ⟨d, rfl, hform⟩)
  | cons m messages ih =>
    intro hc
    rw [List.flatMap_cons, List.append_assoc] at hc
    obtain ⟨messages'', rfl, hrest⟩ :=
      concatenation_append crypto (Message.form_serialize crypto (h m List.mem_cons_self)) hc
    exact ih (fun m' hm' => h m' (List.mem_cons_of_mem m hm')) messages'' hrest

theorem Message.form_head {m : Message} {d : ConstDataBuffer} (h : m.form crypto d) :
    ∃ fields, d = m.messageId :: fields := by
  cases m <;> obtain ⟨fields, rfl, -⟩ := h <;> exact ⟨fields, rfl⟩

/-- The bytes start with an id of no message. -/
def UnknownMessage (tail : ConstDataBuffer) : Prop :=
  ∃ id rest, tail = id :: rest ∧ ∀ m : Message, m.messageId ≠ id

/-- The bytes are a message of which the end is missing. -/
def CutMessage (tail : ConstDataBuffer) : Prop :=
  ∃ (m : Message) (missing : ConstDataBuffer), m.holds crypto ∧ tail ≠ [] ∧ missing ≠ [] ∧
    m.serialize = tail ++ missing

theorem UnknownMessage.refused {tail : ConstDataBuffer} (h : UnknownMessage tail) (m : Message)
    (rest : ConstDataBuffer) : getMessage crypto tail ≠ .ok m rest := by
  obtain ⟨id, data, rfl, hid⟩ := h
  intro hm
  obtain ⟨used, hused, hform⟩ := (getMessage_eq_ok crypto).mp hm
  obtain ⟨fields, rfl⟩ := Message.form_head crypto hform
  exact hid m (List.cons.inj hused).1.symm

theorem CutMessage.refused {tail : ConstDataBuffer} (h : CutMessage crypto tail) (m : Message)
    (rest : ConstDataBuffer) : getMessage crypto tail ≠ .ok m rest := by
  obtain ⟨m', missing, hholds, -, hmissing, hbytes⟩ := h
  intro hm
  obtain ⟨used, rfl, hform⟩ := (getMessage_eq_ok crypto).mp hm
  -- the whole message would end before its last byte
  have hlong : getMessage crypto (used ++ (rest ++ missing)) = .ok m (rest ++ missing) :=
    (getMessage_eq_ok crypto).mpr ⟨used, rfl, hform⟩
  have hwhole : getMessage crypto (m'.serialize ++ []) = .ok m' [] :=
    (getMessage_eq_ok crypto).mpr ⟨m'.serialize, rfl, Message.form_serialize crypto hholds⟩
  rw [List.append_nil, hbytes, List.append_assoc, hlong] at hwhole
  simp only [EStateM.Result.ok.injEq, List.append_eq_nil_iff] at hwhole
  exact hmissing hwhole.2.2

/-- A crypto library that takes every key. -/
def openCrypto : Crypto where
  sha256 _ := List.replicate 32 0
  sha256_size _ := rfl
  parseDer der := .ok ⟨der⟩
  fingerprint key := key.der
  verify _ _ _ := .ok true

/-- A handler that notes the messages. -/
def note (message : Message) : EStateM Error (List Message) Bool := do
  modify fun messages => messages ++ [message]
  return true

theorem getData_big {d : ConstDataBuffer} (h : maxData < d.length) (hsize : d.length < 2 ^ 64)
    (rest : ConstDataBuffer) :
    getData (putData d ++ rest) = .error (.runtimeError "very big object") (d ++ rest) := by
  have hn : (UInt64.ofNat d.length).toNat = d.length := UInt64.toNat_ofNat_of_lt' hsize
  have hbig : (1024 * 1024 * 1024 : UInt64) < UInt64.ofNat d.length := by
    rw [UInt64.lt_iff_toNat_lt, hn]
    exact h
  unfold getData putData
  rw [List.append_assoc, bind_of_ok (readNumber_writeNumber _ _), if_pos hbig]
  rfl

/-- A buffer of more than 2^30 bytes is written, and refused by the walker. -/
theorem process_bigOwner {crypto : Crypto} {σ : Type} {visit : Message → EStateM Error σ Bool}
    {s : σ} {d : ConstDataBuffer} (h : maxData < d.length) (hsize : d.length < 2 ^ 64) :
    process crypto visit (buildMessages [.hostBlock ⟨d, []⟩]) s =
      .error (.runtimeError "very big object") s := by
  have hdata : buildMessages [.hostBlock ⟨d, []⟩] = 0x68 :: (putData d ++ putData []) := by
    simp [buildMessages, Message.serialize, putUInt8]
  have hmessage : getMessage crypto (0x68 :: (putData d ++ putData [])) =
      .error (.runtimeError "very big object") (d ++ putData []) := by
    rw [getMessage_cons]
    change (Message.hostBlock <$> HostBlockTransaction.visit.get) _ = _
    rw [← getHostBlock_eq, map_eq_pure_bind]
    refine bind_of_error ?_
    unfold getHostBlock
    exact bind_of_error (getData_big h hsize _)
  rw [hdata, process, List.length_cons]
  unfold walk
  rw [hmessage]
  rfl

end Vds.Transactions
