import Vds.WsApi.ProcessMessage

/-! When `process_message` gives one reply that carries the id of the request, with one property of
result and error: a lemma for each operation and each request, then the law. -/

namespace Vds.WsApi

open Library.Fallible

/-! ### What a reply has to be -/

/-- One reply that carries the id and one property of the two names. -/
def Replies (id : Int) (r : Answered JsonValue) : Prop :=
  ∃ properties, r = .ok (.object properties) ∧
    (properties.filter fun property => property.1 = text "id").map Prod.snd =
      [stringValue (signedDecimal id)] ∧
    (properties.filter fun property =>
      property.1 = text "result" ∨ property.1 = text "error").length = 1

/-- Exactly one property is added, or there is an error to reply. -/
def Settled : Answered Properties → Prop
  | .ok added => added.length = 1
  | .error (.runtimeError _) => True
  | .error .undefined => False

/-- No element outside of an array is read, and every number fits. -/
def Defined {α : Type} (x : Answered α) : Prop := x ≠ .error .undefined

def Outcome (added : Properties) : Prop :=
  ∀ property ∈ added, property.1 = text "result" ∨ property.1 = text "error"

section

variable {α β : Type}

theorem defined_ok (a : α) : Defined (.ok a : Answered α) := by
  intro h
  cases h

theorem defined_fail (what : StdString) : Defined (fail what : Answered α) := by
  intro h
  cases h

theorem defined_get (x : Given α) : Defined (get x) := by
  cases x with
  | ok a => exact defined_ok a
  | error what => exact defined_fail what

theorem Defined.bind {x : Answered α} {f : α → Answered β} (hx : Defined x)
    (hf : ∀ a, x = .ok a → Defined (f a)) : Defined (x >>= f) := by
  cases x with
  | ok a => exact hf a rfl
  | error e =>
    intro h
    cases e with
    | runtimeError what => cases h
    | undefined => exact hx rfl

theorem Defined.map {x : Answered α} (hx : Defined x) (f : α → β) : Defined (x.map f) := by
  cases x with
  | ok a => exact defined_ok _
  | error e =>
    intro h
    cases e with
    | runtimeError what => cases h
    | undefined => exact hx rfl

theorem defined_forAll {f : α → Answered β} (h : ∀ a, Defined (f a)) (as : List α) :
    Defined (forAll f as) := by
  induction as with
  | nil => exact defined_ok _
  | cons a as ih => exact (h a).bind fun b _ => ih.bind fun bs _ => defined_ok _

theorem defined_readRows (f : α → β) (rows : Rows α) : Defined (readRows f rows) :=
  defined_forAll (fun row => (defined_get row).map f) rows

theorem defined_toBytes (data : StdString) : Defined (toBytes data) := by
  unfold toBytes
  cases Base64.toBytes data with
  | ok bytes => exact defined_ok _
  | error e => exact defined_fail _

theorem defined_getString (request : Properties) (name : StdString) :
    Defined (getString request name) := by
  unfold getString
  cases getProperty request name with
  | null => exact defined_ok _
  | primitive value type => exact defined_ok _
  | object properties => exact defined_fail _
  | array items => exact defined_fail _

theorem settled_result (value : JsonValue) : Settled (.ok (result value)) := rfl

theorem settled_fail (what : StdString) : Settled (fail what) := trivial

theorem settled_bind_iff {x : Answered α} {f : α → Answered Properties} (hx : Defined x) :
    Settled (x >>= f) ↔ ∀ a, x = .ok a → Settled (f a) := by
  cases x with
  | ok a =>
    refine ⟨?_, fun h => h a rfl⟩
    rintro h b ⟨⟩
    exact h
  | error e =>
    cases e with
    | runtimeError what => exact iff_of_true trivial fun a h => (by cases h)
    | undefined => exact absurd rfl hx

theorem Settled.of_bind {x : Answered α} {f : α → Answered Properties} (hx : Defined x)
    (hf : ∀ a, x = .ok a → Settled (f a)) : Settled (x >>= f) :=
  (settled_bind_iff hx).2 hf

end

/-! ### The arguments -/

variable {server : Server} {request : Properties}

/-- The items of `params`. -/
def paramsOf (request : Properties) : Option (List JsonValue) :=
  asArray (getProperty request (text "params"))

theorem params_eq_ok {taken : Nat → Bool} {what : StdString} {args : List JsonValue}
    (h : params request taken what = .ok args) : paramsOf request = some args ∧ taken args.length := by
  unfold params at h
  rw [paramsOf]
  cases hargs : asArray (getProperty request (text "params")) with
  | none =>
    rw [hargs] at h
    cases h
  | some args' =>
    rw [hargs] at h
    dsimp only at h
    split_ifs at h with htaken
    · cases h
      exact ⟨rfl, htaken⟩
    · cases h

theorem params_of_eq {taken : Nat → Bool} {what : StdString} {args : List JsonValue}
    (h : paramsOf request = some args) (htaken : taken args.length) :
    params request taken what = .ok args := by
  unfold params
  rw [paramsOf] at h
  rw [h]
  exact if_pos htaken

theorem defined_params (taken : Nat → Bool) (what : StdString) : Defined (params request taken what) := by
  unfold params
  cases asArray (getProperty request (text "params")) with
  | none => exact defined_fail _
  | some args =>
    dsimp only
    split_ifs
    · exact defined_ok _
    · exact defined_fail _

theorem defined_primitiveArgument {args : List JsonValue} {index : Nat} (h : index < args.length)
    (what : StdString) : Defined (primitiveArgument args index what) := by
  unfold primitiveArgument argument
  rw [List.getElem?_eq_getElem h]
  simp only [bind, Except.bind]
  cases asPrimitive args[index] with
  | none => exact defined_fail _
  | some value => exact defined_ok _

theorem defined_filledArgument {args : List JsonValue} {index : Nat} (h : index < args.length)
    (what : StdString) : Defined (filledArgument args index what) := by
  apply (defined_primitiveArgument h what).bind
  intro value _
  split_ifs
  · exact defined_fail _
  · exact defined_ok _

/-- Methods that look for the first argument without a look at the size. -/
theorem settled_first_iff {what : StdString} {f : List JsonValue → Answered Properties}
    (hnil : f [] = .error .undefined) (hcons : ∀ arg args, Settled (f (arg :: args))) :
    Settled (params request (fun _ => true) what >>= f) ↔ paramsOf request ≠ some [] := by
  rw [settled_bind_iff (defined_params _ _)]
  refine ⟨?_, ?_⟩
  · intro h hempty
    have hsettled := h [] (params_of_eq hempty rfl)
    rw [hnil] at hsettled
    exact hsettled
  · intro h args hargs
    cases args with
    | nil => exact absurd (params_eq_ok hargs).1 h
    | cons arg args => exact hcons arg args

theorem defined_decodeAll (missing : Nat → StdString) (i : Nat) (args : List JsonValue) :
    Defined (decodeAll missing i args) := by
  induction args generalizing i with
  | nil => exact defined_ok _
  | cons arg args ih =>
    unfold decodeAll
    cases asPrimitive arg with
    | none => exact defined_fail _
    | some value =>
      exact (defined_toBytes value).bind fun bytes _ => (ih (i + 1)).bind fun rest _ => defined_ok _

/-! ### The operations that always add one property -/

theorem settled_upload (body : Decoded) : Settled (upload server body) :=
  .of_bind (defined_get _) fun _ _ => settled_result _

theorem settled_download (objectIds : List Decoded) : Settled (download server objectIds) :=
  .of_bind (defined_get _) fun _ _ => settled_result _

theorem settled_devices (ownerId : Decoded) : Settled (devices server ownerId) :=
  .of_bind (defined_readRows _ _) fun _ _ => settled_result _

theorem settled_broadcast (body : Decoded) : Settled (broadcast server body) :=
  .of_bind (defined_get _) fun _ _ => settled_result _

theorem settled_allocateStorage (publicKey : Decoded) (folder : StdString) :
    Settled (allocateStorage server publicKey folder) :=
  .of_bind (defined_get _) fun _ _ => .of_bind (defined_get _) fun _ _ => settled_result _

theorem settled_getBalance (walletId : Decoded) : Settled (getBalance server walletId) :=
  .of_bind (defined_readRows _ _) fun _ _ => settled_result _

theorem defined_readReplicas (hashes : List ConstDataBuffer) (rows : Rows (Int × ConstDataBuffer)) :
    Defined (readReplicas hashes rows) := by
  induction rows generalizing hashes with
  | nil => exact defined_ok _
  | cons row rows ih =>
    apply (defined_get row).bind
    rintro ⟨replica, hash⟩ _
    dsimp only
    split_ifs
    · exact defined_ok _
    · exact ih _

theorem settled_lookingBlock (dataHash : Decoded) : Settled (lookingBlock server dataHash) := by
  apply Settled.of_bind (defined_readReplicas _ _)
  intro found _
  cases found with
  | none => rfl
  | some hashes => rfl

/-! ### The requests that always get their reply -/

theorem settled_logHead : Settled (logHeadRequest server request) :=
  .of_bind (defined_readRows _ _) fun _ _ => settled_result _

theorem settled_statistics : Settled (statisticsRequest server request) :=
  .of_bind (defined_get _) fun _ _ => settled_result _

theorem settled_lookingBlockRequest : Settled (lookingBlockRequest server request) := by
  apply Settled.of_bind (defined_params _ _)
  intro args hargs
  have hsize : args.length = 1 := of_decide_eq_true (params_eq_ok hargs).2
  exact .of_bind (defined_primitiveArgument (by omega) _) fun value _ =>
    .of_bind (defined_toBytes value) fun objId _ => settled_lookingBlock objId

theorem settled_downloadRequest : Settled (downloadRequest server request) :=
  .of_bind (defined_params _ _) fun args _ =>
    .of_bind (defined_decodeAll _ _ args) fun objectIds _ => settled_download objectIds

theorem settled_allocateStorageRequest : Settled (allocateStorageRequest server request) := by
  apply Settled.of_bind (defined_params _ _)
  intro args hargs
  have hsize : 2 ≤ args.length := of_decide_eq_true (params_eq_ok hargs).2
  exact .of_bind (defined_filledArgument (by omega) _) fun value _ =>
    .of_bind (defined_toBytes value) fun publicKey _ =>
      .of_bind (defined_get _) fun _ _ =>
        .of_bind (defined_filledArgument (by omega) _) fun folder _ =>
          settled_allocateStorage publicKey folder

theorem settled_balanceRequest : Settled (balanceRequest server request) := by
  apply Settled.of_bind (defined_params _ _)
  intro args hargs
  have hsize : 1 ≤ args.length := of_decide_eq_true (params_eq_ok hargs).2
  exact .of_bind (defined_primitiveArgument (by omega) _) fun value _ =>
    .of_bind (defined_toBytes value) fun walletId _ => settled_getBalance walletId

/-! ### The requests that read the first argument unseen -/

theorem settled_uploadRequest_iff :
    Settled (uploadRequest server request) ↔ paramsOf request ≠ some [] :=
  settled_first_iff rfl fun _ _ => .of_bind (defined_primitiveArgument (Nat.succ_pos _) _)
    fun value _ => .of_bind (defined_toBytes value) fun body _ => settled_upload body

theorem settled_devicesRequest_iff :
    Settled (devicesRequest server request) ↔ paramsOf request ≠ some [] :=
  settled_first_iff rfl fun _ _ => .of_bind (defined_primitiveArgument (Nat.succ_pos _) _)
    fun value _ => .of_bind (defined_toBytes value) fun ownerId _ => settled_devices ownerId

theorem settled_broadcastRequest_iff :
    Settled (broadcastRequest server request) ↔ paramsOf request ≠ some [] :=
  settled_first_iff rfl fun _ _ => .of_bind (defined_filledArgument (Nat.succ_pos _) _)
    fun value _ => .of_bind (defined_toBytes value) fun body _ => settled_broadcast body

/-! ### `subscribe` -/

theorem primitiveArgument_eq_ok {args : List JsonValue} {index : Nat} {what value : StdString}
    (h : primitiveArgument args index what = .ok value) :
    ∃ type, args[index]? = some (.primitive value type) := by
  unfold primitiveArgument argument at h
  cases harg : args[index]? with
  | none =>
    rw [harg] at h
    cases h
  | some arg =>
    rw [harg] at h
    cases arg with
    | primitive value' type =>
      cases h
      exact ⟨type, rfl⟩
    | null => cases h
    | object properties => cases h
    | array items => cases h

theorem settled_subscribeRequest_iff :
    Settled (subscribeRequest server request) ↔ ∀ cb type type', paramsOf request ≠
      some [.primitive cb type, .primitive (text "channel") type'] := by
  refine ⟨?_, ?_⟩
  · intro h cb type type' hargs
    unfold subscribeRequest at h
    rw [params_of_eq hargs rfl] at h
    exact h
  · intro h
    apply Settled.of_bind (defined_params _ _)
    intro args hargs
    obtain ⟨hparams, hsize⟩ := params_eq_ok hargs
    have htwo : 2 ≤ args.length := of_decide_eq_true hsize
    apply Settled.of_bind (defined_primitiveArgument (by omega) _)
    intro cb hcb
    apply Settled.of_bind (defined_primitiveArgument (by omega) _)
    intro method hmethod
    by_cases hchannel : method = text "channel"
    · rw [if_pos hchannel]
      have hthree : 2 < args.length := by
        by_contra hlen
        obtain ⟨a, b, rfl⟩ := List.length_eq_two.1 (by omega : args.length = 2)
        obtain ⟨type, hfirst⟩ := primitiveArgument_eq_ok hcb
        obtain ⟨type', hsecond⟩ := primitiveArgument_eq_ok hmethod
        cases hfirst
        cases hsecond
        exact h cb type type' (by rw [hparams, hchannel])
      apply Settled.of_bind (defined_primitiveArgument hthree _)
      intro channelId _
      apply Settled.of_bind (defined_toBytes channelId)
      intro bytes _
      split_ifs
      · exact settled_result _
      · exact .of_bind (defined_get _) fun _ _ => settled_result _
    · rw [if_neg hchannel]
      exact settled_fail _

/-! ### `get_channel_messages` -/

theorem defined_bind_iff {α β : Type} {x : Answered α} {f : α → Answered β} :
    Defined (x >>= f) ↔ Defined x ∧ ∀ a, x = .ok a → Defined (f a) := by
  refine ⟨?_, fun h => h.1.bind h.2⟩
  intro h
  refine ⟨?_, ?_⟩
  · rintro rfl
    exact h rfl
  · rintro a rfl
    exact h

theorem defined_atoll_iff {value : StdString} :
    Defined (atoll value) ↔ -2 ^ 63 ≤ number value ∧ number value < 2 ^ 63 := by
  unfold atoll
  split_ifs with h
  · exact iff_of_true (defined_ok _) h
  · exact iff_of_false (fun hdefined => hdefined rfl) h

theorem defined_atoi_iff {value : StdString} :
    Defined (atoi value) ↔ -2 ^ 31 ≤ number value ∧ number value < 2 ^ 31 := by
  unfold atoi
  split_ifs with h
  · exact iff_of_true (defined_ok _) h
  · exact iff_of_false (fun hdefined => hdefined rfl) h

theorem primitiveArgument_of_eq {args : List JsonValue} {index : Nat} {value : StdString}
    {type : PrimitiveType} (h : args[index]? = some (.primitive value type)) (what : StdString) :
    primitiveArgument args index what = .ok value := by
  unfold primitiveArgument argument
  rw [h]
  rfl

theorem defined_lastIdArgument_iff {args : List JsonValue} :
    Defined (lastIdArgument args) ↔ ∀ value type, args[1]? = some (.primitive value type) →
      -2 ^ 63 ≤ number value ∧ number value < 2 ^ 63 := by
  unfold lastIdArgument
  split_ifs with hsize
  · rw [defined_bind_iff, and_iff_right (defined_primitiveArgument hsize _)]
    refine ⟨?_, ?_⟩
    · intro h value type hvalue
      exact defined_atoll_iff.1 (h value (primitiveArgument_of_eq hvalue _))
    · intro h value hvalue
      obtain ⟨type, harg⟩ := primitiveArgument_eq_ok hvalue
      exact defined_atoll_iff.2 (h value type harg)
  · refine iff_of_true (defined_ok _) ?_
    intro value type h
    rw [List.getElem?_eq_none (by omega)] at h
    cases h

theorem defined_limitArgument_iff {args : List JsonValue} :
    Defined (limitArgument args) ↔ ∀ value type, args[2]? = some (.primitive value type) →
      -2 ^ 31 ≤ number value ∧ number value < 2 ^ 31 := by
  have hcap : ∀ value : StdString, Defined (do
      let limit ← atoi value
      .ok (if limit > 1000 then 1000 else limit) : Answered Int) ↔ Defined (atoi value) := by
    intro value
    refine ⟨?_, fun h => h.bind fun _ _ => defined_ok _⟩
    intro h hundefined
    rw [hundefined] at h
    exact h rfl
  unfold limitArgument
  split_ifs with hsize
  · rw [defined_bind_iff, and_iff_right (defined_primitiveArgument hsize _)]
    refine ⟨?_, ?_⟩
    · intro h value type hvalue
      exact defined_atoi_iff.1 ((hcap value).1 (h value (primitiveArgument_of_eq hvalue _)))
    · intro h value hvalue
      obtain ⟨type, harg⟩ := primitiveArgument_eq_ok hvalue
      exact (hcap value).2 (defined_atoi_iff.2 (h value type harg))
  · refine iff_of_true (defined_ok _) ?_
    intro value type h
    rw [List.getElem?_eq_none (by omega)] at h
    cases h

/-- The reading goes on behind the second argument exactly if it is a primitive, or not there. -/
theorem lastIdArgument_ok_iff {args : List JsonValue} (h : Defined (lastIdArgument args)) :
    (∃ lastId, lastIdArgument args = .ok lastId) ↔
      ∀ arg, args[1]? = some arg → (asPrimitive arg).isSome := by
  unfold lastIdArgument at h ⊢
  split_ifs at h ⊢ with hsize
  · refine ⟨?_, ?_⟩
    · rintro ⟨lastId, hlast⟩ arg harg
      obtain ⟨value, hvalue, -⟩ := bind_eq_ok.1 hlast
      obtain ⟨type, hprimitive⟩ := primitiveArgument_eq_ok hvalue
      rw [harg] at hprimitive
      cases hprimitive
      rfl
    · intro hprimitive
      have harg := List.getElem?_eq_getElem hsize
      cases hvalue : args[1] with
      | primitive value type =>
        rw [hvalue] at harg
        rw [primitiveArgument_of_eq harg] at h ⊢
        exact ⟨number value, if_pos (defined_atoll_iff.1 h)⟩
      | null => exact absurd (hprimitive _ harg) (by rw [hvalue]; decide)
      | object properties => exact absurd (hprimitive _ harg) (by rw [hvalue]; exact Bool.false_ne_true)
      | array items => exact absurd (hprimitive _ harg) (by rw [hvalue]; exact Bool.false_ne_true)
  · refine iff_of_true ⟨maxId, rfl⟩ ?_
    intro arg harg
    rw [List.getElem?_eq_none (by omega)] at harg
    cases harg

/-- The numbers among the arguments fit the types they are converted to, as far as they are read. -/
def NumbersFit (request : Properties) : Prop :=
  ∀ args channel type bytes, paramsOf request = some args → args[0]? = some (.primitive channel type) →
    toBytes channel = .ok bytes →
      (∀ lastId type, args[1]? = some (.primitive lastId type) →
        -2 ^ 63 ≤ number lastId ∧ number lastId < 2 ^ 63) ∧
      ((∀ lastId, args[1]? = some lastId → (asPrimitive lastId).isSome) →
        ∀ limit type, args[2]? = some (.primitive limit type) →
          -2 ^ 31 ≤ number limit ∧ number limit < 2 ^ 31)

theorem settled_getChannelMessagesRequest_iff :
    Settled (getChannelMessagesRequest server request) ↔ NumbersFit request := by
  have hdefined : Settled (getChannelMessagesRequest server request) ↔
      Defined (channelMessagesRequest server.channelMessages request) := by
    unfold getChannelMessagesRequest
    refine ⟨?_, fun h => .of_bind h fun _ _ => settled_result _⟩
    intro h hundefined
    rw [hundefined] at h
    exact h
  rw [hdefined, channelMessagesRequest]
  refine ⟨?_, ?_⟩
  · intro h args channel type bytes hargs hchannel hbytes
    have hsize : 1 ≤ args.length := (List.getElem?_eq_some_iff.1 hchannel).1
    rw [params_of_eq hargs (decide_eq_true hsize)] at h
    have h := (defined_bind_iff.1 h).2 args rfl
    rw [primitiveArgument_of_eq hchannel] at h
    have h := (defined_bind_iff.1 h).2 channel rfl
    rw [hbytes] at h
    have h := (defined_bind_iff.1 h).2 bytes rfl
    obtain ⟨hlast, hrest⟩ := defined_bind_iff.1 h
    refine ⟨defined_lastIdArgument_iff.1 hlast, ?_⟩
    intro hprimitive
    obtain ⟨lastId, hlastId⟩ := (lastIdArgument_ok_iff hlast).2 hprimitive
    exact defined_limitArgument_iff.1 (defined_bind_iff.1 (hrest lastId hlastId)).1
  · intro h
    apply (defined_params _ _).bind
    intro args hargs
    obtain ⟨hparams, htaken⟩ := params_eq_ok hargs
    have hsize : 1 ≤ args.length := of_decide_eq_true htaken
    apply (defined_primitiveArgument hsize _).bind
    intro channel hchannel
    obtain ⟨type, harg⟩ := primitiveArgument_eq_ok hchannel
    apply (defined_toBytes channel).bind
    intro bytes hbytes
    obtain ⟨hlast, hlimit⟩ := h args channel type bytes hparams harg hbytes
    have hdefined := defined_lastIdArgument_iff.2 hlast
    apply hdefined.bind
    intro lastId hlastId
    apply (defined_limitArgument_iff.2 (hlimit ((lastIdArgument_ok_iff hdefined).1 ⟨lastId, hlastId⟩))).bind
    intro limit _
    exact defined_ok _

/-! ### `login` -/

/-- The first message of the block that names the user; the messages before it are read. -/
def NamesUser (login : StdString) (block : Rows CreateUser) : Prop :=
  ∃ (before : List CreateUser) (message : CreateUser) (after : Rows CreateUser) (key : StdString),
    block = before.map Except.ok ++ .ok message :: after ∧ (∀ m ∈ before, login ≠ m.userEmail) ∧
      login = message.userEmail ∧ message.userPublicKey = .ok key

/-- All messages of the block are read, and none names the user. -/
def Silent (login : StdString) (block : Rows CreateUser) : Prop :=
  ∃ messages : List CreateUser, block = messages.map Except.ok ∧ ∀ m ∈ messages, login ≠ m.userEmail

theorem defined_loginBlock (login : StdString) (block : Rows CreateUser) :
    Defined (loginBlock login block) := by
  induction block with
  | nil => exact defined_ok _
  | cons message messages ih =>
    apply (defined_get message).bind
    intro m _
    split_ifs
    · exact (defined_get _).bind fun _ _ => defined_ok _
    · exact ih

theorem loginBlock_eq_ok {login : StdString} {block : Rows CreateUser} {added : Properties}
    (h : loginBlock login block = .ok added) :
    NamesUser login block ∧ added.length = 1 ∨ Silent login block ∧ added.length = 0 := by
  induction block with
  | nil =>
    cases h
    exact .inr ⟨⟨[], rfl, by simp⟩, rfl⟩
  | cons message messages ih =>
    unfold loginBlock at h
    cases message with
    | error what => cases h
    | ok m =>
      change (if login = m.userEmail then _ else _) = _ at h
      split_ifs at h with hlogin
      · obtain ⟨key, hkey, h⟩ := bind_eq_ok.1 h
        cases h
        refine .inl ⟨⟨[], m, messages, key, rfl, by simp, hlogin, ?_⟩, rfl⟩
        cases hpublic : m.userPublicKey with
        | error what =>
          rw [hpublic] at hkey
          cases hkey
        | ok key' =>
          rw [hpublic] at hkey
          cases hkey
          rfl
      · rcases ih h with ⟨⟨before, m', after, key, rfl, hbefore, hm', hkey⟩, hlen⟩ |
          ⟨⟨messages', rfl, hall⟩, hlen⟩
        · refine .inl ⟨⟨m :: before, m', after, key, rfl, ?_, hm', hkey⟩, hlen⟩
          exact List.forall_mem_cons.2 ⟨hlogin, hbefore⟩
        · exact .inr ⟨⟨m :: messages', rfl, List.forall_mem_cons.2 ⟨hlogin, hall⟩⟩, hlen⟩

theorem loginBlock_names {login : StdString} {block : Rows CreateUser} (h : NamesUser login block) :
    ∃ added, loginBlock login block = .ok added ∧ added.length = 1 := by
  obtain ⟨before, message, after, key, rfl, hbefore, hlogin, hkey⟩ := h
  induction before with
  | nil =>
    refine ⟨result (userValue key message), ?_, rfl⟩
    show (if login = message.userEmail then _ else _) = _
    rw [if_pos hlogin, hkey]
    rfl
  | cons m before ih =>
    obtain ⟨hm, hrest⟩ := List.forall_mem_cons.1 hbefore
    obtain ⟨added, hadded, hlen⟩ := ih hrest
    refine ⟨added, ?_, hlen⟩
    show (if login = m.userEmail then _ else _) = _
    rw [if_neg hm]
    exact hadded

theorem loginBlock_silent {login : StdString} {block : Rows CreateUser} (h : Silent login block) :
    ∃ added, loginBlock login block = .ok added ∧ added.length = 0 := by
  obtain ⟨messages, rfl, hall⟩ := h
  induction messages with
  | nil => exact ⟨[], rfl, rfl⟩
  | cons m messages ih =>
    obtain ⟨hm, hrest⟩ := List.forall_mem_cons.1 hall
    obtain ⟨added, hadded, hlen⟩ := ih hrest
    refine ⟨added, ?_, hlen⟩
    show (if login = m.userEmail then _ else _) = _
    rw [if_neg hm]
    exact hadded

/-- The blocks of the log that name the user. -/
noncomputable def naming (login : StdString) (blocks : List (Rows CreateUser)) : Nat :=
  open Classical in blocks.countP fun block => NamesUser login block

/-- The whole log is read, and more than one of its blocks names the user. -/
def RepeatedUser (login : StdString) (users : Rows (Rows CreateUser)) : Prop :=
  ∃ blocks : List (Rows CreateUser), users = blocks.map Except.ok ∧
    (∀ block ∈ blocks, NamesUser login block ∨ Silent login block) ∧ 2 ≤ naming login blocks

theorem not_names_of_silent {login : StdString} {block : Rows CreateUser} (h : Silent login block) :
    ¬ NamesUser login block := by
  intro hnames
  obtain ⟨added, hadded, hlen⟩ := loginBlock_silent h
  obtain ⟨added', hadded', hlen'⟩ := loginBlock_names hnames
  rw [hadded] at hadded'
  cases hadded'
  omega

theorem naming_cons (login : StdString) (block : Rows CreateUser) (blocks : List (Rows CreateUser)) :
    (NamesUser login block → naming login (block :: blocks) = 1 + naming login blocks) ∧
      (Silent login block → naming login (block :: blocks) = naming login blocks) := by
  refine ⟨?_, ?_⟩
  · intro h
    rw [naming, List.countP_cons_of_pos (by simpa using h), Nat.add_comm]
    rfl
  · intro h
    rw [naming, List.countP_cons_of_neg (by simpa using not_names_of_silent h)]
    rfl

theorem defined_loginBlocks (login : StdString) (users : Rows (Rows CreateUser)) :
    Defined (loginBlocks login users) := by
  induction users with
  | nil => exact defined_ok _
  | cons block blocks ih =>
    exact (defined_get block).bind fun b _ => (defined_loginBlock login b).bind fun added _ =>
      ih.bind fun rest _ => defined_ok _

theorem loginBlocks_eq_ok {login : StdString} {users : Rows (Rows CreateUser)} {added : Properties}
    (h : loginBlocks login users = .ok added) :
    ∃ blocks : List (Rows CreateUser), users = blocks.map Except.ok ∧
      (∀ block ∈ blocks, NamesUser login block ∨ Silent login block) ∧
        added.length = naming login blocks := by
  induction users generalizing added with
  | nil =>
    cases h
    exact ⟨[], rfl, by simp, rfl⟩
  | cons block blocks ih =>
    cases block with
    | error what => cases h
    | ok b =>
      obtain ⟨first, hfirst, h⟩ := bind_eq_ok.1 (show (loginBlock login b >>= _) = _ from h)
      obtain ⟨rest, hrest, h⟩ := bind_eq_ok.1 h
      cases h
      obtain ⟨blocks', rfl, hall, hlen⟩ := ih hrest
      obtain ⟨hnames, hsilent⟩ := naming_cons login b blocks'
      refine ⟨b :: blocks', rfl, ?_, ?_⟩
      · refine List.forall_mem_cons.2 ⟨?_, hall⟩
        exact (loginBlock_eq_ok hfirst).imp And.left And.left
      · rw [List.length_append, hlen]
        rcases loginBlock_eq_ok hfirst with ⟨hblock, hone⟩ | ⟨hblock, hzero⟩
        · rw [hone, hnames hblock]
        · rw [hzero, hsilent hblock, Nat.zero_add]

theorem loginBlocks_of_read {login : StdString} {blocks : List (Rows CreateUser)}
    (h : ∀ block ∈ blocks, NamesUser login block ∨ Silent login block) :
    ∃ added, loginBlocks login (blocks.map Except.ok) = .ok added := by
  induction blocks with
  | nil => exact ⟨[], rfl⟩
  | cons block blocks ih =>
    obtain ⟨hblock, hrest⟩ := List.forall_mem_cons.1 h
    obtain ⟨rest, hrest⟩ := ih hrest
    obtain ⟨first, hfirst⟩ : ∃ first, loginBlock login block = .ok first := by
      rcases hblock with hblock | hblock
      · exact (loginBlock_names hblock).imp fun _ => And.left
      · exact (loginBlock_silent hblock).imp fun _ => And.left
    refine ⟨first ++ rest, ?_⟩
    show (loginBlock login block >>= _) = _
    rw [hfirst]
    show (loginBlocks login (blocks.map Except.ok) >>= _) = _
    rw [hrest]
    rfl

theorem settled_login_iff (name : StdString) :
    Settled (login server name) ↔ ¬ RepeatedUser name server.users := by
  unfold login
  rw [settled_bind_iff (defined_loginBlocks _ _)]
  have hone : ∀ added : Properties,
      Settled (.ok (if added = [] then [(text "error", stringValue (text "User not found"))]
        else added)) ↔ added.length < 2 := by
    intro added
    cases added with
    | nil => exact iff_of_true rfl (by decide)
    | cons property added =>
      show (property :: added).length = 1 ↔ _
      rw [List.length_cons]
      omega
  refine ⟨?_, ?_⟩
  · rintro h ⟨blocks, hblocks, hall, hmany⟩
    obtain ⟨added, hadded⟩ := loginBlocks_of_read hall
    rw [← hblocks] at hadded
    obtain ⟨blocks', hblocks', -, hlen⟩ := loginBlocks_eq_ok hadded
    obtain rfl : blocks = blocks' :=
      List.map_injective_iff.2 (fun _ _ => Except.ok.inj) (hblocks.symm.trans hblocks')
    have hfew := (hone added).1 (h added hadded)
    omega
  · intro h added hadded
    obtain ⟨blocks, hblocks, hall, hlen⟩ := loginBlocks_eq_ok hadded
    rw [hone]
    by_contra hmany
    exact h ⟨blocks, hblocks, hall, by omega⟩

theorem settled_loginRequest_iff :
    Settled (loginRequest server request) ↔ ∀ name type args,
      paramsOf request = some (.primitive name type :: args) → ¬ RepeatedUser name server.users := by
  refine ⟨?_, ?_⟩
  · intro h name type args hargs
    unfold loginRequest at h
    rw [params_of_eq hargs (by simp)] at h
    exact (settled_login_iff name).1 h
  · intro h
    apply Settled.of_bind (defined_params _ _)
    intro args hargs
    obtain ⟨hparams, htaken⟩ := params_eq_ok hargs
    have hsize : 1 ≤ args.length := of_decide_eq_true htaken
    apply Settled.of_bind (defined_primitiveArgument hsize _)
    intro name hname
    obtain ⟨type, hfirst⟩ := primitiveArgument_eq_ok hname
    cases args with
    | nil => cases hfirst
    | cons arg args =>
      cases hfirst
      exact (settled_login_iff name).2 (h name type args hparams)

/-! ### `distribution_map` -/

/-- Replicas whose numbers go on from `n`. -/
def numbered (n : Nat) (hashes : List ConstDataBuffer) : Rows (Int × ConstDataBuffer) :=
  (hashes.zipIdx n).map fun entry => .ok ((entry.2 : Int), entry.1)

/-- The rows of an object up to one whose number is not the next one. -/
def GapFrom (n : Nat) (rows : Rows (Int × ConstDataBuffer)) : Prop :=
  ∃ (before : List ConstDataBuffer) (replica : Int) (hash : ConstDataBuffer)
    (after : Rows (Int × ConstDataBuffer)),
    rows = numbered n before ++ .ok (replica, hash) :: after ∧ replica ≠ ↑(n + before.length)

theorem numbered_cons (n : Nat) (hash : ConstDataBuffer) (hashes : List ConstDataBuffer) :
    numbered n (hash :: hashes) = .ok ((n : Int), hash) :: numbered (n + 1) hashes := rfl

theorem gapFrom_cons_iff (n : Nat) (hash : ConstDataBuffer) (rows : Rows (Int × ConstDataBuffer)) :
    GapFrom n (.ok ((n : Int), hash) :: rows) ↔ GapFrom (n + 1) rows := by
  refine ⟨?_, ?_⟩
  · rintro ⟨before, replica, hash', after, hrows, hne⟩
    cases before with
    | nil =>
      cases hrows
      exact absurd rfl hne
    | cons hash'' before =>
      rw [numbered_cons, List.cons_append] at hrows
      refine ⟨before, replica, hash', after, (List.cons.inj hrows).2, ?_⟩
      rwa [Nat.add_assoc, Nat.add_comm 1]
  · rintro ⟨before, replica, hash', after, rfl, hne⟩
    refine ⟨hash :: before, replica, hash', after, rfl, ?_⟩
    rwa [List.length_cons, Nat.add_comm before.length, ← Nat.add_assoc]

theorem not_gapFrom_error (n : Nat) (what : StdString) (rows : Rows (Int × ConstDataBuffer)) :
    ¬ GapFrom n (.error what :: rows) := by
  rintro ⟨before, replica, hash, after, hrows, -⟩
  cases before with
  | nil => cases hrows
  | cons hash' before => cases hrows

theorem readReplicas_cons (hashes : List ConstDataBuffer) (replica : Int) (hash : ConstDataBuffer)
    (rows : Rows (Int × ConstDataBuffer)) : readReplicas hashes (.ok (replica, hash) :: rows) =
      if replica ≠ hashes.length then .ok none else readReplicas (hashes ++ [hash]) rows := rfl

theorem readReplicas_none_iff (hashes : List ConstDataBuffer) (rows : Rows (Int × ConstDataBuffer)) :
    readReplicas hashes rows = .ok none ↔ GapFrom hashes.length rows := by
  induction rows generalizing hashes with
  | nil =>
    refine iff_of_false (fun h => by cases h) ?_
    rintro ⟨before, replica, hash, after, hrows, -⟩
    exact absurd hrows.symm (by simp)
  | cons row rows ih =>
    cases row with
    | error what => exact iff_of_false (fun h => by cases h) (not_gapFrom_error _ _ _)
    | ok entry =>
      obtain ⟨replica, hash⟩ := entry
      rw [readReplicas_cons]
      split_ifs with hne
      · exact iff_of_true rfl ⟨[], replica, hash, rows, rfl, hne⟩
      · obtain rfl : replica = hashes.length := not_not.1 hne
        rw [ih, List.length_append, List.length_singleton, gapFrom_cons_iff]

theorem readReplicas_some_iff (hashes : List ConstDataBuffer) (rows : Rows (Int × ConstDataBuffer)) :
    (∃ found, readReplicas hashes rows = .ok (some found)) ↔
      ∃ more, rows = numbered hashes.length more := by
  induction rows generalizing hashes with
  | nil => exact iff_of_true ⟨hashes, rfl⟩ ⟨[], rfl⟩
  | cons row rows ih =>
    have hmore : ∀ more : List ConstDataBuffer, row :: rows = numbered hashes.length more →
        ∃ hash more', row = .ok ((hashes.length : Int), hash) ∧
          rows = numbered (hashes.length + 1) more' := by
      intro more h
      cases more with
      | nil => cases h
      | cons hash more => exact ⟨hash, more, (List.cons.inj h).1, (List.cons.inj h).2⟩
    cases row with
    | error what =>
      refine iff_of_false ?_ ?_
      · rintro ⟨found, h⟩
        cases h
      · rintro ⟨more, h⟩
        obtain ⟨hash, more', hrow, -⟩ := hmore more h
        cases hrow
    | ok entry =>
      obtain ⟨replica, hash⟩ := entry
      rw [readReplicas_cons]
      split_ifs with hne
      · refine iff_of_false ?_ ?_
        · rintro ⟨found, h⟩
          cases h
        · rintro ⟨more, h⟩
          obtain ⟨hash', more', hrow, -⟩ := hmore more h
          cases hrow
          exact hne rfl
      · obtain rfl : replica = hashes.length := not_not.1 hne
        rw [ih, List.length_append, List.length_singleton]
        refine ⟨?_, ?_⟩
        · rintro ⟨more, rfl⟩
          exact ⟨hash :: more, rfl⟩
        · rintro ⟨more, h⟩
          obtain ⟨hash', more', -, hrows⟩ := hmore more h
          exact ⟨more', hrows⟩

/-- The numbers of the objects before some object are all there, and those of that object are not. -/
def Gapped (server : Server) (objectIds : List Decoded) : Prop :=
  ∃ before objectId after, objectIds = before ++ objectId :: after ∧
    (∀ b ∈ before, ∃ hashes, server.replicas b = numbered 0 hashes) ∧
      GapFrom 0 (server.replicas objectId)

theorem defined_distributionReplicas (objectIds : List Decoded) :
    Defined (distributionReplicas server objectIds) := by
  induction objectIds with
  | nil => exact defined_ok _
  | cons objectId objectIds ih =>
    apply (defined_readReplicas _ _).bind
    intro found _
    cases found with
    | none => exact defined_ok _
    | some hashes => exact ih.bind fun rest _ => defined_ok _

theorem distributionReplicas_none_iff (objectIds : List Decoded) :
    distributionReplicas server objectIds = .ok none ↔ Gapped server objectIds := by
  induction objectIds with
  | nil =>
    refine iff_of_false (fun h => by cases h) ?_
    rintro ⟨before, objectId, after, h, -⟩
    exact absurd h.symm (by simp)
  | cons objectId objectIds ih =>
    unfold distributionReplicas
    refine ⟨?_, ?_⟩
    · intro h
      obtain ⟨found, hfound, h⟩ := bind_eq_ok.1 h
      cases found with
      | none =>
        exact ⟨[], objectId, objectIds, rfl, by simp, (readReplicas_none_iff [] _).1 hfound⟩
      | some hashes =>
        obtain ⟨rest, hrest, h⟩ := bind_eq_ok.1 h
        cases rest with
        | some blocks => cases h
        | none =>
          obtain ⟨before, objectId', after, rfl, hbefore, hgap⟩ := ih.1 hrest
          refine ⟨objectId :: before, objectId', after, rfl, ?_, hgap⟩
          exact List.forall_mem_cons.2 ⟨(readReplicas_some_iff [] _).1 ⟨hashes, hfound⟩, hbefore⟩
    · rintro ⟨before, objectId', after, h, hbefore, hgap⟩
      cases before with
      | nil =>
        cases h
        rw [(readReplicas_none_iff [] _).2 hgap]
        rfl
      | cons b before =>
        cases h
        obtain ⟨hfirst, hbefore⟩ := List.forall_mem_cons.1 hbefore
        obtain ⟨found, hfound⟩ := (readReplicas_some_iff [] _).2 hfirst
        have hrest : distributionReplicas server (before ++ objectId' :: after) = .ok none :=
          ih.2 ⟨before, objectId', after, rfl, hbefore, hgap⟩
        rw [hfound]
        show (distributionReplicas server (before ++ objectId' :: after) >>= _) = _
        rw [hrest]
        rfl

theorem defined_blockValue (block : Decoded × List ConstDataBuffer) :
    Defined (blockValue server block) :=
  (defined_forAll (fun _ => (defined_readRows _ _).bind fun _ _ => defined_ok _) _).bind
    fun _ _ => defined_ok _

theorem settled_getDistributionMap_iff (objectIds : List Decoded) :
    Settled (getDistributionMap server objectIds) ↔ ¬ Gapped server objectIds := by
  rw [← distributionReplicas_none_iff]
  unfold getDistributionMap
  rw [settled_bind_iff (defined_distributionReplicas _)]
  refine ⟨?_, ?_⟩
  · intro h hnone
    exact Nat.zero_ne_one (h none hnone)
  · intro h found hfound
    cases found with
    | none => exact absurd hfound h
    | some blocks =>
      exact .of_bind (defined_forAll defined_blockValue _) fun _ _ => settled_result _

/-- The items of the array are texts of these bytes. -/
def Decodes (items : List JsonValue) (objectIds : List Decoded) : Prop :=
  List.Forall₂ (fun item objectId => ∃ value, asPrimitive item = some value ∧
    toBytes value = .ok objectId) items objectIds

theorem decodeAll_ok_iff (missing : Nat → StdString) (i : Nat) (items : List JsonValue)
    (objectIds : List Decoded) :
    decodeAll missing i items = .ok objectIds ↔ Decodes items objectIds := by
  induction items generalizing i objectIds with
  | nil =>
    unfold decodeAll Decodes
    rw [List.forall₂_nil_left_iff, Except.ok.injEq, eq_comm]
  | cons item items ih =>
    unfold decodeAll Decodes
    rw [List.forall₂_cons_left_iff]
    refine ⟨?_, ?_⟩
    · intro h
      cases hitem : asPrimitive item with
      | none =>
        rw [hitem] at h
        cases h
      | some value =>
        rw [hitem] at h
        obtain ⟨bytes, hbytes, h⟩ := bind_eq_ok.1 (show (toBytes value >>= _) = _ from h)
        obtain ⟨rest, hrest, h⟩ := bind_eq_ok.1 h
        cases h
        exact ⟨bytes, rest, ⟨value, rfl, hbytes⟩, (ih _ _).1 hrest, rfl⟩
    · rintro ⟨bytes, rest, ⟨value, hitem, hbytes⟩, hrest, rfl⟩
      rw [hitem]
      show (toBytes value >>= _) = _
      rw [hbytes]
      show (decodeAll missing (i + 1) items >>= _) = _
      rw [(ih _ _).2 hrest]
      rfl

theorem settled_distributionMapRequest_iff :
    Settled (distributionMapRequest server request) ↔ ∀ items args objectIds,
      paramsOf request = some (.array items :: args) → Decodes items objectIds →
        ¬ Gapped server objectIds := by
  refine ⟨?_, ?_⟩
  · intro h items args objectIds hargs hdecodes
    unfold distributionMapRequest at h
    rw [params_of_eq hargs (by simp)] at h
    change Settled (decodeAll _ 0 items >>= _) at h
    rw [(decodeAll_ok_iff _ _ _ _).2 hdecodes] at h
    exact (settled_getDistributionMap_iff objectIds).1 h
  · intro h
    apply Settled.of_bind (defined_params _ _)
    intro args hargs
    obtain ⟨hparams, htaken⟩ := params_eq_ok hargs
    cases args with
    | nil => cases htaken
    | cons arg args =>
      cases arg with
      | array items =>
        show Settled (decodeAll _ 0 items >>= _)
        apply Settled.of_bind (defined_decodeAll _ _ _)
        intro objectIds hobjectIds
        exact (settled_getDistributionMap_iff objectIds).2
          (h items args objectIds hparams ((decodeAll_ok_iff _ _ _ _).1 hobjectIds))
      | null => exact settled_fail _
      | primitive value type => exact settled_fail _
      | object properties => exact settled_fail _

/-! ### The names of the properties -/

/-- Only results and errors are added. -/
def Named (x : Answered Properties) : Prop := ∀ added, x = .ok added → Outcome added

theorem named_result (value : JsonValue) : Named (.ok (result value)) := by
  rintro added ⟨⟩ property hproperty
  rw [List.mem_singleton.1 hproperty]
  exact .inl rfl

theorem named_error (what : StdString) : Named (.ok [(text "error", stringValue what)]) := by
  rintro added ⟨⟩ property hproperty
  rw [List.mem_singleton.1 hproperty]
  exact .inr rfl

theorem named_fail (what : StdString) : Named (fail what) := by
  intro added h
  cases h

theorem named_bind {α : Type} {x : Answered α} {f : α → Answered Properties}
    (hf : ∀ a, Named (f a)) : Named (x >>= f) := by
  intro added h
  obtain ⟨a, -, h⟩ := bind_eq_ok.1 h
  exact hf a added h

theorem named_loginBlock (login : StdString) (block : Rows CreateUser) :
    Named (loginBlock login block) := by
  induction block with
  | nil =>
    rintro added ⟨⟩ property hproperty
    cases hproperty
  | cons message messages ih =>
    apply named_bind
    intro m
    split_ifs
    · exact named_bind fun _ => named_result _
    · exact ih

theorem named_loginBlocks (login : StdString) (users : Rows (Rows CreateUser)) :
    Named (loginBlocks login users) := by
  induction users with
  | nil =>
    rintro added ⟨⟩ property hproperty
    cases hproperty
  | cons block blocks ih =>
    intro added h
    obtain ⟨b, -, h⟩ := bind_eq_ok.1 h
    obtain ⟨first, hfirst, h⟩ := bind_eq_ok.1 h
    obtain ⟨rest, hrest, h⟩ := bind_eq_ok.1 h
    cases h
    exact List.forall_mem_append.2 ⟨named_loginBlock _ _ _ hfirst, ih _ hrest⟩

theorem named_login (name : StdString) : Named (login server name) := by
  intro added h
  obtain ⟨properties, hproperties, h⟩ := bind_eq_ok.1 h
  rw [← Except.ok.inj h]
  split_ifs
  · exact named_error _ _ rfl
  · exact named_loginBlocks _ _ _ hproperties

theorem named_lookingBlock (dataHash : Decoded) : Named (lookingBlock server dataHash) := by
  apply named_bind
  rintro (_ | hashes)
  · exact named_error _
  · exact named_result _

theorem named_getDistributionMap (objectIds : List Decoded) :
    Named (getDistributionMap server objectIds) := by
  apply named_bind
  rintro (_ | blocks)
  · rintro added ⟨⟩ property hproperty
    cases hproperty
  · exact named_bind fun _ => named_result _

theorem named_subscribeRequest : Named (subscribeRequest server request) := by
  apply named_bind
  intro args
  apply named_bind
  intro cb
  apply named_bind
  intro method
  by_cases hchannel : method = text "channel"
  · rw [if_pos hchannel]
    apply named_bind
    intro channelId
    apply named_bind
    intro bytes
    split_ifs
    · exact named_result _
    · exact named_bind fun _ => named_result _
  · rw [if_neg hchannel]
    exact named_fail _

theorem named_methods : ∀ method ∈ methods, Named (method.2 server request) := by
  have hone : ∀ {α : Type} {x : Answered α} {f : α → JsonValue},
      Named (x >>= fun a => .ok (result (f a))) := named_bind fun _ => named_result _
  unfold methods
  simp only [List.forall_mem_cons, List.not_mem_nil, false_imp_iff, implies_true, and_true]
  refine ⟨?_, ?_, ?_, ?_, ?_, ?_, ?_, ?_, ?_, ?_, ?_, ?_, ?_, ?_⟩
  · exact named_bind fun _ => named_bind fun _ => named_login _
  · exact hone
  · exact named_bind fun _ => named_bind fun _ => named_bind fun _ => hone
  · exact named_bind fun _ => named_bind fun _ => named_bind fun _ => named_lookingBlock _
  · exact named_bind fun _ => named_bind fun _ => hone
  · exact named_bind fun _ => named_bind fun _ => hone
  · exact named_bind fun _ => named_bind fun _ => named_bind fun _ => hone
  · exact named_bind fun _ => named_bind fun _ => named_bind fun _ => hone
  · exact hone
  · exact named_bind fun _ => named_bind fun _ => named_bind fun _ => named_bind fun _ =>
      named_bind fun _ => named_bind fun _ => named_bind fun _ => named_result _
  · exact named_subscribeRequest
  · exact named_bind fun _ => named_bind fun _ => named_bind fun _ => hone
  · exact hone
  · exact named_bind fun _ => named_bind fun _ => named_bind fun _ => named_getDistributionMap _

/-! ### The law -/

/-- The request names the method. -/
def Invokes (request : Properties) (name : String) : Prop :=
  getString request (text "invoke") = .ok (some (text name))

/-- What a request has to be, and what the server has to hold, for the law. -/
structure Regular (server : Server) (request : Properties) : Prop where
  /-- Three methods look for the first argument without a look at the size. -/
  first : ∀ name ∈ ["upload", "devices", "broadcast"], Invokes request name →
    paramsOf request ≠ some []
  /-- `subscribe` takes two arguments and looks for the third one. -/
  third : Invokes request "subscribe" → ∀ cb type type', paramsOf request ≠
    some [.primitive cb type, .primitive (text "channel") type']
  numbers : Invokes request "get_channel_messages" → NumbersFit request
  users : Invokes request "login" → ∀ name type args,
    paramsOf request = some (.primitive name type :: args) → ¬ RepeatedUser name server.users
  replicas : Invokes request "distribution_map" → ∀ items args objectIds,
    paramsOf request = some (.array items :: args) → Decodes items objectIds →
      ¬ Gapped server objectIds

theorem invoke_eq {name : StdString} (h : getString request (text "invoke") = .ok (some name)) :
    invoke server request = match methods.find? fun method => text method.1 = name with
      | some method => method.2 server request
      | none => fail (text "invalid method '" ++ name ++ text "'") := by
  unfold invoke
  rw [h]
  rfl

theorem named_invoke : Named (invoke server request) := by
  intro added h
  obtain ⟨found, hfound, h'⟩ := bind_eq_ok.1 h
  cases found with
  | none => cases h'
  | some name =>
    rw [invoke_eq hfound] at h
    cases hmethod : methods.find? fun method => text method.1 = name with
    | none =>
      rw [hmethod] at h
      cases h
    | some method =>
      rw [hmethod] at h
      exact named_methods method (List.mem_of_find?_eq_some hmethod) added h

theorem settled_methods (h : Regular server request) :
    ∀ method ∈ methods, Invokes request method.1 → Settled (method.2 server request) := by
  unfold methods
  simp only [List.forall_mem_cons, List.not_mem_nil, false_imp_iff, implies_true, and_true]
  refine ⟨?_, ?_, ?_, ?_, ?_, ?_, ?_, ?_, ?_, ?_, ?_, ?_, ?_, ?_⟩
  · exact fun hname => settled_loginRequest_iff.2 (h.users hname)
  · exact fun _ => settled_logHead
  · exact fun hname => settled_uploadRequest_iff.2 (h.first _ (by decide) hname)
  · exact fun _ => settled_lookingBlockRequest
  · exact fun _ => settled_downloadRequest
  · exact fun _ => settled_downloadRequest
  · exact fun hname => settled_devicesRequest_iff.2 (h.first _ (by decide) hname)
  · exact fun hname => settled_broadcastRequest_iff.2 (h.first _ (by decide) hname)
  · exact fun hname => settled_getChannelMessagesRequest_iff.2 (h.numbers hname)
  · exact fun _ => settled_allocateStorageRequest
  · exact fun hname => settled_subscribeRequest_iff.2 (h.third hname)
  · exact fun _ => settled_balanceRequest
  · exact fun _ => settled_statistics
  · exact fun hname => settled_distributionMapRequest_iff.2 (h.replicas hname)

theorem settled_invoke_iff : Settled (invoke server request) ↔ Regular server request := by
  refine ⟨?_, ?_⟩
  · intro h
    refine ⟨?_, ?_, ?_, ?_, ?_⟩
    · intro name hname hinvokes
      rw [invoke_eq hinvokes] at h
      simp only [List.mem_cons, List.not_mem_nil, or_false] at hname
      obtain rfl | rfl | rfl := hname
      · exact settled_uploadRequest_iff.1 h
      · exact settled_devicesRequest_iff.1 h
      · exact settled_broadcastRequest_iff.1 h
    · intro hinvokes
      rw [invoke_eq hinvokes] at h
      exact settled_subscribeRequest_iff.1 h
    · intro hinvokes
      rw [invoke_eq hinvokes] at h
      exact settled_getChannelMessagesRequest_iff.1 h
    · intro hinvokes
      rw [invoke_eq hinvokes] at h
      exact settled_loginRequest_iff.1 h
    · intro hinvokes
      rw [invoke_eq hinvokes] at h
      exact settled_distributionMapRequest_iff.1 h
  · intro h
    unfold invoke
    rw [settled_bind_iff (defined_getString _ _)]
    rintro (_ | name) hname
    · exact settled_fail _
    · dsimp only
      cases hmethod : methods.find? fun method => text method.1 = name with
      | none => exact settled_fail _
      | some method =>
        have htext : text method.1 = name := by simpa using List.find?_some hmethod
        apply settled_methods h method (List.mem_of_find?_eq_some hmethod)
        rw [Invokes, htext]
        exact hname

/-! ### The id -/

/-- A number that is passed as unsigned keeps its text exactly if it is not negative. -/
theorem decimal_toUInt64_iff {id : Int} (hmin : -2 ^ 31 ≤ id) (hmax : id < 2 ^ 31) :
    decimal (toUInt64 id) = signedDecimal id ↔ 0 ≤ id := by
  refine ⟨?_, ?_⟩
  · intro h
    have hnumber := congrArg number h
    rw [number_decimal, number_signedDecimal] at hnumber
    omega
  · intro h
    have hsame : toUInt64 id = id.toNat := by
      rw [toUInt64]
      omega
    rw [hsame, signedDecimal, if_neg (by omega)]

theorem id_ne : text "id" ≠ text "result" ∧ text "id" ≠ text "error" := by decide

theorem filter_outcome {id : JsonValue} {added : Properties} (h : Outcome added) :
    (((text "id", id) :: added).filter fun property => property.1 = text "id") = [(text "id", id)] ∧
      (((text "id", id) :: added).filter fun property =>
        property.1 = text "result" ∨ property.1 = text "error") = added := by
  refine ⟨?_, ?_⟩
  · rw [List.filter_cons_of_pos (by simp), List.filter_eq_nil_iff.2]
    intro property hproperty
    rw [decide_eq_true_eq]
    rcases h property hproperty with hname | hname
    · exact hname.trans_ne id_ne.1.symm
    · exact hname.trans_ne id_ne.2.symm
  · rw [List.filter_cons_of_neg (by simpa using id_ne), List.filter_eq_self.2]
    intro property hproperty
    exact decide_eq_true (h property hproperty)

theorem replies_object_iff {id : Int} (hmin : -2 ^ 31 ≤ id) (hmax : id < 2 ^ 31) {added : Properties}
    (h : Outcome added) : Replies id (.ok (.object ((text "id", numberValue id) :: added))) ↔
      0 ≤ id ∧ added.length = 1 := by
  obtain ⟨hid, hadded⟩ := @filter_outcome (numberValue id) added h
  rw [← decimal_toUInt64_iff hmin hmax]
  refine ⟨?_, ?_⟩
  · rintro ⟨properties, hproperties, hcarried, hone⟩
    cases hproperties
    rw [hid] at hcarried
    rw [hadded] at hone
    injection hcarried with hcarried
    injection hcarried with hcarried
    exact ⟨hcarried, hone⟩
  · rintro ⟨hcarried, hone⟩
    refine ⟨_, rfl, ?_, ?_⟩
    · rw [hid, List.map_singleton, numberValue, hcarried]
      rfl
    · rw [hadded, hone]

/-- A server without data. -/
def emptyServer : Server where
  users := []
  leafs := []
  uploadData := fun _ => .error (text "Not enough storage")
  replicas := fun _ => []
  restore := fun _ => .error (text "Not found")
  devices := fun _ => []
  broadcast := fun _ => .error (text "Invalid data")
  channelMessages := ⟨[], .nil, by simp⟩
  parseDer := fun _ => .ok ()
  allocate := fun _ _ => .error (text "Invalid format")
  subscribeTimerStarted := true
  startTimer := .ok ()
  balance := fun _ => []
  statistic := .ok .null
  nodes := fun _ => []

def requestOf (id : StdString) (name : String) (args : List JsonValue) : Properties :=
  [(text "id", .primitive id .integer), (text "invoke", stringValue (text name)),
    (text "params", .array args)]

end Vds.WsApi
