import Vds.DhtNetwork.DatagramProtocol
import Vds.Kernel.Canonical

/-! The datagrams of a message, as a list, and what the receiver reads from them. -/

namespace Vds.DhtNetwork

open BinarySerializer BinaryDeserializer

/-! ### What is sent -/

/-- What `prepare_to_send` is called with. -/
structure Outgoing where
  messageType : UInt8
  targetNode : ConstDataBuffer
  hops : List ConstDataBuffer
  message : ConstDataBuffer

/-- What `send_message` and `proxy_message` promise of their messages, and of the MTU. -/
structure Sendable (mtu : Nat) (m : Outgoing) : Prop where
  clear : m.messageType &&& MessageType.specialCommand = 0
  target : m.targetNode.length = 32
  hops : ∀ hop ∈ m.hops, hop.length = 32
  count : m.hops.length < 255
  size : m.message.length < 2 ^ 32
  least : minMtu ≤ mtu
  fits : 1 + 4 + 4 + 32 + 1 + m.hops.length * 32 + 32 < mtu

/-- The message with the number `index`: its header, its body and its signature. -/
def signed (hmac : Hmac) (key : ConstDataBuffer) (index : Nat) (part : UInt8 × ConstDataBuffer) :
    ConstDataBuffer :=
  part.1 :: indexBytes index ++ part.2 ++ hmac.signature key (part.1 :: indexBytes index ++ part.2)

/-- The pieces of the message behind its first datagram. -/
def chunks (size : Nat) : Nat → ConstDataBuffer → List ConstDataBuffer
  | 0, _ => []
  | n + 1, rest => rest.take size :: if rest.length ≤ size then [] else chunks size n (rest.drop size)

def continueParts (pieces : List ConstDataBuffer) : List (UInt8 × ConstDataBuffer) :=
  pieces.map fun piece => (MessageType.continueData, piece)

def extraOf (partner : ConstDataBuffer) (m : Outgoing) : ConstDataBuffer :=
  routing partner m.targetNode m.hops

def extraSizeOf (partner : ConstDataBuffer) (m : Outgoing) : Nat :=
  routingSize partner m.targetNode m.hops

/-- The message goes in one datagram. -/
def IsSingle (partner : ConstDataBuffer) (mtu : Nat) (m : Outgoing) : Prop :=
  1 + 4 + 32 + m.message.length + extraSizeOf partner m < mtu

instance decidableIsSingle (partner : ConstDataBuffer) (mtu : Nat) (m : Outgoing) :
    Decidable (IsSingle partner mtu m) := inferInstanceAs (Decidable (_ < _))

/-- How much of the message is in its first datagram, if it needs more than one. -/
def firstSize (partner : ConstDataBuffer) (mtu : Nat) (m : Outgoing) : Nat :=
  mtu - (1 + 4 + 4 + 32 + extraSizeOf partner m)

def singlePart (partner : ConstDataBuffer) (m : Outgoing) : UInt8 × ConstDataBuffer :=
  (byRoute partner m.targetNode m.hops MessageType.singleData MessageType.routeSingleData
    MessageType.proxySingleData ||| m.messageType, extraOf partner m ++ m.message)

def firstPart (partner : ConstDataBuffer) (mtu : Nat) (m : Outgoing) : UInt8 × ConstDataBuffer :=
  (byRoute partner m.targetNode m.hops MessageType.data MessageType.routeData MessageType.proxyData |||
    m.messageType,
    putUInt32 (UInt32.ofNat m.message.length) ++ extraOf partner m ++
      m.message.take (firstSize partner mtu m))

/-- The message behind its first datagram, in pieces. -/
def restOf (partner : ConstDataBuffer) (mtu : Nat) (m : Outgoing) : List ConstDataBuffer :=
  chunks (mtu - (1 + 4 + 32)) (m.message.length + 1) (m.message.drop (firstSize partner mtu m))

/-- Commands and bodies of the datagrams of a message. -/
def partsOf (partner : ConstDataBuffer) (mtu : Nat) (m : Outgoing) : List (UInt8 × ConstDataBuffer) :=
  if IsSingle partner mtu m then [singlePart partner m]
  else firstPart partner mtu m :: continueParts (restOf partner mtu m)

/-! ### The queue -/

variable {hmac : Hmac}

/-- The session with a datagram queued. -/
def enqueueOne (hmac : Hmac) (p : DatagramProtocol) (part : UInt8 × ConstDataBuffer) :
    DatagramProtocol :=
  let datagram := signed hmac p.sessionKey p.lastOutputIndex part
  { p with
    outputMessages := p.outputMessages.emplace p.lastOutputIndex datagram
    lastOutputIndex := (p.lastOutputIndex + 1) % indexMod }

def enqueue (hmac : Hmac) (parts : List (UInt8 × ConstDataBuffer)) (p : DatagramProtocol) :
    DatagramProtocol := parts.foldl (enqueueOne hmac) p

theorem addDatagram_apply (part : UInt8 × ConstDataBuffer) (s : Session) :
    addDatagram hmac part.1 part.2 s = .ok () { s with self := enqueue hmac [part] s.self } := rfl

theorem addContinueData_apply {size : Nat} (hs : 0 < size) (n : Nat) {rest : ConstDataBuffer}
    (hn : rest.length < n) (s : Session) :
    addContinueData hmac size n rest s =
      .ok () { s with self := enqueue hmac (continueParts (chunks size n rest)) s.self } := by
  induction n generalizing rest s with
  | zero => cases hn
  | succ n ih =>
    unfold addContinueData chunks
    rw [StateError.bind_of_ok (addDatagram_apply (MessageType.continueData, rest.take size) s)]
    split_ifs with hle
    · rfl
    · rw [ih (by rw [List.length_drop]; omega)]
      rfl

/-- The fields of a session that sending leaves alone. -/
structure SendsOnly (p p' : DatagramProtocol) : Prop where
  failedState : p'.failedState = p.failedState
  thisNodeId : p'.thisNodeId = p.thisNodeId
  partnerNodeId : p'.partnerNodeId = p.partnerNodeId
  sessionKey : p'.sessionKey = p.sessionKey
  mtu : p'.mtu = p.mtu
  lastInputIndex : p'.lastInputIndex = p.lastInputIndex
  expectedIndex : p'.expectedIndex = p.expectedIndex
  inputMessages : p'.inputMessages = p.inputMessages

theorem sendsOnly_enqueue (parts : List (UInt8 × ConstDataBuffer)) (p : DatagramProtocol) :
    SendsOnly p (enqueue hmac parts p) := by
  induction parts generalizing p with
  | nil => exact ⟨rfl, rfl, rfl, rfl, rfl, rfl, rfl, rfl⟩
  | cons part parts ih =>
    obtain ⟨h₁, h₂, h₃, h₄, h₅, h₆, h₇, h₈⟩ := ih (enqueue hmac [part] p)
    exact ⟨h₁, h₂, h₃, h₄, h₅, h₆, h₇, h₈⟩

/-- The datagrams of `parts`, numbered from `start` on. -/
def datagrams (hmac : Hmac) (key : ConstDataBuffer) :
    Nat → List (UInt8 × ConstDataBuffer) → List ConstDataBuffer
  | _, [] => []
  | start, part :: parts => signed hmac key start part :: datagrams hmac key (start + 1) parts

@[simp] theorem length_datagrams (key : ConstDataBuffer) (start : Nat)
    (parts : List (UInt8 × ConstDataBuffer)) :
    (datagrams hmac key start parts).length = parts.length := by
  induction parts generalizing start with
  | nil => rfl
  | cons part parts ih => exact congrArg (· + 1) (ih (start + 1))

theorem getElem?_datagrams (key : ConstDataBuffer) (start i : Nat)
    (parts : List (UInt8 × ConstDataBuffer)) :
    (datagrams hmac key start parts)[i]? = parts[i]?.map (signed hmac key (start + i)) := by
  induction parts generalizing start i with
  | nil => rfl
  | cons part parts ih =>
    cases i with
    | zero => rfl
    | succ i =>
      change (datagrams hmac key (start + 1) parts)[i]? = _
      rw [ih, Nat.add_right_comm]
      rfl

/-- What is queued with the next numbers, when these are free and do not run out. -/
theorem enqueue_spec (parts : List (UInt8 × ConstDataBuffer)) (p : DatagramProtocol)
    (hfree : ∀ i, p.lastOutputIndex ≤ i → p.outputMessages.find i = none)
    (hlast : p.lastOutputIndex + parts.length < indexMod) :
    (enqueue hmac parts p).lastOutputIndex = p.lastOutputIndex + parts.length ∧
      ∀ i, (enqueue hmac parts p).outputMessages.find i =
        if p.lastOutputIndex ≤ i then
          (datagrams hmac p.sessionKey p.lastOutputIndex parts)[i - p.lastOutputIndex]?
        else p.outputMessages.find i := by
  induction parts generalizing p with
  | nil =>
    refine ⟨rfl, fun i => ?_⟩
    split_ifs with hi
    · exact hfree i hi
    · rfl
  | cons part parts ih =>
    rw [List.length_cons] at hlast
    have hnext : (enqueue hmac [part] p).lastOutputIndex = p.lastOutputIndex + 1 :=
      Nat.mod_eq_of_lt (by omega)
    have hfind : ∀ i, (enqueue hmac [part] p).outputMessages.find i =
        if i = p.lastOutputIndex then some (signed hmac p.sessionKey p.lastOutputIndex part)
        else p.outputMessages.find i :=
      OrderedMap.find_emplace p.outputMessages _ (hfree _ le_rfl)
    obtain ⟨hl, hf⟩ := ih (enqueue hmac [part] p)
      (fun i hi => by rw [hfind, if_neg (by omega), hfree i (by omega)]) (by omega)
    rw [hnext] at hl hf
    refine ⟨by rw [List.length_cons]; exact hl.trans (by omega), fun i => ?_⟩
    change (enqueue hmac parts (enqueue hmac [part] p)).outputMessages.find i = _
    rw [hf, hfind]
    rcases Nat.lt_trichotomy i p.lastOutputIndex with hlt | rfl | hgt
    · rw [if_neg (by omega), if_neg (by omega), if_neg (by omega)]
    · rw [if_neg (by omega), if_pos rfl, if_pos le_rfl, Nat.sub_self]
      rfl
    · rw [if_pos (by omega), if_pos hgt.le]
      obtain ⟨j, rfl⟩ : ∃ j, i = p.lastOutputIndex + 1 + j := ⟨i - (p.lastOutputIndex + 1), by omega⟩
      rw [Nat.add_sub_cancel_left, show p.lastOutputIndex + 1 + j - p.lastOutputIndex = j + 1 by omega]
      rfl

/-! ### `prepare_to_send` -/

theorem chunks_flatten {size : Nat} (hs : 0 < size) {n : Nat} {rest : ConstDataBuffer}
    (hn : rest.length < n) : (chunks size n rest).flatten = rest := by
  induction n generalizing rest with
  | zero => cases hn
  | succ n ih =>
    unfold chunks
    split_ifs with hle
    · rw [List.flatten_singleton, List.take_of_length_le hle]
    · rw [List.flatten_cons, ih (by rw [List.length_drop]; omega), List.take_append_drop]

theorem chunks_ne_nil {size n : Nat} {rest : ConstDataBuffer} (hn : rest.length < n) :
    chunks size n rest ≠ [] := by
  cases n with
  | zero => cases hn
  | succ n => exact List.cons_ne_nil _ _

theorem length_pos_of_mem_chunks {size : Nat} (hs : 0 < size) {n : Nat} {rest piece : ConstDataBuffer}
    (hr : 0 < rest.length) (hp : piece ∈ chunks size n rest) : 0 < piece.length := by
  induction n generalizing rest with
  | zero => cases hp
  | succ n ih =>
    unfold chunks at hp
    rw [List.mem_cons] at hp
    obtain rfl | hp := hp
    · rw [List.length_take]
      omega
    · split_ifs at hp with hle
      · cases hp
      · exact ih (by rw [List.length_drop]; omega) hp

theorem partsOf_ne_nil (partner : ConstDataBuffer) (mtu : Nat) (m : Outgoing) :
    partsOf partner mtu m ≠ [] := by
  unfold partsOf
  split_ifs
  · exact List.cons_ne_nil _ _
  · exact List.cons_ne_nil _ _

/-- The state in which `prepare_to_send` leaves a session. -/
def prepared (hmac : Hmac) (m : Outgoing) (p : DatagramProtocol) : DatagramProtocol :=
  enqueue hmac (partsOf p.partnerNodeId p.mtu m) p

theorem prepareToSend_apply (m : Outgoing) (s : Session) (hmtu : 37 < s.self.mtu)
    (hlast : s.self.lastOutputIndex ≤ (prepared hmac m s.self).lastOutputIndex) :
    prepareToSend hmac m.messageType m.targetNode m.hops m.message s =
      .ok (s.self.lastOutputIndex, (prepared hmac m s.self).lastOutputIndex)
        { s with self := prepared hmac m s.self } := by
  have hadd : ∀ (part : UInt8 × ConstDataBuffer) (t : Session),
      addDatagram hmac part.1 part.2 t = .ok () { t with self := enqueue hmac [part] t.self } :=
    addDatagram_apply
  unfold prepareToSend
  rw [StateError.bind_of_ok (StateError.get_apply s)]
  by_cases hone : IsSingle s.self.partnerNodeId s.self.mtu m
  · have hparts : prepared hmac m s.self = enqueue hmac [singlePart s.self.partnerNodeId m] s.self := by
      unfold prepared partsOf
      rw [if_pos hone]
    rw [hparts] at hlast ⊢
    unfold IsSingle extraSizeOf at hone
    dsimp only
    rw [if_pos hone, StateError.bind_of_ok (hadd (_, _) s), StateError.bind_of_ok (StateError.get_apply _)]
    exact congrFun (if_neg hlast.not_gt) _
  · have hparts : prepared hmac m s.self = enqueue hmac (firstPart s.self.partnerNodeId s.self.mtu m ::
        continueParts (restOf s.self.partnerNodeId s.self.mtu m)) s.self := by
      unfold prepared partsOf
      rw [if_neg hone]
    rw [hparts] at hlast ⊢
    unfold IsSingle extraSizeOf at hone
    dsimp only
    rw [if_neg hone, StateError.bind_of_ok (hadd (_, _) s),
      StateError.bind_of_ok (addContinueData_apply (by omega) _ (by rw [List.length_drop]; omega) _),
      StateError.bind_of_ok (StateError.get_apply _)]
    exact congrFun (if_neg hlast.not_gt) _

end Vds.DhtNetwork
