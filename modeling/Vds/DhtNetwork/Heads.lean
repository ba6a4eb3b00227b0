import Vds.DhtNetwork.Fragments

/-! What `continue_process_messages` reads from the datagrams that `prepare_to_send` makes. -/

namespace Vds.DhtNetwork

open BinarySerializer BinaryDeserializer

variable {hmac : Hmac}

/-! ### Reading at an offset -/

theorem ok_bind {ε α β : Type} (a : α) (f : α → Except ε β) : (Except.ok a >>= f) = f a := rfl

theorem bytesAt_append {d pre mid post : ConstDataBuffer} {offset size : Nat}
    (h : d = pre ++ mid ++ post) (ho : pre.length = offset) (hs : mid.length = size) :
    bytesAt d offset size = .ok mid := by
  subst h ho hs
  unfold bytesAt
  rw [if_pos (by simp only [List.length_append]; omega), List.append_assoc, List.drop_left,
    List.take_left]

theorem bodyFrom_append {d pre mid post : ConstDataBuffer} {offset : Nat}
    (h : d = pre ++ mid ++ post) (ho : pre.length = offset) (hpost : post.length = 32) :
    bodyFrom d offset = .ok mid := by
  subst h ho
  unfold bodyFrom
  have hsize : (pre ++ mid ++ post).length - 32 - pre.length = mid.length := by
    simp only [List.length_append]
    omega
  rw [if_pos (by simp only [List.length_append]; omega), hsize, List.append_assoc, List.drop_left,
    List.take_left]

theorem hopsAt_append {hops : List ConstDataBuffer} (hh : ∀ hop ∈ hops, hop.length = 32)
    {d pre post : ConstDataBuffer} {offset : Nat} (h : d = pre ++ hops.flatten ++ post)
    (ho : pre.length = offset) : hopsAt d offset hops.length = .ok hops := by
  induction hops generalizing pre offset with
  | nil => rfl
  | cons hop hops ih =>
    have hhop : hop.length = 32 := hh hop List.mem_cons_self
    rw [List.flatten_cons] at h
    have hread : bytesAt d offset 32 = .ok hop :=
      @bytesAt_append d pre hop (hops.flatten ++ post) offset 32
        (by rw [h]; simp only [List.append_assoc]) ho hhop
    have hrest : hopsAt d (offset + 32) hops.length = .ok hops :=
      @ih (fun x hx => hh x (List.mem_cons_of_mem _ hx)) (pre ++ hop) (offset + 32)
        (by rw [h]; simp only [List.append_assoc]) (by rw [List.length_append, ho, hhop])
    rw [List.length_cons, hopsAt, hread, ok_bind, hrest]
    rfl

theorem bigEndian_byte (b : UInt8) : (bigEndian [b]).toNat = b.toNat := by
  rw [bigEndian_toNat (Nat.le_of_ble_eq_true rfl)]
  exact Nat.ofDigits_singleton

theorem numberAt_append {d pre mid post : ConstDataBuffer} {offset size : Nat}
    (h : d = pre ++ mid ++ post) (ho : pre.length = offset) (hs : mid.length = size) :
    numberAt d offset size = .ok (bigEndian mid).toNat := by
  unfold numberAt
  rw [bytesAt_append h ho hs]
  rfl

/-! ### The parts of a signed datagram -/

@[simp] theorem length_indexBytes (index : Nat) : (indexBytes index).length = 4 := rfl

@[simp] theorem length_putUInt32 (v : UInt32) : (putUInt32 v).length = 4 := rfl

theorem length_signed (key : ConstDataBuffer) (index : Nat) (part : UInt8 × ConstDataBuffer) :
    (signed hmac key index part).length = 37 + part.2.length := by
  unfold signed
  simp only [List.length_append, List.length_cons, length_indexBytes, hmac.size]
  omega

theorem signed_command (key : ConstDataBuffer) (index : Nat) (part : UInt8 × ConstDataBuffer) :
    numberAt (signed hmac key index part) 0 1 = .ok part.1.toNat := by
  rw [← bigEndian_byte]
  exact @numberAt_append _ [] [part.1] _ 0 1 rfl rfl rfl

theorem toNat_indexBytes {index : Nat} (hi : index < indexMod) :
    (bigEndian (indexBytes index)).toNat = index := by
  unfold indexBytes
  rw [toNat_bigEndian_putUInt32, UInt32.toNat_ofNat']
  exact Nat.mod_eq_of_lt hi

theorem signed_index (key : ConstDataBuffer) {index : Nat} (hi : index < indexMod)
    (part : UInt8 × ConstDataBuffer) :
    numberAt (signed hmac key index part) 1 4 = .ok index := by
  have hread : numberAt (signed hmac key index part) 1 4 = .ok (bigEndian (indexBytes index)).toNat :=
    @numberAt_append _ [part.1] (indexBytes index) _ 1 4
      (by unfold signed; rw [List.append_assoc]; rfl) rfl rfl
  rw [hread, toNat_indexBytes hi]

section Parts

variable {key : ConstDataBuffer} {index offset : Nat} {command : UInt8}
  {body pre mid post : ConstDataBuffer}

theorem signed_bytesAt {size : Nat} (hb : body = pre ++ mid ++ post) (ho : 5 + pre.length = offset)
    (hs : mid.length = size) : bytesAt (signed hmac key index (command, body)) offset size = .ok mid := by
  subst hb
  exact @bytesAt_append _ (command :: indexBytes index ++ pre) mid
    (post ++ hmac.signature key (command :: indexBytes index ++ (pre ++ mid ++ post))) offset size
    (by unfold signed; simp only [List.append_assoc])
    (by rw [List.length_append, List.length_cons, length_indexBytes]; omega) hs

theorem signed_numberAt {size : Nat} (hb : body = pre ++ mid ++ post) (ho : 5 + pre.length = offset)
    (hs : mid.length = size) :
    numberAt (signed hmac key index (command, body)) offset size = .ok (bigEndian mid).toNat := by
  unfold numberAt
  rw [signed_bytesAt hb ho hs]
  rfl

theorem signed_bodyFrom (hb : body = pre ++ mid) (ho : 5 + pre.length = offset) :
    bodyFrom (signed hmac key index (command, body)) offset = .ok mid := by
  subst hb
  exact @bodyFrom_append _ (command :: indexBytes index ++ pre) mid
    (hmac.signature key (command :: indexBytes index ++ (pre ++ mid))) offset
    (by unfold signed; simp only [List.append_assoc])
    (by rw [List.length_append, List.length_cons, length_indexBytes]; omega) (hmac.size _ _)

theorem signed_hopsAt {hops : List ConstDataBuffer} (hh : ∀ hop ∈ hops, hop.length = 32)
    (hb : body = pre ++ hops.flatten ++ post) (ho : 5 + pre.length = offset) :
    hopsAt (signed hmac key index (command, body)) offset hops.length = .ok hops := by
  subst hb
  exact @hopsAt_append hops hh _ (command :: indexBytes index ++ pre)
    (post ++ hmac.signature key (command :: indexBytes index ++ (pre ++ hops.flatten ++ post))) offset
    (by unfold signed; simp only [List.append_assoc])
    (by rw [List.length_append, List.length_cons, length_indexBytes]; omega)

end Parts

/-! ### The first byte -/

theorem or_and_right (a b c : UInt8) : (a ||| b) &&& c = a &&& c ||| b &&& c :=
  UInt8.toBitVec_inj.1 BitVec.and_or_distrib_right

/-- A byte of a command and a type falls apart into the two. -/
theorem command_bits {command messageType : UInt8} (hc : command &&& MessageType.specialCommand = command)
    (ht : messageType &&& MessageType.specialCommand = 0) :
    (command ||| messageType) &&& MessageType.specialCommand = command ∧
      (command ||| messageType) &&& ~~~MessageType.specialCommand = messageType := by
  have hoff : command &&& ~~~MessageType.specialCommand = 0 := by
    rw [← hc, UInt8.and_assoc, UInt8.and_not_self, UInt8.and_zero]
  have hon : messageType &&& ~~~MessageType.specialCommand = messageType := by
    have hall := or_and_right MessageType.specialCommand (~~~MessageType.specialCommand) messageType
    rw [UInt8.or_not_self, UInt8.neg_one_and, UInt8.and_comm _ messageType, ht, UInt8.zero_or,
      UInt8.and_comm] at hall
    exact hall.symm
  rw [or_and_right, or_and_right, hc, ht, hoff, hon, UInt8.or_zero, UInt8.zero_or]
  exact ⟨rfl, rfl⟩

/-! ### The first datagram -/

/-- What the receiver is to hand on for a message of the node `source`. -/
def incomingOf (source : ConstDataBuffer) (m : Outgoing) : Incoming :=
  ⟨m.messageType, m.targetNode, source :: m.hops, m.message⟩

/-- `continue_process_messages` does not mistake the message for one that ends in its first datagram. -/
def Readable (mtu : Nat) (m : Outgoing) : Prop :=
  m.hops.length < 2 ∨ 70 + 32 * m.hops.length + m.message.length < mtu ∨
    mtu < m.message.length + 106

instance decidableReadable (mtu : Nat) (m : Outgoing) : Decidable (Readable mtu m) :=
  inferInstanceAs (Decidable (_ ∨ _ ∨ _))

section Head

variable {key : ConstDataBuffer} {index offset mtu : Nat} {source partner : ConstDataBuffer} {m : Outgoing}

theorem length_flatten_hops (h : Sendable mtu m) : m.hops.flatten.length = 32 * m.hops.length := by
  rw [List.length_flatten, List.map_congr_left h.hops, List.map_const', List.sum_replicate]
  exact Nat.mul_comm _ _

theorem length_extraOf (h : Sendable mtu m) : (extraOf partner m).length = extraSizeOf partner m := by
  unfold extraOf extraSizeOf routing routingSize
  split_ifs
  · rfl
  · exact h.target
  · rw [List.length_append, List.length_cons, h.target, length_flatten_hops h]
    omega

theorem hopsCount (h : Sendable mtu m) : (bigEndian [UInt8.ofNat m.hops.length]).toNat = m.hops.length := by
  rw [bigEndian_byte, UInt8.toNat_ofNat']
  exact Nat.mod_eq_of_lt (by have := h.count; omega)

variable {skip rest : ConstDataBuffer}

theorem signed_routed (h : Sendable mtu m) (command : UInt8) (hs : 5 + skip.length = offset) :
    bytesAt (signed hmac key index (command, skip ++ m.targetNode ++ rest)) offset 32 = .ok m.targetNode ∧
      bodyFrom (signed hmac key index (command, skip ++ m.targetNode ++ rest)) (offset + 32) = .ok rest :=
  ⟨signed_bytesAt rfl hs h.target,
    signed_bodyFrom rfl (by rw [List.length_append, h.target]; omega)⟩

theorem signed_proxied (h : Sendable mtu m) (command : UInt8) (hs : 5 + skip.length = offset) :
    let d := signed hmac key index (command,
      skip ++ (m.targetNode ++ UInt8.ofNat m.hops.length :: m.hops.flatten) ++ rest)
    bytesAt d offset 32 = .ok m.targetNode ∧ numberAt d (offset + 32) 1 = .ok m.hops.length ∧
      hopsAt d (offset + 33) m.hops.length = .ok m.hops ∧
      bodyFrom d (offset + 33 + 32 * m.hops.length) = .ok rest := by
  have hcons : UInt8.ofNat m.hops.length :: m.hops.flatten =
      [UInt8.ofNat m.hops.length] ++ m.hops.flatten := rfl
  rw [hcons]
  refine ⟨?_, ?_, ?_, ?_⟩
  · exact @signed_bytesAt _ _ _ _ _ _ skip m.targetNode
      ([UInt8.ofNat m.hops.length] ++ m.hops.flatten ++ rest) 32
      (by simp only [List.append_assoc]) hs h.target
  · refine Eq.trans ?_ (congrArg Except.ok (hopsCount h))
    exact @signed_numberAt _ _ _ _ _ _ (skip ++ m.targetNode) [UInt8.ofNat m.hops.length]
      (m.hops.flatten ++ rest) 1 (by simp only [List.append_assoc])
      (by rw [List.length_append, h.target]; omega) rfl
  · exact @signed_hopsAt _ _ _ _ _ _ (skip ++ m.targetNode ++ [UInt8.ofNat m.hops.length]) rest m.hops
      h.hops (by simp only [List.append_assoc])
      (by rw [List.length_append, List.length_append, h.target, List.length_singleton]; omega)
  · refine signed_bodyFrom rfl ?_
    rw [List.length_append, List.length_append, List.length_append, h.target, List.length_singleton,
      length_flatten_hops h]
    omega

theorem readHead_singlePart (h : Sendable mtu m) :
    readHead partner source (signed hmac key index (singlePart partner m)) =
      .ok (.single (incomingOf source m)) := by
  unfold readHead
  have hfirst : numberAt (signed hmac key index (singlePart partner m)) 0 1 =
      .ok (singlePart partner m).1.toNat := signed_command key index _
  rw [hfirst, ok_bind]
  dsimp only
  rw [UInt8.ofNat_toNat]
  unfold singlePart extraOf routing byRoute incomingOf
  by_cases hh : m.hops = []
  · rw [hh, List.isEmpty_nil]
    simp only [if_true]
    by_cases ht : partner = m.targetNode
    · simp only [if_pos ht]
      have hbits := command_bits (show MessageType.singleData &&& _ = _ from rfl) h.clear
      have hbody : bodyFrom (signed hmac key index (MessageType.singleData ||| m.messageType,
          [] ++ m.message)) 5 = .ok m.message := signed_bodyFrom rfl rfl
      rw [hbits.1, hbits.2, if_pos rfl, hbody, ok_bind, ht]
      rfl
    · simp only [if_neg ht]
      have hbits := command_bits (show MessageType.routeSingleData &&& _ = _ from rfl) h.clear
      obtain ⟨htarget, hbody⟩ := @signed_routed hmac key index 5 mtu m [] m.message h
        (MessageType.routeSingleData ||| m.messageType) rfl
      rw [List.nil_append] at htarget hbody
      rw [hbits.1, hbits.2, if_neg (by decide), if_pos rfl, htarget, ok_bind, hbody, ok_bind]
      rfl
  · rw [List.isEmpty_eq_false_iff.mpr hh]
    simp only [Bool.false_eq_true, if_false]
    have hbits := command_bits (show MessageType.proxySingleData &&& _ = _ from rfl) h.clear
    obtain ⟨htarget, hcount, hhops, hbody⟩ := @signed_proxied hmac key index 5 mtu m [] m.message h
      (MessageType.proxySingleData ||| m.messageType) rfl
    rw [List.nil_append] at htarget hcount hhops hbody
    rw [hbits.1, hbits.2, if_neg (by decide), if_neg (by decide), if_pos rfl, htarget, ok_bind, hcount,
      ok_bind, hhops, ok_bind, hbody, ok_bind]
    rfl

theorem firstSize_le (hmulti : ¬IsSingle partner mtu m) : firstSize partner mtu m + 4 ≤ m.message.length ∨
    firstSize partner mtu m = 0 := by
  unfold IsSingle at hmulti
  unfold firstSize
  omega

theorem extraSizeOf_lt (h : Sendable mtu m) : 41 + extraSizeOf partner m < mtu := by
  have := h.fits
  have := h.least
  unfold extraSizeOf routingSize
  unfold minMtu at *
  split_ifs
  · omega
  · omega
  · omega

/-- The first datagram of several is as long as the MTU. -/
theorem length_firstPart (h : Sendable mtu m) (hmulti : ¬IsSingle partner mtu m) :
    (signed hmac key index (firstPart partner mtu m)).length = mtu := by
  have hextra : 41 + extraSizeOf partner m < mtu := extraSizeOf_lt h
  have hfirst := firstSize_le hmulti
  rw [length_signed]
  unfold firstPart
  rw [List.length_append, List.length_append, length_putUInt32, length_extraOf h, List.length_take]
  unfold firstSize at *
  omega

theorem firstPart_size (h : Sendable mtu m) :
    numberAt (signed hmac key index (firstPart partner mtu m)) 5 4 = .ok m.message.length := by
  have hvalue : (bigEndian (putUInt32 (UInt32.ofNat m.message.length))).toNat = m.message.length := by
    rw [toNat_bigEndian_putUInt32, UInt32.toNat_ofNat']
    exact Nat.mod_eq_of_lt h.size
  refine Eq.trans ?_ (congrArg Except.ok hvalue)
  exact @signed_numberAt _ _ _ _ _ _ [] (putUInt32 (UInt32.ofNat m.message.length))
    (extraOf partner m ++ m.message.take (firstSize partner mtu m)) 4 (List.append_assoc _ _ _) rfl rfl

def sizeBytes (m : Outgoing) : ConstDataBuffer := putUInt32 (UInt32.ofNat m.message.length)

theorem readHead_data (h : Sendable mtu m) (hmulti : ¬IsSingle partner mtu m) (hh : m.hops = [])
    (ht : partner = m.targetNode) :
    readHead partner source (signed hmac key index (firstPart partner mtu m)) =
      .ok (.multi { incomingOf source m with message := m.message.take (firstSize partner mtu m) }
        (m.message.length - firstSize partner mtu m)) := by
  have hextra : extraSizeOf partner m = 0 := by
    unfold extraSizeOf routingSize
    rw [hh, List.isEmpty_nil, if_pos rfl, if_pos ht]
  have hlength : (signed hmac key index (firstPart partner mtu m)).length = mtu := length_firstPart h hmulti
  have hsize : numberAt (signed hmac key index (firstPart partner mtu m)) 5 4 = .ok m.message.length :=
    firstPart_size h
  have hpart : firstPart partner mtu m = (MessageType.data ||| m.messageType,
      (sizeBytes m ++ []) ++ m.message.take (firstSize partner mtu m)) := by
    unfold firstPart extraOf routing byRoute
    rw [hh, List.isEmpty_nil, if_pos rfl, if_pos rfl, if_pos ht, if_pos ht]
    rfl
  have hbits := command_bits (show MessageType.data &&& _ = _ from rfl) h.clear
  have hbody : bodyFrom (signed hmac key index (firstPart partner mtu m)) 9 =
      .ok (m.message.take (firstSize partner mtu m)) := by
    rw [hpart]
    exact signed_bodyFrom rfl rfl
  have hfirst : numberAt (signed hmac key index (firstPart partner mtu m)) 0 1 =
      .ok (MessageType.data ||| m.messageType).toNat := by
    rw [signed_command, hpart]
  have hfits : ¬(mtu < 41 ∨ m.message.length ≤ mtu - 41) := by
    have := h.least
    unfold IsSingle at hmulti
    unfold minMtu at this
    omega
  unfold readHead
  rw [hfirst, ok_bind]
  dsimp only
  rw [UInt8.ofNat_toNat, hbits.1, hbits.2, hlength, hsize, if_neg (by decide), if_neg (by decide),
    if_neg (by decide), if_pos rfl, ok_bind, if_neg hfits, hbody, ok_bind]
  unfold firstSize incomingOf
  rw [hh, hextra, ht]
  rfl

theorem readHead_routeData (h : Sendable mtu m) (hmulti : ¬IsSingle partner mtu m) (hh : m.hops = [])
    (ht : partner ≠ m.targetNode) :
    readHead partner source (signed hmac key index (firstPart partner mtu m)) =
      .ok (.multi { incomingOf source m with message := m.message.take (firstSize partner mtu m) }
        (m.message.length - firstSize partner mtu m)) := by
  have hextra : extraSizeOf partner m = 32 := by
    unfold extraSizeOf routingSize
    rw [hh, List.isEmpty_nil, if_pos rfl, if_neg ht]
  have hlength : (signed hmac key index (firstPart partner mtu m)).length = mtu := length_firstPart h hmulti
  have hsize : numberAt (signed hmac key index (firstPart partner mtu m)) 5 4 = .ok m.message.length :=
    firstPart_size h
  have hpart : firstPart partner mtu m = (MessageType.routeData ||| m.messageType,
      sizeBytes m ++ m.targetNode ++ m.message.take (firstSize partner mtu m)) := by
    unfold firstPart extraOf routing byRoute
    rw [hh, List.isEmpty_nil, if_pos rfl, if_pos rfl, if_neg ht, if_neg ht]
    rfl
  have hbits := command_bits (show MessageType.routeData &&& _ = _ from rfl) h.clear
  obtain ⟨htarget, hbody⟩ := @signed_routed hmac key index 9 mtu m (sizeBytes m)
    (m.message.take (firstSize partner mtu m)) h (MessageType.routeData ||| m.messageType) rfl
  rw [← hpart] at htarget hbody
  have hfirst : numberAt (signed hmac key index (firstPart partner mtu m)) 0 1 =
      .ok (MessageType.routeData ||| m.messageType).toNat := by
    rw [signed_command, hpart]
  have hfits : ¬(mtu < 73 ∨ m.message.length ≤ mtu - 73) := by
    have := h.least
    unfold IsSingle at hmulti
    unfold minMtu at this
    omega
  unfold readHead
  rw [hfirst, ok_bind]
  dsimp only
  rw [UInt8.ofNat_toNat, hbits.1, hbits.2, hlength, hsize, if_neg (by decide), if_neg (by decide),
    if_neg (by decide), if_neg (by decide), if_pos rfl, ok_bind, if_neg hfits, htarget, ok_bind, hbody,
    ok_bind]
  unfold firstSize incomingOf
  rw [hh, hextra]
  rfl

/-- The receiver takes a message with hops apart, or it takes it for a malformed one. -/
theorem readHead_proxyData (h : Sendable mtu m) (hmulti : ¬IsSingle partner mtu m) (hh : m.hops ≠ []) :
    readHead partner source (signed hmac key index (firstPart partner mtu m)) =
      if mtu < m.message.length + 106 then
        .ok (.multi { incomingOf source m with message := m.message.take (firstSize partner mtu m) }
          (m.message.length - firstSize partner mtu m))
      else .error (.runtimeError "Invalid data") := by
  have hempty : m.hops.isEmpty = false := List.isEmpty_eq_false_iff.mpr hh
  have hextra : extraSizeOf partner m = 33 + m.hops.length * 32 := by
    unfold extraSizeOf routingSize
    rw [hempty]
    rfl
  have hlength : (signed hmac key index (firstPart partner mtu m)).length = mtu := length_firstPart h hmulti
  have hsize : numberAt (signed hmac key index (firstPart partner mtu m)) 5 4 = .ok m.message.length :=
    firstPart_size h
  have hpart : firstPart partner mtu m = (MessageType.proxyData ||| m.messageType,
      sizeBytes m ++ (m.targetNode ++ UInt8.ofNat m.hops.length :: m.hops.flatten) ++
        m.message.take (firstSize partner mtu m)) := by
    unfold firstPart extraOf routing byRoute
    rw [hempty]
    rfl
  have hbits := command_bits (show MessageType.proxyData &&& _ = _ from rfl) h.clear
  obtain ⟨htarget, hcount, hhops, hbody⟩ := @signed_proxied hmac key index 9 mtu m (sizeBytes m)
    (m.message.take (firstSize partner mtu m)) h (MessageType.proxyData ||| m.messageType) rfl
  rw [← hpart] at htarget hcount hhops hbody
  have hfirst : numberAt (signed hmac key index (firstPart partner mtu m)) 0 1 =
      .ok (MessageType.proxyData ||| m.messageType).toNat := by
    rw [signed_command, hpart]
  have hleast := h.least
  unfold minMtu at hleast
  unfold readHead
  rw [hfirst, ok_bind]
  dsimp only
  rw [UInt8.ofNat_toNat, hbits.1, hbits.2, hlength, hsize, if_neg (by decide), if_neg (by decide),
    if_neg (by decide), if_neg (by decide), if_neg (by decide), if_pos rfl, ok_bind]
  split_ifs with hbad hgood hgood
  · omega
  · rfl
  · rw [htarget, ok_bind, hcount, ok_bind, hhops, ok_bind, hbody, ok_bind]
    have hleft : mtu - (74 + 32 * m.hops.length) = firstSize partner mtu m := by
      unfold firstSize
      omega
    have hlarge : firstSize partner mtu m ≤ m.message.length := by
      have hpos : 0 < m.hops.length := List.length_pos_iff.mpr hh
      unfold firstSize
      omega
    have hsmall := h.size
    have hwrap : (m.message.length + 2 ^ 64 - firstSize partner mtu m) % 2 ^ 64 =
        m.message.length - firstSize partner mtu m := by omega
    rw [hleft, hwrap]
    rfl
  · omega

theorem readHead_firstPart (h : Sendable mtu m) (hmulti : ¬IsSingle partner mtu m) :
    readHead partner source (signed hmac key index (firstPart partner mtu m)) =
      if Readable mtu m then
        .ok (.multi { incomingOf source m with message := m.message.take (firstSize partner mtu m) }
          (m.message.length - firstSize partner mtu m))
      else .error (.runtimeError "Invalid data") := by
  by_cases hh : m.hops = []
  · have hreadable : Readable mtu m := .inl (by rw [hh]; exact Nat.zero_lt_two)
    rw [if_pos hreadable]
    by_cases ht : partner = m.targetNode
    · exact readHead_data h hmulti hh ht
    · exact readHead_routeData h hmulti hh ht
  · rw [readHead_proxyData h hmulti hh]
    have hpos : 0 < m.hops.length := List.length_pos_iff.mpr hh
    have hextra : extraSizeOf partner m = 33 + m.hops.length * 32 := by
      unfold extraSizeOf routingSize
      rw [List.isEmpty_eq_false_iff.mpr hh]
      rfl
    have hiff : Readable mtu m ↔ mtu < m.message.length + 106 := by
      unfold Readable
      unfold IsSingle at hmulti
      omega
    simp only [hiff]

end Head

end Vds.DhtNetwork
