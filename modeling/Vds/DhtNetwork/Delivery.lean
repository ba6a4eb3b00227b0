import Vds.DhtNetwork.Reassembly

/-! A session takes the datagrams of its partner, in any order and any number of times. -/

namespace Vds.DhtNetwork

open BinarySerializer BinaryDeserializer

variable {hmac : Hmac}

/-! ### One datagram of the partner -/

theorem isDataCommand_of_mem {partner : ConstDataBuffer} {mtu : Nat} {m : Outgoing} (h : Sendable mtu m)
    {part : UInt8 × ConstDataBuffer} (hp : part ∈ partsOf partner mtu m) :
    isDataCommand part.1 = true ∧ part.1 ≠ MessageType.mtuTest ∧ part.1 ≠ MessageType.acknowledgment := by
  have hcommand : ∀ c : UInt8, c ∈ [MessageType.singleData, MessageType.routeSingleData,
      MessageType.proxySingleData, MessageType.data, MessageType.routeData, MessageType.proxyData] →
      isDataCommand (c ||| m.messageType) = true ∧ (c ||| m.messageType) ≠ MessageType.mtuTest ∧
        (c ||| m.messageType) ≠ MessageType.acknowledgment := by
    intro c hc
    simp only [List.mem_cons, List.not_mem_nil, or_false] at hc
    have hmask : c &&& MessageType.specialCommand = c ∧ c ≠ 0 := by
      rcases hc with rfl | rfl | rfl | rfl | rfl | rfl <;> exact ⟨rfl, by decide⟩
    have hbits := (command_bits hmask.1 h.clear).1
    refine ⟨?_, fun heq => ?_, fun heq => ?_⟩
    · unfold isDataCommand
      rw [hbits]
      simp only [Bool.or_eq_true, decide_eq_true_eq]
      tauto
    · rw [heq] at hbits
      exact hmask.2 (hbits.symm.trans rfl)
    · rw [heq] at hbits
      exact hmask.2 (hbits.symm.trans rfl)
  unfold partsOf at hp
  split_ifs at hp
  · rw [List.mem_singleton.mp hp]
    refine hcommand _ ?_
    unfold byRoute
    split_ifs <;> decide
  · rcases List.mem_cons.mp hp with rfl | hp
    · refine hcommand _ ?_
      unfold byRoute
      split_ifs <;> decide
    · obtain ⟨piece, -, rfl⟩ := List.mem_map.mp hp
      change isDataCommand MessageType.continueData = true ∧
        MessageType.continueData ≠ MessageType.mtuTest ∧ MessageType.continueData ≠ MessageType.acknowledgment
      decide

/-- A datagram of a session, told by its number. -/
theorem exists_part {key partner : ConstDataBuffer} {sends : Sends} {i : Nat} {d : ConstDataBuffer}
    (hsend : ∀ x ∈ sends, Sendable x.1 x.2) (hd : (stream hmac key partner sends)[i]? = some d) :
    ∃ part : UInt8 × ConstDataBuffer, d = signed hmac key i part ∧ i < count partner sends ∧
      isDataCommand part.1 = true ∧ part.1 ≠ MessageType.mtuTest ∧ part.1 ≠ MessageType.acknowledgment := by
  rw [getElem?_stream] at hd
  obtain ⟨part, hpart, rfl⟩ := Option.map_eq_some_iff.mp hd
  obtain ⟨x, hx, hmem⟩ := List.mem_flatMap.mp (List.mem_of_getElem? hpart)
  obtain ⟨hlt, -⟩ := List.getElem?_eq_some_iff.mp hpart
  exact ⟨part, rfl, hlt, isDataCommand_of_mem (hsend x hx) hmem⟩

/-- A session that has looked at the size of a datagram. -/
def measured (d : ConstDataBuffer) (s : Session) : Session :=
  { s with self := { s.self with
      inputMtu := if s.self.inputMtu < d.length then d.length % 2 ^ 16 else s.self.inputMtu } }

/-- A session with a new datagram in its map. -/
def stored (index : Nat) (d : ConstDataBuffer) (s : Session) : Session :=
  { s with self := { s.self with inputMessages := s.self.inputMessages.assign index d } }

/-- Ten minutes without a message. -/
def TimedOut (s : Session) : Prop := s.self.lastProcessed < s.now - processTimeout

instance decidableTimedOut (s : Session) : Decidable (TimedOut s) := inferInstanceAs (Decidable (_ < _))

/-- The session takes no datagrams any more. -/
def Refuses (s : Session) : Prop := s.self.failedState = true ∨ sendTimeout < s.self.lastSent

instance decidableRefuses (s : Session) : Decidable (Refuses s) := inferInstanceAs (Decidable (_ ∨ _))

theorem processDatagram_of_refuses {s : Session} (h : Refuses s) (d : ConstDataBuffer) :
    ∃ what, processDatagram hmac d s = .error (.runtimeError what) s := by
  unfold processDatagram
  rw [StateError.bind_of_ok (StateError.get_apply s)]
  by_cases hfailed : s.self.failedState = true
  · rw [if_pos hfailed]
    exact ⟨_, rfl⟩
  · rw [if_neg hfailed, if_pos (h.resolve_left hfailed)]
    exact ⟨_, rfl⟩

theorem processDatagram_of_open {s : Session} (h : ¬Refuses s) (first : UInt8) (tail : ConstDataBuffer) :
    processDatagram hmac (first :: tail) s =
      (if first = MessageType.mtuTest then return ()
      else if first = MessageType.acknowledgment then processAcknowledgment (first :: tail)
      else if (first :: tail).length < 33 then throw (.runtimeError "Invalid data")
      else processData hmac first (first :: tail) : SessionM Unit) (measured (first :: tail) s) := by
  unfold Refuses at h
  push Not at h
  unfold processDatagram
  rw [StateError.bind_of_ok (StateError.get_apply s), if_neg h.1, if_neg (Nat.not_lt.mpr h.2)]
  rfl

section Stream

variable {key source partner : ConstDataBuffer} {sends : Sends} {s : Session} {i : Nat} {d : ConstDataBuffer}

/-- What `process_datagram` does with a datagram that looks like a part of a message. -/
theorem processDatagram_data {first : UInt8} {tail : ConstDataBuffer} (hd : d = first :: tail)
    (hindex : numberAt d 1 4 = .ok i) (hlength : ¬d.length < 33) (hdata : isDataCommand first = true)
    (htest : first ≠ MessageType.mtuTest) (hack : first ≠ MessageType.acknowledgment) (hopen : ¬Refuses s) :
    processDatagram hmac d s =
      if TimedOut s then .error (.runtimeError "Process timeout") (measured d s)
      else if (s.self.inputMessages.find i).isNone then
        continueProcessMessages (stored i d (measured d s))
      else .ok () (measured d s) := by
  rw [hd, processDatagram_of_open hopen, if_neg htest, if_neg hack, ← hd, if_neg hlength]
  unfold processData
  rw [StateError.bind_of_ok (StateError.get_apply _)]
  rw [Expected.operatorNot_eq_false, hdata]
  simp only [Bool.not_true, Bool.false_eq_true, if_false]
  rw [StateError.bind_of_ok (liftExcept_ok hindex _)]
  change (if s.self.lastProcessed < s.now - processTimeout then _ else
    if (s.self.inputMessages.find i).isNone = true then _ else _ : SessionM Unit) (measured d s) = _
  by_cases htime : TimedOut s
  · rw [if_pos htime, if_pos (show s.self.lastProcessed < s.now - processTimeout from htime)]
    rfl
  · rw [if_neg htime, if_neg (show ¬s.self.lastProcessed < s.now - processTimeout from htime)]
    by_cases hnew : (s.self.inputMessages.find i).isNone = true
    · rw [if_pos hnew, if_pos hnew]
      rfl
    · rw [if_neg hnew, if_neg hnew]
      rfl

theorem processDatagram_signed {part : UInt8 × ConstDataBuffer} (hd : d = signed hmac key i part)
    (hi : i < indexMod) (hdata : isDataCommand part.1 = true) (htest : part.1 ≠ MessageType.mtuTest)
    (hack : part.1 ≠ MessageType.acknowledgment) (hopen : ¬Refuses s) :
    processDatagram hmac d s =
      if TimedOut s then .error (.runtimeError "Process timeout") (measured d s)
      else if (s.self.inputMessages.find i).isNone then
        continueProcessMessages (stored i d (measured d s))
      else .ok () (measured d s) := by
  have hindex : numberAt d 1 4 = .ok i := by
    rw [hd]
    exact signed_index key hi part
  have hlength : ¬d.length < 33 := by
    rw [hd, length_signed]
    omega
  obtain ⟨tail, hcons⟩ : ∃ tail, d = part.1 :: tail := ⟨_, hd⟩
  exact processDatagram_data hcons hindex hlength hdata htest hack hopen

theorem receiving_measured (h : Receiving hmac key source partner sends s) :
    Receiving hmac key source partner sends (measured d s) :=
  ⟨h.thisNodeId, h.partnerNodeId, h.processed, h.expectedIndex, h.readable, h.found, h.skipped⟩

theorem has_stored (j : Nat) (hj : Has s.self j) :
    Has (stored i d s).self j := by
  rcases hj with hj | hj
  · exact .inl hj
  · right
    change (s.self.inputMessages.assign i d).find j ≠ none
    rw [OrderedMap.find_assign]
    split_ifs
    · exact Option.some_ne_none d
    · exact hj

theorem receiving_stored (h : Receiving hmac key source partner sends s)
    (hd : (stream hmac key partner sends)[i]? = some d) :
    Receiving hmac key source partner sends (stored i d s) := by
  refine ⟨h.thisNodeId, h.partnerNodeId, h.processed, h.expectedIndex, h.readable, fun j d' hj => ?_,
    fun j hj => has_stored j (h.skipped j hj)⟩
  change (s.self.inputMessages.assign i d).find j = some d' at hj
  rw [OrderedMap.find_assign] at hj
  split_ifs at hj with hji
  · rw [hji, hd, hj]
  · exact h.found j d' hj

/-- A session takes a datagram of its partner: it refuses it, or it has it from then on. -/
theorem processDatagram_stream (h : Receiving hmac key source partner sends s)
    (hc : count partner sends < indexMod) (hsend : ∀ x ∈ sends, Sendable x.1 x.2)
    (hd : (stream hmac key partner sends)[i]? = some d) (hopen : ¬Refuses s) :
    ∃ s', StateError.final (processDatagram hmac d s) = s' ∧
      Receiving hmac key source partner sends s' ∧ Receives (measured d s) s' ∧
      (Waits partner sends s → Waits partner sends s') ∧ (¬TimedOut s → Has s'.self i) := by
  obtain ⟨part, hpart, hi, hdata, htest, hack⟩ := exists_part hsend hd
  rw [processDatagram_signed hpart (hi.trans hc) hdata htest hack hopen]
  by_cases htime : TimedOut s
  · rw [if_pos htime]
    exact ⟨_, rfl, receiving_measured h, .refl _, fun hw => hw, fun hno => absurd htime hno⟩
  · rw [if_neg htime]
    by_cases hnew : s.self.inputMessages.find i = none
    · rw [if_pos (Option.isNone_iff_eq_none.mpr hnew)]
      have hrec : Receiving hmac key source partner sends (stored i d (measured d s)) :=
        receiving_stored (receiving_measured h) hd
      have hwork : work (stored i d (measured d s)).self <
          2 * (stored i d (measured d s)).self.inputMessages.size + 1 := Nat.lt_succ_of_le (work_le _)
      obtain ⟨s', hends, hrec', hmoves, hwaits⟩ := continueLoop_spec hrec hc hsend hwork
      have hhas : Has (stored i d (measured d s)).self i := by
        right
        change (s.self.inputMessages.assign i d).find i ≠ none
        rw [OrderedMap.find_assign, if_pos rfl]
        exact Option.some_ne_none d
      have hstored : Receives (measured d s) (stored i d (measured d s)) :=
        ⟨rfl, has_stored, .inl rfl⟩
      refine ⟨s', ?_, hrec', hstored.trans hmoves, fun _ => hwaits, fun _ => hmoves.has i hhas⟩
      unfold continueProcessMessages
      rw [StateError.bind_of_ok (StateError.get_apply _)]
      rcases hends with hends | hends
      · exact congrArg StateError.final hends
      · exact congrArg StateError.final hends
    · rw [if_neg (by rw [Option.isNone_iff_eq_none]; exact hnew)]
      exact ⟨_, rfl, receiving_measured h, .refl _, fun hw => hw, fun _ => .inr hnew⟩

end Stream

/-! ### The sender -/

/-- A session that has been given `sends`; some of the datagrams may be acknowledged. -/
structure Sending (hmac : Hmac) (key partner : ConstDataBuffer) (sends : Sends) (s : Session) : Prop where
  partnerNodeId : s.self.partnerNodeId = partner
  sessionKey : s.self.sessionKey = key
  lastOutputIndex : s.self.lastOutputIndex = count partner sends
  queued : ∀ i d, s.self.outputMessages.find i = some d → (stream hmac key partner sends)[i]? = some d

section Sender

variable {key partner : ConstDataBuffer} {sends : Sends} {s : Session}

theorem Sending.free (h : Sending hmac key partner sends s) {i : Nat} (hi : s.self.lastOutputIndex ≤ i) :
    s.self.outputMessages.find i = none := by
  by_contra hne
  obtain ⟨d, hd⟩ := Option.ne_none_iff_exists'.mp hne
  obtain ⟨hlt, -⟩ := List.getElem?_eq_some_iff.mp (h.queued i d hd)
  unfold stream at hlt
  rw [length_datagrams] at hlt
  rw [h.lastOutputIndex] at hi
  exact hi.not_gt hlt

/-- More messages leave the datagrams of the first ones as they are. -/
theorem getElem?_stream_append (more : Sends) {i : Nat} {d : ConstDataBuffer}
    (h : (stream hmac key partner sends)[i]? = some d) :
    (stream hmac key partner (sends ++ more))[i]? = some d := by
  rw [getElem?_stream] at h ⊢
  obtain ⟨part, hpart, rfl⟩ := Option.map_eq_some_iff.mp h
  obtain ⟨hlt, -⟩ := List.getElem?_eq_some_iff.mp hpart
  rw [allParts_append, List.getElem?_append_left hlt, hpart]
  rfl

theorem count_singleton (x : Nat × Outgoing) : count partner [x] = (partsOf partner x.1 x.2).length := by
  unfold count allParts
  rw [List.flatMap_singleton]

/-- `prepare_to_send` queues the datagrams of one more message. -/
theorem Sending.prepareToSend (h : Sending hmac key partner sends s) {m : Outgoing}
    (hm : Sendable s.self.mtu m) (hc : count partner (sends ++ [(s.self.mtu, m)]) < indexMod) :
    prepareToSend hmac m.messageType m.targetNode m.hops m.message s =
        .ok (count partner sends, count partner (sends ++ [(s.self.mtu, m)]))
          { s with self := prepared hmac m s.self } ∧
      Sending hmac key partner (sends ++ [(s.self.mtu, m)]) { s with self := prepared hmac m s.self } ∧
      ∀ i, (prepared hmac m s.self).outputMessages.find i =
        if count partner sends ≤ i then (stream hmac key partner (sends ++ [(s.self.mtu, m)]))[i]?
        else s.self.outputMessages.find i := by
  have hcount : count partner (sends ++ [(s.self.mtu, m)]) =
      s.self.lastOutputIndex + (partsOf s.self.partnerNodeId s.self.mtu m).length := by
    rw [count_append, count_singleton, h.lastOutputIndex, h.partnerNodeId]
  obtain ⟨hlast, hfind⟩ := @enqueue_spec hmac (partsOf s.self.partnerNodeId s.self.mtu m) s.self
    (fun i hi => h.free hi) (hcount ▸ hc)
  rw [← hcount] at hlast
  have hsame := @sendsOnly_enqueue hmac (partsOf s.self.partnerNodeId s.self.mtu m) s.self
  have hleast := hm.least
  unfold minMtu at hleast
  have hfind' : ∀ i, (prepared hmac m s.self).outputMessages.find i =
      if count partner sends ≤ i then (stream hmac key partner (sends ++ [(s.self.mtu, m)]))[i]?
      else s.self.outputMessages.find i := by
    intro i
    refine (hfind i).trans ?_
    rw [h.lastOutputIndex]
    by_cases hi : count partner sends ≤ i
    · rw [if_pos hi, if_pos hi, getElem?_datagrams, getElem?_stream, allParts_append,
        List.getElem?_append_right hi, h.sessionKey, h.partnerNodeId, Nat.add_sub_cancel' hi]
      unfold count allParts
      rw [List.flatMap_singleton]
    · rw [if_neg hi, if_neg hi]
  refine ⟨?_, ⟨hsame.partnerNodeId.trans h.partnerNodeId, hsame.sessionKey.trans h.sessionKey, hlast,
    fun i d hd => ?_⟩, hfind'⟩
  · have happly := @prepareToSend_apply hmac m s (by omega)
      (by change _ ≤ (enqueue hmac _ s.self).lastOutputIndex; rw [hlast, hcount]; omega)
    rw [h.lastOutputIndex] at happly
    refine happly.trans ?_
    congr 2
  · change (prepared hmac m s.self).outputMessages.find i = some d at hd
    rw [hfind'] at hd
    split_ifs at hd
    · exact hd
    · exact getElem?_stream_append _ (h.queued i d hd)

end Sender

/-! ### From one session to its partner -/

/-- A new session; both of its indexes are 0 and nothing is stored. -/
def fresh (thisNodeId partnerNodeId sessionKey : ConstDataBuffer) (now : Int) : Session :=
  { self := { thisNodeId, partnerNodeId, sessionKey, lastProcessed := now }, now }

/-- Gives messages to `prepare_to_send`, one after the other, each with the MTU of its time. -/
def prepareAll (hmac : Hmac) : Sends → SessionM Unit
  | [] => return ()
  | (mtu, m) :: sends => do
    setMtu mtu
    let _ ← prepareToSend hmac m.messageType m.targetNode m.hops m.message
    prepareAll hmac sends

/-- Gives datagrams to `process_datagram`, each with the time of its arrival. -/
def feed (hmac : Hmac) : List (Int × ConstDataBuffer) → Session → Session
  | [], s => s
  | (now, d) :: arrivals, s =>
    feed hmac arrivals (StateError.final (processDatagram hmac d { s with now }))

/-- No datagram comes when the session has been without a message for ten minutes. -/
def Timely (hmac : Hmac) : List (Int × ConstDataBuffer) → Session → Prop
  | [], _ => True
  | (now, d) :: arrivals, s =>
    ¬TimedOut { s with now } ∧ Timely hmac arrivals (StateError.final (processDatagram hmac d { s with now }))

section Run

variable {key source partner : ConstDataBuffer} {sends : Sends}

theorem prepareAll_spec {sent : Sends} {s : Session} (h : Sending hmac key partner sent s)
    (hall : ∀ i, s.self.outputMessages.find i = (stream hmac key partner sent)[i]?)
    (hsend : ∀ x ∈ sends, Sendable x.1 x.2) (hc : count partner (sent ++ sends) < indexMod) :
    ∃ s', prepareAll hmac sends s = .ok () s' ∧
      ∀ i, s'.self.outputMessages.find i = (stream hmac key partner (sent ++ sends))[i]? := by
  induction sends generalizing sent s with
  | nil =>
    rw [List.append_nil]
    exact ⟨s, rfl, hall⟩
  | cons x sends ih =>
    obtain ⟨mtu, m⟩ := x
    have hstep : sent ++ (mtu, m) :: sends = sent ++ [(mtu, m)] ++ sends := by
      rw [List.append_assoc, List.singleton_append]
    rw [hstep] at hc ⊢
    have hc' : count partner (sent ++ [(mtu, m)]) < indexMod := by
      rw [count_append] at hc
      omega
    have hmtu : Sending hmac key partner sent { s with self := { s.self with mtu } } :=
      ⟨h.partnerNodeId, h.sessionKey, h.lastOutputIndex, h.queued⟩
    obtain ⟨happly, hsending, hfind⟩ :=
      hmtu.prepareToSend (hsend (mtu, m) List.mem_cons_self) hc'
    have hall' : ∀ i, (prepared hmac m { s.self with mtu }).outputMessages.find i =
        (stream hmac key partner (sent ++ [(mtu, m)]))[i]? := by
      intro i
      rw [hfind]
      split_ifs with hi
      · rfl
      · change s.self.outputMessages.find i = _
        have hlt : i < (stream hmac key partner sent).length := by
          unfold stream
          rw [length_datagrams]
          exact not_le.mp hi
        rw [hall, List.getElem?_eq_getElem hlt]
        exact (getElem?_stream_append _ (List.getElem?_eq_getElem hlt)).symm
    obtain ⟨s', hrun, hs'⟩ := ih hsending hall' (fun y hy => hsend y (List.mem_cons_of_mem _ hy)) hc
    refine ⟨s', ?_, hs'⟩
    rw [prepareAll, StateError.bind_of_ok (rfl : setMtu mtu s = .ok () _), StateError.bind_of_ok happly]
    exact hrun

/-- A datagram stands in the stream only once: it carries its number. -/
theorem stream_inj (hc : count partner sends < indexMod) {i j : Nat} {d : ConstDataBuffer}
    (hi : (stream hmac key partner sends)[i]? = some d) (hj : (stream hmac key partner sends)[j]? = some d) :
    i = j := by
  have hindex : ∀ {k : Nat}, (stream hmac key partner sends)[k]? = some d → numberAt d 1 4 = .ok k := by
    intro k hk
    obtain ⟨hlt, -⟩ := List.getElem?_eq_some_iff.mp hk
    rw [getElem?_stream] at hk
    obtain ⟨part, -, rfl⟩ := Option.map_eq_some_iff.mp hk
    unfold stream at hlt
    rw [length_datagrams] at hlt
    exact signed_index key (hlt.trans hc) part
  exact Except.ok.inj ((hindex hi).symm.trans (hindex hj))

/-- One arrival. -/
theorem arrival_spec {s : Session} (h : Receiving hmac key source partner sends s)
    (hc : count partner sends < indexMod) (hsend : ∀ x ∈ sends, Sendable x.1 x.2) {i : Nat} {d : ConstDataBuffer}
    (hd : (stream hmac key partner sends)[i]? = some d) (hopen : ¬Refuses s) (now : Int) :
    ∃ s', StateError.final (processDatagram hmac d { s with now }) = s' ∧
      Receiving hmac key source partner sends s' ∧ ¬Refuses s' ∧
      (∀ j, Has s.self j → Has s'.self j) ∧ (Waits partner sends s → Waits partner sends s') ∧
      (¬TimedOut { s with now } → Has s'.self i) ∧
      (s'.self.lastProcessed = s.self.lastProcessed ∨ s'.self.lastProcessed = now) := by
  have hnow : Receiving hmac key source partner sends { s with now } :=
    ⟨h.thisNodeId, h.partnerNodeId, h.processed, h.expectedIndex, h.readable, h.found, h.skipped⟩
  obtain ⟨s', hs', hrec, hmoves, hwaits, hhas⟩ := processDatagram_stream hnow hc hsend hd hopen
  refine ⟨s', hs', hrec, ?_, hmoves.has, hwaits, hhas, hmoves.lastProcessed⟩
  have hfailed : (sendingSide s').self.failedState = s.self.failedState := by rw [hmoves.sending]; rfl
  have hsent : (sendingSide s').self.lastSent = s.self.lastSent := by rw [hmoves.sending]; rfl
  unfold Refuses at hopen ⊢
  change ¬((sendingSide s').self.failedState = true ∨ sendTimeout < (sendingSide s').self.lastSent)
  rwa [hfailed, hsent]

/-- A session that is fed with datagrams of its partner has those that it was given, and waits for the rest. -/
theorem feed_spec {arrivals : List (Int × ConstDataBuffer)} {s : Session}
    (h : Receiving hmac key source partner sends s) (hw : Waits partner sends s)
    (hc : count partner sends < indexMod) (hsend : ∀ x ∈ sends, Sendable x.1 x.2)
    (hd : ∀ x ∈ arrivals, ∃ i : Nat, (stream hmac key partner sends)[i]? = some x.2) (hopen : ¬Refuses s)
    (htimely : Timely hmac arrivals s) :
    Receiving hmac key source partner sends (feed hmac arrivals s) ∧
      Waits partner sends (feed hmac arrivals s) ∧
      ∀ i, (Has s.self i ∨ ∃ x ∈ arrivals, (stream hmac key partner sends)[i]? = some x.2) →
        Has (feed hmac arrivals s).self i := by
  induction arrivals generalizing s with
  | nil => exact ⟨h, hw, fun i hi => hi.resolve_right fun ⟨x, hx, _⟩ => List.not_mem_nil hx⟩
  | cons x arrivals ih =>
    obtain ⟨now, d⟩ := x
    obtain ⟨htime, htimely⟩ := htimely
    obtain ⟨i, hi⟩ := hd (now, d) List.mem_cons_self
    obtain ⟨s', hs', hrec, hopen', hkeeps, hwaits, hhas, -⟩ := arrival_spec h hc hsend hi hopen now
    rw [hs'] at htimely
    obtain ⟨hrec', hw', hhas'⟩ := ih hrec (hwaits hw)
      (fun y hy => hd y (List.mem_cons_of_mem _ hy)) hopen' htimely
    rw [feed, hs']
    refine ⟨hrec', hw', fun j hj => hhas' j ?_⟩
    rcases hj with hj | ⟨y, hy, hj⟩
    · exact .inl (hkeeps j hj)
    · rcases List.mem_cons.mp hy with rfl | hy
      · left
        have hij : i = j := stream_inj hc hi hj
        exact hij ▸ hhas htime
      · exact .inr ⟨y, hy, hj⟩

/-- Datagrams that come at once come in time. -/
theorem timely_at_once {now : Int} {datagrams : List ConstDataBuffer} {s : Session}
    (h : Receiving hmac key source partner sends s) (hc : count partner sends < indexMod)
    (hsend : ∀ x ∈ sends, Sendable x.1 x.2)
    (hd : ∀ d ∈ datagrams, ∃ i : Nat, (stream hmac key partner sends)[i]? = some d) (hopen : ¬Refuses s)
    (hl : s.self.lastProcessed = now) : Timely hmac (datagrams.map fun d => (now, d)) s := by
  induction datagrams generalizing s with
  | nil => exact trivial
  | cons d datagrams ih =>
    obtain ⟨i, hi⟩ := hd d List.mem_cons_self
    obtain ⟨s', hs', hrec, hopen', -, -, -, hl'⟩ := arrival_spec h hc hsend hi hopen now
    refine ⟨?_, ?_⟩
    · unfold TimedOut processTimeout
      change ¬s.self.lastProcessed < now - _
      omega
    · rw [hs']
      exact ih hrec (fun y hy => hd y (List.mem_cons_of_mem _ hy)) hopen' (by omega)

theorem fresh_receiving (now : Int) :
    Receiving hmac key source partner sends (fresh partner source key now) :=
  ⟨rfl, rfl, List.nil_prefix, rfl, fun _ hx => (by cases hx), fun _ _ hd => (by cases hd),
    fun _ hi => absurd hi (Nat.not_lt_zero _)⟩

theorem fresh_waits (now : Int) : Waits partner sends (fresh partner source key now) :=
  fun _ _ => .inr ⟨0, List.length_pos_iff.mpr (partsOf_ne_nil _ _ _), rfl⟩

theorem fresh_sending (now : Int) : Sending hmac key partner [] (fresh source partner key now) :=
  ⟨rfl, rfl, rfl, fun _ _ hd => (by cases hd)⟩

theorem fresh_open (now : Int) : ¬Refuses (fresh partner source key now) := by
  rintro (h | h)
  · cases h
  · exact absurd h (Nat.not_lt_zero _)

/-- A session that has everything hands on all messages. -/
theorem processed_eq_of_waits {s : Session} (h : Receiving hmac key source partner sends s)
    (hw : Waits partner sends s) (hr : ∀ x ∈ sends, Readable x.1 x.2)
    (hall : ∀ i, i < count partner sends → Has s.self i) :
    s.processed = sends.map fun x => incomingOf source x.2 := by
  refine h.processed.eq_of_length ?_
  rw [List.length_map]
  by_contra hne
  have hlt : s.processed.length < sends.length := lt_of_le_of_ne h.length_le hne
  have hx : sends[s.processed.length]? = some sends[s.processed.length] := List.getElem?_eq_getElem hlt
  rcases hw _ hx with hno | ⟨j, hj, hnone⟩
  · exact hno (hr _ (List.getElem_mem hlt))
  · have hle := h.next_le hx
    rcases hall (s.self.expectedIndex + j) (by omega) with hbefore | hfound
    · omega
    · exact hfound hnone

/-- Each datagram is produced, and may come at once. -/
theorem exists_arrivals (source : ConstDataBuffer) (hsend : ∀ x ∈ sends, Sendable x.1 x.2)
    (hc : count partner sends < indexMod) (t t' : Int) :
    ∃ s, prepareAll hmac sends (fresh source partner key t) = .ok () s ∧
      ∃ arrivals : List (Int × ConstDataBuffer),
        (∀ x ∈ arrivals, ∃ i, s.self.outputMessages.find i = some x.2) ∧
        (∀ i d, s.self.outputMessages.find i = some d → ∃ x ∈ arrivals, x.2 = d) ∧
        Timely hmac arrivals (fresh partner source key t') ∧
        Receiving hmac key source partner sends (feed hmac arrivals (fresh partner source key t')) := by
  obtain ⟨s, hs, hfind⟩ := prepareAll_spec (@fresh_sending hmac key source partner t) (fun _ => rfl) hsend hc
  rw [List.nil_append] at hfind
  have hd : ∀ d ∈ stream hmac key partner sends, ∃ i : Nat, (stream hmac key partner sends)[i]? = some d :=
    fun d hd => List.mem_iff_getElem?.mp hd
  have htimely : Timely hmac ((stream hmac key partner sends).map fun d => (t', d))
      (fresh partner source key t') :=
    timely_at_once (fresh_receiving t') hc hsend hd (fresh_open t') rfl
  have hd' : ∀ x ∈ (stream hmac key partner sends).map fun d => (t', d),
      ∃ i : Nat, (stream hmac key partner sends)[i]? = some x.2 := by
    intro x hx
    obtain ⟨d, hmem, rfl⟩ := List.mem_map.mp hx
    exact hd d hmem
  refine ⟨s, hs, _, fun x hx => ?_, fun i d hi => ?_, htimely,
    (feed_spec (fresh_receiving t') (fresh_waits t') hc hsend hd' (fresh_open t') htimely).1⟩
  · simp only [hfind]
    exact hd' x hx
  · rw [hfind] at hi
    exact ⟨(t', d), List.mem_map_of_mem (List.mem_of_getElem? hi), rfl⟩

end Run

/-! ### A message with two hops -/

/-- A stand-in for the signatures of the crypto library. -/
def sampleHmac : Hmac where
  signature key _ := (key ++ List.replicate 32 0).take 32
  size key _ := by
    rw [List.length_take, List.length_append, List.length_replicate]
    exact Nat.min_eq_left (Nat.le_add_left _ _)
  verify key _ sig := .ok (sig = (key ++ List.replicate 32 0).take 32)

def sampleNode (n : UInt8) : ConstDataBuffer := List.replicate 32 n

/-- Two hops, and 400 bytes that do not fit into one datagram. -/
def twoHops : Outgoing where
  messageType := 1
  targetNode := sampleNode 9
  hops := [sampleNode 3, sampleNode 4]
  message := List.replicate 400 7

theorem sendable_twoHops : ∀ x ∈ [(minMtu, twoHops)], Sendable x.1 x.2 := by
  intro x hx
  obtain rfl := List.mem_singleton.mp hx
  exact ⟨rfl, rfl, by decide, by decide, by decide +kernel, le_rfl, by decide⟩

theorem count_twoHops : count (sampleNode 2) [(minMtu, twoHops)] < indexMod := by decide +kernel

/-- Fragmentation gives back what was sent just if no message is taken for a malformed one: in any order of
the datagrams, with any duplicates. -/
theorem processed_iff_readable {key partner : ConstDataBuffer} {sends : Sends} (source : ConstDataBuffer)
    (hsend : ∀ x ∈ sends, Sendable x.1 x.2) (hc : count partner sends < indexMod) (t t' : Int) :
    ∃ s, prepareAll hmac sends (fresh source partner key t) = .ok () s ∧
      ∀ arrivals : List (Int × ConstDataBuffer),
        (∀ x ∈ arrivals, ∃ i, s.self.outputMessages.find i = some x.2) →
        (∀ i d, s.self.outputMessages.find i = some d → ∃ x ∈ arrivals, x.2 = d) →
        Timely hmac arrivals (fresh partner source key t') →
        ((feed hmac arrivals (fresh partner source key t')).processed =
            sends.map (fun x => incomingOf source x.2) ↔
          ∀ x ∈ sends, Readable x.1 x.2) := by
  obtain ⟨s, hs, hfind⟩ := prepareAll_spec (@fresh_sending hmac key source partner t) (fun _ => rfl) hsend hc
  rw [List.nil_append] at hfind
  refine ⟨s, hs, fun arrivals hproduced hcomplete htimely => ?_⟩
  simp only [hfind] at hproduced hcomplete
  obtain ⟨hrec, hw, hhas⟩ := feed_spec (fresh_receiving t') (fresh_waits t') hc hsend hproduced
    (fresh_open t') htimely
  refine ⟨fun heq x hx => ?_, fun hr => processed_eq_of_waits hrec hw hr fun i hi => hhas i (.inr ?_)⟩
  · refine hrec.readable x ?_
    rwa [heq, List.length_map, List.take_length]
  · have hi' : i < (stream hmac key partner sends).length := by
      unfold stream
      rwa [length_datagrams]
    have hd := List.getElem?_eq_getElem hi'
    obtain ⟨y, hy, hyd⟩ := hcomplete i _ hd
    exact ⟨y, hy, hd.trans (congrArg some hyd.symm)⟩

theorem processed_iff_readable_sample :
    ∃ s, prepareAll sampleHmac [(minMtu, twoHops)] (fresh (sampleNode 1) (sampleNode 2) [] 0) = .ok () s ∧
      ∀ arrivals : List (Int × ConstDataBuffer),
        (∀ x ∈ arrivals, ∃ i, s.self.outputMessages.find i = some x.2) →
        (∀ i d, s.self.outputMessages.find i = some d → ∃ x ∈ arrivals, x.2 = d) →
        Timely sampleHmac arrivals (fresh (sampleNode 2) (sampleNode 1) [] 0) →
        ((feed sampleHmac arrivals (fresh (sampleNode 2) (sampleNode 1) [] 0)).processed =
            [(minMtu, twoHops)].map (fun x => incomingOf (sampleNode 1) x.2) ↔
          ∀ x ∈ [(minMtu, twoHops)], Readable x.1 x.2) :=
  processed_iff_readable (sampleNode 1) sendable_twoHops count_twoHops 0 0

/-- All datagrams of a message with two hops arrive, and it is never handed on. -/
theorem twoHops_lost :
    ∃ s, prepareAll sampleHmac [(minMtu, twoHops)] (fresh (sampleNode 1) (sampleNode 2) [] 0) = .ok () s ∧
      ∃ arrivals : List (Int × ConstDataBuffer),
        (∀ x ∈ arrivals, ∃ i, s.self.outputMessages.find i = some x.2) ∧
        (∀ i d, s.self.outputMessages.find i = some d → ∃ x ∈ arrivals, x.2 = d) ∧
        Timely sampleHmac arrivals (fresh (sampleNode 2) (sampleNode 1) [] 0) ∧
        (feed sampleHmac arrivals (fresh (sampleNode 2) (sampleNode 1) [] 0)).processed ≠
          [(minMtu, twoHops)].map (fun x => incomingOf (sampleNode 1) x.2) := by
  obtain ⟨s, hs, arrivals, hproduced, hcomplete, htimely, hrec⟩ :=
    @exists_arrivals sampleHmac [] (sampleNode 2) _ (sampleNode 1) sendable_twoHops count_twoHops 0 0
  refine ⟨s, hs, arrivals, hproduced, hcomplete, htimely, fun heq => ?_⟩
  have hr : Readable minMtu twoHops := by
    refine hrec.readable (minMtu, twoHops) ?_
    rw [heq]
    exact List.mem_singleton.mpr rfl
  exact absurd hr (by decide +kernel)

end Vds.DhtNetwork
