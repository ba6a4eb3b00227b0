import Vds.DhtNetwork.Acknowledgments

/-! Two sessions with one key over a network that loses, repeats, delays and reorders datagrams. -/

namespace Vds.DhtNetwork

open StateError BinaryDeserializer

variable {hmac : Hmac}

/-- One of the two parties; the other one is its negation. -/
abbrev Side := Bool

/-- The sessions of both parties, and all messages that were given to `prepare_to_send`. What a session has
written is on its way: it may arrive at any time, any number of times, or never. -/
structure Channel where
  node : Side → Session
  sent : Side → Sends

/-- The names of the parties, and their key. -/
structure Names where
  id : Side → ConstDataBuffer
  key : ConstDataBuffer

namespace Channel

def start (names : Names) (now : Side → Int) : Channel where
  node x := fresh (names.id x) (names.id !x) names.key (now x)
  sent _ := []

def update (c : Channel) (x : Side) (s : Session) (more : Sends) : Channel where
  node := Function.update c.node x s
  sent := Function.update c.sent x (c.sent x ++ more)

/-- A session at the time of a call; `refuses` are the writes that the transport is going to refuse. -/
def atTime (c : Channel) (x : Side) (now : Int) (refuses : List Bool) : Session := { c.node x with now, refuses }

/-- Which datagrams may come to a party, in which state of its session. -/
abbrev Network := Channel → Side → Session → ConstDataBuffer → Prop

/-- The network brings what the partner has written. -/
def honest : Network := fun c x _ d => d ∈ (c.node !x).written

/-- What a party does next, at any time and with any outcome of the writes. `send_message` is `prepare`,
followed by `resend` with the numbers of its datagrams. -/
inductive Step (hmac : Hmac) (names : Names) (network : Network) (c : Channel) : Channel → Prop
  | prepare (x : Side) (m : Outgoing) (now : Int) (refuses : List Bool)
      (promised : minMtu ≤ (c.node x).self.mtu → Sendable (c.node x).self.mtu m)
      (few : count (names.id !x) (c.sent x ++ [((c.node x).self.mtu, m)]) < indexMod) :
      Step hmac names network c (c.update x
        (final (prepareToSend hmac m.messageType m.targetNode m.hops m.message (c.atTime x now refuses)))
        [((c.node x).self.mtu, m)])
  | resend (x : Side) (index : Nat) (now : Int) (refuses : List Bool) :
      Step hmac names network c (c.update x (final (resend index (c.atTime x now refuses))) [])
  | process (x : Side) (d : ConstDataBuffer) (now : Int) (refuses : List Bool)
      (arrives : network c x (c.atTime x now refuses) d) :
      Step hmac names network c (c.update x (final (processDatagram hmac d (c.atTime x now refuses))) [])
  | tick (x : Side) (now : Int) (refuses : List Bool) :
      Step hmac names network c (c.update x (final (onTimer (c.atTime x now refuses))) [])

/-- What an honest party writes: its datagrams, tests of the MTU, and acknowledgments of what it has. -/
def Honest (hmac : Hmac) (names : Names) (c : Channel) (x : Side) (d : ConstDataBuffer) : Prop :=
  (∃ i : Nat, (stream hmac names.key (names.id !x) (c.sent x))[i]? = some d) ∨ (∃ mtu, d = mtuTest mtu) ∨
    ∃ last tail, d = MessageType.acknowledgment :: (indexBytes last ++ tail) ∧ last < indexMod ∧
      ∀ i, i < last → Has (c.node x).self i

/-- What holds as long as no session stores a datagram that is not its partner's. -/
structure Core (hmac : Hmac) (names : Names) (c : Channel) : Prop where
  sending : ∀ x, Sending hmac names.key (names.id !x) (c.sent x) (c.node x)
  receiving : ∀ x, Receiving hmac names.key (names.id !x) (names.id x) (c.sent !x) (c.node x)
  sendable : ∀ x, ∀ y ∈ c.sent x, Sendable y.1 y.2
  few : ∀ x, count (names.id !x) (c.sent x) < indexMod
  least : ∀ x, minMtu ≤ (c.node x).self.mtu

/-- What holds in every reachable state of two honest parties. -/
structure Inv (hmac : Hmac) (names : Names) (c : Channel) : Prop extends Core hmac names c where
  erased : ∀ x i, i < count (names.id !x) (c.sent x) → (c.node x).self.outputMessages.find i = none →
    Has (c.node !x).self i
  written : ∀ x, ∀ d ∈ (c.node x).written, Honest hmac names c x d

/-! ### A step on one side -/

section Update

variable {names : Names} {c : Channel} {x : Side} {s : Session} {more : Sends}

theorem update_node_self : (c.update x s more).node x = s :=
  @Function.update_self Side (fun _ => Session) _ x s c.node

theorem update_node_not : (c.update x s more).node (!x) = c.node !x :=
  @Function.update_of_ne Side (fun _ => Session) _ _ _ (Bool.not_ne_self x) s c.node

theorem update_sent_self : (c.update x s more).sent x = c.sent x ++ more :=
  Function.update_self x _ c.sent

theorem update_sent_not : (c.update x s more).sent (!x) = c.sent !x :=
  Function.update_of_ne (Bool.not_ne_self x) _ c.sent

theorem forall_side {P : Side → Prop} (x : Side) (h : P x) (h' : P !x) : ∀ y, P y := by
  intro y
  rcases Bool.eq_or_eq_not y x with rfl | rfl
  · exact h
  · exact h'

/-- More messages of the partner change nothing for the receiver. -/
theorem receiving_more {key source partner : ConstDataBuffer} {sends : Sends}
    (h : Receiving hmac key source partner sends s) (more : Sends) :
    Receiving hmac key source partner (sends ++ more) s := by
  have htake : (sends ++ more).take s.processed.length = sends.take s.processed.length :=
    List.take_append_of_le_length h.length_le
  refine ⟨h.thisNodeId, h.partnerNodeId, ?_, by rw [htake]; exact h.expectedIndex, by rw [htake]; exact h.readable,
    fun i d hd => getElem?_stream_append more (h.found i d hd), h.skipped⟩
  rw [List.map_append]
  exact h.processed.trans (List.prefix_append _ _)

theorem Core.update (h : Core hmac names c) (hmore : ∀ y ∈ more, Sendable y.1 y.2)
    (hsending : Sending hmac names.key (names.id !x) (c.sent x ++ more) s)
    (hreceiving : Receiving hmac names.key (names.id !x) (names.id x) (c.sent !x) s)
    (hfew : count (names.id !x) (c.sent x ++ more) < indexMod) (hleast : minMtu ≤ s.self.mtu) :
    Core hmac names (c.update x s more) := by
  refine ⟨forall_side x ?_ ?_, forall_side x ?_ ?_, forall_side x ?_ ?_, forall_side x ?_ ?_,
    forall_side x ?_ ?_⟩
  · rw [update_node_self, update_sent_self]
    exact hsending
  · rw [update_node_not, update_sent_not]
    exact h.sending !x
  · rw [update_node_self, update_sent_not]
    exact hreceiving
  · rw [update_node_not, Bool.not_not, update_sent_self]
    have := h.receiving !x
    rw [Bool.not_not] at this
    exact receiving_more this more
  · rw [update_sent_self]
    intro y hy
    rcases List.mem_append.mp hy with hy | hy
    · exact h.sendable x y hy
    · exact hmore y hy
  · rw [update_sent_not]
    exact h.sendable !x
  · rw [update_sent_self]
    exact hfew
  · rw [update_sent_not]
    exact h.few !x
  · rw [update_node_self]
    exact hleast
  · rw [update_node_not]
    exact h.least !x

theorem Inv.update (h : Inv hmac names c) (hcore : Core hmac names (c.update x s more))
    (hhas : ∀ i, Has (c.node x).self i → Has s.self i)
    (herased : ∀ i, i < count (names.id !x) (c.sent x ++ more) → s.self.outputMessages.find i = none →
      Has (c.node !x).self i)
    (hwritten : ∀ d ∈ s.written, d ∈ (c.node x).written ∨ Honest hmac names (c.update x s more) x d) :
    Inv hmac names (c.update x s more) := by
  refine ⟨hcore, forall_side x ?_ ?_, forall_side x ?_ ?_⟩
  · rw [update_node_self, update_sent_self, update_node_not]
    exact herased
  · rw [update_node_not, update_sent_not]
    intro i hi hnone
    rw [Bool.not_not, update_node_self]
    have := h.erased (!x) i hi hnone
    rw [Bool.not_not] at this
    exact hhas i this
  · rw [update_node_self]
    intro d hd
    rcases hwritten d hd with hd | hd
    · rcases h.written x d hd with ⟨i, hi⟩ | htest | ⟨last, tail, hack, hlast, hall⟩
      · left
        rw [update_sent_self]
        exact ⟨i, getElem?_stream_append more hi⟩
      · exact .inr (.inl htest)
      · right
        right
        rw [update_node_self]
        exact ⟨last, tail, hack, hlast, fun i hi => hhas i (hall i hi)⟩
    · exact hd
  · rw [update_node_not]
    intro d hd
    have := h.written (!x) d hd
    unfold Honest at this ⊢
    rwa [update_node_not, update_sent_not]

end Update

/-! ### What the steps do to the two halves of a session -/

section Halves

variable {key source partner : ConstDataBuffer} {sends : Sends} {s s' : Session}

theorem receiving_congr (h : Receiving hmac key source partner sends s)
    (he : receivingSide s' = receivingSide s) : Receiving hmac key source partner sends s' := by
  have hside : Receiving hmac key source partner sends (receivingSide s) :=
    ⟨h.thisNodeId, h.partnerNodeId, h.processed, h.expectedIndex, h.readable, h.found, h.skipped⟩
  rw [← he] at hside
  exact ⟨hside.thisNodeId, hside.partnerNodeId, hside.processed, hside.expectedIndex, hside.readable,
    hside.found, hside.skipped⟩

theorem has_congr (he : receivingSide s' = receivingSide s) {i : Nat} (h : Has s.self i) : Has s'.self i := by
  have hside : Has (receivingSide s).self i := h
  rw [← he] at hside
  exact hside

/-- What the sender is, and how far its numbers go, is not part of its queue. -/
theorem sending_congr (h : Sending hmac key partner sends s) (he : receivingSide s' = receivingSide s)
    (hq : ∀ i d, s'.self.outputMessages.find i = some d → s.self.outputMessages.find i = some d) :
    Sending hmac key partner sends s' := by
  have hside : (receivingSide s).self.partnerNodeId = partner ∧ (receivingSide s).self.sessionKey = key ∧
      (receivingSide s).self.lastOutputIndex = count partner sends :=
    ⟨h.partnerNodeId, h.sessionKey, h.lastOutputIndex⟩
  rw [← he] at hside
  exact ⟨hside.1, hside.2.1, hside.2.2, fun i d hd => h.queued i d (hq i d hd)⟩

theorem has_sendsOnly {p p' : DatagramProtocol} (h : SendsOnly p p') {i : Nat} (hi : Has p i) : Has p' i := by
  unfold Has at hi ⊢
  rwa [h.expectedIndex, h.inputMessages]

theorem lastInputIndex_le (h : Receiving hmac key source partner sends s) :
    s.self.lastInputIndex ≤ count partner sends := by
  by_contra hgt
  rcases h.skipped _ (not_le.mp hgt) with hlt | hfound
  · have hle := count_take_le partner sends s.processed.length
    rw [← h.expectedIndex] at hle
    exact hle.not_gt hlt
  · exact lt_irrefl _ (h.lt_count hfound)

end Halves

/-! ### The steps -/

section Steps

variable {names : Names} {c : Channel} {x : Side} {s : Session} {now : Int} {refuses : List Bool}

theorem Core.sending_at (h : Core hmac names c) :
    Sending hmac names.key (names.id !x) (c.sent x) (c.atTime x now refuses) :=
  ⟨(h.sending x).partnerNodeId, (h.sending x).sessionKey, (h.sending x).lastOutputIndex, (h.sending x).queued⟩

theorem Core.receiving_at (h : Core hmac names c) :
    Receiving hmac names.key (names.id !x) (names.id x) (c.sent !x) (c.atTime x now refuses) :=
  receiving_congr (h.receiving x) rfl

/-- A step without a message. -/
theorem Core.update_nil (h : Core hmac names c)
    (hsending : Sending hmac names.key (names.id !x) (c.sent x) s)
    (hreceiving : Receiving hmac names.key (names.id !x) (names.id x) (c.sent !x) s)
    (hleast : minMtu ≤ s.self.mtu) : Core hmac names (c.update x s []) :=
  h.update (fun _ hy => absurd hy List.not_mem_nil) (by rw [List.append_nil]; exact hsending) hreceiving
    (by rw [List.append_nil]; exact h.few x) hleast

/-- A step that erases what the partner has, and writes what is queued. -/
theorem Core.serves (h : Core hmac names c) {last : Nat} (hs : Serves last (c.atTime x now refuses) s) :
    Core hmac names (c.update x s []) :=
  h.update_nil (sending_congr h.sending_at hs.receiving hs.queued) (receiving_congr h.receiving_at hs.receiving)
    ((h.least x).trans hs.mtu)

theorem Inv.serves (h : Inv hmac names c) {last : Nat} (hs : Serves last (c.atTime x now refuses) s)
    (hlast : ∀ i, i < last → Has (c.node !x).self i) : Inv hmac names (c.update x s []) := by
  refine h.update (h.toCore.serves hs) (fun i hi => has_congr hs.receiving hi) (fun i hi hnone => ?_)
    fun d hd => ?_
  · rw [List.append_nil] at hi
    rcases hs.erased i hnone with hnone | hlt
    · exact h.erased x i hi hnone
    · exact hlast i hlt
  · rcases hs.written d hd with hd | ⟨i, hd⟩
    · exact .inl hd
    · right
      left
      rw [update_sent_self, List.append_nil]
      exact ⟨i, (h.sending x).queued i d hd⟩

theorem Core.ticks (h : Core hmac names c) (hs : Ticks (c.atTime x now refuses) s) :
    Core hmac names (c.update x s []) :=
  h.update_nil (sending_congr h.sending_at hs.receiving fun i d hd => by rwa [hs.queued] at hd)
    (receiving_congr h.receiving_at hs.receiving) ((h.least x).trans_eq hs.mtu.symm)

theorem Inv.ticks (h : Inv hmac names c) (hs : Ticks (c.atTime x now refuses) s) :
    Inv hmac names (c.update x s []) := by
  have hreceiving := h.receiving x
  refine h.update (h.toCore.ticks hs) (fun i hi => has_congr hs.receiving hi) (fun i hi hnone => ?_)
    fun d hd => ?_
  · rw [List.append_nil] at hi
    rw [hs.queued] at hnone
    exact h.erased x i hi hnone
  · rcases hs.written d hd with hd | htest | ⟨tail, hd⟩
    · exact .inl hd
    · exact .inr (.inr (.inl htest))
    · refine .inr (.inr (.inr ⟨_, tail, hd, ?_, fun i hi => ?_⟩))
      · have hfew := h.few !x
        rw [Bool.not_not] at hfew
        exact (lastInputIndex_le hreceiving).trans_lt hfew
      · rw [update_node_self]
        exact has_congr hs.receiving (hreceiving.skipped i hi)

/-- A step in which the party takes a datagram of its partner. -/
theorem Core.receives (h : Core hmac names c) {d : ConstDataBuffer}
    (hreceiving : Receiving hmac names.key (names.id !x) (names.id x) (c.sent !x) s)
    (hs : Receives (measured d (c.atTime x now refuses)) s) : Core hmac names (c.update x s []) := by
  have hside : Sending hmac names.key (names.id !x) (c.sent x) (sendingSide s) ∧
      minMtu ≤ (sendingSide s).self.mtu := by
    rw [hs.sending]
    exact ⟨⟨(h.sending x).partnerNodeId, (h.sending x).sessionKey, (h.sending x).lastOutputIndex,
      (h.sending x).queued⟩, h.least x⟩
  exact h.update_nil ⟨hside.1.partnerNodeId, hside.1.sessionKey, hside.1.lastOutputIndex, hside.1.queued⟩
    hreceiving hside.2

theorem Inv.receives (h : Inv hmac names c) {d : ConstDataBuffer}
    (hreceiving : Receiving hmac names.key (names.id !x) (names.id x) (c.sent !x) s)
    (hs : Receives (measured d (c.atTime x now refuses)) s) : Inv hmac names (c.update x s []) := by
  have hside : (sendingSide s).self.outputMessages = (c.node x).self.outputMessages ∧
      (sendingSide s).written = (c.node x).written := by
    rw [hs.sending]
    exact ⟨rfl, rfl⟩
  refine h.update (h.toCore.receives hreceiving hs) hs.has (fun i hi hnone => ?_)
    fun d hd => .inl (hside.2 ▸ hd)
  rw [List.append_nil] at hi
  refine h.erased x i hi ?_
  rw [← hside.1]
  exact hnone

theorem index_at {last : Nat} (hlast : last < indexMod) (tail : ConstDataBuffer) :
    numberAt (MessageType.acknowledgment :: (indexBytes last ++ tail)) 1 4 = .ok last := by
  have hvalue : (bigEndian (indexBytes last)).toNat = last := toNat_indexBytes hlast
  refine Eq.trans ?_ (congrArg Except.ok hvalue)
  exact @numberAt_append _ [MessageType.acknowledgment] (indexBytes last) tail 1 4 rfl rfl rfl

/-- What `prepare_to_send` does to the session and to the messages that were sent. -/
theorem Core.prepare (h : Core hmac names c) {m : Outgoing} (hm : Sendable (c.node x).self.mtu m)
    (hfew : count (names.id !x) (c.sent x ++ [((c.node x).self.mtu, m)]) < indexMod) :
    Core hmac names (c.update x
      (final (prepareToSend hmac m.messageType m.targetNode m.hops m.message (c.atTime x now refuses)))
      [((c.node x).self.mtu, m)]) := by
  have hat : Sending hmac names.key (names.id !x) (c.sent x) (c.atTime x now refuses) := h.sending_at
  obtain ⟨happly, hsending, -⟩ := hat.prepareToSend hm hfew
  rw [happly]
  have hsame := @sendsOnly_enqueue hmac
    (partsOf (c.node x).self.partnerNodeId (c.node x).self.mtu m) (c.node x).self
  have hreceiving := h.receiving x
  refine h.update (fun y hy => (List.mem_singleton.mp hy) ▸ hm) hsending ?_ hfew ?_
  · exact ⟨hsame.thisNodeId.trans hreceiving.thisNodeId, hsame.partnerNodeId.trans hreceiving.partnerNodeId,
      hreceiving.processed, hsame.expectedIndex.trans hreceiving.expectedIndex, hreceiving.readable,
      fun i d hd => hreceiving.found i d (by rw [← hsame.inputMessages]; exact hd),
      fun i hi => has_sendsOnly hsame (hreceiving.skipped i (by rw [← hsame.lastInputIndex]; exact hi))⟩
  · exact (h.least x).trans_eq hsame.mtu.symm

theorem Inv.prepare (h : Inv hmac names c) {m : Outgoing} (hm : Sendable (c.node x).self.mtu m)
    (hfew : count (names.id !x) (c.sent x ++ [((c.node x).self.mtu, m)]) < indexMod) :
    Inv hmac names (c.update x
      (final (prepareToSend hmac m.messageType m.targetNode m.hops m.message (c.atTime x now refuses)))
      [((c.node x).self.mtu, m)]) := by
  have hat : Sending hmac names.key (names.id !x) (c.sent x) (c.atTime x now refuses) := h.sending_at
  obtain ⟨happly, -, hfind⟩ := hat.prepareToSend hm hfew
  have hcore := @Core.prepare hmac names c x now refuses h.toCore m hm hfew
  rw [happly] at hcore ⊢
  have hsame := @sendsOnly_enqueue hmac
    (partsOf (c.node x).self.partnerNodeId (c.node x).self.mtu m) (c.node x).self
  refine h.update hcore (fun i hi => has_sendsOnly hsame hi) (fun i hi hnone => ?_) fun d hd => .inl hd
  have hnone' := (hfind i).symm.trans hnone
  split_ifs at hnone' with hold
  · rw [getElem?_stream, Option.map_eq_none_iff, List.getElem?_eq_none_iff] at hnone'
    exact absurd hi hnone'.not_gt
  · exact h.erased x i (not_le.mp hold) hnone'

theorem Inv.process (h : Inv hmac names c) {d : ConstDataBuffer} (hd : d ∈ (c.node !x).written) :
    Inv hmac names (c.update x (final (processDatagram hmac d (c.atTime x now refuses))) []) := by
  have hnothing : ∀ i, i < 0 → Has (c.node !x).self i := fun i hi => absurd hi i.not_lt_zero
  by_cases hrefuses : Refuses (c.atTime x now refuses)
  · obtain ⟨e, he⟩ := @processDatagram_of_refuses hmac _ hrefuses d
    rw [he]
    exact h.serves (refl_of (Serves 0) _) hnothing
  · have hmeasured : ∀ last, Serves last (c.atTime x now refuses) (measured d (c.atTime x now refuses)) :=
      fun last => ⟨rfl, fun _ _ hx => hx, fun _ hx => .inl hx, fun _ hx => .inl hx, le_rfl⟩
    rcases h.written (!x) d hd with ⟨i, hi⟩ | ⟨mtu, rfl⟩ | ⟨last, tail, rfl, hlast, hall⟩
    · rw [Bool.not_not] at hi
      have hfew := h.few !x
      rw [Bool.not_not] at hfew
      obtain ⟨s', hs', hrec, hmoves, -, -⟩ :=
        processDatagram_stream h.receiving_at hfew (h.sendable !x) hi hrefuses
      rw [hs']
      exact h.receives hrec hmoves
    · unfold mtuTest at hmeasured ⊢
      rw [processDatagram_of_open hrefuses, if_pos rfl]
      exact h.serves (hmeasured 0) hnothing
    · rw [processDatagram_of_open hrefuses, if_neg (by decide), if_pos rfl]
      have hnumber : numberAt (MessageType.acknowledgment :: (indexBytes last ++ tail)) 1 4 = .ok last :=
        index_at hlast tail
      exact h.serves (trans_of (Serves last) (hmeasured last) (serves_processAcknowledgment hnumber _)) hall

theorem Inv.step {c' : Channel} (h : Inv hmac names c) (hs : Step hmac names honest c c') : Inv hmac names c' := by
  cases hs with
  | prepare x m now refuses promised few => exact h.prepare (promised (h.least x)) few
  | resend x index now refuses =>
    exact h.serves (moves_resend 0 index _) fun i hi => absurd hi i.not_lt_zero
  | process x d now refuses arrives => exact h.process arrives
  | tick x now refuses => exact h.ticks (moves_onTimer _)

end Steps

theorem core_start (names : Names) (now : Side → Int) : Core hmac names (start names now) where
  sending _ := fresh_sending _
  receiving _ := fresh_receiving _
  sendable _ _ hy := absurd hy List.not_mem_nil
  few _ := Nat.two_pow_pos 32
  least _ := le_rfl

theorem inv_start (names : Names) (now : Side → Int) : Inv hmac names (start names now) where
  toCore := core_start names now
  erased _ i hi := absurd hi i.not_lt_zero
  written _ _ hd := absurd hd List.not_mem_nil

theorem inv_of_reachable {names : Names} {now : Side → Int} {c : Channel}
    (h : Relation.ReflTransGen (Step hmac names honest) (start names now) c) : Inv hmac names c := by
  induction h with
  | refl => exact inv_start names now
  | tail _ hs ih => exact ih.step hs

/-! ### `send_message` -/

theorem update_update (c : Channel) (x : Side) (s s' : Session) (more : Sends) :
    (c.update x s more).update x s' [] = c.update x s' more := by
  unfold update
  dsimp only
  rw [Function.update_self, List.append_nil, Function.update_idem, Function.update_idem]

theorem path_resend {names : Names} {network : Network} {c : Channel} {x : Side} {more : Sends} (indexes : List Nat) (s : Session) :
    Relation.ReflTransGen (Step hmac names network) (c.update x s more)
      (c.update x (final (indexes.forM resend s)) more) := by
  induction indexes generalizing s with
  | nil => exact .refl
  | cons index indexes ih =>
    have hat : (c.update x s more).atTime x s.now s.refuses = s := by
      unfold atTime
      rw [update_node_self]
    have hstep : Step hmac names network (c.update x s more) (c.update x (final (resend index s)) more) := by
      have := @Step.resend hmac names network (c.update x s more) x index s.now s.refuses
      rwa [hat, update_update] at this
    have hcons : (index :: indexes).forM resend s = (resend index >>= fun _ => indexes.forM resend) s := rfl
    rw [hcons]
    cases hr : resend index s with
    | ok a s' =>
      rw [bind_of_ok hr]
      rw [hr] at hstep
      exact .head hstep (ih s')
    | error e s' =>
      rw [bind_of_error hr]
      rw [hr] at hstep
      exact .single hstep

/-- `send_message` is a run of the channel. -/
theorem path_sendMessage {names : Names} {network : Network} {c : Channel} (h : Core hmac names c) {x : Side} {m : Outgoing}
    (hm : Sendable (c.node x).self.mtu m)
    (hfew : count (names.id !x) (c.sent x ++ [((c.node x).self.mtu, m)]) < indexMod) (now : Int)
    (refuses : List Bool) :
    Relation.ReflTransGen (Step hmac names network) c (c.update x
      (final (sendMessage hmac m.messageType m.targetNode m.hops m.message (c.atTime x now refuses)))
      [((c.node x).self.mtu, m)]) := by
  have hat : Sending hmac names.key (names.id !x) (c.sent x) (c.atTime x now refuses) := h.sending_at
  obtain ⟨happly, -, -⟩ := hat.prepareToSend hm hfew
  have hstep := @Step.prepare hmac names network c x m now refuses (fun _ => hm) hfew
  unfold sendMessage
  rw [happly] at hstep
  rw [bind_of_ok happly]
  exact .head hstep (path_resend _ _)

/-! ### Delivery -/

/-- What a party hands on is the beginning of what its partner has been given, and a datagram that is not
queued any more is one that the partner has. -/
theorem delivered_in_order {names : Names} {now : Side → Int} {c : Channel}
    (h : Relation.ReflTransGen (Step hmac names honest) (start names now) c) (x : Side) :
    (c.node x).processed <+: (c.sent !x).map (fun y => incomingOf (names.id !x) y.2) ∧
      ∀ i, i < (c.node x).self.lastOutputIndex → (c.node x).self.outputMessages.find i = none →
        Has (c.node !x).self i := by
  have hinv := inv_of_reachable h
  refine ⟨(hinv.receiving x).processed, fun i hi hnone => hinv.erased x i ?_ hnone⟩
  rwa [(hinv.sending x).lastOutputIndex] at hi

def sampleNames : Names where
  id x := if x then sampleNode 2 else sampleNode 1
  key := []

def shortMessage : Outgoing where
  messageType := 1
  targetNode := sampleNode 2
  hops := []
  message := [1, 2, 3]

/-- A message is given to a session, -/
def sampleSent : Channel :=
  let c := start sampleNames fun _ => 0
  c.update false (final (prepareToSend sampleHmac 1 (sampleNode 2) [] [1, 2, 3] (c.atTime false 0 [])))
    [(minMtu, shortMessage)]

/-- its datagram is written, -/
def sampleWritten : Channel :=
  sampleSent.update false (final (resend 0 (sampleSent.atTime false 0 []))) []

def sampleDatagram : ConstDataBuffer := (sampleWritten.node false).written.headD []

/-- and the partner takes it. -/
def sampleTaken : Channel :=
  sampleWritten.update true (final (processDatagram sampleHmac sampleDatagram (sampleWritten.atTime true 0 []))) []

theorem delivered_in_order_sample :
    (sampleTaken.node true).processed <+:
        (sampleTaken.sent false).map (fun y => incomingOf (sampleNames.id false) y.2) ∧
      ∀ i, i < (sampleTaken.node true).self.lastOutputIndex →
        (sampleTaken.node true).self.outputMessages.find i = none → Has (sampleTaken.node false).self i := by
  have hsent : Step sampleHmac sampleNames honest (start sampleNames fun _ => 0) sampleSent :=
    .prepare false shortMessage 0 [] (fun hleast => ⟨rfl, rfl, by decide, by decide, by decide, hleast, by decide⟩)
      (by decide +kernel)
  have hwritten : Step sampleHmac sampleNames honest sampleSent sampleWritten := .resend false 0 0 []
  have htaken : Step sampleHmac sampleNames honest sampleWritten sampleTaken :=
    .process true sampleDatagram 0 []
      (show sampleDatagram ∈ (sampleWritten.node false).written by decide +kernel)
  exact delivered_in_order (.tail (.tail (.single hsent) hwritten) htaken) true

example : (sampleTaken.node true).processed = [incomingOf (sampleNode 1) shortMessage] := by decide +kernel

end Channel
end Vds.DhtNetwork
