import Vds.DhtNetwork.Fragments
import Vds.DhtNetwork.Heads
import Vds.DhtNetwork.Route
import Vds.Library.LabelledRun

/-! Messages for other nodes: `_client::send`, `dht_session::process_message` and
`_client::proxy_message`, over a network of nodes with their routing tables. -/

namespace Vds.DhtNetwork.Forwarding

open DhtObjectId DhtRoute Library.LabelledRun

variable {α : Type}

/-! ### One node -/

/-- What a node gives to its sessions, each with the node of the table that it was given for. -/
abbrev Sent (α : Type) := List (RouteNode α × Outgoing)

/-- Whether the sessions of a node take what they are given. -/
abbrev Transport (α : Type) := RouteNode α → Outgoing → Expected Unit

/-- The callback of `send` and `proxy_message`: one node is enough. -/
def giveTo (transport : Transport α) (m : Outgoing) (sent : Sent α) (candidate : RouteNode α) :
    Expected Bool × Sent α :=
  match transport candidate m with
  | .error e => (.error e, sent ++ [(candidate, m)])
  | .ok () => (.ok false, sent ++ [(candidate, m)])

section Node

variable (route : DhtRoute α) (transport : Transport α)

/-- `_client::send` -/
def send (targetNodeId : ConstDataBuffer) (messageId : UInt8) (message : ConstDataBuffer) :
    Expected Unit × Sent α :=
  let m : Outgoing := ⟨messageId, targetNodeId, [], message⟩
  let (result, sent, _) := route.forNear targetNodeId 1 (fun _ => .ok true) (giveTo transport m) []
  (result, sent)

/-- The hop that is nearest to the target, or the node itself. -/
def bestHop (currentNodeId targetNodeId : ConstDataBuffer) (hops : List ConstDataBuffer) :
    ConstDataBuffer :=
  hops.foldl
    (fun best item =>
      if bufferLess (distance targetNodeId item) (distance targetNodeId best) then item else best)
    currentNodeId

/-- `proxy_message` with at most ten hops. -/
def proxyNear (m : Outgoing) : Expected Unit × Sent α :=
  let (result, sent, _) := route.forNear m.targetNode 1
    (fun node => .ok (node.proxySession.partnerNodeId ∉ m.hops : Bool)) (giveTo transport m) []
  (result, sent)

/-- The message that the call of `proxy_message` inside it is for. -/
def shortened (m : Outgoing) : Outgoing :=
  { m with
    targetNode := m.hops.getLast?.getD []
    hops := [bestHop route.currentNodeId m.targetNode m.hops] }

/-- `_client::proxy_message`; the call inside it has one hop. -/
def proxyMessage (m : Outgoing) : Expected Unit × Sent α :=
  if 10 < m.hops.length then proxyNear route transport (shortened route m)
  else proxyNear route transport m

/-- What `process_message` of a session does with a message: `imessage_map` gets it, or sessions. -/
structure Processed (α : Type) where
  result : Expected Unit := .ok ()
  handed : Option Incoming := none
  sent : Sent α := []

/-- `dht_session::process_message`, apart from the routes it adds. -/
def processMessage (m : Incoming) : Processed α :=
  if m.targetNode ≠ route.currentNodeId then
    let (result, sent) := proxyMessage route transport ⟨m.messageType, m.targetNode, m.hops, m.message⟩
    { result, sent }
  else { handed := some m }

end Node

/-! ### The network -/

/-- A message that a node has got from a session. -/
structure Packet where
  node : ConstDataBuffer
  incoming : Incoming
  deriving DecidableEq

/-- The partner of the session gets the message; the sender is the first of its hops. -/
def arrival (sender : ConstDataBuffer) (x : RouteNode α × Outgoing) : Packet :=
  ⟨x.1.proxySession.partnerNodeId, incomingOf sender x.2⟩

/-- The node `source` with this table has sent the message. -/
def SentBy (source target : ConstDataBuffer) (p : Packet) : Prop :=
  ∃ (α : Type) (route : DhtRoute α) (transport : Transport α) (messageId : UInt8)
    (message : ConstDataBuffer), ∃ x ∈ (send route transport target messageId message).2,
    p = arrival source x

/-- The table of a node and its sessions, when a message comes in. -/
structure Relay (α : Type) where
  route : DhtRoute α
  transport : Transport α

/-- The node forwards the message. -/
def forward (p : Packet) (relay : Relay α) : Option Packet :=
  if relay.route.currentNodeId = p.node then
    (processMessage relay.route relay.transport p.incoming).sent.head?.map (arrival p.node)
  else none

/-- The node gives the message to its `imessage_map`. -/
def Packet.Handed (p : Packet) : Prop := p.incoming.targetNode = p.node

/-- `source_node()` -/
def Packet.sourceNode (p : Packet) : Option ConstDataBuffer := p.incoming.hops.getLast?

/-! ### What is sent -/

theorem forNearLoop_giveTo (transport : Transport α) (m : Outgoing) (nodes : List (RouteNode α)) :
    (forNearLoop (giveTo transport m) nodes []).2.1 = (nodes.head?.map fun node => (node, m)).toList := by
  cases nodes with
  | nil => rfl
  | cons node nodes =>
    unfold forNearLoop giveTo
    cases transport node m with
    | error e => rfl
    | ok u => rfl

theorem forNear_giveTo (route : DhtRoute α) (transport : Transport α) (m : Outgoing)
    (target : ConstDataBuffer) (filter : RouteNode α → Expected Bool) :
    ∀ x ∈ (route.forNear target 1 filter (giveTo transport m) []).2.1, x.2 = m := by
  intro x hx
  unfold forNear at hx
  cases hsearch : route.searchNodes target 1 filter with
  | error e =>
    rw [hsearch] at hx
    cases hx
  | ok resultNodes =>
    rw [hsearch] at hx
    simp only [forNearLoop_giveTo, Option.mem_toList, Option.map_eq_some_iff] at hx
    obtain ⟨node, -, rfl⟩ := hx
    rfl

theorem hops_of_sentBy {source target : ConstDataBuffer} {p : Packet} (h : SentBy source target p) :
    p.incoming.targetNode = target ∧ p.incoming.hops = [source] := by
  obtain ⟨β, route, transport, messageId, message, x, hx, rfl⟩ := h
  have hm : x.2 = ⟨messageId, target, [], message⟩ := forNear_giveTo route transport _ _ _ x hx
  refine ⟨?_, ?_⟩
  · rw [arrival, incomingOf, hm]
  · rw [arrival, incomingOf, hm]

/-- What one node makes of a message that it forwards. -/
structure Passed (p q : Packet) : Prop where
  other : p.incoming.targetNode ≠ p.node
  few : p.incoming.hops.length ≤ 10 → q.incoming.targetNode = p.incoming.targetNode ∧
    q.incoming.hops = p.node :: p.incoming.hops
  many : 10 < p.incoming.hops.length → some q.incoming.targetNode = p.sourceNode ∧
    q.incoming.hops.length = 2

theorem passed_of_forward {p q : Packet} {relay : Relay α} (h : forward p relay = some q) :
    Passed p q := by
  unfold forward at h
  split_ifs at h with hnode
  obtain ⟨x, hx, rfl⟩ := Option.map_eq_some_iff.mp h
  have hx := List.mem_of_mem_head? hx
  unfold processMessage at hx
  split_ifs at hx with hother
  · rw [hnode] at hother
    simp only [proxyMessage] at hx
    split_ifs at hx with hmany
    · have hm := forNear_giveTo relay.route relay.transport _ _ _ x hx
      refine ⟨hother, fun hfew => absurd hmany (Nat.not_lt.mpr hfew), fun _ => ?_⟩
      have hne : p.incoming.hops ≠ [] := List.ne_nil_of_length_pos (Nat.zero_lt_of_lt hmany)
      rw [arrival, incomingOf, hm, Packet.sourceNode, shortened, List.getLast?_eq_some_getLast hne]
      exact ⟨rfl, rfl⟩
    · have hm := forNear_giveTo relay.route relay.transport _ _ _ x hx
      refine ⟨hother, fun _ => ?_, fun hlong => absurd hlong hmany⟩
      rw [arrival, incomingOf, hm]
      exact ⟨rfl, rfl⟩
  · cases hx

/-! ### Source and target -/

/-- The message is for `target` and seems to come from `source`. -/
def Packet.Keeps (source target : ConstDataBuffer) (p : Packet) : Prop :=
  p.incoming.targetNode = target ∧ p.sourceNode = some source

/-- The node forwards a message with at most ten hops. -/
def FewHops (p : Packet) (_ : Relay α) : Prop := p.incoming.hops.length ≤ 10

/-- Wherever it is handed on, this is the target and the message seems to come from its source; and
on no way there has it been for another node or seemed to come from another one. -/
structure KeepsWay (source target : ConstDataBuffer) (p : Packet) (relays : List (Relay α)) : Prop where
  handed : Always forward p relays fun q => q.Handed → q.node = target ∧ q.sourceNode = some source
  way : Always forward p relays (Packet.Keeps source target)

theorem keeps_of_sentBy {source target : ConstDataBuffer} {p : Packet} (h : SentBy source target p) :
    p.Keeps source target := by
  obtain ⟨htarget, hhops⟩ := hops_of_sentBy h
  refine ⟨htarget, ?_⟩
  rw [Packet.sourceNode, hhops]
  rfl

theorem keeps_of_few {source target : ConstDataBuffer} {p q : Packet} (hp : p.Keeps source target)
    (h : Passed p q) (hfew : p.incoming.hops.length ≤ 10) : q.Keeps source target := by
  obtain ⟨htarget, hhops⟩ := h.few hfew
  refine ⟨htarget.trans hp.1, ?_⟩
  have hsource := hp.2
  unfold Packet.sourceNode at hsource ⊢
  rw [hhops, List.getLast?_cons, hsource]
  rfl

/-- A message on its way to another node is no longer for it, once the hops are too many. -/
theorem few_of_keeps {source target : ConstDataBuffer} {p q : Packet} (hp : p.Keeps source target)
    (hq : q.Keeps source target) (h : Passed p q) (hne : source ≠ target) :
    p.incoming.hops.length ≤ 10 := by
  by_contra hmany
  obtain ⟨hsource, -⟩ := h.many (Nat.lt_of_not_le hmany)
  rw [hp.2, hq.1] at hsource
  exact hne (Option.some.inj hsource).symm

theorem keepsWay_of_few {source target : ConstDataBuffer} {p : Packet} (hsent : SentBy source target p)
    {relays : List (Relay α)} (h : EachStep forward p relays FewHops) : KeepsWay source target p relays := by
  have hway : Always forward p relays (Packet.Keeps source target) :=
    always_of_eachStep (keeps_of_sentBy hsent)
      (fun _ _ _ hp hfew hstep => keeps_of_few hp (passed_of_forward hstep) hfew) h
  refine ⟨fun done hdone q hq hhanded => ?_, hway⟩
  obtain ⟨htarget, hsource⟩ := hway done hdone q hq
  exact ⟨hhanded.symm.trans htarget, hsource⟩

/-- A message keeps its source and its target on every way on which it is forwarded with at most ten
hops, and, unless it is for its source, on no other way. -/
theorem keepsWay_iff {source target : ConstDataBuffer} {p : Packet} (hsent : SentBy source target p)
    (relays : List (Relay α)) :
    (EachStep forward p relays FewHops → KeepsWay source target p relays) ∧
      (source ≠ target → KeepsWay source target p relays → EachStep forward p relays FewHops) := by
  refine ⟨keepsWay_of_few hsent, fun hne h => ?_⟩
  exact eachStep_of_always
    (fun _ _ _ hp hq hstep => few_of_keeps hp hq (passed_of_forward hstep) hne) h.way

/-! ### The end of the way -/

/-- The tables of the nodes do not change. -/
structure Network (α : Type) where
  table : ConstDataBuffer → DhtRoute α
  own : ∀ id, (table id).currentNodeId = id
  transport : ConstDataBuffer → Transport α

namespace Network

variable (network : Network α)

def next (p : Packet) : Option Packet :=
  forward p ⟨network.table p.node, network.transport p.node⟩

/-- Where the message is after so many steps of forwarding, if there are as many. -/
def after : Nat → Packet → Option Packet
  | 0, p => some p
  | n + 1, p => (after n p).bind network.next

/-- The sequence of forwarding steps is finite. -/
def Ends (p : Packet) : Prop := ∃ n, network.after n p = none

theorem after_none {n : Nat} {p : Packet} (h : network.after n p = none) {i : Nat} (hi : n ≤ i) :
    network.after i p = none := by
  induction i, hi using Nat.le_induction with
  | base => exact h
  | succ i _ ih => rw [after, ih, Option.bind_none]

/-- Without a long list of hops, every step adds a hop. -/
theorem length_after {p : Packet} {n : Nat} (hfew : ∀ i q, n ≤ i → network.after i p = some q →
    network.next q ≠ none → q.incoming.hops.length ≤ 10) (hgoes : ∀ i, network.after i p ≠ none)
    (i : Nat) : ∃ q, network.after (n + i) p = some q ∧ i ≤ q.incoming.hops.length := by
  induction i with
  | zero =>
    obtain ⟨q, hq⟩ := Option.ne_none_iff_exists'.mp (hgoes n)
    exact ⟨q, hq, Nat.zero_le _⟩
  | succ i ih =>
    obtain ⟨q, hq, hlen⟩ := ih
    obtain ⟨q', hq'⟩ := Option.ne_none_iff_exists'.mp (hgoes (n + i + 1))
    have hstep : network.next q = some q' := by
      rw [after, hq, Option.bind_some] at hq'
      exact hq'
    have hten := hfew (n + i) q (Nat.le_add_right n i) hq (hstep ▸ Option.some_ne_none q')
    obtain ⟨-, hhops⟩ := (passed_of_forward hstep).few hten
    refine ⟨q', hq', ?_⟩
    rw [hhops, List.length_cons]
    omega

/-- The forwarding of a message ends if and only if from some step on no node forwards it with more
than ten hops behind it. -/
theorem ends_iff (p : Packet) : network.Ends p ↔ ∃ n, ∀ i q, n ≤ i → network.after i p = some q →
    network.next q ≠ none → q.incoming.hops.length ≤ 10 := by
  constructor
  · rintro ⟨n, hn⟩
    refine ⟨n, fun i q hi hq => ?_⟩
    rw [network.after_none hn hi] at hq
    cases hq
  · rintro ⟨n, hfew⟩
    by_contra hends
    have hgoes : ∀ i, network.after i p ≠ none := fun i hi => hends ⟨i, hi⟩
    obtain ⟨q, hq, hlen⟩ := network.length_after hfew hgoes 11
    obtain ⟨q', hq'⟩ := Option.ne_none_iff_exists'.mp (hgoes (n + 11 + 1))
    rw [after, hq, Option.bind_some] at hq'
    have hten := hfew (n + 11) q (Nat.le_add_right n 11) hq (hq' ▸ Option.some_ne_none q')
    omega

theorem after_add (m n : Nat) (p : Packet) :
    network.after (m + n) p = (network.after m p).bind (network.after n) := by
  induction n with
  | zero =>
    rw [Nat.add_zero]
    exact (Option.bind_fun_some _).symm
  | succ n ih =>
    rw [← Nat.add_assoc, after, ih, Option.bind_assoc]
    rfl

/-- What comes back does so again and again. -/
theorem not_ends_of_turn {n : Nat} {p : Packet} (h : network.after (n + 1) p = some p) :
    ¬network.Ends p := by
  have hturns : ∀ k, network.after ((n + 1) * k) p = some p := by
    intro k
    induction k with
    | zero => rfl
    | succ k ih => rw [Nat.mul_succ, after_add, ih, Option.bind_some, h]
  rintro ⟨k, hk⟩
  have hnone := network.after_none hk (Nat.le_mul_of_pos_left k (Nat.succ_pos n))
  rw [hturns k] at hnone
  cases hnone

end Network

/-! ### A ring -/

def ringId (head : UInt8) : ConstDataBuffer := head :: List.replicate 31 0

/-- The nodes of a ring; each has a session with the next one. -/
def ring : List ConstDataBuffer :=
  [145, 82, 244, 33, 177, 220, 132, 252, 159, 168, 174, 190, 14, 117, 231, 223, 200, 224, 175, 205, 144,
    101, 102, 103, 233, 27, 124, 163, 240, 16].map ringId

def emptyTable (id : ConstDataBuffer) : DhtRoute Unit where
  currentNodeId := id
  placed := fun _ h => (by cases h)

def ringTable (id : ConstDataBuffer) : DhtRoute Unit :=
  match (ring.zip (ring.rotate 1)).lookup id with
  | none => emptyTable id
  | some next => ((emptyTable id).addNode next ⟨(), next⟩ 0 false).2

theorem currentNodeId_addNode (route : DhtRoute Unit) (id : ConstDataBuffer)
    (proxySession : RouteSession Unit) (hops : UInt8) (allowSkip : Bool) :
    (route.addNode id proxySession hops allowSkip).2.currentNodeId = route.currentNodeId := by
  unfold DhtRoute.addNode
  split_ifs
  · rfl
  · rfl

theorem own_ringTable (id : ConstDataBuffer) : (ringTable id).currentNodeId = id := by
  unfold ringTable
  split
  · rfl
  · rw [currentNodeId_addNode]
    rfl

def ringNetwork : Network Unit where
  table := ringTable
  own := own_ringTable
  transport _ _ _ := .ok ()

/-- The node 145 has sent a message to a node that the ring does not have. -/
def ringStart : Packet where
  node := ringId 82
  incoming := ⟨1, ringId 0, [ringId 145], []⟩

def ringTurn : Packet where
  node := ringId 14
  incoming := ⟨1, ringId 145, [ringId 190, ringId 33], []⟩

theorem send_ring : (send (ringTable (ringId 145)) (fun _ _ => .ok ()) (ringId 0) 1 []).2 =
    [(⟨ringId 82, ⟨(), ringId 82⟩, 0, 0⟩, ⟨1, ringId 0, [], []⟩)] := by
  rfl

theorem sentBy_ringStart : SentBy (ringId 145) (ringId 0) ringStart := by
  refine ⟨Unit, ringTable (ringId 145), fun _ _ => .ok (), 1, [],
    (⟨ringId 82, ⟨(), ringId 82⟩, 0, 0⟩, ⟨1, ringId 0, [], []⟩), ?_, rfl⟩
  rw [send_ring]
  exact List.mem_singleton_self _

/-- The eleven nodes behind the first one; then the node 14 has a session with the first one. -/
def strayRelays : List (Relay Unit) :=
  ((ring.drop 1).take 11).map (fun id => ⟨ringTable id, fun _ _ => .ok ()⟩) ++
    [⟨((emptyTable (ringId 14)).addNode (ringId 145) ⟨(), ringId 145⟩ 0 false).2, fun _ _ => .ok ()⟩]

theorem keepsWay_iff_ring :
    (EachStep forward ringStart strayRelays FewHops →
      KeepsWay (ringId 145) (ringId 0) ringStart strayRelays) ∧
    (ringId 145 ≠ ringId 0 → KeepsWay (ringId 145) (ringId 0) ringStart strayRelays →
      EachStep forward ringStart strayRelays FewHops) :=
  keepsWay_iff sentBy_ringStart strayRelays

/-- Where the message ends: at the node that has sent it, with the node 33 for its source. -/
def strayed : Packet where
  node := ringId 145
  incoming := ⟨1, ringId 145, [ringId 14, ringId 190, ringId 33], []⟩

theorem not_keepsWay_ring : ¬KeepsWay (ringId 145) (ringId 0) ringStart strayRelays := by
  intro h
  have hrun : run forward ringStart strayRelays = some strayed := by decide +kernel
  obtain ⟨hnode, -⟩ := h.handed strayRelays (List.prefix_refl _) strayed hrun rfl
  exact absurd hnode (by decide)

theorem after_ringStart : ringNetwork.after 11 ringStart = some ringTurn := by decide +kernel

theorem after_ringTurn : ringNetwork.after 60 ringTurn = some ringTurn := by decide +kernel

/-- The message goes round for ever. -/
theorem not_ends_ring : SentBy (ringId 145) (ringId 0) ringStart ∧ ¬ringNetwork.Ends ringStart := by
  refine ⟨sentBy_ringStart, ?_⟩
  rintro ⟨n, hn⟩
  refine ringNetwork.not_ends_of_turn after_ringTurn ⟨n, ?_⟩
  have hlater := ringNetwork.after_none hn (Nat.le_add_left n 11)
  rwa [Network.after_add, after_ringStart] at hlater

end Vds.DhtNetwork.Forwarding
