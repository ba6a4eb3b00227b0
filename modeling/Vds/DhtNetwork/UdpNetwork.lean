import Vds.DhtNetwork.UdpLoop

/-! A network of nodes with `udp_transport`: datagrams are lost, doubled, delayed and put out of order, and
anybody may send what is no handshake and no welcome under the address of anybody. Where the keys of the
sessions come from, and when the two ends of a session have the same. -/

namespace Vds.DhtNetwork.Udp

open Library BinarySerializer BinaryDeserializer Serializable

variable {α : Type} [LinearOrder α]

/-- The nodes by their addresses: they read each other's public keys, and open what is encrypted for them. -/
structure Honest (nodes : α → Keys) : Prop where
  crypto : ∀ x y, (nodes x).crypto = (nodes y).crypto
  own : ∀ x, (nodes x).thisNodeId = (nodes x).crypto.fingerprint (nodes x).nodePublicKey
  der : ∀ x, (nodes x).nodePublicKey.der.length ≤ maxData
  parse : ∀ x, (nodes x).crypto.parseDer (nodes x).nodePublicKey.der = .ok (nodes x).nodePublicKey
  sizes : ∀ x key k c, (nodes x).encrypt key k = .ok c → c.length ≤ maxData
  opens : ∀ x y k c, (nodes x).encrypt (nodes y).nodePublicKey k = .ok c → (nodes y).decrypt c = .ok k

abbrev Network (α : Type) [LinearOrder α] := α → Turn α

/-- The node has written the datagram to the address, or to all. -/
def Sent (net : Network α) (sender receiver : α) (datagram : ConstDataBuffer) : Prop :=
  Event.write receiver datagram ∈ (net sender).transport.events ∨
    Event.broadcast datagram ∈ (net sender).transport.events

instance decidableSent (net : Network α) (sender receiver : α) (datagram : ConstDataBuffer) :
    Decidable (Sent net sender receiver datagram) := inferInstanceAs (Decidable (_ ∨ _))

def opensSession (datagram : ConstDataBuffer) : Bool :=
  datagram.head? = some Kind.handshakeBroadcast || datagram.head? = some Kind.handshake ||
    datagram.head? = some Kind.welcome

/-- A handshake or a welcome comes only from the node that has written it. -/
def Arrives (net : Network α) (receiver : α) : Act α → Prop
  | .receive sender datagram _ => opensSession datagram = true → Sent net sender receiver datagram
  | _ => True

instance decidableArrives (net : Network α) (receiver : α) (act : Act α) : Decidable (Arrives net receiver act) := by
  cases act
  case receive sender datagram o =>
    exact inferInstanceAs (Decidable (opensSession datagram = true → Sent net sender receiver datagram))
  all_goals exact isTrue trivial

/-- A node does something. -/
def netStep (nodes : α → Keys) (net : Network α) (move : α × Act α) : Option (Network α) :=
  if Arrives net move.1 move.2 then
    (step (nodes move.1) (net move.1) move.2).map fun turn => Function.update net move.1 turn
  else none

def netStart : Network α := fun _ => start

/-! ### What is written -/

/-- The node has drawn the key for a session with the other. -/
def Drawn (net : Network α) (x y : α) (k : ConstDataBuffer) : Prop :=
  Event.drawKey y k ∈ (net x).transport.events

/-- A welcome with a key that the node has drawn for the other. -/
def IsWelcome (nodes : α → Keys) (net : Network α) (x y : α) (datagram : ConstDataBuffer) : Prop :=
  ∃ k c, Drawn net x y k ∧ (nodes x).encrypt (nodes y).nodePublicKey k = .ok c ∧
    datagram = welcomeMessage (nodes x) c

/-- The partner of each session is the node at its address, and one of the two has drawn the key for the
other. -/
structure Shared (nodes : α → Keys) (net : Network α) : Prop where
  consistent : ∀ x, Consistent (nodes x) (net x).transport
  broadcasts : ∀ x d, Event.broadcast d ∈ (net x).transport.events → d = handshakeMessage (nodes x)
  writes : ∀ x y d, Event.write y d ∈ (net x).transport.events →
    d = handshakeMessage (nodes x) ∨ d = failedMessage ∨ IsWelcome nodes net x y d
  partner : ∀ x y s, (net x).transport.session y = some s → s.partnerNodeId = (nodes y).thisNodeId
  origin : ∀ x y s, (net x).transport.session y = some s → Drawn net x y s.sessionKey ∨ Drawn net y x s.sessionKey

section Messages

variable {nodes : α → Keys} {x y : α}

theorem buffer_putData {data : ConstDataBuffer} (h : data.length ≤ maxData) : Buffer (putData data) data := by
  have hread := getData_putData h []
  rw [getData_eq_ok] at hread
  obtain ⟨used, hused, hbuffer⟩ := hread
  rw [List.append_nil, List.append_nil] at hused
  exact hused ▸ hbuffer

/-- A text has one beginning that is a buffer. -/
theorem buffer_unique {used used' data data' rest rest' : ConstDataBuffer} (h : Buffer used data)
    (h' : Buffer used' data') (he : used ++ rest = used' ++ rest') : data = data' ∧ rest = rest' := by
  have hread : getData (used ++ rest) = .ok data rest := getData_eq_ok.mpr ⟨used, rfl, h⟩
  have hread' : getData (used' ++ rest') = .ok data' rest' := getData_eq_ok.mpr ⟨used', rfl, h'⟩
  rw [he, hread'] at hread
  cases hread
  exact ⟨rfl, rfl⟩

omit [LinearOrder α] in
/-- The handshake of a node carries its own key, whoever reads it. -/
theorem key_of_handshake (honest : Honest nodes) {key : AsymmetricPublicKey}
    (h : handshakeKey (nodes x) (handshakeMessage (nodes y)) = .ok (some key)) : key = (nodes y).nodePublicKey := by
  obtain ⟨used, der, rest, htail, hbuffer, hparse⟩ := handshakeKey_eq_some.mp h
  have htail' : (handshakeMessage (nodes y)).tail =
      (nodes y).label ++ [protocolVersion] ++ (putData (nodes y).nodePublicKey.der ++ []) := by
    unfold handshakeMessage
    rw [List.append_nil]
    rfl
  have htext := (List.append_inj (htail'.symm.trans htail) rfl).2
  obtain ⟨rfl, -⟩ := buffer_unique (buffer_putData (honest.der y)) hbuffer htext
  rw [honest.crypto x y, honest.parse y] at hparse
  exact (Except.ok.inj hparse).symm

omit [LinearOrder α] in
/-- The welcome of a node carries its own key, and the session key for the one that it was encrypted for. -/
theorem keys_of_welcome (honest : Honest nodes) {key : AsymmetricPublicKey} {k c sessionKey : ConstDataBuffer}
    (hc : (nodes y).encrypt (nodes x).nodePublicKey k = .ok c)
    (h : welcomeKeys (nodes x) (welcomeMessage (nodes y) c) = .ok (some (key, sessionKey))) :
    key = (nodes y).nodePublicKey ∧ sessionKey = k := by
  obtain ⟨used, der, used', encryptedKey, rest, htail, hbuffer, hbuffer', hparse, hdecrypt⟩ :=
    welcomeKeys_eq_some.mp h
  have htail' : (welcomeMessage (nodes y) c).tail =
      (nodes y).label ++ (putData (nodes y).nodePublicKey.der ++ (putData c ++ [])) := by
    unfold welcomeMessage
    rw [List.append_nil]
    rfl
  have htext := (List.append_inj (htail'.symm.trans htail) rfl).2
  obtain ⟨rfl, htext'⟩ := buffer_unique (buffer_putData (honest.der y)) hbuffer htext
  obtain ⟨rfl, -⟩ := buffer_unique (buffer_putData (honest.sizes y _ k c hc)) hbuffer' htext'
  rw [honest.crypto x y, honest.parse y] at hparse
  rw [honest.opens y x k c hc] at hdecrypt
  exact ⟨(Except.ok.inj hparse).symm, (Except.ok.inj hdecrypt).symm⟩

end Messages

/-! ### One step -/

/-- What the step of a node may add to its events, and to its sessions. -/
structure Extends (nodes : α → Keys) (net : Network α) (x : α) (t' : Transport α) : Prop where
  consistent : Consistent (nodes x) t'
  grows : (net x).transport.events ⊆ t'.events
  broadcasts : ∀ d, Event.broadcast d ∈ t'.events →
    Event.broadcast d ∈ (net x).transport.events ∨ d = handshakeMessage (nodes x)
  writes : ∀ y d, Event.write y d ∈ t'.events → Event.write y d ∈ (net x).transport.events ∨
    d = handshakeMessage (nodes x) ∨ d = failedMessage ∨ ∃ k c, Event.drawKey y k ∈ t'.events ∧
      (nodes x).encrypt (nodes y).nodePublicKey k = .ok c ∧ d = welcomeMessage (nodes x) c
  sessions : ∀ y s', t'.session y = some s' → (∃ s, (net x).transport.session y = some s ∧ Goes s s') ∨
    s'.partnerNodeId = (nodes y).thisNodeId ∧ (Event.drawKey y s'.sessionKey ∈ t'.events ∨ Drawn net y x s'.sessionKey)

section Step

variable {nodes : α → Keys} {net : Network α} {x : α}

omit [LinearOrder α] in
theorem Goes.partner {s s' : DhtSession α} (h : Goes s s') : s'.partnerNodeId = s.partnerNodeId :=
  congrArg (fun n => n.2.1) h.names

omit [LinearOrder α] in
theorem Goes.sessionKey {s s' : DhtSession α} (h : Goes s s') : s'.sessionKey = s.sessionKey :=
  congrArg (fun n => n.2.2) h.names

theorem Extends.shared {turn : Turn α} (h : Extends nodes net x turn.transport) (hs : Shared nodes net) :
    Shared nodes (Function.update net x turn) := by
  generalize hnet : Function.update net x turn = net'
  have hx : net' x = turn := by rw [← hnet, Function.update_self]
  have hother {y : α} (hy : y ≠ x) : net' y = net y := by rw [← hnet, Function.update_of_ne hy]
  have hgrows (y : α) : (net y).transport.events ⊆ (net' y).transport.events := by
    by_cases hy : y = x
    · rw [hy, hx]
      exact h.grows
    · rw [hother hy]
      exact List.Subset.refl _
  have hdrawn {y z : α} {k : ConstDataBuffer} (hd : Drawn net y z k) : Drawn net' y z k := hgrows y hd
  have hwelcome {y z : α} {d : ConstDataBuffer} (hw : IsWelcome nodes net y z d) : IsWelcome nodes net' y z d := by
    obtain ⟨k, c, hk, hc, hd⟩ := hw
    exact ⟨k, c, hdrawn hk, hc, hd⟩
  refine ⟨fun y => ?_, fun y d hd => ?_, fun y z d hd => ?_, fun y z s hsession => ?_, fun y z s hsession => ?_⟩
  · by_cases hy : y = x
    · rw [hy, hx]
      exact h.consistent
    · rw [hother hy]
      exact hs.consistent y
  · by_cases hy : y = x
    · subst hy
      rw [hx] at hd
      rcases h.broadcasts d hd with hd | hd
      · exact hs.broadcasts y d hd
      · exact hd
    · rw [hother hy] at hd
      exact hs.broadcasts y d hd
  · by_cases hy : y = x
    · subst hy
      rw [hx] at hd
      rcases h.writes z d hd with hd | hd | hd | ⟨k, c, hk, hc, hd⟩
      · exact (hs.writes y z d hd).imp_right fun hd => hd.imp_right hwelcome
      · exact .inl hd
      · exact .inr (.inl hd)
      · refine .inr (.inr ⟨k, c, ?_, hc, hd⟩)
        unfold Drawn
        rw [hx]
        exact hk
    · rw [hother hy] at hd
      exact (hs.writes y z d hd).imp_right fun hd => hd.imp_right hwelcome
  · by_cases hy : y = x
    · subst hy
      rw [hx] at hsession
      rcases h.sessions z s hsession with ⟨s₀, hs₀, hgoes⟩ | ⟨hpartner, -⟩
      · rw [hgoes.partner]
        exact hs.partner y z s₀ hs₀
      · exact hpartner
    · rw [hother hy] at hsession
      exact hs.partner y z s hsession
  · by_cases hy : y = x
    · subst hy
      rw [hx] at hsession
      rcases h.sessions z s hsession with ⟨s₀, hs₀, hgoes⟩ | ⟨-, hkey⟩
      · rw [hgoes.sessionKey]
        exact (hs.origin y z s₀ hs₀).imp hdrawn hdrawn
      · refine hkey.imp (fun hk => ?_) hdrawn
        unfold Drawn
        rw [hx]
        exact hk
    · rw [hother hy] at hsession
      exact (hs.origin y z s hsession).imp hdrawn hdrawn

/-- What a node adds when its sessions go on and it answers. -/
theorem extends_quiet {t' : Transport α} (hquiet : Quiet (net x).transport t') (hs : Shared nodes net)
    {es : List (Event α)} (hevents : t'.events = (net x).transport.events ++ es)
    (hbroadcasts : ∀ d, Event.broadcast d ∈ es → d = handshakeMessage (nodes x))
    (hwrites : ∀ y d, Event.write y d ∈ es → d = handshakeMessage (nodes x) ∨ d = failedMessage) :
    Extends nodes net x t' where
  consistent := hquiet.consistent (hs.consistent x)
  grows := by
    rw [hevents]
    exact List.subset_append_left _ _
  broadcasts d hd := by
    rw [hevents, List.mem_append] at hd
    exact hd.imp_right (hbroadcasts d)
  writes y d hd := by
    rw [hevents, List.mem_append] at hd
    rcases hd with hd | hd
    · exact .inl hd
    · exact .inr ((hwrites y d hd).imp_right .inl)
  sessions y s' hs' := .inl (of_rel (hquiet.sessions y) hs')

theorem Progress.extends {t' : Transport α} (h : Progress (nodes x) (net x).transport t') (hs : Shared nodes net) :
    Extends nodes net x t' := by
  obtain ⟨es, hevents, hes⟩ := h.handshakes
  refine extends_quiet h.quiet hs hevents (fun d hd => ?_) fun y d hd => ?_
  · rcases hes with rfl | ⟨a, rfl⟩ | rfl
    · cases hd
    · cases List.mem_singleton.mp hd
    · cases List.mem_singleton.mp hd
      rfl
  · rcases hes with rfl | ⟨a, rfl⟩ | rfl
    · cases hd
    · cases List.mem_singleton.mp hd
      exact .inl rfl
    · cases List.mem_singleton.mp hd

/-- A handshake is the one of its sender. -/
theorem handshake_of_sent (hs : Shared nodes net) {y : α} {d : ConstDataBuffer} (hsent : Sent net y x d)
    (kind : IsHandshake d) : d = handshakeMessage (nodes y) := by
  rcases hsent with hd | hd
  · rcases hs.writes y x d hd with hd | rfl | ⟨k, c, -, -, rfl⟩
    · exact hd
    · rcases kind with h | h <;> cases h
    · rcases kind with h | h <;> cases h
  · exact hs.broadcasts y d hd

/-- A welcome carries a key that its sender has drawn for the receiver. -/
theorem welcome_of_sent (hs : Shared nodes net) {y : α} {d : ConstDataBuffer} (hsent : Sent net y x d)
    (kind : d.head? = some Kind.welcome) : IsWelcome nodes net y x d := by
  rcases hsent with hd | hd
  · rcases hs.writes y x d hd with rfl | rfl | hd
    · cases kind
    · cases kind
    · exact hd
  · rw [hs.broadcasts y d hd] at kind
    cases kind

theorem opensSession_of_handshake {d : ConstDataBuffer} (kind : IsHandshake d) : opensSession d = true := by
  unfold opensSession
  rcases kind with h | h <;> rw [h] <;> rfl

theorem opensSession_of_welcome {d : ConstDataBuffer} (kind : d.head? = some Kind.welcome) :
    opensSession d = true := by
  unfold opensSession
  rw [kind]
  rfl

theorem Effect.extends (honest : Honest nodes) (hs : Shared nodes net) {y : α} {d : ConstDataBuffer} {o : Outcome}
    (harrives : opensSession d = true → Sent net y x d) {t' : Transport α}
    (h : Effect (nodes x) y d o (net x).transport t') : Extends nodes net x t' := by
  have hconsistent : Consistent (nodes x) t' := by
    rcases h.kinds with hq | ⟨ho, -⟩ | hc
    · exact hq.consistent (hs.consistent x)
    · exact ho.consistent (hs.consistent x)
    · exact hc.consistent (hs.consistent x)
  cases h with
  | stays elsewhere made session blocked es events replies =>
    refine extends_quiet (quiet_of_stays elsewhere made session blocked events replies) hs events ?_ ?_
    · intro d' hd'
      rcases replies with rfl | rfl | ⟨rfl, -⟩
      · cases hd'
      · cases List.mem_singleton.mp hd'
      · cases List.mem_singleton.mp hd'
    · intro z d' hd'
      rcases replies with rfl | rfl | ⟨rfl, -⟩
      · cases hd'
      · cases List.mem_singleton.mp hd'
      · cases List.mem_singleton.mp hd'
        exact .inr rfl
  | accepts elsewhere made key reads kind other free single encryptedKey encrypts session blocked n events =>
    obtain rfl := handshake_of_sent hs (harrives (opensSession_of_handshake kind)) kind
    obtain rfl := key_of_handshake honest reads
    have hdrawn : Event.drawKey y o.randomKey ∈ t'.events := by
      rw [events]
      simp
    have hnew {e : Event α} (he : e ∈ t'.events) : e ∈ (net x).transport.events ∨ e = .drawKey y o.randomKey ∨
        e = .addSession (net x).transport.made ∨ e = .write y (welcomeMessage (nodes x) encryptedKey) ∨
        e = .newSession ((nodes x).crypto.fingerprint (nodes y).nodePublicKey) := by
      rw [events, List.mem_append, List.mem_append] at he
      rcases he with he | he | he
      · exact .inl he
      · simp only [List.mem_cons, List.not_mem_nil, or_false] at he
        tauto
      · have hmem := List.mem_of_mem_take he
        simp only [List.mem_cons, List.not_mem_nil, or_false] at hmem
        tauto
    refine ⟨hconsistent, ?_, fun d' hd' => ?_, fun z d' hd' => ?_, fun z s' hs' => ?_⟩
    · rw [events]
      exact List.subset_append_left _ _
    · rcases hnew hd' with hd' | hd' | hd' | hd' | hd'
      · exact .inl hd'
      all_goals cases hd'
    · rcases hnew hd' with hd' | hd' | hd' | hd' | hd'
      · exact .inl hd'
      · cases hd'
      · cases hd'
      · cases hd'
        exact .inr (.inr (.inr ⟨o.randomKey, encryptedKey, hdrawn, encrypts, rfl⟩))
      · cases hd'
    · by_cases hz : z = y
      · subst hz
        obtain rfl := Option.some_inj.mp (hs'.symm.trans session)
        refine .inr ⟨?_, .inl hdrawn⟩
        change (nodes x).crypto.fingerprint (nodes z).nodePublicKey = (nodes z).thisNodeId
        rw [honest.own z, honest.crypto x z]
      · exact .inl ⟨s', (elsewhere.session hz).symm.trans hs', goes_refl s'⟩
  | welcomes elsewhere made key sessionKey reads kind session blocked n events =>
    obtain ⟨k, c, hdrawn, hc, rfl⟩ := welcome_of_sent hs (harrives (opensSession_of_welcome kind)) kind
    obtain ⟨rfl, rfl⟩ := keys_of_welcome honest hc reads
    have hnew {e : Event α} (he : e ∈ t'.events) : e ∈ (net x).transport.events ∨
        e = .addSession (net x).transport.made ∨
        e = .newSession ((nodes x).crypto.fingerprint (nodes y).nodePublicKey) := by
      rw [events, List.mem_append, List.mem_append] at he
      rcases he with he | he | he
      · exact .inl he
      · exact .inr (.inl (List.mem_singleton.mp he))
      · exact .inr (.inr (List.mem_singleton.mp (List.mem_of_mem_take he)))
    refine ⟨hconsistent, ?_, fun d' hd' => ?_, fun z d' hd' => ?_, fun z s' hs' => ?_⟩
    · rw [events]
      exact List.subset_append_left _ _
    · rcases hnew hd' with hd' | hd' | hd'
      · exact .inl hd'
      all_goals cases hd'
    · rcases hnew hd' with hd' | hd' | hd'
      · exact .inl hd'
      all_goals cases hd'
    · by_cases hz : z = y
      · subst hz
        obtain rfl := Option.some_inj.mp (hs'.symm.trans session)
        refine .inr ⟨?_, .inr hdrawn⟩
        change (nodes x).crypto.fingerprint (nodes z).nodePublicKey = (nodes z).thisNodeId
        rw [honest.own z, honest.crypto x z]
      · exact .inl ⟨s', (elsewhere.session hz).symm.trans hs', goes_refl s'⟩
  | closes elsewhere made session es events replies =>
    have hnew {e : Event α} (he : e ∈ t'.events) : e ∈ (net x).transport.events ∨
        (∃ n, e = .removeSession n) ∨ e = .write y failedMessage := by
      rw [events, List.mem_append, List.mem_append] at he
      rcases he with he | he | he
      · exact .inl he
      · unfold removal at he
        cases hold : ((net x).transport.info y).session with
        | none =>
          rw [hold] at he
          cases he
        | some s =>
          rw [hold] at he
          exact .inr (.inl ⟨s.serial, List.mem_singleton.mp he⟩)
      · rcases replies with rfl | ⟨rfl, -⟩
        · cases he
        · exact .inr (.inr (List.mem_singleton.mp he))
    refine ⟨hconsistent, ?_, fun d' hd' => ?_, fun z d' hd' => ?_, fun z s' hs' => ?_⟩
    · rw [events]
      exact List.subset_append_left _ _
    · rcases hnew hd' with hd' | ⟨n, hd'⟩ | hd'
      · exact .inl hd'
      · cases hd'
      · cases hd'
    · rcases hnew hd' with hd' | ⟨n, hd'⟩ | hd'
      · exact .inl hd'
      · cases hd'
      · cases hd'
        exact .inr (.inr (.inl rfl))
    · have hz : z ≠ y := by
        rintro rfl
        rw [session] at hs'
        cases hs'
      exact .inl ⟨s', (elsewhere.session hz).symm.trans hs', goes_refl s'⟩

theorem shared_step (honest : Honest nodes) {net' : Network α} {move : α × Act α} (hs : Shared nodes net)
    (h : netStep nodes net move = some net') : Shared nodes net' := by
  obtain ⟨x, act⟩ := move
  unfold netStep at h
  dsimp only at h
  split_ifs at h with harrives
  obtain ⟨turn, hstep, rfl⟩ := Option.map_eq_some_iff.mp h
  refine Extends.shared ?_ hs
  rcases step_cases hstep with ⟨y, d, o, t, rfl, hturn, rfl⟩ | ⟨hprogress, -⟩
  · have heffect : Effect (nodes x) y d o t (receive (nodes x) y d o t).transport := by
      refine receive_effect ?_
      have hblocked := (hs.consistent x).blocked
      rw [hturn] at hblocked
      exact hblocked
    have hbefore : Effect (nodes x) y d o (net x).transport (receive (nodes x) y d o t).transport := by
      rw [hturn]
      exact heffect
    exact hbefore.extends honest hs harrives
  · exact hprogress.extends hs

theorem shared_start (nodes : α → Keys) : Shared nodes netStart where
  consistent x := consistent_start (nodes x)
  broadcasts x d hd := (by cases hd)
  writes x y d hd := (by cases hd)
  partner x y s hs := (by cases hs)
  origin x y s hs := (by cases hs)

end Step

/-! ### The keys of the sessions -/

variable {nodes : α → Keys}

theorem shared_run (honest : Honest nodes) {moves : List (α × Act α)} {net : Network α}
    (h : LabelledRun.run (netStep nodes) netStart moves = some net) : Shared nodes net :=
  LabelledRun.run_invariant (I := Shared nodes) (shared_start nodes) (fun _ _ _ hs hstep => shared_step honest hs hstep) h

/-- The nodes have drawn a key for each other, or one of them has drawn more than one. -/
def Crossed (net : Network α) (x y : α) : Prop :=
  (∃ k k', Drawn net x y k ∧ Drawn net y x k') ∨
    ∃ k k', k ≠ k' ∧ (Drawn net x y k ∧ Drawn net x y k' ∨ Drawn net y x k ∧ Drawn net y x k')

/-- A node by itself, and its partner. -/
def pair (x : Bool) : Keys := sampleKeys (if x then 2 else 1)

theorem encrypt_sampleKeys {n : UInt8} {key : AsymmetricPublicKey} {k c : ConstDataBuffer}
    (h : (sampleKeys n).encrypt key k = .ok c) : k.length ≤ 32 ∧ c = key.der.take 32 ++ k := by
  unfold sampleKeys at h
  dsimp only at h
  split_ifs at h with hk
  cases h
  exact ⟨hk, rfl⟩

theorem decrypt_sampleKeys (n : UInt8) (k : ConstDataBuffer) :
    (sampleKeys n).decrypt ((sampleNode n).take 32 ++ k) = .ok k := by
  have hlength : (sampleNode n).length = 32 := List.length_replicate
  unfold sampleKeys
  dsimp only
  rw [List.take_of_length_le hlength.le, List.take_left' hlength, if_pos rfl, List.drop_left' hlength]

theorem honest_pair : Honest pair where
  crypto _ _ := rfl
  own _ := rfl
  der _ := by
    change (List.replicate 32 _).length ≤ _
    rw [List.length_replicate]
    decide
  parse _ := rfl
  sizes _ key k c h := by
    obtain ⟨hk, rfl⟩ := encrypt_sampleKeys h
    rw [List.length_append, List.length_take]
    unfold maxData
    omega
  opens _ _ k c h := by
    obtain ⟨-, rfl⟩ := encrypt_sampleKeys h
    exact decrypt_sampleKeys _ k

/-- One node is found by the other. -/
def pairMoves : List (Bool × Act Bool) :=
  [(false, .broadcastHandshake),
   (true, .receive false (handshakeMessage (pair false)) { now := 0, randomKey := sampleNode 11 }),
   (false, .receive true (welcomeMessage (pair true) (sampleNode 1 ++ sampleNode 11)) { now := 0 })]

def pairNetwork : Network Bool := (LabelledRun.run (netStep pair) netStart pairMoves).getD netStart

theorem run_pairMoves : LabelledRun.run (netStep pair) netStart pairMoves = some pairNetwork := by
  have hruns : (LabelledRun.run (netStep pair) netStart pairMoves).isSome := by decide +kernel
  unfold pairNetwork
  rw [← Option.get_eq_getD (h := hruns), Option.some_get]

section Crossing

variable {keys : Keys} {t : Transport α} {address : α} {datagram : ConstDataBuffer} {o : Outcome}

/-- The rest of the program answers each call with success. -/
structure Outcome.Succeeds (o : Outcome) : Prop where
  addSession : o.addSession = .ok ()
  newSession : o.newSession = .ok ()
  writeAsync : o.writeAsync = .ok ()

/-- The loop takes a datagram from an address that is not blocked. -/
theorem receive_of_open {first : UInt8} {tail : ConstDataBuffer} (hcons : datagram = first :: tail)
    (hlocked : t.locked address = false) (hblocked : t.blocked address = false) :
    receive keys address datagram o t =
      dispatch keys address first datagram o (t.setInfo address { t.info address with locked := true }) := by
  have hlocked' : (t.info address).locked = false := hlocked
  have hblocked' : (t.info address).blocked = false := hblocked
  unfold receive
  dsimp only
  rw [hlocked', if_neg Bool.false_ne_true, hcons]
  dsimp only
  rw [hblocked', if_neg Bool.false_ne_true]

/-- What opening a session leaves. -/
structure Opened (keys : Keys) (address : α) (t t' : Transport α) (partnerId sessionKey : ConstDataBuffer)
    (now : Int) : Prop where
  session : t'.session address = some (makeSession keys t address partnerId sessionKey now)
  blocked : t'.blocked address = false
  locked : t'.locked address = false
  elsewhere : Elsewhere address t t'
  grows : t.events ⊆ t'.events

/-- A session is attached at the address, and the lock is given back. -/
theorem opened_attach {t₁ : Transport α} (elsewhere : Elsewhere address t t₁) (made : t₁.made = t.made)
    (grows : t.events ⊆ t₁.events) (hblocked : t₁.blocked address = false) (partnerId sessionKey : ConstDataBuffer)
    (now : Int) (es : List (Event α)) :
    Opened keys address t (((t₁.attach address (makeSession keys t₁ address partnerId sessionKey now)).unlock
      address).emit es) partnerId sessionKey now := by
  have hmake : makeSession keys t₁ address partnerId sessionKey now =
      makeSession keys t address partnerId sessionKey now := by
    unfold makeSession
    rw [made]
  have hblocked' : (t₁.info address).blocked = false := hblocked
  refine ⟨?_, ?_, ?_, ⟨fun b hb => ?_⟩, fun e he => List.mem_append_left es (grows he)⟩
  · simp [Transport.session, hmake]
  · simpa [Transport.blocked] using hblocked'
  · simp [Transport.locked]
  · simp [hb, elsewhere.info b hb]

/-- The lock of an address that is not blocked leaves it so. -/
theorem blocked_lock (hblocked : t.blocked address = false) :
    (t.setInfo address { t.info address with locked := true }).blocked address = false := by
  have hblocked' : (t.info address).blocked = false := hblocked
  simpa [Transport.blocked] using hblocked'

theorem receive_handshake {key : AsymmetricPublicKey} {c : ConstDataBuffer} (kind : IsHandshake datagram)
    (hlocked : t.locked address = false) (hblocked : t.blocked address = false) (free : t.session address = none)
    (reads : handshakeKey keys datagram = .ok (some key)) (other : keys.crypto.fingerprint key ≠ keys.thisNodeId)
    (single : ∀ b s, t.session b = some s → s.partnerNodeId ≠ keys.crypto.fingerprint key)
    (encrypts : keys.encrypt key o.randomKey = .ok c) (succeeds : o.Succeeds) :
    ∃ t', receive keys address datagram o t = .continues t' ∧
      Opened keys address t t' (keys.crypto.fingerprint key) o.randomKey o.now ∧
      Event.write address (welcomeMessage keys c) ∈ t'.events := by
  obtain ⟨first, tail, hcons, hfirst⟩ : ∃ first tail, datagram = first :: tail ∧
      (first = Kind.handshakeBroadcast ∨ first = Kind.handshake) := by
    unfold IsHandshake at kind
    cases datagram with
    | nil => rcases kind with h | h <;> cases h
    | cons first tail => exact ⟨first, tail, rfl, kind.imp Option.some_inj.mp Option.some_inj.mp⟩
  rw [receive_of_open hcons hlocked hblocked]
  generalize ht₁ : t.setInfo address { t.info address with locked := true } = t₁
  have hprepared : Prepared address t t₁ := by
    rw [← ht₁]
    exact prepared_setInfo _ rfl id
  -- the partner has no session at another address, so the handshake is no duplicate
  have hentry : t₁.partnerEntry (keys.crypto.fingerprint key) = none := by
    cases hentry : t₁.partnerEntry (keys.crypto.fingerprint key) with
    | none => rfl
    | some e =>
      obtain ⟨b, i⟩ := e
      obtain ⟨hinfo, s, hs, hpartner⟩ := Transport.partnerEntry_eq_some hentry
      refine absurd hpartner (single b s ?_)
      rw [← hprepared.session_eq]
      unfold Transport.session
      rw [hinfo, hs]
  have hfree : (t₁.info address).session = none := hprepared.session.trans free
  have hrun : dispatch keys address first datagram o t₁ = accept keys address key o t₁ := by
    unfold dispatch handshake
    rw [if_pos hfirst, hfree, reads]
    dsimp only [Option.isSome_none]
    rw [if_neg Bool.false_ne_true, if_neg other, hentry]
  have haccept : accept keys address key o t₁ = .continues ((((t₁.draw address o).attach address
      (makeSession keys t₁ address (keys.crypto.fingerprint key) o.randomKey o.now)).unlock address).emit
        [.addSession t₁.made, .write address (welcomeMessage keys c),
          .newSession (keys.crypto.fingerprint key)]) := by
    unfold accept
    dsimp only
    rw [encrypts, succeeds.addSession, succeeds.writeAsync, succeeds.newSession]
    unfold check
    dsimp only
    rw [Transport.emit_emit, Transport.emit_emit]
    rfl
  rw [hrun, haccept]
  have hblocked₁ : t₁.blocked address = false := ht₁ ▸ blocked_lock hblocked
  refine ⟨_, rfl, @opened_attach _ _ keys t address (t₁.draw address o) ?_ hprepared.made ?_ ?_ _ _ _ _, ?_⟩
  · exact ⟨fun b hb => by simp [hb, hprepared.elsewhere.info b hb]⟩
  · rw [← hprepared.events]
    exact List.subset_append_left t₁.events [.drawKey address o.randomKey]
  · simpa [Transport.blocked] using hblocked₁
  · simp

theorem receive_welcome {key : AsymmetricPublicKey} {sessionKey : ConstDataBuffer}
    (kind : datagram.head? = some Kind.welcome) (hlocked : t.locked address = false)
    (hblocked : t.blocked address = false) (reads : welcomeKeys keys datagram = .ok (some (key, sessionKey)))
    (succeeds : o.Succeeds) :
    ∃ t', receive keys address datagram o t = .continues t' ∧
      Opened keys address t t' (keys.crypto.fingerprint key) sessionKey o.now := by
  obtain ⟨first, tail, hcons, hfirst⟩ : ∃ first tail, datagram = first :: tail ∧ first = Kind.welcome := by
    cases datagram with
    | nil => cases kind
    | cons first tail => exact ⟨first, tail, rfl, Option.some_inj.mp kind⟩
  rw [receive_of_open hcons hlocked hblocked]
  generalize ht₁ : t.setInfo address { t.info address with locked := true } = t₁
  have hprepared : Prepared address t t₁ := by
    rw [← ht₁]
    exact prepared_setInfo _ rfl id
  have hrun : dispatch keys address first datagram o t₁ = .continues (((t₁.attach address
      (makeSession keys t₁ address (keys.crypto.fingerprint key) sessionKey o.now)).unlock address).emit
        [.addSession t₁.made, .newSession (keys.crypto.fingerprint key)]) := by
    unfold dispatch welcome
    rw [hfirst, if_neg (by decide), if_pos rfl, reads]
    dsimp only
    rw [succeeds.addSession, succeeds.newSession]
    unfold check
    dsimp only
    rw [Transport.emit_emit]
    rfl
  rw [hrun]
  have hgrows : t.events ⊆ t₁.events := hprepared.events ▸ List.Subset.refl _
  exact ⟨_, rfl, opened_attach hprepared.elsewhere hprepared.made hgrows (ht₁ ▸ blocked_lock hblocked) _ _ _ _⟩

end Crossing

theorem reading_network {moves : List (α × Act α)} {net : Network α}
    (h : LabelledRun.run (netStep nodes) netStart moves = some net) (x : α) : Reading (nodes x) (net x) := by
  refine LabelledRun.run_invariant (I := fun net => ∀ x, Reading (nodes x) (net x)) ?_ ?_ h x
  · exact fun x => ⟨consistent_start (nodes x), fun _ _ => rfl⟩
  · rintro net ⟨z, act⟩ net' hr hstep x
    unfold netStep at hstep
    dsimp only at hstep
    split_ifs at hstep
    obtain ⟨turn, hturn, rfl⟩ := Option.map_eq_some_iff.mp hstep
    by_cases hx : x = z
    · subst hx
      rw [Function.update_self]
      exact reading_step (hr x) hturn
    · rw [Function.update_of_ne hx]
      exact hr x

theorem sent_broadcast {net : Network α} {x y : α} {t : Transport α} {d : ConstDataBuffer}
    (hturn : net x = .continues t) (h : Event.broadcast d ∈ t.events) : Sent net x y d := by
  unfold Sent
  rw [hturn]
  exact .inr h

theorem sent_write {net : Network α} {x y : α} {t : Transport α} {d : ConstDataBuffer}
    (hturn : net x = .continues t) (h : Event.write y d ∈ t.events) : Sent net x y d := by
  unfold Sent
  rw [hturn]
  exact .inl h

/-- A node reads what another has written; the other stays as it is. -/
theorem netStep_receive (nodes : α → Keys) {net : Network α} {x y : α} (hne : x ≠ y) {t t' : Transport α}
    {d : ConstDataBuffer} {o : Outcome} (hturn : net x = .continues t) (hsent : Sent net y x d)
    (hrun : receive (nodes x) y d o t = .continues t') :
    ∃ net', netStep nodes net (x, .receive y d o) = some net' ∧ net' x = .continues t' ∧ net' y = net y := by
  refine ⟨Function.update net x (.continues t'), ?_, Function.update_self .., Function.update_of_ne hne.symm ..⟩
  have harrives : Arrives net x (.receive y d o) := fun _ => hsent
  unfold netStep
  rw [if_pos harrives, hturn]
  change (some (receive (nodes x) y d o t)).map _ = _
  rw [hrun]
  rfl

theorem netStep_broadcast (nodes : α → Keys) {net : Network α} {x y : α} (hne : x ≠ y) {t : Transport α}
    (hturn : net x = .continues t) :
    ∃ net', netStep nodes net (x, .broadcastHandshake) = some net' ∧
      net' x = .continues (broadcastHandshake (nodes x) t) ∧ net' y = net y := by
  refine ⟨Function.update net x (.continues (broadcastHandshake (nodes x) t)), ?_, Function.update_self ..,
    Function.update_of_ne hne.symm ..⟩
  unfold netStep
  rw [if_pos (show Arrives net x .broadcastHandshake from trivial), hturn]
  rfl

/-- A node whose loop reads, with a free place for a session with the other. -/
structure Ready (net : Network α) (x y : α) : Prop where
  reads : (net x).GoesOn
  free : (net x).transport.session y = none
  blocked : (net x).transport.blocked y = false

omit [LinearOrder α] in
/-- The other node reads the handshake of a node. -/
theorem reads_handshake (honest : Honest nodes) {x y : α} (hlabel : (nodes x).magicLabel = (nodes y).magicLabel) :
    handshakeKey (nodes x) (handshakeMessage (nodes y)) = .ok (some (nodes y).nodePublicKey) := by
  refine handshakeKey_eq_some.mpr ⟨putData (nodes y).nodePublicKey.der, (nodes y).nodePublicKey.der, [], ?_,
    buffer_putData (honest.der y), ?_⟩
  · unfold Keys.label
    rw [hlabel, List.append_nil]
    rfl
  · rw [honest.crypto x y]
    exact honest.parse y

omit [LinearOrder α] in
theorem reads_welcome (honest : Honest nodes) {x y : α} (hlabel : (nodes x).magicLabel = (nodes y).magicLabel)
    {k c : ConstDataBuffer} (hc : (nodes y).encrypt (nodes x).nodePublicKey k = .ok c) :
    welcomeKeys (nodes x) (welcomeMessage (nodes y) c) = .ok (some ((nodes y).nodePublicKey, k)) := by
  refine welcomeKeys_eq_some.mpr ⟨putData (nodes y).nodePublicKey.der, (nodes y).nodePublicKey.der, putData c, c, [],
    ?_, buffer_putData (honest.der y), buffer_putData (honest.sizes y _ k c hc), ?_, honest.opens y x k c hc⟩
  · unfold Keys.label
    rw [hlabel, List.append_nil]
    rfl
  · rw [honest.crypto x y]
    exact honest.parse y

/-- A node that has a free place for another accepts its handshake, with the key that it draws. -/
theorem accepts_handshake (honest : Honest nodes)
    (hids : ∀ a b, (nodes a).thisNodeId = (nodes b).thisNodeId → a = b) {x y : α} (hne : x ≠ y)
    (hlabel : (nodes x).magicLabel = (nodes y).magicLabel) {t : Transport α}
    (hpartner : ∀ b s, t.session b = some s → s.partnerNodeId = (nodes b).thisNodeId)
    (hlocked : t.locked y = false) (hblocked : t.blocked y = false) (hfree : t.session y = none)
    {k c : ConstDataBuffer} (hc : (nodes x).encrypt (nodes y).nodePublicKey k = .ok c) :
    ∃ t', receive (nodes x) y (handshakeMessage (nodes y)) { now := 0, randomKey := k } t = .continues t' ∧
      t'.locked y = false ∧ t'.blocked y = false ∧ t.events ⊆ t'.events ∧
      Event.write y (welcomeMessage (nodes x) c) ∈ t'.events := by
  have hid : (nodes x).crypto.fingerprint (nodes y).nodePublicKey = (nodes y).thisNodeId := by
    rw [honest.crypto x y, ← honest.own y]
  have hother : (nodes x).crypto.fingerprint (nodes y).nodePublicKey ≠ (nodes x).thisNodeId := by
    rw [hid]
    exact fun he => hne (hids y x he).symm
  have hsingle (b : α) (s : DhtSession α) (hs : t.session b = some s) :
      s.partnerNodeId ≠ (nodes x).crypto.fingerprint (nodes y).nodePublicKey := by
    rw [hpartner b s hs, hid]
    intro he
    obtain rfl := hids b y he
    cases hfree.symm.trans hs
  have hsucceeds : Outcome.Succeeds { now := 0, randomKey := k } := ⟨rfl, rfl, rfl⟩
  obtain ⟨t', hrun, hopened, hwritten⟩ := receive_handshake (.inl rfl) hlocked hblocked hfree
    (reads_handshake honest hlabel) hother hsingle hc hsucceeds
  exact ⟨t', hrun, hopened.locked, hopened.blocked, hopened.grows, hwritten⟩

/-- The key of a welcome is that of the session, whatever session stood there. -/
theorem takes_welcome (honest : Honest nodes) {x y : α} (hlabel : (nodes x).magicLabel = (nodes y).magicLabel)
    {t : Transport α} (hlocked : t.locked y = false) (hblocked : t.blocked y = false) {k c : ConstDataBuffer}
    (hc : (nodes y).encrypt (nodes x).nodePublicKey k = .ok c) :
    ∃ t', receive (nodes x) y (welcomeMessage (nodes y) c) { now := 0 } t = .continues t' ∧
      t.events ⊆ t'.events ∧ ∃ s, t'.session y = some s ∧ s.sessionKey = k := by
  have hsucceeds : Outcome.Succeeds { now := 0 } := ⟨rfl, rfl, rfl⟩
  obtain ⟨t', hrun, hopened⟩ :=
    receive_welcome rfl hlocked hblocked (reads_welcome honest hlabel hc) hsucceeds
  exact ⟨t', hrun, hopened.grows, _, hopened.session, rfl⟩

end Vds.DhtNetwork.Udp
