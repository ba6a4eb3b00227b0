import Vds.DhtNetwork.UdpSessions
import Vds.Library.LabelledRun

/-! Runs of `udp_transport`: what the client has been told of the sessions, and which of them it keeps although
they are gone. -/

namespace Vds.DhtNetwork.Udp

open Library

variable {α : Type} [LinearOrder α]

/-! ### Runs -/

/-- What happens to a transport: a datagram is read, or another thread calls it. -/
inductive Act (α : Type)
  | receive (address : α) (datagram : ConstDataBuffer) (o : Outcome)
  | tryHandshake (address : α) (now : Int)
  | broadcastHandshake
  | onTimer (refuses : α → List Bool) (now : Int)
  | sendMessage (address : α) (m : Outgoing) (refuses : List Bool) (now : Int)

def Turn.map (f : Transport α → Transport α) : Turn α → Turn α
  | .continues t => .continues (f t)
  | .ends e t => .ends e (f t)

/-- The other threads go on when the loop has ended. -/
def step (keys : Keys) (turn : Turn α) : Act α → Option (Turn α)
  | .receive address datagram o =>
    match turn with
    | .continues t => some (receive keys address datagram o t)
    | .ends _ _ => none
  | .tryHandshake address now =>
    (tryHandshake keys address now turn.transport).map fun t => turn.map fun _ => t
  | .broadcastHandshake => some (turn.map (broadcastHandshake keys))
  | .onTimer refuses now => some (turn.map (onTimer refuses now))
  | .sendMessage address m refuses now =>
    some (turn.map (sendMessage keys address m.messageType m.targetNode m.hops m.message refuses now))

/-- A transport that has just been started. -/
def start : Turn α := .continues {}

theorem transport_map (f : Transport α → Transport α) (turn : Turn α) : (turn.map f).transport = f turn.transport := by
  cases turn <;> rfl

/-! ### What other threads do -/

/-- The sessions go on, and handshakes may be sent. -/
structure Progress (keys : Keys) (t t' : Transport α) : Prop where
  sessions : ∀ b, Option.Rel Goes (t.session b) (t'.session b)
  blocked : ∀ b, t'.blocked b = t.blocked b
  locked : ∀ b, t'.locked b = t.locked b
  made : t'.made = t.made
  handshakes : ∃ es, t'.events = t.events ++ es ∧ (es = [] ∨ (∃ a, es = [.write a (handshakeMessage keys)]) ∨
    es = [.broadcast (handshakeMessage keys)])

variable {keys : Keys} {t t' : Transport α}

theorem progress_refl : Progress keys t t :=
  ⟨fun _ => rel_goes_refl _, fun _ => rfl, fun _ => rfl, rfl, [], (List.append_nil _).symm, .inl rfl⟩

omit [LinearOrder α] in
theorem Goes.trans {s s' s'' : DhtSession α} (h : Goes s s') (h' : Goes s' s'') : Goes s s'' :=
  ⟨h'.serial.trans h.serial, h'.address.trans h.address, h'.names.trans h.names, fun hs => h'.sound (h.sound hs)⟩

omit [LinearOrder α] in
theorem rel_goes_trans {x y z : Option (DhtSession α)} (h : Option.Rel Goes x y) (h' : Option.Rel Goes y z) :
    Option.Rel Goes x z := by
  cases h with
  | none => exact h'
  | some h =>
    cases h' with
    | some h' => exact .some (h.trans h')

/-- One session goes on. -/
structure Proceeds (t t' : Transport α) : Prop where
  sessions : ∀ b, Option.Rel Goes (t.session b) (t'.session b)
  blocked : ∀ b, t'.blocked b = t.blocked b
  locked : ∀ b, t'.locked b = t.locked b
  made : t'.made = t.made
  events : t'.events = t.events

theorem proceeds_refl : Proceeds t t := ⟨fun _ => rel_goes_refl _, fun _ => rfl, fun _ => rfl, rfl, rfl⟩

theorem Proceeds.trans {t'' : Transport α} (h : Proceeds t t') (h' : Proceeds t' t'') : Proceeds t t'' :=
  ⟨fun b => rel_goes_trans (h.sessions b) (h'.sessions b), fun b => (h'.blocked b).trans (h.blocked b),
    fun b => (h'.locked b).trans (h.locked b), h'.made.trans h.made, h'.events.trans h.events⟩

theorem Proceeds.progress (h : Proceeds t t') : Progress keys t t' :=
  ⟨h.sessions, h.blocked, h.locked, h.made, [], by rw [h.events, List.append_nil], .inl rfl⟩

theorem proceeds_proceed {address : α} {s : DhtSession α} {p : Session} (hs : t.session address = some s)
    (hgoes : Goes s { s with protocol := p }) : Proceeds t (t.proceed address p) := by
  refine ⟨fun b => ?_, fun b => ?_, fun b => ?_, rfl, rfl⟩
  · by_cases hb : b = address
    · subst hb
      rw [hs]
      have hnew : (t.proceed b p).session b = some { s with protocol := p } := by
        unfold Transport.session at hs
        simp [Transport.session, hs]
      rw [hnew]
      exact .some hgoes
    · have hsame : (t.proceed address p).session b = t.session b := by simp [Transport.session, hb]
      rw [hsame]
      exact rel_goes_refl _
  · unfold Transport.blocked
    rw [Transport.info_proceed]
    split_ifs with hb
    · rw [hb]
    · rfl
  · unfold Transport.locked
    rw [Transport.info_proceed]
    split_ifs with hb
    · rw [hb]
    · rfl

theorem proceeds_timerLoop (refuses : α → List Bool) (now : Int) (addresses : List α) (t : Transport α) :
    Proceeds t (timerLoop refuses now addresses t) := by
  induction addresses generalizing t with
  | nil => exact proceeds_refl
  | cons address rest ih =>
    unfold timerLoop
    cases hs : (t.info address).session with
    | none => exact ih t
    | some s =>
      dsimp only
      generalize hstart : ({ s.protocol with now, refuses := refuses address } : Session) = p₀
      have hgoes : Goes s { s with protocol := StateError.final (DhtNetwork.onTimer p₀) } := by
        subst hstart
        exact ⟨rfl, rfl, names_onTimer _, Checked.sound_of_inputSide (Checked.frames_onTimer _)⟩
      cases hrun : DhtNetwork.onTimer p₀ with
      | ok _ p =>
        rw [hrun] at hgoes
        exact (proceeds_proceed hs hgoes).trans (ih _)
      | error e p =>
        rw [hrun] at hgoes
        exact proceeds_proceed hs hgoes

theorem proceeds_sendMessage (address : α) (m : Outgoing) (refuses : List Bool) (now : Int) (t : Transport α) :
    Proceeds t (sendMessage keys address m.messageType m.targetNode m.hops m.message refuses now t) := by
  unfold sendMessage
  cases hs : (t.info address).session with
  | none => exact proceeds_refl
  | some s =>
    exact proceeds_proceed hs
      ⟨rfl, rfl, names_sendMessage _ _ _ _ _, Checked.sound_of_inputSide (Checked.frames_sendMessage m _)⟩

theorem progress_emit {es : List (Event α)} (hes : (∃ a, es = [.write a (handshakeMessage keys)]) ∨
    es = [.broadcast (handshakeMessage keys)]) : Progress keys t (t.emit es) :=
  ⟨fun _ => rel_goes_refl _, fun _ => rfl, fun _ => rfl, rfl, es, rfl, .inr hes⟩

theorem progress_tryHandshake {address : α} {now : Int} (h : tryHandshake keys address now t = some t') :
    Progress keys t t' := by
  unfold tryHandshake at h
  cases hfind : t.sessions.find address with
  | none =>
    rw [hfind] at h
    cases h
    exact progress_emit (.inl ⟨address, rfl⟩)
  | some i =>
    rw [hfind] at h
    dsimp only at h
    by_cases hlocked : i.locked = true
    · rw [if_pos hlocked] at h
      cases h
    · rw [if_neg hlocked] at h
      split_ifs at h
      all_goals first
        | (cases h; exact progress_refl)
        | (cases h; exact progress_emit (.inl ⟨address, rfl⟩))

/-- A step reads a datagram, or lets the sessions go on. -/
theorem step_cases {turn turn' : Turn α} {act : Act α} (h : step keys turn act = some turn') :
    (∃ address datagram o t, act = .receive address datagram o ∧ turn = .continues t ∧
      turn' = receive keys address datagram o t) ∨
    Progress keys turn.transport turn'.transport ∧ ∃ f : Transport α → Transport α, turn' = turn.map f := by
  cases act with
  | receive address datagram o =>
    cases turn with
    | continues t =>
      cases h
      exact .inl ⟨address, datagram, o, t, rfl, rfl, rfl⟩
    | ends e t => cases h
  | tryHandshake address now =>
    obtain ⟨t, ht, hturn⟩ := Option.map_eq_some_iff.mp h
    rw [← hturn, transport_map]
    exact .inr ⟨progress_tryHandshake ht, _, rfl⟩
  | broadcastHandshake =>
    cases h
    rw [transport_map]
    exact .inr ⟨progress_emit (.inr rfl), _, rfl⟩
  | onTimer refuses now =>
    cases h
    rw [transport_map]
    exact .inr ⟨(proceeds_timerLoop refuses now _ _).progress, _, rfl⟩
  | sendMessage address m refuses now =>
    cases h
    rw [transport_map]
    exact .inr ⟨(proceeds_sendMessage address m refuses now _).progress, _, rfl⟩

/-! ### What the client knows -/

/-- The sessions the client has been told of, by an event more. -/
def told (known : Finset Nat) : Event α → Finset Nat
  | .addSession n => insert n known
  | .removeSession n => known.erase n
  | _ => known

/-- The sessions that the client has been told of, and not that they are gone. -/
def known (events : List (Event α)) : Finset Nat := events.foldl told ∅

/-- Events by which the client gets no session and loses none. -/
def IsPlain (e : Event α) : Prop := (∀ n, e ≠ .addSession n) ∧ ∀ n, e ≠ .removeSession n

/-- Each of the first `made` sessions was added once, and removed once if the client does not know it any
more. -/
structure Ledger (events : List (Event α)) (made : Nat) : Prop where
  adds : ∀ n, events.count (.addSession n) = if n < made then 1 else 0
  removes : ∀ n, events.count (.removeSession n) + (if n ∈ known events then 1 else 0) = if n < made then 1 else 0

section Ledger

variable {events es : List (Event α)} {made n : Nat}

omit [LinearOrder α] in
theorem known_concat (events : List (Event α)) (e : Event α) : known (events ++ [e]) = told (known events) e := by
  unfold known
  rw [List.foldl_append]
  rfl

omit [LinearOrder α] in
theorem known_plain (h : ∀ e ∈ es, IsPlain e) : known (events ++ es) = known events := by
  induction es using List.reverseRecOn with
  | nil => rw [List.append_nil]
  | append_singleton es e ih =>
    obtain ⟨hadd, hremove⟩ := h e (by simp)
    rw [← List.append_assoc, known_concat, ih fun e he => h e (List.mem_append_left _ he)]
    cases e with
    | addSession n => exact absurd rfl (hadd n)
    | removeSession n => exact absurd rfl (hremove n)
    | _ => rfl

theorem Ledger.plain (h : Ledger events made) (hes : ∀ e ∈ es, IsPlain e) : Ledger (events ++ es) made := by
  have hadd (n : Nat) : es.count (.addSession n) = 0 := List.count_eq_zero.mpr fun hm => (hes _ hm).1 n rfl
  have hremove (n : Nat) : es.count (.removeSession n) = 0 := List.count_eq_zero.mpr fun hm => (hes _ hm).2 n rfl
  refine ⟨fun n => ?_, fun n => ?_⟩
  · rw [List.count_append, hadd, Nat.add_zero, h.adds]
  · rw [List.count_append, hremove, Nat.add_zero, known_plain hes, h.removes]

/-- Only sessions that were made are known. -/
theorem Ledger.lt_made (h : Ledger events made) (hn : n ∈ known events) : n < made := by
  have hremoves := h.removes n
  rw [if_pos hn] at hremoves
  by_contra hle
  rw [if_neg hle] at hremoves
  omega

theorem Ledger.add (h : Ledger events made) : Ledger (events ++ [.addSession made]) (made + 1) := by
  have hnew : made ∉ known events := fun hm => Nat.lt_irrefl _ (h.lt_made hm)
  have hknown : known (events ++ [.addSession made]) = insert made (known events) := known_concat events _
  refine ⟨fun n => ?_, fun n => ?_⟩
  · rw [List.count_append, h.adds, List.count_singleton]
    by_cases hn : n = made
    · simp [hn]
    · have hne : Event.addSession made ≠ (.addSession n : Event α) := fun he => hn (Event.addSession.inj he).symm
      rw [beq_false_of_ne hne, if_neg Bool.false_ne_true, Nat.add_zero]
      exact if_congr (by omega) rfl rfl
  · have hzero : [Event.addSession made].count (.removeSession n : Event α) = 0 :=
      List.count_eq_zero.mpr fun hm => (by cases List.mem_singleton.mp hm)
    have hremoves := h.removes n
    rw [List.count_append, hzero, hknown]
    simp only [Finset.mem_insert]
    by_cases hn : n = made
    · subst hn
      simp only [hnew, if_false, lt_irrefl] at hremoves
      simp only [true_or, if_true, Nat.lt_succ_self]
      omega
    · simp only [hn, false_or]
      split_ifs at hremoves ⊢ <;> omega

theorem Ledger.remove (h : Ledger events made) (hn : n ∈ known events) :
    Ledger (events ++ [.removeSession n]) made := by
  have hknown : known (events ++ [.removeSession n]) = (known events).erase n := known_concat events _
  refine ⟨fun m => ?_, fun m => ?_⟩
  · have hzero : [Event.removeSession n].count (.addSession m : Event α) = 0 :=
      List.count_eq_zero.mpr fun hm => (by cases List.mem_singleton.mp hm)
    rw [List.count_append, hzero, Nat.add_zero, h.adds]
  · have hremoves := h.removes m
    rw [List.count_append, List.count_singleton, hknown]
    simp only [Finset.mem_erase]
    by_cases hm : m = n
    · subst hm
      simp only [hn, if_true] at hremoves
      simp only [beq_self_eq_true, ne_eq, not_true, false_and, if_true, if_false]
      omega
    · have hne : Event.removeSession n ≠ (.removeSession m : Event α) := fun he => hm (Event.removeSession.inj he).symm
      rw [beq_false_of_ne hne]
      simp only [ne_eq, hm, not_false_eq_true, true_and, Bool.false_eq_true, if_false]
      omega

end Ledger

/-! ### Every run -/

structure Consistent (keys : Keys) (t : Transport α) : Prop where
  blocked : BlockedEmpty t
  address : ∀ a s, t.session a = some s → s.address = a
  own : ∀ a s, t.session a = some s → s.protocol.self.thisNodeId = keys.thisNodeId
  sound : ∀ a s, t.session a = some s → Checked.Sound s.protocol.self
  known : ∀ a s, t.session a = some s → s.serial ∈ known t.events
  single : ∀ a b s s', t.session a = some s → t.session b = some s' → s.serial = s'.serial → a = b
  ledger : Ledger t.events t.made

/-- The client keeps a session that stands at no address. -/
def Orphan (n : Nat) (t : Transport α) : Prop := n ∈ known t.events ∧ ∀ a s, t.session a = some s → s.serial ≠ n

/-- Another session has taken the place of a session. -/
def Replaced (n : Nat) (t t' : Transport α) : Prop :=
  ∃ a s s', t.session a = some s ∧ s.serial = n ∧ t'.session a = some s' ∧ s'.serial ≠ n

omit [LinearOrder α] in
theorem of_rel {x y : Option (DhtSession α)} (h : Option.Rel Goes x y) {s' : DhtSession α} (hs' : y = some s') :
    ∃ s, x = some s ∧ Goes s s' := by
  cases h with
  | none => cases hs'
  | some hgoes =>
    cases hs'
    exact ⟨_, rfl, hgoes⟩

/-- The sessions go on, and the client hears of none. -/
structure Quiet (t t' : Transport α) : Prop where
  sessions : ∀ b, Option.Rel Goes (t.session b) (t'.session b)
  blocked : ∀ b, t'.blocked b = true → t.blocked b = true
  made : t'.made = t.made
  events : ∃ es, t'.events = t.events ++ es ∧ ∀ e ∈ es, IsPlain e

section Quiet

variable (h : Quiet t t')
include h

theorem Quiet.known_eq : known t'.events = known t.events := by
  obtain ⟨es, hevents, hplain⟩ := h.events
  rw [hevents, known_plain hplain]

theorem Quiet.consistent (hc : Consistent keys t) : Consistent keys t' where
  blocked b hb := by
    have hnone : t.session b = none := hc.blocked b (h.blocked b hb)
    have hrel := h.sessions b
    rw [hnone] at hrel
    cases hs' : t'.session b with
    | none => rfl
    | some s' =>
      rw [hs'] at hrel
      cases hrel
  address a s' hs' := by
    obtain ⟨s, hs, hgoes⟩ := of_rel (h.sessions a) hs'
    rw [hgoes.address, hc.address a s hs]
  own a s' hs' := by
    obtain ⟨s, hs, hgoes⟩ := of_rel (h.sessions a) hs'
    rw [show s'.protocol.self.thisNodeId = s.protocol.self.thisNodeId from congrArg Prod.fst hgoes.names,
      hc.own a s hs]
  sound a s' hs' := by
    obtain ⟨s, hs, hgoes⟩ := of_rel (h.sessions a) hs'
    exact hgoes.sound (hc.sound a s hs)
  known a s' hs' := by
    obtain ⟨s, hs, hgoes⟩ := of_rel (h.sessions a) hs'
    rw [h.known_eq, hgoes.serial]
    exact hc.known a s hs
  single a b s' u' hs' hu' hserial := by
    obtain ⟨s, hs, hgoes⟩ := of_rel (h.sessions a) hs'
    obtain ⟨u, hu, hgoesu⟩ := of_rel (h.sessions b) hu'
    rw [hgoes.serial, hgoesu.serial] at hserial
    exact hc.single a b s u hs hu hserial
  ledger := by
    obtain ⟨es, hevents, hplain⟩ := h.events
    rw [hevents, h.made]
    exact hc.ledger.plain hplain

theorem Quiet.orphan_iff (n : Nat) : Orphan n t' ↔ Orphan n t := by
  unfold Orphan
  rw [h.known_eq]
  refine and_congr_right fun _ => ⟨fun hno a s hs => ?_, fun hno a s' hs' => ?_⟩
  · have hrel := h.sessions a
    rw [hs] at hrel
    cases hs' : t'.session a with
    | none =>
      rw [hs'] at hrel
      cases hrel
    | some s' =>
      obtain ⟨u, hu, hgoes⟩ := of_rel (h.sessions a) hs'
      obtain rfl : s = u := Option.some_inj.mp (hs.symm.trans hu)
      rw [← hgoes.serial]
      exact hno a s' hs'
  · obtain ⟨s, hs, hgoes⟩ := of_rel (h.sessions a) hs'
    rw [hgoes.serial]
    exact hno a s hs

theorem Quiet.not_replaced (n : Nat) : ¬Replaced n t t' := by
  rintro ⟨a, s, s', hs, hn, hs', hne⟩
  obtain ⟨u, hu, hgoes⟩ := of_rel (h.sessions a) hs'
  obtain rfl : s = u := Option.some_inj.mp (hs.symm.trans hu)
  exact hne (hgoes.serial.trans hn)

end Quiet

theorem Progress.quiet (h : Progress keys t t') : Quiet t t' := by
  refine ⟨h.sessions, fun b hb => h.blocked b ▸ hb, h.made, ?_⟩
  obtain ⟨es, hevents, hes⟩ := h.handshakes
  refine ⟨es, hevents, fun e he => ?_⟩
  rcases hes with rfl | ⟨a, rfl⟩ | rfl
  · cases he
  · cases List.mem_singleton.mp he
    exact ⟨fun _ h => (by cases h), fun _ h => (by cases h)⟩
  · cases List.mem_singleton.mp he
    exact ⟨fun _ h => (by cases h), fun _ h => (by cases h)⟩

/-- A new session stands at an address. -/
structure Opens (keys : Keys) (address : α) (t t' : Transport α) : Prop where
  elsewhere : Elsewhere address t t'
  made : t'.made = t.made + 1
  session : ∃ partnerId sessionKey now, t'.session address = some (makeSession keys t address partnerId sessionKey now)
  blocked : t'.blocked address = false
  events : ∃ before after, t'.events = t.events ++ before ++ [.addSession t.made] ++ after ∧
    (∀ e ∈ before, IsPlain e) ∧ ∀ e ∈ after, IsPlain e

theorem Elsewhere.session {address b : α} (h : Elsewhere address t t') (hb : b ≠ address) :
    t'.session b = t.session b := congrArg SessionState.session (h.info b hb)

section Opens

variable {address : α} (h : Opens keys address t t')
include h

theorem Opens.known_eq : known t'.events = insert t.made (known t.events) := by
  obtain ⟨before, after, hevents, hbefore, hafter⟩ := h.events
  rw [hevents, known_plain hafter, known_concat, known_plain hbefore]
  rfl

/-- A session is the new one, or stands where it stood. -/
theorem Opens.session_cases {a : α} {s : DhtSession α} (hs : t'.session a = some s) :
    (a = address ∧ ∃ partnerId sessionKey now, s = makeSession keys t address partnerId sessionKey now) ∨
      a ≠ address ∧ t.session a = some s := by
  by_cases ha : a = address
  · subst ha
    obtain ⟨partnerId, sessionKey, now, hsession⟩ := h.session
    exact .inl ⟨rfl, partnerId, sessionKey, now, Option.some_inj.mp (hs.symm.trans hsession)⟩
  · exact .inr ⟨ha, (h.elsewhere.session ha).symm.trans hs⟩

theorem Opens.consistent (hc : Consistent keys t) : Consistent keys t' where
  blocked b hb := by
    by_cases ha : b = address
    · rw [ha, h.blocked] at hb
      cases hb
    · rw [h.elsewhere.session ha]
      refine hc.blocked b ?_
      unfold Transport.blocked at hb ⊢
      rwa [h.elsewhere.info b ha] at hb
  address a s hs := by
    rcases h.session_cases hs with ⟨rfl, _, _, _, rfl⟩ | ⟨_, hs⟩
    · rfl
    · exact hc.address a s hs
  own a s hs := by
    rcases h.session_cases hs with ⟨rfl, _, _, _, rfl⟩ | ⟨_, hs⟩
    · rfl
    · exact hc.own a s hs
  sound a s hs := by
    rcases h.session_cases hs with ⟨rfl, partnerId, sessionKey, now, rfl⟩ | ⟨_, hs⟩
    · exact Checked.sound_fresh keys.thisNodeId partnerId sessionKey now
    · exact hc.sound a s hs
  known a s hs := by
    rw [h.known_eq, Finset.mem_insert]
    rcases h.session_cases hs with ⟨rfl, _, _, _, rfl⟩ | ⟨_, hs⟩
    · exact .inl rfl
    · exact .inr (hc.known a s hs)
  single a b s s' hs hs' hserial := by
    have hold {c : α} {u : DhtSession α} (hu : t.session c = some u) : u.serial ≠ t.made :=
      (hc.ledger.lt_made (hc.known c u hu)).ne
    rcases h.session_cases hs with ⟨rfl, _, _, _, rfl⟩ | ⟨_, hs⟩
    · rcases h.session_cases hs' with ⟨rfl, _⟩ | ⟨_, hs'⟩
      · rfl
      · exact absurd hserial.symm (hold hs')
    · rcases h.session_cases hs' with ⟨rfl, _, _, _, rfl⟩ | ⟨_, hs'⟩
      · exact absurd hserial (hold hs)
      · exact hc.single a b s s' hs hs' hserial
  ledger := by
    obtain ⟨before, after, hevents, hbefore, hafter⟩ := h.events
    rw [hevents, h.made]
    exact ((hc.ledger.plain hbefore).add).plain hafter

/-- The client keeps the session that has stood at the address. -/
theorem Opens.orphan_iff (hc : Consistent keys t) (n : Nat) : Orphan n t' ↔ Orphan n t ∨ Replaced n t t' := by
  obtain ⟨partnerId, sessionKey, now, hsession⟩ := h.session
  unfold Orphan
  rw [h.known_eq, Finset.mem_insert]
  constructor
  · rintro ⟨hknown, hno⟩
    have hne : n ≠ t.made := fun he => hno address _ hsession he.symm
    by_cases hstood : ∃ a s, t.session a = some s ∧ s.serial = n
    · obtain ⟨a, s, hs, hserial⟩ := hstood
      obtain rfl : a = address := by
        by_contra ha
        exact hno a s ((h.elsewhere.session ha).trans hs) hserial
      exact .inr ⟨a, s, _, hs, hserial, hsession, fun he => hne he.symm⟩
    · exact .inl ⟨hknown.resolve_left hne, fun a s hs hserial => hstood ⟨a, s, hs, hserial⟩⟩
  · rintro (⟨hknown, hno⟩ | ⟨a, s, s', hs, hserial, hs', hne⟩)
    · refine ⟨.inr hknown, fun a s hs => ?_⟩
      rcases h.session_cases hs with ⟨rfl, _, _, _, rfl⟩ | ⟨_, hs⟩
      · exact (hc.ledger.lt_made hknown).ne'
      · exact hno a s hs
    · have hknown : n ∈ known t.events := hserial ▸ hc.known a s hs
      obtain rfl : a = address := by
        by_contra ha
        obtain rfl : s' = s := Option.some_inj.mp (hs'.symm.trans ((h.elsewhere.session ha).trans hs))
        exact hne hserial
      refine ⟨.inr hknown, fun b u hu hun => ?_⟩
      rcases h.session_cases hu with ⟨rfl, _, _, _, rfl⟩ | ⟨hb, hu⟩
      · exact (hc.ledger.lt_made hknown).ne' hun
      · exact hb (hc.single b a u s hu hs (hun.trans hserial.symm))

end Opens

/-- No session stands at an address any more. -/
structure Closes (address : α) (t t' : Transport α) : Prop where
  elsewhere : Elsewhere address t t'
  made : t'.made = t.made
  session : t'.session address = none
  events : ∃ es, t'.events = t.events ++ removal (t.info address) ++ es ∧ ∀ e ∈ es, IsPlain e

section Closes

variable {address : α} (h : Closes address t t')
include h

theorem Closes.session_of {a : α} {s : DhtSession α} (hs : t'.session a = some s) :
    a ≠ address ∧ t.session a = some s := by
  have ha : a ≠ address := by
    rintro rfl
    rw [h.session] at hs
    cases hs
  exact ⟨ha, (h.elsewhere.session ha).symm.trans hs⟩

/-- The client forgets the session of the address. -/
theorem Closes.mem_known (n : Nat) : n ∈ known t'.events ↔
    n ∈ known t.events ∧ ∀ s, t.session address = some s → s.serial ≠ n := by
  obtain ⟨es, hevents, hplain⟩ := h.events
  rw [hevents, known_plain hplain]
  unfold removal Transport.session
  cases hs : (t.info address).session with
  | none =>
    rw [List.append_nil]
    exact (and_iff_left fun s hs => (by cases hs)).symm
  | some s =>
    rw [known_concat]
    simp only [told, Finset.mem_erase, Option.some.injEq, forall_eq']
    rw [and_comm, ne_comm]

theorem Closes.consistent (hc : Consistent keys t) : Consistent keys t' where
  blocked b hb := by
    by_cases ha : b = address
    · rw [ha, h.session]
    · rw [h.elsewhere.session ha]
      refine hc.blocked b ?_
      unfold Transport.blocked at hb ⊢
      rwa [h.elsewhere.info b ha] at hb
  address a s hs := hc.address a s (h.session_of hs).2
  own a s hs := hc.own a s (h.session_of hs).2
  sound a s hs := hc.sound a s (h.session_of hs).2
  known a s hs := by
    obtain ⟨ha, hs⟩ := h.session_of hs
    exact (h.mem_known _).mpr ⟨hc.known a s hs, fun u hu he => ha (hc.single a address s u hs hu he.symm)⟩
  single a b s s' hs hs' := hc.single a b s s' (h.session_of hs).2 (h.session_of hs').2
  ledger := by
    obtain ⟨es, hevents, hplain⟩ := h.events
    rw [hevents, h.made]
    refine Ledger.plain ?_ hplain
    unfold removal
    cases hs : (t.info address).session with
    | none => exact hc.ledger.plain fun e he => (by cases he)
    | some s => exact hc.ledger.remove (hc.known address s hs)

theorem Closes.orphan_iff (n : Nat) : Orphan n t' ↔ Orphan n t := by
  unfold Orphan
  rw [h.mem_known]
  constructor
  · rintro ⟨⟨hknown, haway⟩, hno⟩
    refine ⟨hknown, fun a s hs => ?_⟩
    by_cases ha : a = address
    · exact haway s (ha ▸ hs)
    · exact hno a s ((h.elsewhere.session ha).trans hs)
  · rintro ⟨hknown, hno⟩
    exact ⟨⟨hknown, fun s hs => hno address s hs⟩, fun a s hs => hno a s (h.session_of hs).2⟩

theorem Closes.not_replaced (n : Nat) : ¬Replaced n t t' := by
  rintro ⟨a, s, s', hs, hn, hs', hne⟩
  have hs'' := (h.session_of hs').2
  obtain rfl : s = s' := Option.some_inj.mp (hs.symm.trans hs'')
  exact hne hn

end Closes

omit [LinearOrder α] in
theorem isPlain_drawKey (a : α) (sessionKey : ConstDataBuffer) : IsPlain (.drawKey a sessionKey) :=
  ⟨fun _ h => (by cases h), fun _ h => (by cases h)⟩

omit [LinearOrder α] in
theorem isPlain_write (a : α) (datagram : ConstDataBuffer) : IsPlain (.write a datagram) :=
  ⟨fun _ h => (by cases h), fun _ h => (by cases h)⟩

omit [LinearOrder α] in
theorem isPlain_newSession (partnerId : ConstDataBuffer) : IsPlain (.newSession partnerId : Event α) :=
  ⟨fun _ h => (by cases h), fun _ h => (by cases h)⟩

omit [LinearOrder α] in
theorem isPlain_of_refusal {address : α} {datagram : ConstDataBuffer} {es : List (Event α)}
    (h : refusal address datagram es) : ∀ e ∈ es, IsPlain e := by
  rw [h.1]
  exact List.forall_mem_singleton.mpr (isPlain_write _ _)

omit [LinearOrder α] in
theorem not_mem_plain : ∀ e ∈ ([] : List (Event α)), IsPlain e := fun e he => (by cases he)

theorem quiet_of_stays {address : α} {datagram : ConstDataBuffer} {o : Outcome} {es : List (Event α)}
    (elsewhere : Elsewhere address t t') (made : t'.made = t.made)
    (session : Option.Rel Goes (t.session address) (t'.session address))
    (blocked : t'.blocked address = true → t.blocked address = true) (events : t'.events = t.events ++ es)
    (replies : es = [] ∨ es = [.drawKey address o.randomKey] ∨ refusal address datagram es) : Quiet t t' := by
  refine ⟨fun b => ?_, fun b hb => ?_, made, es, events, ?_⟩
  · by_cases ha : b = address
    · rw [ha]
      exact session
    · rw [elsewhere.session ha]
      exact rel_goes_refl _
  · by_cases ha : b = address
    · rw [ha] at hb ⊢
      exact blocked hb
    · unfold Transport.blocked at hb ⊢
      rwa [elsewhere.info b ha] at hb
  · rcases replies with rfl | rfl | hr
    · exact not_mem_plain
    · exact List.forall_mem_singleton.mpr (isPlain_drawKey _ _)
    · exact isPlain_of_refusal hr

/-- A datagram lets a session go on, opens one or closes one. -/
theorem Effect.kinds {address : α} {datagram : ConstDataBuffer} {o : Outcome}
    (h : Effect keys address datagram o t t') : Quiet t t' ∨ (Opens keys address t t' ∧
      (t.session address = none ∨ datagram.head? = some Kind.welcome)) ∨ Closes address t t' := by
  cases h with
  | stays elsewhere made session blocked es events replies =>
    exact .inl (quiet_of_stays elsewhere made session blocked events replies)
  | accepts elsewhere made key reads kind other free single encryptedKey encrypts session blocked n events =>
    have hcalls : ∀ e ∈ [.write address (welcomeMessage keys encryptedKey),
        .newSession (keys.crypto.fingerprint key)], IsPlain e :=
      List.forall_mem_cons.mpr ⟨isPlain_write _ _, List.forall_mem_singleton.mpr (isPlain_newSession _)⟩
    refine .inr (.inl ⟨⟨elsewhere, made, ⟨_, _, _, session⟩, blocked, [.drawKey address o.randomKey],
      [.write address (welcomeMessage keys encryptedKey), .newSession (keys.crypto.fingerprint key)].take n,
      ?_, List.forall_mem_singleton.mpr (isPlain_drawKey _ _), fun e he => hcalls e (List.mem_of_mem_take he)⟩,
      .inl free⟩)
    rw [events, List.append_assoc, List.append_assoc]
    rfl
  | welcomes elsewhere made key sessionKey reads kind session blocked n events =>
    have hcalls : ∀ e ∈ [(.newSession (keys.crypto.fingerprint key) : Event α)], IsPlain e :=
      List.forall_mem_singleton.mpr (isPlain_newSession _)
    refine .inr (.inl ⟨⟨elsewhere, made, ⟨_, _, _, session⟩, blocked, [],
      [.newSession (keys.crypto.fingerprint key)].take n, ?_, not_mem_plain,
      fun e he => hcalls e (List.mem_of_mem_take he)⟩, .inr kind⟩)
    rw [events, List.append_nil, List.append_assoc]
  | closes elsewhere made session es events replies =>
    refine .inr (.inr ⟨elsewhere, made, session, es, by rw [events, List.append_assoc], ?_⟩)
    rcases replies with rfl | hr
    · exact not_mem_plain
    · exact isPlain_of_refusal hr

/-! ### The whole run -/

/-- The session of the address is replaced when the last of the acts, a welcome, is read. -/
def ReplacedBy (keys : Keys) (n : Nat) (done : List (Act α)) (act : Act α) : Prop :=
  ∃ address datagram o t, act = .receive address datagram o ∧ datagram.head? = some Kind.welcome ∧
    LabelledRun.run (step keys) start done = some (.continues t) ∧
    Replaced n t (receive keys address datagram o t).transport

theorem consistent_start (keys : Keys) : Consistent keys (start : Turn α).transport := by
  have hnone (a : α) : (start : Turn α).transport.session a = none := rfl
  refine ⟨fun a _ => hnone a, ?_, ?_, ?_, ?_, ?_, ⟨fun n => ?_, fun n => ?_⟩⟩
  · exact fun a s hs => absurd ((hnone a).symm.trans hs) (Option.some_ne_none s).symm
  · exact fun a s hs => absurd ((hnone a).symm.trans hs) (Option.some_ne_none s).symm
  · exact fun a s hs => absurd ((hnone a).symm.trans hs) (Option.some_ne_none s).symm
  · exact fun a s hs => absurd ((hnone a).symm.trans hs) (Option.some_ne_none s).symm
  · exact fun a b s s' hs => absurd ((hnone a).symm.trans hs) (Option.some_ne_none s).symm
  · exact (if_neg (Nat.not_lt_zero n)).symm
  · rfl

theorem consistent_step {turn turn' : Turn α} {act : Act α} (hc : Consistent keys turn.transport)
    (h : step keys turn act = some turn') : Consistent keys turn'.transport := by
  rcases step_cases h with ⟨address, datagram, o, t, rfl, rfl, rfl⟩ | ⟨hprogress, -⟩
  · rcases (receive_effect hc.blocked : Effect keys address datagram o t _).kinds with hq | ⟨ho, -⟩ | hcl
    · exact hq.consistent hc
    · exact ho.consistent hc
    · exact hcl.consistent hc
  · exact hprogress.quiet.consistent hc

theorem ReplacedBy.replaced {turn turn' : Turn α} {acts : List (Act α)} {act : Act α} {n : Nat}
    (hrun : LabelledRun.run (step keys) start acts = some turn) (h : step keys turn act = some turn')
    (hby : ReplacedBy keys n acts act) : Replaced n turn.transport turn'.transport := by
  obtain ⟨address, datagram, o, t, rfl, -, hrun', hreplaced⟩ := hby
  obtain rfl : turn = .continues t := Option.some_inj.mp (hrun.symm.trans hrun')
  cases h
  exact hreplaced

theorem Opens.stood_of_replaced {address : α} (h : Opens keys address t t') {n : Nat} (hr : Replaced n t t') :
    t.session address ≠ none := by
  obtain ⟨a, s, s', hs, hn, hs', hne⟩ := hr
  rcases h.session_cases hs' with ⟨rfl, _⟩ | ⟨_, hsame⟩
  · rw [hs]
    exact Option.some_ne_none s
  · obtain rfl : s = s' := Option.some_inj.mp (hs.symm.trans hsame)
    exact absurd hn hne

theorem orphan_step {turn turn' : Turn α} {acts : List (Act α)} {act : Act α}
    (hrun : LabelledRun.run (step keys) start acts = some turn) (hc : Consistent keys turn.transport)
    (h : step keys turn act = some turn') (n : Nat) :
    Orphan n turn'.transport ↔ Orphan n turn.transport ∨ ReplacedBy keys n acts act := by
  have hnot (hno : ¬Replaced n turn.transport turn'.transport)
      (hsame : Orphan n turn'.transport ↔ Orphan n turn.transport) :
      Orphan n turn'.transport ↔ Orphan n turn.transport ∨ ReplacedBy keys n acts act := by
    rw [hsame, or_iff_left fun hby => hno (hby.replaced hrun h)]
  rcases step_cases h with ⟨address, datagram, o, t, rfl, rfl, rfl⟩ | ⟨hprogress, -⟩
  · rcases (receive_effect hc.blocked : Effect keys address datagram o t _).kinds with hq | ⟨ho, hkind⟩ | hcl
    · exact hnot (hq.not_replaced n) (hq.orphan_iff n)
    · refine (ho.orphan_iff hc n).trans (or_congr_right ⟨fun hr => ?_, fun hby => hby.replaced hrun h⟩)
      exact ⟨address, datagram, o, t, rfl, hkind.resolve_left (ho.stood_of_replaced hr), hrun, hr⟩
    · exact hnot (hcl.not_replaced n) (hcl.orphan_iff n)
  · exact hnot (hprogress.quiet.not_replaced n) (hprogress.quiet.orphan_iff n)

/-- A stand-in for the keys of the crypto library: what is encrypted for a node begins with its public key. -/
def sampleKeys (n : UInt8) : Keys where
  crypto :=
    { sha256 := fun _ => List.replicate 32 0
      sha256_size := fun _ => List.length_replicate
      parseDer := fun der => .ok ⟨der⟩
      fingerprint := fun key => key.der
      verify := fun _ _ _ => .ok true }
  encrypt key data := if data.length ≤ 32 then .ok (key.der.take 32 ++ data) else .error (.runtimeError "encrypt")
  decrypt data := if data.take 32 = sampleNode n then .ok (data.drop 32) else .error (.runtimeError "decrypt")
  thisNodeId := sampleNode n
  nodePublicKey := ⟨sampleNode n⟩
  magicLabel := 7
  hmac := sampleHmac

/-- The node draws a key for its partner, and takes the key that the partner has drawn. -/
def replacingActs : List (Act Nat) :=
  [.receive 0 (handshakeMessage (sampleKeys 2)) { now := 0, randomKey := sampleNode 11 },
   .receive 0 (welcomeMessage (sampleKeys 2) (sampleNode 1 ++ sampleNode 12)) { now := 0 }]

def replacedTurn : Turn Nat := (LabelledRun.run (step (sampleKeys 1)) start replacingActs).getD start

theorem run_replacingActs : LabelledRun.run (step (sampleKeys 1)) start replacingActs = some replacedTurn := by
  have hruns : (LabelledRun.run (step (sampleKeys 1)) start replacingActs).isSome := by decide +kernel
  unfold replacedTurn
  rw [← Option.get_eq_getD (h := hruns), Option.some_get]

end Vds.DhtNetwork.Udp
