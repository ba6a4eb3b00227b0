import Vds.DhtNetwork.SafeRuns
import Vds.DhtNetwork.UdpTransport

/-! What one datagram, a timer or a handshake does to the sessions of `udp_transport`, and what holds of them
after every run. -/

namespace Vds.DhtNetwork

open StateError

/-! ### The names of a session stay -/

/-- Whom a session joins, and its key. -/
def names (s : Session) : ConstDataBuffer × ConstDataBuffer × ConstDataBuffer :=
  (s.self.thisNodeId, s.self.partnerNodeId, s.self.sessionKey)

section Names

variable {hmac : Hmac}

theorem names_of_receivingSide {s s' : Session} (h : receivingSide s' = receivingSide s) : names s' = names s :=
  show names (receivingSide s') = names (receivingSide s) from congrArg names h

theorem names_resend (index : Nat) : Frames names (resend index) :=
  fun s => names_of_receivingSide (moves_resend 0 index s).receiving

theorem names_addDatagram (command : UInt8) (body : ConstDataBuffer) :
    Frames names (addDatagram hmac command body) := fun _ => rfl

theorem names_addContinueData (size n : Nat) (rest : ConstDataBuffer) :
    Frames names (addContinueData hmac size n rest) := by
  induction n generalizing rest with
  | zero => exact Moves.throw _
  | succ n ih =>
    unfold addContinueData
    refine Moves.bind (names_addDatagram _ _) fun _ => ?_
    exact Moves.ite (fun _ => Moves.pure _) fun _ => ih _

theorem names_prepareToSend (messageType : UInt8) (targetNode : ConstDataBuffer) (hops : List ConstDataBuffer)
    (message : ConstDataBuffer) : Frames names (prepareToSend hmac messageType targetNode hops message) := by
  unfold prepareToSend
  refine Moves.bind Moves.get fun s => ?_
  -- what follows the two branches
  have hfinish : Frames names (get >>= fun s' => if s'.self.lastOutputIndex < s.self.lastOutputIndex then
      (modifySelf fun p => { p with failedState := true }) >>= fun _ => throw (.runtimeError "Overflow pipeline")
      else return (s.self.lastOutputIndex, s'.self.lastOutputIndex) : SessionM (Nat × Nat)) := by
    refine Moves.bind Moves.get fun s' => Moves.ite (fun _ => ?_) fun _ => Moves.pure _
    exact Moves.bind (fun _ => rfl) fun _ => Moves.throw _
  refine Moves.ite (fun _ => ?_) fun _ => ?_
  · exact Moves.bind (names_addDatagram _ _) fun _ => hfinish
  · refine Moves.bind (names_addDatagram _ _) fun _ => ?_
    exact Moves.bind (names_addContinueData _ _ _) fun _ => hfinish

theorem names_sendMessage (messageType : UInt8) (targetNode : ConstDataBuffer) (hops : List ConstDataBuffer)
    (message : ConstDataBuffer) : Frames names (sendMessage hmac messageType targetNode hops message) := by
  unfold sendMessage
  refine Moves.bind (names_prepareToSend _ _ _ _) fun indexes => ?_
  exact Moves.forM fun index _ => names_resend index

theorem names_onTimer : Frames names onTimer :=
  fun s => names_of_receivingSide (moves_onTimer s).receiving

namespace Checked

theorem names_lift {β : Type} (v : Checked β) : Frames names (lift v) := by
  intro s
  cases v <;> rfl

theorem names_continueLoop (n : Nat) : Frames names (continueLoop n) := by
  induction n with
  | zero => exact Moves.throw _
  | succ n ih =>
    unfold continueLoop
    refine Moves.bind (fun _ => rfl) fun _ => Moves.bind Moves.get fun s => ?_
    refine Moves.bind (names_lift _) fun next => ?_
    cases next with
    | returns => exact Moves.pure _
    | drops => exact Moves.bind (fun _ => rfl) fun _ => ih
    | hands incoming count => exact Moves.bind (fun _ => rfl) fun _ => ih

theorem names_processData (first : UInt8) (datagram : ConstDataBuffer) :
    Frames names (processData hmac first datagram) := by
  unfold processData
  refine Moves.bind Moves.get fun s => Moves.bind (names_lift _) fun signed => ?_
  refine Moves.ite (fun _ => Moves.throw _) fun _ => Moves.ite (fun _ => Moves.throw _) fun _ => ?_
  refine Moves.bind (names_lift _) fun index => Moves.ite (fun _ => Moves.throw _) fun _ => ?_
  refine Moves.ite (fun _ => ?_) fun _ => Moves.pure _
  refine Moves.bind (fun _ => rfl) fun _ => Moves.bind Moves.get fun s' => ?_
  exact names_continueLoop _

theorem names_processDatagram (datagram : ConstDataBuffer) : Frames names (processDatagram hmac datagram) := by
  unfold processDatagram
  refine Moves.bind Moves.get fun s => Moves.ite (fun _ => Moves.throw _) fun _ => ?_
  refine Moves.ite (fun _ => Moves.throw _) fun _ => Moves.bind (fun _ => rfl) fun _ => ?_
  cases datagram with
  | nil => exact Moves.throw _
  | cons first tail =>
    refine Moves.ite (fun _ => Moves.pure _) fun _ => Moves.ite (fun _ => fun s => ?_) fun _ => ?_
    · rw [final_plainM]
      obtain ⟨last, hserves⟩ := exists_serves (first :: tail) s
      exact names_of_receivingSide hserves.receiving
    · exact Moves.ite (fun _ => Moves.throw _) fun _ => names_processData _ _

end Checked
end Names

namespace Udp

variable {α : Type} [LinearOrder α]

/-! ### The table of the sessions -/

namespace Transport

def session (t : Transport α) (address : α) : Option (DhtSession α) := (t.info address).session

def blocked (t : Transport α) (address : α) : Bool := (t.info address).blocked

def locked (t : Transport α) (address : α) : Bool := (t.info address).locked

variable (t : Transport α) (a b : α)

@[simp] theorem info_emit (es : List (Event α)) : (t.emit es).info b = t.info b := rfl

@[simp] theorem made_emit (es : List (Event α)) : (t.emit es).made = t.made := rfl

@[simp] theorem events_emit (es : List (Event α)) : (t.emit es).events = t.events ++ es := rfl

theorem emit_emit (es es' : List (Event α)) : (t.emit es).emit es' = t.emit (es ++ es') := by
  unfold emit
  rw [List.append_assoc]

@[simp] theorem made_setInfo (i : SessionState α) : (t.setInfo a i).made = t.made := rfl

@[simp] theorem events_setInfo (i : SessionState α) : (t.setInfo a i).events = t.events := rfl

@[simp] theorem info_setInfo (i : SessionState α) :
    (t.setInfo a i).info b = if b = a then i else t.info b := by
  unfold info setInfo
  rw [OrderedMap.find_assign]
  split_ifs <;> rfl

@[simp] theorem info_unlock :
    (t.unlock a).info b = if b = a then { t.info a with locked := false } else t.info b := info_setInfo t a b _

@[simp] theorem made_unlock : (t.unlock a).made = t.made := rfl

@[simp] theorem events_unlock : (t.unlock a).events = t.events := rfl

@[simp] theorem info_draw (o : Outcome) : (t.draw a o).info b =
    if b = a then { t.info a with updateTime := o.now, sessionKey := o.randomKey } else t.info b :=
  info_setInfo t a b _

@[simp] theorem made_draw (o : Outcome) : (t.draw a o).made = t.made := rfl

@[simp] theorem events_draw (o : Outcome) : (t.draw a o).events = t.events ++ [.drawKey a o.randomKey] := rfl

@[simp] theorem info_attach (s : DhtSession α) :
    (t.attach a s).info b = if b = a then { t.info a with session := some s } else t.info b := info_setInfo t a b _

@[simp] theorem made_attach (s : DhtSession α) : (t.attach a s).made = t.made + 1 := rfl

@[simp] theorem events_attach (s : DhtSession α) : (t.attach a s).events = t.events := rfl

@[simp] theorem info_close (now : Int) : (t.close a now).info b = if b = a then
    { t.info a with locked := false, session := none, blocked := true, updateTime := now } else t.info b :=
  info_setInfo (t.emit (removal (t.info a))) a b _

@[simp] theorem made_close (now : Int) : (t.close a now).made = t.made := rfl

@[simp] theorem events_close (now : Int) : (t.close a now).events = t.events ++ removal (t.info a) := rfl

@[simp] theorem info_proceed (p : Session) : (t.proceed a p).info b = if b = a then
    { t.info a with session := (t.info a).session.map fun s => { s with protocol := p } } else t.info b :=
  info_setInfo t a b _

@[simp] theorem made_proceed (p : Session) : (t.proceed a p).made = t.made := rfl

@[simp] theorem events_proceed (p : Session) : (t.proceed a p).events = t.events := rfl

/-- An address with a session has an entry. -/
theorem find_of_session {t : Transport α} {a : α} {s : DhtSession α} (h : t.session a = some s) :
    t.sessions.find a = some (t.info a) := by
  unfold session info at h
  unfold info
  cases hfind : t.sessions.find a with
  | none =>
    rw [hfind] at h
    cases h
  | some i => rfl

theorem info_of_find {t : Transport α} {a : α} {i : SessionState α} (h : t.sessions.find a = some i) :
    t.info a = i := by
  unfold info
  rw [h]
  rfl

/-- No session has the partner. -/
theorem partner_ne_of_entry {t : Transport α} {partnerId : ConstDataBuffer} (h : t.partnerEntry partnerId = none)
    {b : α} {s : DhtSession α} (hs : t.session b = some s) : s.partnerNodeId ≠ partnerId := by
  intro hpartner
  unfold partnerEntry at h
  rw [List.find?_eq_none] at h
  refine h (b, t.info b) (OrderedMap.find_eq_some_iff.mp (find_of_session hs)) ?_
  unfold session at hs
  rw [hs]
  exact decide_eq_true hpartner

/-- The entry is one of the table, with a session of the partner. -/
theorem partnerEntry_eq_some {t : Transport α} {partnerId : ConstDataBuffer} {b : α} {i : SessionState α}
    (h : t.partnerEntry partnerId = some (b, i)) :
    t.info b = i ∧ ∃ s, i.session = some s ∧ s.partnerNodeId = partnerId := by
  unfold partnerEntry at h
  have hmem := List.mem_of_find?_eq_some h
  have hany := List.find?_some h
  refine ⟨info_of_find (OrderedMap.find_eq_some_iff.mpr hmem), ?_⟩
  cases hs : i.session with
  | none =>
    rw [hs] at hany
    cases hany
  | some s =>
    rw [hs] at hany
    exact ⟨s, rfl, of_decide_eq_true hany⟩

end Transport

/-! ### What a datagram does -/

/-- A session that has gone on: the same object, with the same names. -/
structure Goes (s s' : DhtSession α) : Prop where
  serial : s'.serial = s.serial
  address : s'.address = s.address
  names : names s'.protocol = names s.protocol
  sound : Checked.Sound s.protocol.self → Checked.Sound s'.protocol.self

omit [LinearOrder α] in
theorem goes_refl (s : DhtSession α) : Goes s s := ⟨rfl, rfl, rfl, id⟩

/-- The change at one address; the others keep theirs. -/
structure Elsewhere (address : α) (t t' : Transport α) : Prop where
  info : ∀ b, b ≠ address → t'.info b = t.info b

variable (keys : Keys)

def IsHandshake (datagram : ConstDataBuffer) : Prop :=
  datagram.head? = some Kind.handshakeBroadcast ∨ datagram.head? = some Kind.handshake

/-- A reply to a datagram that belongs to no session. -/
def refusal (address : α) (datagram : ConstDataBuffer) (es : List (Event α)) : Prop :=
  es = [.write address failedMessage] ∧ ∃ first tail, datagram = first :: tail ∧ isControl first = false

/-- What `continue_read` does with a datagram, whether it goes on reading or not. -/
inductive Effect (address : α) (datagram : ConstDataBuffer) (o : Outcome) (t t' : Transport α) : Prop
  /-- The session of the address, if there is one, stays. -/
  | stays (elsewhere : Elsewhere address t t') (made : t'.made = t.made)
      (session : Option.Rel Goes (t.session address) (t'.session address))
      (blocked : t'.blocked address = true → t.blocked address = true) (es : List (Event α))
      (events : t'.events = t.events ++ es)
      (replies : es = [] ∨ es = [.drawKey address o.randomKey] ∨ refusal address datagram es)
  /-- A handshake is accepted. -/
  | accepts (elsewhere : Elsewhere address t t') (made : t'.made = t.made + 1) (key : AsymmetricPublicKey)
      (reads : handshakeKey keys datagram = .ok (some key)) (kind : IsHandshake datagram)
      (other : keys.crypto.fingerprint key ≠ keys.thisNodeId) (free : t.session address = none)
      (single : ∀ b s, t.session b = some s → s.partnerNodeId ≠ keys.crypto.fingerprint key)
      (encryptedKey : ConstDataBuffer) (encrypts : keys.encrypt key o.randomKey = .ok encryptedKey)
      (session : t'.session address =
        some (makeSession keys t address (keys.crypto.fingerprint key) o.randomKey o.now))
      (blocked : t'.blocked address = false) (n : Nat)
      (events : t'.events = t.events ++ ([.drawKey address o.randomKey, .addSession t.made] ++
        [.write address (welcomeMessage keys encryptedKey), .newSession (keys.crypto.fingerprint key)].take n))
  /-- A welcome is taken. -/
  | welcomes (elsewhere : Elsewhere address t t') (made : t'.made = t.made + 1) (key : AsymmetricPublicKey)
      (sessionKey : ConstDataBuffer) (reads : welcomeKeys keys datagram = .ok (some (key, sessionKey)))
      (kind : datagram.head? = some Kind.welcome)
      (session : t'.session address =
        some (makeSession keys t address (keys.crypto.fingerprint key) sessionKey o.now))
      (blocked : t'.blocked address = false) (n : Nat)
      (events : t'.events = t.events ++ ([.addSession t.made] ++
        [.newSession (keys.crypto.fingerprint key)].take n))
  /-- The address is blocked. -/
  | closes (elsewhere : Elsewhere address t t') (made : t'.made = t.made) (session : t'.session address = none)
      (es : List (Event α)) (events : t'.events = t.events ++ (removal (t.info address) ++ es))
      (replies : es = [] ∨ refusal address datagram es)

/-- A blocked address has no session. -/
def BlockedEmpty (t : Transport α) : Prop := ∀ a, t.blocked a = true → t.session a = none

section Effects

variable {keys : Keys} {address : α} {datagram : ConstDataBuffer} {o : Outcome} {t : Transport α}

theorem elsewhere_refl : Elsewhere address t t := ⟨fun _ _ => rfl⟩

omit [LinearOrder α] in
theorem rel_goes_refl (old : Option (DhtSession α)) : Option.Rel Goes old old := by
  cases old with
  | none => exact .none
  | some s => exact .some (goes_refl s)

theorem check_continues (result : Expected Unit) (t : Transport α) : (check result t .continues).transport = t := by
  cases result <;> rfl

theorem check_done (result : Expected Unit) (done : List (Event α)) :
    ∃ n, (check result (t.emit done) .continues).transport = t.emit (done ++ ([] : List (Event α)).take n) :=
  ⟨0, by rw [check_continues, List.take_nil, List.append_nil]⟩

/-- A call that fails is the last one. -/
theorem check_then (result result' : Expected Unit) (done : List (Event α)) {e : Event α} {more : List (Event α)}
    {next : Transport α → Turn α}
    (hnext : ∃ n, (check result' (t.emit (done ++ [e])) next).transport = t.emit ((done ++ [e]) ++ more.take n)) :
    ∃ n, (check result (t.emit done) fun t => check result' (t.emit [e]) next).transport =
      t.emit (done ++ (e :: more).take n) := by
  cases result with
  | error error => exact ⟨0, by rw [List.take_zero, List.append_nil]; rfl⟩
  | ok _ =>
    obtain ⟨n, hn⟩ := hnext
    refine ⟨n + 1, ?_⟩
    change (check result' ((t.emit done).emit [e]) next).transport = _
    rw [Transport.emit_emit, hn, List.append_assoc, List.singleton_append, List.take_succ_cons]

theorem accept_transport {key : AsymmetricPublicKey} {encryptedKey : ConstDataBuffer}
    (hencrypt : keys.encrypt key o.randomKey = .ok encryptedKey) :
    ∃ n, (accept keys address key o t).transport =
      (((t.draw address o).attach address (makeSession keys t address (keys.crypto.fingerprint key) o.randomKey
        o.now)).unlock address).emit ([.addSession t.made] ++
          [.write address (welcomeMessage keys encryptedKey), .newSession (keys.crypto.fingerprint key)].take n) := by
  unfold accept
  dsimp only
  rw [hencrypt]
  exact check_then _ _ _ (check_then _ _ _ (check_done _ _))

theorem accept_effect {key : AsymmetricPublicKey} (reads : handshakeKey keys datagram = .ok (some key))
    (kind : IsHandshake datagram)
    (other : keys.crypto.fingerprint key ≠ keys.thisNodeId) (free : t.session address = none)
    (single : ∀ b s, t.session b = some s → s.partnerNodeId ≠ keys.crypto.fingerprint key)
    (hblocked : t.blocked address = false) :
    Effect keys address datagram o t (accept keys address key o t).transport := by
  cases hencrypt : keys.encrypt key o.randomKey with
  | error e =>
    have hrun : accept keys address key o t = .ends (.error e) (t.draw address o) := by
      unfold accept
      dsimp only
      rw [hencrypt]
    rw [hrun]
    refine .stays ⟨fun b hb => ?_⟩ rfl ?_ ?_ _ rfl (.inr (.inl rfl))
    · simp [Turn.transport, hb]
    · have hsession : (t.draw address o).session address = t.session address := by simp [Transport.session]
      exact hsession ▸ rel_goes_refl _
    · simp [Turn.transport, Transport.blocked]
  | ok encryptedKey =>
    obtain ⟨n, hn⟩ := @accept_transport _ _ _ address o t _ _ hencrypt
    rw [hn]
    refine .accepts ⟨fun b hb => ?_⟩ rfl key reads kind other free single encryptedKey hencrypt ?_ ?_ n ?_
    · simp [hb]
    · simp [Transport.session]
    · simpa [Transport.blocked] using hblocked
    · simp

theorem unlock_effect : Effect keys address datagram o t (t.unlock address) := by
  refine .stays ⟨fun b hb => ?_⟩ rfl ?_ ?_ [] (List.append_nil _).symm (.inl rfl)
  · simp [hb]
  · have hsession : (t.unlock address).session address = t.session address := by simp [Transport.session]
    exact hsession ▸ rel_goes_refl _
  · simp [Transport.blocked]

theorem handshake_effect (kind : IsHandshake datagram) (hempty : BlockedEmpty t) (hblocked : t.blocked address = false) :
    Effect keys address datagram o t (handshake keys address datagram o t).transport := by
  have hunlock : Effect keys address datagram o t (t.unlock address) := unlock_effect
  unfold handshake
  split_ifs with hsome
  · exact hunlock
  · have free : t.session address = none := Option.not_isSome_iff_eq_none.mp hsome
    cases hread : handshakeKey keys datagram with
    | error e =>
      exact .stays elsewhere_refl rfl (rel_goes_refl _) id [] (List.append_nil _).symm (.inl rfl)
    | ok read =>
      cases read with
      | none => exact hunlock
      | some key =>
        dsimp only
        split_ifs with hown
        · exact hunlock
        · cases hentry : t.partnerEntry (keys.crypto.fingerprint key) with
          | none => exact accept_effect hread kind hown free (fun b s hs => Transport.partner_ne_of_entry hentry hs) hblocked
          | some e =>
            obtain ⟨b, i⟩ := e
            obtain ⟨hinfo, s, hs, -⟩ := Transport.partnerEntry_eq_some hentry
            -- a session that is found is not blocked, so that nothing is erased
            have hopen : i.blocked = false := by
              rw [← hinfo, Bool.eq_false_iff]
              intro hb
              have hnone : t.session b = none := hempty b hb
              unfold Transport.session at hnone
              rw [hinfo, hs] at hnone
              cases hnone
            dsimp only
            rw [hopen]
            exact hunlock

theorem welcome_transport {key : AsymmetricPublicKey} {sessionKey : ConstDataBuffer}
    (hread : welcomeKeys keys datagram = .ok (some (key, sessionKey))) :
    ∃ n, (welcome keys address datagram o t).transport =
      ((t.attach address (makeSession keys t address (keys.crypto.fingerprint key) sessionKey
        o.now)).unlock address).emit ([.addSession t.made] ++
          [.newSession (keys.crypto.fingerprint key)].take n) := by
  unfold welcome
  rw [hread]
  exact check_then _ _ _ (check_done _ _)

theorem welcome_effect (kind : datagram.head? = some Kind.welcome) (hblocked : t.blocked address = false) :
    Effect keys address datagram o t (welcome keys address datagram o t).transport := by
  cases hread : welcomeKeys keys datagram with
  | error e =>
    unfold welcome
    rw [hread]
    exact .stays elsewhere_refl rfl (rel_goes_refl _) id [] (List.append_nil _).symm (.inl rfl)
  | ok read =>
    cases read with
    | none =>
      unfold welcome
      rw [hread]
      exact unlock_effect
    | some both =>
      obtain ⟨key, sessionKey⟩ := both
      obtain ⟨n, hn⟩ := @welcome_transport _ _ _ address _ o t _ _ hread
      rw [hn]
      refine .welcomes ⟨fun b hb => ?_⟩ rfl key sessionKey hread kind ?_ ?_ n ?_
      · simp [hb]
      · simp [Transport.session]
      · simpa [Transport.blocked] using hblocked
      · simp

theorem failed_effect : Effect keys address datagram o t (failed address o t).transport := by
  refine .closes ⟨fun b hb => ?_⟩ rfl ?_ [] ?_ (.inl rfl)
  · simp [failed, Turn.transport, hb]
  · simp [failed, Turn.transport, Transport.session]
  · simp [failed, Turn.transport]

theorem process_effect (hkind : ∃ first tail, datagram = first :: tail ∧ isControl first = false) :
    Effect keys address datagram o t (process keys address datagram o t).transport := by
  have hrefusal : refusal address datagram [.write address failedMessage] := ⟨rfl, hkind⟩
  unfold process
  cases hs : (t.info address).session with
  | none =>
    refine .closes ⟨fun b hb => ?_⟩ rfl ?_ _ ?_ (.inr hrefusal)
    · simp [Turn.transport, hb]
    · simp [Turn.transport, Transport.session]
    · simp [Turn.transport]
  | some s =>
    dsimp only
    generalize hstart : ({ s.protocol with now := o.now, refuses := o.refuses } : Session) = start
    have hgoes : Goes s { s with protocol := StateError.final (Checked.processDatagram keys.hmac datagram start) } := by
      subst hstart
      exact ⟨rfl, rfl, Checked.names_processDatagram datagram _, fun hsound => Checked.sound_processDatagram hsound⟩
    have hproceeds {p : Session} (hgoes : Goes s { s with protocol := p }) :
        Effect keys address datagram o t ((t.unlock address).proceed address p) := by
      refine .stays ⟨fun b hb => ?_⟩ rfl ?_ ?_ [] (List.append_nil _).symm (.inl rfl)
      · simp [hb]
      · simpa [Transport.session, hs] using Option.Rel.some hgoes
      · simp [Transport.blocked]
    cases hrun : Checked.processDatagram keys.hmac datagram start with
    | ok _ p =>
      rw [hrun] at hgoes
      exact hproceeds hgoes
    | error e p =>
      rw [hrun] at hgoes
      have hcloses : Effect keys address datagram o t (check o.writeAsync
          ((((t.unlock address).proceed address p).close address o.now).emit [.write address failedMessage])
          .continues).transport := by
        rw [check_continues]
        refine .closes ⟨fun b hb => ?_⟩ rfl ?_ _ ?_ (.inr hrefusal)
        · simp [hb]
        · simp [Transport.session]
        · simp [removal, hs]
      cases e with
      | underflow => exact hproceeds hgoes
      | plain e =>
        cases e with
        | outOfRange => exact hproceeds hgoes
        | outOfFuel => exact hproceeds hgoes
        | runtimeError what => exact hcloses
        | notWritten => exact hcloses

theorem dispatch_effect {first : UInt8} {tail : ConstDataBuffer} (hcons : datagram = first :: tail)
    (hempty : BlockedEmpty t) (hblocked : t.blocked address = false) :
    Effect keys address datagram o t (dispatch keys address first datagram o t).transport := by
  unfold dispatch
  split_ifs with hhandshake hwelcome hfailed
  · refine handshake_effect (hhandshake.imp ?_ ?_) hempty hblocked
    · exact fun h => by rw [hcons, h]; rfl
    · exact fun h => by rw [hcons, h]; rfl
  · exact welcome_effect (by rw [hcons, hwelcome]; rfl) hblocked
  · exact failed_effect
  · refine process_effect ⟨first, tail, hcons, ?_⟩
    rw [not_or] at hhandshake
    unfold isControl
    simp [hhandshake.1, hhandshake.2, hwelcome, hfailed]

/-- The lock, and a block that is lifted, say nothing of the sessions. -/
structure Prepared (address : α) (t t₁ : Transport α) : Prop where
  elsewhere : Elsewhere address t t₁
  session : t₁.session address = t.session address
  blocked : t₁.blocked address = true → t.blocked address = true
  made : t₁.made = t.made
  events : t₁.events = t.events

section Prepared

variable {t₁ : Transport α} (h : Prepared address t t₁)
include h

theorem Prepared.session_eq (b : α) : t₁.session b = t.session b := by
  by_cases hb : b = address
  · rw [hb, h.session]
  · unfold Transport.session
    rw [h.elsewhere.info b hb]

theorem Prepared.blockedEmpty (hempty : BlockedEmpty t) : BlockedEmpty t₁ := by
  intro b hb
  rw [h.session_eq]
  refine hempty b ?_
  by_cases hne : b = address
  · subst hne
    exact h.blocked hb
  · unfold Transport.blocked at hb ⊢
    rwa [h.elsewhere.info b hne] at hb

theorem Prepared.then {t' : Transport α} (heffect : Effect keys address datagram o t₁ t') :
    Effect keys address datagram o t t' := by
  have helse (helsewhere : Elsewhere address t₁ t') : Elsewhere address t t' :=
    ⟨fun b hb => (helsewhere.info b hb).trans (h.elsewhere.info b hb)⟩
  have hmake (partnerId sessionKey : ConstDataBuffer) :
      makeSession keys t₁ address partnerId sessionKey o.now = makeSession keys t address partnerId sessionKey o.now := by
    unfold makeSession
    rw [h.made]
  cases heffect with
  | stays elsewhere made session blocked es events replies =>
    exact .stays (helse elsewhere) (made.trans h.made) (h.session ▸ session) (fun hb => h.blocked (blocked hb)) es
      (h.events ▸ events) replies
  | accepts elsewhere made key reads kind other free single encryptedKey encrypts session blocked n events =>
    exact .accepts (helse elsewhere) (h.made ▸ made) key reads kind other (h.session ▸ free)
      (fun b s hs => single b s ((h.session_eq b).trans hs)) encryptedKey encrypts (hmake _ _ ▸ session) blocked n
      (by rw [events, h.events, h.made])
  | welcomes elsewhere made key sessionKey reads kind session blocked n events =>
    exact .welcomes (helse elsewhere) (h.made ▸ made) key sessionKey reads kind (hmake _ _ ▸ session) blocked n
      (by rw [events, h.events, h.made])
  | closes elsewhere made session es events replies =>
    have hremoval : removal (t₁.info address) = removal (t.info address) := by
      have hs : (t₁.info address).session = (t.info address).session := h.session
      unfold removal
      rw [hs]
    exact .closes (helse elsewhere) (made.trans h.made) session es (by rw [events, h.events, hremoval]) replies

end Prepared

theorem prepared_setInfo (i : SessionState α) (hsession : i.session = t.session address)
    (hblocked : i.blocked = true → t.blocked address = true) : Prepared address t (t.setInfo address i) where
  elsewhere := ⟨fun b hb => by simp [hb]⟩
  session := by simpa [Transport.session] using hsession
  blocked := by simpa [Transport.blocked] using hblocked
  made := rfl
  events := rfl

theorem effect_refl : Effect keys address datagram o t t :=
  .stays elsewhere_refl rfl (rel_goes_refl _) id [] (List.append_nil _).symm (.inl rfl)

/-- A datagram from a blocked address that does not lift the block. -/
theorem ignored_effect {first : UInt8} {tail : ConstDataBuffer} {t₁ : Transport α} (h : Prepared address t t₁) :
    Effect keys address (first :: tail) o t
      (t₁.emit (if isControl first then [] else [.write address failedMessage])) := by
  refine h.then (.stays ⟨fun b _ => rfl⟩ rfl (rel_goes_refl _) id _ rfl ?_)
  cases hcontrol : isControl first with
  | true => exact .inl rfl
  | false => exact .inr (.inr ⟨rfl, first, tail, rfl, hcontrol⟩)

/-- A round of the loop, when no session stands at a blocked address. -/
theorem receive_effect (hempty : BlockedEmpty t) :
    Effect keys address datagram o t (receive keys address datagram o t).transport := by
  have hlock : Prepared address t (t.setInfo address { t.info address with locked := true }) :=
    prepared_setInfo _ rfl id
  unfold receive
  dsimp only
  by_cases hlocked : (t.info address).locked = true
  · rw [if_pos hlocked]
    exact (prepared_setInfo _ rfl id).then effect_refl
  · rw [if_neg hlocked]
    cases datagram with
    | nil => exact hlock.then effect_refl
    | cons first tail =>
      dsimp only
      by_cases hblocked : (t.info address).blocked = true
      · rw [if_pos hblocked]
        by_cases hlifted : (decide (minute < o.now - (t.info address).updateTime) && isControl first) = true
        · rw [if_pos hlifted]
          have hopen : Prepared address t (Transport.setInfo (t.setInfo address { t.info address with locked := true })
              address { t.info address with locked := true, blocked := false }) :=
            ⟨⟨fun b hb => by simp [hb]⟩, by simp [Transport.session], by simp [Transport.blocked], rfl, rfl⟩
          exact hopen.then (dispatch_effect rfl (hopen.blockedEmpty hempty) (by simp [Transport.blocked]))
        · rw [if_neg hlifted]
          refine ignored_effect ⟨⟨fun b hb => by simp [hb]⟩, ?_, ?_, rfl, rfl⟩
          · simp [Transport.session]
          · simp [Transport.blocked]
      · rw [if_neg hblocked]
        exact hlock.then (dispatch_effect rfl (hlock.blockedEmpty hempty) (by simpa [Transport.blocked] using hblocked))

end Effects
end Udp
end Vds.DhtNetwork
