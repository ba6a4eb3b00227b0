import Vds.DhtNetwork.UdpRuns
import Vds.Kernel.Serialization

/-! When the loop of `udp_transport` goes on: exactly which datagrams, and which answers of the rest of the
program, it comes through. -/

namespace Vds.DhtNetwork.Udp

open Library BinaryDeserializer Serializable StateError

/-! ### The bytes of a handshake and of a welcome -/

/-- Within its length the text has a byte that is not the expected one. -/
def Differs (expected text : ConstDataBuffer) : Prop :=
  ∃ common e x rest rest', expected = common ++ e :: rest ∧ text = common ++ x :: rest' ∧ e ≠ x

/-- A text that reads as a buffer, with any form of its size. -/
def Buffer (used data : ConstDataBuffer) : Prop := data.length ≤ maxData ∧ SizedForm used data

theorem startsWith_eq_true {expected text : ConstDataBuffer} :
    startsWith expected text = .ok true ↔ ∃ rest, text = expected ++ rest := by
  induction expected generalizing text with
  | nil => exact iff_of_true rfl ⟨text, rfl⟩
  | cons e es ih =>
    cases text with
    | nil =>
      refine iff_of_false (fun h => (by cases h)) ?_
      rintro ⟨rest, h⟩
      cases h
    | cons d ds =>
      unfold startsWith
      split_ifs with h
      · rw [ih, h]
        simp
      · refine iff_of_false (fun h => (by cases h)) ?_
        rintro ⟨rest, hcons⟩
        exact h (List.cons.inj hcons).1.symm

theorem startsWith_eq_false {expected text : ConstDataBuffer} :
    startsWith expected text = .ok false ↔ Differs expected text := by
  induction expected generalizing text with
  | nil =>
    refine iff_of_false (fun h => (by cases h)) ?_
    rintro ⟨common, e, x, rest, rest', h, -⟩
    exact List.append_ne_nil_of_right_ne_nil common (List.cons_ne_nil e rest) h.symm
  | cons e es ih =>
    cases text with
    | nil =>
      refine iff_of_false (fun h => (by cases h)) ?_
      rintro ⟨common, e, x, rest, rest', -, h, -⟩
      exact List.append_ne_nil_of_right_ne_nil common (List.cons_ne_nil x rest') h.symm
    | cons d ds =>
      unfold startsWith
      split_ifs with h
      · subst h
        rw [ih]
        constructor
        · rintro ⟨common, e', x, rest, rest', rfl, rfl, hne⟩
          exact ⟨e :: common, e', x, rest, rest', rfl, rfl, hne⟩
        · rintro ⟨common, e', x, rest, rest', hes, hds, hne⟩
          cases common with
          | nil =>
            obtain ⟨rfl, -⟩ := List.cons.inj hes
            obtain ⟨rfl, -⟩ := List.cons.inj hds
            exact absurd rfl hne
          | cons c common =>
            exact ⟨common, e', x, rest, rest', (List.cons.inj hes).2, (List.cons.inj hds).2, hne⟩
      · exact iff_of_true rfl ⟨[], e, d, es, ds, rfl, rfl, h⟩

variable {keys : Keys}

theorem length_label (keys : Keys) : keys.label.length = 4 := rfl

/-- A handshake of this network and version with a public key. -/
def HandshakeOf (keys : Keys) (datagram : ConstDataBuffer) (key : AsymmetricPublicKey) : Prop :=
  ∃ used der rest, datagram.tail = keys.label ++ [protocolVersion] ++ (used ++ rest) ∧ Buffer used der ∧
    keys.crypto.parseDer der = .ok key

/-- A welcome of this network with a public key and a session key. -/
def WelcomeOf (keys : Keys) (datagram : ConstDataBuffer) (key : AsymmetricPublicKey)
    (sessionKey : ConstDataBuffer) : Prop :=
  ∃ used der used' encryptedKey rest, datagram.tail = keys.label ++ (used ++ (used' ++ rest)) ∧ Buffer used der ∧
    Buffer used' encryptedKey ∧ keys.crypto.parseDer der = .ok key ∧ keys.decrypt encryptedKey = .ok sessionKey

theorem except_bind_eq_ok {ε β γ : Type} {x : Except ε β} {f : β → Except ε γ} {c : γ} :
    (x >>= f) = .ok c ↔ ∃ b, x = .ok b ∧ f b = .ok c := by
  cases x with
  | error e => exact iff_of_false (fun h => (by cases h)) fun ⟨b, h, _⟩ => (by cases h)
  | ok b => exact ⟨fun h => ⟨b, rfl, h⟩, fun ⟨b', h, hf⟩ => (by cases h; exact hf)⟩

theorem toEnded_eq_ok {β : Type} {r : EStateM.Result Error ConstDataBuffer β} {b : β} {rest : ConstDataBuffer} :
    toEnded r = .ok (b, rest) ↔ r = .ok b rest := by
  cases r with
  | ok b' rest' =>
    refine ⟨fun h => ?_, fun h => ?_⟩
    · cases h
      rfl
    · cases h
      rfl
  | error e s => exact iff_of_false (fun h => (by cases h)) fun h => (by cases h)

theorem ofExpected_eq_ok {β : Type} {r : Expected β} {b : β} : ofExpected r = .ok b ↔ r = .ok b := by
  cases r with
  | ok b' =>
    refine ⟨fun h => ?_, fun h => ?_⟩
    · cases h
      rfl
    · cases h
      rfl
  | error e => exact iff_of_false (fun h => (by cases h)) fun h => (by cases h)

theorem drop_of_tail {datagram front text : ConstDataBuffer} {n : Nat} (h : datagram.tail = front ++ text)
    (hn : front.length + 1 = n) : datagram.drop n = text := by
  rw [← hn, Nat.add_comm, ← List.drop_drop, List.drop_one, h, List.drop_left]

theorem handshakeKey_eq_none {datagram : ConstDataBuffer} :
    handshakeKey keys datagram = .ok none ↔ Differs (keys.label ++ [protocolVersion]) datagram.tail := by
  unfold handshakeKey
  rw [except_bind_eq_ok, ← startsWith_eq_false]
  constructor
  · rintro ⟨starts, hstarts, h⟩
    cases starts with
    | false => exact hstarts
    | true =>
      obtain ⟨⟨der, rest⟩, -, h⟩ := except_bind_eq_ok.mp h
      obtain ⟨key, -, h⟩ := except_bind_eq_ok.mp h
      cases h
  · exact fun h => ⟨false, h, rfl⟩

theorem handshakeKey_eq_some {datagram : ConstDataBuffer} {key : AsymmetricPublicKey} :
    handshakeKey keys datagram = .ok (some key) ↔ HandshakeOf keys datagram key := by
  unfold handshakeKey HandshakeOf
  rw [except_bind_eq_ok]
  constructor
  · rintro ⟨starts, hstarts, h⟩
    cases starts with
    | false => cases h
    | true =>
      obtain ⟨text, htext⟩ := startsWith_eq_true.mp hstarts
      obtain ⟨⟨der, rest⟩, hder, h⟩ := except_bind_eq_ok.mp h
      obtain ⟨key', hkey, h⟩ := except_bind_eq_ok.mp h
      cases h
      rw [drop_of_tail (n := 6) htext rfl, toEnded_eq_ok, getData_eq_ok] at hder
      obtain ⟨used, rfl, hbuffer⟩ := hder
      exact ⟨used, der, rest, htext, hbuffer, ofExpected_eq_ok.mp hkey⟩
  · rintro ⟨used, der, rest, htail, hbuffer, hkey⟩
    have hread : getData (datagram.drop 6) = .ok der rest := by
      rw [drop_of_tail (n := 6) htail rfl, getData_eq_ok]
      exact ⟨used, rfl, hbuffer⟩
    refine ⟨true, startsWith_eq_true.mpr ⟨_, htail⟩, except_bind_eq_ok.mpr ⟨(der, rest), ?_, ?_⟩⟩
    · exact toEnded_eq_ok.mpr hread
    · exact except_bind_eq_ok.mpr ⟨key, ofExpected_eq_ok.mpr hkey, rfl⟩

/-- A buffer takes a byte at least. -/
theorem Buffer.ne_nil {used data : ConstDataBuffer} (h : Buffer used data) : used ≠ [] := by
  obtain ⟨-, len, n, hform, -, rfl⟩ := h
  rcases hform with ⟨b, -, rfl, -⟩ | ⟨b, bytes, -, -, rfl, -⟩
  · exact List.cons_ne_nil _ _
  · exact List.cons_ne_nil _ _

theorem welcomeStarts_eq_true {datagram : ConstDataBuffer} : welcomeStarts keys datagram = .ok true ↔
    5 < datagram.length ∧ ∃ rest, datagram.tail = keys.label ++ rest := by
  unfold welcomeStarts
  split_ifs with hlong
  · rw [startsWith_eq_true, and_iff_right hlong]
  · exact iff_of_false (fun h => (by cases h)) fun h => hlong h.1

theorem welcomeKeys_eq_some {datagram : ConstDataBuffer} {key : AsymmetricPublicKey} {sessionKey : ConstDataBuffer} :
    welcomeKeys keys datagram = .ok (some (key, sessionKey)) ↔ WelcomeOf keys datagram key sessionKey := by
  unfold welcomeKeys WelcomeOf
  rw [except_bind_eq_ok]
  constructor
  · rintro ⟨starts, hstarts, h⟩
    cases starts with
    | false => cases h
    | true =>
      obtain ⟨-, text, htext⟩ := welcomeStarts_eq_true.mp hstarts
      obtain ⟨⟨der, rest⟩, hder, h⟩ := except_bind_eq_ok.mp h
      obtain ⟨⟨encryptedKey, rest'⟩, hencrypted, h⟩ := except_bind_eq_ok.mp h
      obtain ⟨publicKey, hpublic, h⟩ := except_bind_eq_ok.mp h
      obtain ⟨sessionKey', hsession, h⟩ := except_bind_eq_ok.mp h
      cases h
      rw [drop_of_tail (n := 5) htext rfl, toEnded_eq_ok, getData_eq_ok] at hder
      obtain ⟨used, rfl, hbuffer⟩ := hder
      rw [toEnded_eq_ok, getData_eq_ok] at hencrypted
      obtain ⟨used', rfl, hbuffer'⟩ := hencrypted
      exact ⟨used, der, used', encryptedKey, rest', htext, hbuffer, hbuffer', ofExpected_eq_ok.mp hpublic,
        ofExpected_eq_ok.mp hsession⟩
  · rintro ⟨used, der, used', encryptedKey, rest, htail, hbuffer, hbuffer', hpublic, hsession⟩
    have hlong : 5 < datagram.length := by
      have hlength := congrArg List.length htail
      have hpos := List.length_pos_iff.mpr hbuffer.ne_nil
      rw [List.length_tail, List.length_append, length_label, List.length_append] at hlength
      omega
    refine ⟨true, welcomeStarts_eq_true.mpr ⟨hlong, _, htail⟩, except_bind_eq_ok.mpr ⟨(der, used' ++ rest),
      toEnded_eq_ok.mpr ?_, except_bind_eq_ok.mpr ⟨(encryptedKey, rest), ?_, ?_⟩⟩⟩
    · rw [drop_of_tail (n := 5) htail rfl, getData_eq_ok]
      exact ⟨used, rfl, hbuffer⟩
    · exact toEnded_eq_ok.mpr (getData_eq_ok.mpr ⟨used', rfl, hbuffer'⟩)
    · exact except_bind_eq_ok.mpr ⟨key, ofExpected_eq_ok.mpr hpublic,
        except_bind_eq_ok.mpr ⟨sessionKey, ofExpected_eq_ok.mpr hsession, rfl⟩⟩

/-! ### What the loop comes through -/

section Survives

variable {α : Type} [LinearOrder α]

/-- The loop reads the next datagram. -/
def Turn.GoesOn (turn : Turn α) : Prop := ∃ t, turn = .continues t

/-- Of a handshake the bytes up to a difference are there; one of this network has a key that can be read, and
opens a session only if all calls succeed. -/
def HandshakeTaken (keys : Keys) (address : α) (datagram : ConstDataBuffer) (o : Outcome) (t : Transport α) : Prop :=
  t.session address ≠ none ∨ Differs (keys.label ++ [protocolVersion]) datagram.tail ∨
    ∃ key, HandshakeOf keys datagram key ∧ (keys.crypto.fingerprint key = keys.thisNodeId ∨
      (∃ b s, t.session b = some s ∧ s.partnerNodeId = keys.crypto.fingerprint key) ∨
      (∃ encryptedKey, keys.encrypt key o.randomKey = .ok encryptedKey) ∧ o.addSession = .ok () ∧
        o.writeAsync = .ok () ∧ o.newSession = .ok ())

def WelcomeTaken (keys : Keys) (datagram : ConstDataBuffer) (o : Outcome) : Prop :=
  (∃ key sessionKey, WelcomeOf keys datagram key sessionKey) ∧ o.addSession = .ok () ∧ o.newSession = .ok ()

/-- The session reads the datagram inside its bounds and comes back; if it fails, the partner is told. -/
def DatagramTaken (keys : Keys) (address : α) (datagram : ConstDataBuffer) (o : Outcome) (t : Transport α) : Prop :=
  ∀ s, t.session address = some s →
    let called : Session := { s.protocol with now := o.now, refuses := o.refuses }
    Checked.Harmless datagram called ∧
      (o.writeAsync = .ok () ∨ ∃ p, Checked.processDatagram keys.hmac datagram called = .ok () p)

/-- A blocked address becomes free by a control datagram that comes after a minute. -/
def Lifts (address : α) (first : UInt8) (o : Outcome) (t : Transport α) : Prop :=
  minute < o.now - (t.info address).updateTime ∧ isControl first = true

def Taken (keys : Keys) (address : α) (first : UInt8) (datagram : ConstDataBuffer) (o : Outcome)
    (t : Transport α) : Prop :=
  if first = Kind.handshakeBroadcast ∨ first = Kind.handshake then HandshakeTaken keys address datagram o t
  else if first = Kind.welcome then WelcomeTaken keys datagram o
  else first = Kind.failed ∨ DatagramTaken keys address datagram o t

/-- No datagram without a byte; and it is dropped because of the block, or taken. -/
def Survives (keys : Keys) (address : α) (datagram : ConstDataBuffer) (o : Outcome) (t : Transport α) : Prop :=
  ∃ first tail, datagram = first :: tail ∧
    (t.blocked address = true ∧ ¬Lifts address first o t ∨ Taken keys address first datagram o t)

variable {address : α} {datagram : ConstDataBuffer} {o : Outcome} {t : Transport α}

theorem goesOn_continues (t : Transport α) : (Turn.continues t).GoesOn := ⟨t, rfl⟩

theorem not_goesOn_ends (e : Ended) (t : Transport α) : ¬(Turn.ends e t).GoesOn := fun ⟨_, h⟩ => (by cases h)

theorem check_goesOn {result : Expected Unit} {next : Transport α → Turn α} :
    (check result t next).GoesOn ↔ result = .ok () ∧ (next t).GoesOn := by
  cases result with
  | ok _ => exact (and_iff_right rfl).symm
  | error e => exact iff_of_false (not_goesOn_ends _ _) fun h => (by cases h.1)

theorem accept_goesOn {key : AsymmetricPublicKey} : (accept keys address key o t).GoesOn ↔
    (∃ encryptedKey, keys.encrypt key o.randomKey = .ok encryptedKey) ∧ o.addSession = .ok () ∧
      o.writeAsync = .ok () ∧ o.newSession = .ok () := by
  unfold accept
  dsimp only
  cases hencrypt : keys.encrypt key o.randomKey with
  | error e => exact iff_of_false (not_goesOn_ends _ _) fun ⟨⟨c, hc⟩, _⟩ => (by cases hc)
  | ok encryptedKey =>
    dsimp only
    rw [check_goesOn, check_goesOn, check_goesOn]
    constructor
    · exact fun ⟨hadd, hwrite, hnew, _⟩ => ⟨⟨encryptedKey, rfl⟩, hadd, hwrite, hnew⟩
    · exact fun ⟨_, hadd, hwrite, hnew⟩ => ⟨hadd, hwrite, hnew, goesOn_continues _⟩

theorem handshake_goesOn (hempty : BlockedEmpty t) :
    (handshake keys address datagram o t).GoesOn ↔ HandshakeTaken keys address datagram o t := by
  unfold handshake HandshakeTaken
  split_ifs with hsome
  · refine iff_of_true (goesOn_continues _) (.inl fun hnone => ?_)
    unfold Transport.session at hnone
    rw [hnone] at hsome
    cases hsome
  · have hfree : t.session address = none := Option.not_isSome_iff_eq_none.mp hsome
    rw [or_iff_right fun h => h hfree, ← handshakeKey_eq_none]
    cases hread : handshakeKey keys datagram with
    | error e =>
      refine iff_of_false (not_goesOn_ends _ _) ?_
      rintro (h | ⟨key, h, -⟩)
      · cases h
      · cases hread.symm.trans (handshakeKey_eq_some.mpr h)
    | ok read =>
      cases read with
      | none => exact iff_of_true (goesOn_continues _) (.inl rfl)
      | some key =>
        have hkey : HandshakeOf keys datagram key := handshakeKey_eq_some.mp hread
        have honly {key' : AsymmetricPublicKey} (h : HandshakeOf keys datagram key') : key' = key :=
          Option.some_inj.mp (Except.ok.inj ((handshakeKey_eq_some.mpr h).symm.trans hread))
        rw [or_iff_right fun h => (by cases h)]
        have hexists {P : AsymmetricPublicKey → Prop} : (∃ key', HandshakeOf keys datagram key' ∧ P key') ↔ P key :=
          ⟨fun ⟨key', h, hP⟩ => honly h ▸ hP, fun hP => ⟨key, hkey, hP⟩⟩
        rw [hexists]
        dsimp only
        split_ifs with hown
        · exact iff_of_true (goesOn_continues _) (.inl hown)
        · rw [or_iff_right hown]
          cases hentry : t.partnerEntry (keys.crypto.fingerprint key) with
          | none =>
            have hno : ¬∃ b s, t.session b = some s ∧ s.partnerNodeId = keys.crypto.fingerprint key := by
              rintro ⟨b, s, hs, hpartner⟩
              exact Transport.partner_ne_of_entry hentry hs hpartner
            rw [or_iff_right hno]
            exact accept_goesOn
          | some e =>
            obtain ⟨b, i⟩ := e
            obtain ⟨hinfo, s, hs, hpartner⟩ := Transport.partnerEntry_eq_some hentry
            have hsession : t.session b = some s := by
              unfold Transport.session
              rw [hinfo, hs]
            have hopen : i.blocked = false := by
              rw [← hinfo, Bool.eq_false_iff]
              intro hb
              cases (hempty b hb).symm.trans hsession
            dsimp only
            rw [hopen]
            exact iff_of_true (goesOn_continues _) (.inl ⟨b, s, hsession, hpartner⟩)

theorem welcome_goesOn : (welcome keys address datagram o t).GoesOn ↔ WelcomeTaken keys datagram o := by
  unfold welcome WelcomeTaken
  cases hread : welcomeKeys keys datagram with
  | error e =>
    refine iff_of_false (not_goesOn_ends _ _) ?_
    rintro ⟨⟨key, sessionKey, h⟩, -⟩
    cases hread.symm.trans (welcomeKeys_eq_some.mpr h)
  | ok read =>
    cases read with
    | none =>
      refine iff_of_false (not_goesOn_ends _ _) ?_
      rintro ⟨⟨key, sessionKey, h⟩, -⟩
      cases hread.symm.trans (welcomeKeys_eq_some.mpr h)
    | some both =>
      obtain ⟨key, sessionKey⟩ := both
      dsimp only
      have hkeys : ∃ key sessionKey, WelcomeOf keys datagram key sessionKey :=
        ⟨key, sessionKey, welcomeKeys_eq_some.mp hread⟩
      rw [check_goesOn, check_goesOn, and_iff_right hkeys, and_iff_left (goesOn_continues _)]

theorem process_goesOn (hsound : ∀ s, t.session address = some s → Checked.Sound s.protocol.self) :
    (process keys address datagram o t).GoesOn ↔ DatagramTaken keys address datagram o t := by
  unfold process DatagramTaken
  cases hs : (t.info address).session with
  | none =>
    refine iff_of_true (goesOn_continues _) fun s hs' => ?_
    cases hs.symm.trans hs'
  | some s =>
    have hexists {P : DhtSession α → Prop} : (∀ s', t.session address = some s' → P s') ↔ P s :=
      ⟨fun h => h s hs, fun h s' hs' => Option.some_inj.mp (hs.symm.trans hs') ▸ h⟩
    rw [hexists]
    dsimp only
    generalize hcalled : ({ s.protocol with now := o.now, refuses := o.refuses } : Session) = called
    have hsafe : Checked.Safe keys.hmac datagram called ↔ Checked.Harmless datagram called :=
      Checked.safe_iff_harmless (hcalled ▸ hsound s hs)
    rw [← hsafe]
    unfold Checked.Safe
    cases hrun : Checked.processDatagram keys.hmac datagram called with
    | ok _ p => exact iff_of_true (goesOn_continues _) ⟨fun e p' h => (by cases h), .inr ⟨p, rfl⟩⟩
    | error e p =>
      generalize hresult : (EStateM.Result.error e p : EStateM.Result CheckedError Session Unit) = r
      have hfault (h : e.IsFault) : ¬((∀ e' p', r = .error e' p' → ¬e'.IsFault) ∧
          (o.writeAsync = .ok () ∨ ∃ p', r = .ok () p')) := fun hall => hall.1 e p hresult.symm h
      have hplain (h : ¬e.IsFault) (t' : Transport α) : (check o.writeAsync t' .continues).GoesOn ↔
          (∀ e' p', r = .error e' p' → ¬e'.IsFault) ∧ (o.writeAsync = .ok () ∨ ∃ p', r = .ok () p') := by
        subst hresult
        rw [check_goesOn, and_iff_left (goesOn_continues _), or_iff_left fun ⟨p', hp⟩ => (by cases hp)]
        refine (and_iff_right fun e' p' he => ?_).symm
        cases he
        exact h
      rw [← hresult] at hfault hplain ⊢
      cases e with
      | underflow => exact iff_of_false (not_goesOn_ends _ _) (hfault trivial)
      | plain e =>
        cases e with
        | outOfRange => exact iff_of_false (not_goesOn_ends _ _) (hfault (.inl rfl))
        | outOfFuel => exact iff_of_false (not_goesOn_ends _ _) (hfault (.inr rfl))
        | runtimeError what => exact hplain (fun h => (by rcases h with h | h <;> cases h)) _
        | notWritten => exact hplain (fun h => (by rcases h with h | h <;> cases h)) _

section Prepared

variable {t₁ : Transport α} (h : Prepared address t t₁)
include h

theorem Prepared.handshakeTaken : HandshakeTaken keys address datagram o t₁ ↔ HandshakeTaken keys address datagram o t := by
  unfold HandshakeTaken
  simp only [h.session_eq]

theorem Prepared.datagramTaken : DatagramTaken keys address datagram o t₁ ↔ DatagramTaken keys address datagram o t := by
  unfold DatagramTaken
  rw [h.session_eq]

theorem Prepared.dispatch_goesOn (hc : Consistent keys t) (first : UInt8) :
    (dispatch keys address first datagram o t₁).GoesOn ↔ Taken keys address first datagram o t := by
  unfold dispatch Taken
  split_ifs with hhandshake hwelcome hfailed
  · rw [handshake_goesOn (h.blockedEmpty hc.blocked), h.handshakeTaken]
  · exact welcome_goesOn
  · exact iff_of_true (goesOn_continues _) (.inl hfailed)
  · rw [or_iff_right hfailed, process_goesOn, h.datagramTaken]
    exact fun s hs => hc.sound address s ((h.session_eq address).symm.trans hs)

end Prepared

/-- A round of the loop is not the last one just if the datagram is one that it comes through. -/
theorem receive_goesOn (hc : Consistent keys t) (hunlocked : t.locked address = false) :
    (receive keys address datagram o t).GoesOn ↔ Survives keys address datagram o t := by
  have hlock : Prepared address t (t.setInfo address { t.info address with locked := true }) :=
    prepared_setInfo _ rfl id
  unfold receive Survives
  dsimp only
  rw [if_neg (fun h => (by rw [Transport.locked, h] at hunlocked; cases hunlocked))]
  cases datagram with
  | nil =>
    refine iff_of_false (not_goesOn_ends _ _) ?_
    rintro ⟨first, tail, h, -⟩
    cases h
  | cons first tail =>
    have hexists {P : UInt8 → Prop} : (∃ first' tail', first :: tail = first' :: tail' ∧ P first') ↔ P first := by
      refine ⟨fun ⟨first', tail', he, hP⟩ => ?_, fun hP => ⟨first, tail, rfl, hP⟩⟩
      rw [(List.cons.inj he).1]
      exact hP
    rw [hexists]
    dsimp only
    by_cases hblocked : (t.info address).blocked = true
    · rw [if_pos hblocked]
      by_cases hlifted : (decide (minute < o.now - (t.info address).updateTime) && isControl first) = true
      · have hlifts : Lifts address first o t := by
          rw [Bool.and_eq_true, decide_eq_true_iff] at hlifted
          exact hlifted
        have hopen : Prepared address t (Transport.setInfo (t.setInfo address { t.info address with locked := true })
            address { t.info address with locked := true, blocked := false }) :=
          ⟨⟨fun b hb => by simp [hb]⟩, by simp [Transport.session], by simp [Transport.blocked], rfl, rfl⟩
        rw [if_pos hlifted, hopen.dispatch_goesOn hc, or_iff_right fun h => h.2 hlifts]
      · have hnot : ¬Lifts address first o t := by
          rw [Bool.and_eq_true, decide_eq_true_iff] at hlifted
          exact hlifted
        rw [if_neg hlifted]
        exact iff_of_true (goesOn_continues _) (.inl ⟨hblocked, hnot⟩)
    · rw [if_neg hblocked, hlock.dispatch_goesOn hc, or_iff_right fun h => hblocked h.1]

/-! ### The mutexes -/

/-- A turn that goes on leaves the mutex of the address free. -/
def Turn.Frees (address : α) (turn : Turn α) : Prop := ∀ t, turn = .continues t → t.locked address = false

theorem frees_continues (h : t.locked address = false) : (Turn.continues t).Frees address := fun _ he => (by cases he; exact h)

theorem frees_ends (e : Ended) (t : Transport α) : (Turn.ends e t).Frees address := fun _ he => (by cases he)

theorem frees_check {result : Expected Unit} {next : Transport α → Turn α} (h : (next t).Frees address) :
    (check result t next).Frees address := by
  cases result with
  | ok _ => exact h
  | error e => exact frees_ends _ _

theorem locked_unlock (t : Transport α) (address : α) : (t.unlock address).locked address = false := by
  simp [Transport.locked]

theorem frees_accept (key : AsymmetricPublicKey) : (accept keys address key o t).Frees address := by
  unfold accept
  dsimp only
  cases keys.encrypt key o.randomKey with
  | error e => exact frees_ends _ _
  | ok encryptedKey => exact frees_check (frees_check (frees_check (frees_continues (locked_unlock _ _))))

theorem frees_handshake : (handshake keys address datagram o t).Frees address := by
  unfold handshake
  split_ifs with hsome
  · exact frees_continues (locked_unlock _ _)
  · cases handshakeKey keys datagram with
    | error e => exact frees_ends _ _
    | ok read =>
      cases read with
      | none => exact frees_continues (locked_unlock _ _)
      | some key =>
        dsimp only
        split_ifs with hown
        · exact frees_continues (locked_unlock _ _)
        · cases t.partnerEntry (keys.crypto.fingerprint key) with
          | none => exact frees_accept key
          | some e =>
            dsimp only
            split_ifs with hblocked
            · exact frees_accept key
            · exact frees_continues (locked_unlock _ _)

theorem frees_welcome : (welcome keys address datagram o t).Frees address := by
  unfold welcome
  cases welcomeKeys keys datagram with
  | error e => exact frees_ends _ _
  | ok read =>
    cases read with
    | none => exact frees_ends _ _
    | some both => exact frees_check (frees_check (frees_continues (locked_unlock _ _)))

theorem locked_close (t : Transport α) (now : Int) : (t.close address now).locked address = false := by
  simp [Transport.locked]

theorem frees_process : (process keys address datagram o t).Frees address := by
  unfold process
  cases (t.info address).session with
  | none => exact frees_continues (locked_close t o.now)
  | some s =>
    dsimp only
    cases Checked.processDatagram keys.hmac datagram { s.protocol with now := o.now, refuses := o.refuses } with
    | ok _ p =>
      refine frees_continues ?_
      simp [Transport.locked]
    | error e p =>
      cases e with
      | underflow => exact frees_ends _ _
      | plain e =>
        cases e with
        | outOfRange => exact frees_ends _ _
        | outOfFuel => exact frees_ends _ _
        | runtimeError what => exact frees_check (frees_continues (locked_close _ o.now))
        | notWritten => exact frees_check (frees_continues (locked_close _ o.now))

theorem frees_dispatch (first : UInt8) : (dispatch keys address first datagram o t).Frees address := by
  unfold dispatch
  split_ifs with hhandshake hwelcome hfailed
  · exact frees_handshake
  · exact frees_welcome
  · exact frees_continues (locked_close t o.now)
  · exact frees_process

theorem frees_receive : (receive keys address datagram o t).Frees address := by
  unfold receive
  dsimp only
  by_cases hlocked : (t.info address).locked = true
  · rw [if_pos hlocked]
    exact frees_ends _ _
  · rw [if_neg hlocked]
    cases datagram with
    | nil => exact frees_ends _ _
    | cons first tail =>
      dsimp only
      by_cases hblocked : (t.info address).blocked = true
      · rw [if_pos hblocked]
        by_cases hlifted : (decide (minute < o.now - (t.info address).updateTime) && isControl first) = true
        · rw [if_pos hlifted]
          exact frees_dispatch first
        · rw [if_neg hlifted]
          exact frees_continues (locked_unlock _ _)
      · rw [if_neg hblocked]
        exact frees_dispatch first

/-! ### Every run -/

/-- What a step of a run needs so that the loop goes on. -/
def StepSurvives (keys : Keys) (turn : Turn α) (act : Act α) : Prop :=
  ∀ address datagram o, act = .receive address datagram o → Survives keys address datagram o turn.transport

def Unlocked (t : Transport α) : Prop := ∀ a, t.locked a = false

theorem Effect.elsewhere {t' : Transport α} (h : Effect keys address datagram o t t') : Elsewhere address t t' := by
  cases h <;> assumption

theorem unlocked_receive (hempty : BlockedEmpty t) (hunlocked : Unlocked t) {t' : Transport α}
    (h : receive keys address datagram o t = .continues t') : Unlocked t' := by
  intro b
  by_cases hb : b = address
  · rw [hb]
    exact frees_receive t' h
  · have heffect : Effect keys address datagram o t (receive keys address datagram o t).transport :=
      receive_effect hempty
    rw [h] at heffect
    have hinfo : t'.info b = t.info b := heffect.elsewhere.info b hb
    unfold Transport.locked
    rw [hinfo]
    exact hunlocked b

/-- The mutexes are free while the loop reads. -/
structure Reading (keys : Keys) (turn : Turn α) : Prop where
  consistent : Consistent keys turn.transport
  unlocked : turn.GoesOn → Unlocked turn.transport

theorem reading_step {turn turn' : Turn α} {act : Act α} (hr : Reading keys turn)
    (h : step keys turn act = some turn') : Reading keys turn' := by
  refine ⟨consistent_step hr.consistent h, ?_⟩
  rcases step_cases h with ⟨address, datagram, o, t, rfl, rfl, rfl⟩ | ⟨hprogress, f, rfl⟩
  · rintro ⟨t', ht'⟩
    rw [ht']
    exact unlocked_receive hr.consistent.blocked (hr.unlocked (goesOn_continues t)) ht'
  · intro hgoes b
    have hbefore : turn.GoesOn := by
      cases turn with
      | continues t => exact goesOn_continues t
      | ends e t => exact absurd hgoes (not_goesOn_ends _ _)
    exact (hprogress.locked b).trans (hr.unlocked hbefore b)

theorem reading_run {acts : List (Act α)} {turn : Turn α}
    (h : LabelledRun.run (step keys) start acts = some turn) : Reading keys turn := by
  refine LabelledRun.run_invariant (I := Reading keys) ⟨consistent_start keys, fun _ _ => rfl⟩ ?_ h
  exact fun turn act turn' hr hstep => reading_step hr hstep

/-- From a state in which the loop reads, it reads on behind a step just if the step is one that it comes
through. -/
theorem step_goesOn (hr : Reading keys (.continues t)) (act : Act α) :
    (∃ t', step keys (.continues t) act = some (.continues t')) ↔ StepSurvives keys (.continues t) act := by
  have hunlocked : Unlocked t := hr.unlocked (goesOn_continues t)
  cases act with
  | receive address datagram o =>
    have hreceive : (receive keys address datagram o t).GoesOn ↔ Survives keys address datagram o t :=
      receive_goesOn hr.consistent (hunlocked address)
    unfold StepSurvives
    constructor
    · rintro ⟨t', h⟩ a d o' he
      cases he
      exact hreceive.mp ⟨t', Option.some_inj.mp h⟩
    · intro h
      obtain ⟨t', ht'⟩ := hreceive.mpr (h address datagram o rfl)
      exact ⟨t', congrArg some ht'⟩
  | tryHandshake address now =>
    refine iff_of_true ?_ fun a d o he => (by cases he)
    have hcomes : ∃ t', tryHandshake keys address now t = some t' := by
      unfold tryHandshake
      cases hfind : t.sessions.find address with
      | none => exact ⟨_, rfl⟩
      | some i =>
        have hfree : i.locked = false := by
          rw [← Transport.info_of_find hfind]
          exact hunlocked address
        dsimp only
        rw [hfree, if_neg Bool.false_ne_true]
        split_ifs
        all_goals exact ⟨_, rfl⟩
    obtain ⟨t', ht'⟩ := hcomes
    refine ⟨t', ?_⟩
    change (tryHandshake keys address now t).map _ = _
    rw [ht']
    rfl
  | broadcastHandshake => exact iff_of_true ⟨_, rfl⟩ fun a d o he => (by cases he)
  | onTimer refuses now => exact iff_of_true ⟨_, rfl⟩ fun a d o he => (by cases he)
  | sendMessage address m refuses now => exact iff_of_true ⟨_, rfl⟩ fun a d o he => (by cases he)

/-- When the loop has ended, it does not begin again. -/
theorem goesOn_of_step {turn : Turn α} {act : Act α} {t' : Transport α}
    (h : step keys turn act = some (.continues t')) : turn.GoesOn := by
  rcases step_cases h with ⟨address, datagram, o, t, -, rfl, -⟩ | ⟨-, f, hmap⟩
  · exact goesOn_continues t
  · cases turn with
    | continues t => exact goesOn_continues t
    | ends e t => cases hmap

end Survives
end Vds.DhtNetwork.Udp
