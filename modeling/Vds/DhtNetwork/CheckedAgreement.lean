import Vds.DhtNetwork.SafeRuns

/-! The code with its subtractions checked does what the code without the checks does, as long as none of
them fails. -/

namespace Vds.DhtNetwork.Checked

open BinaryDeserializer StateError

variable {α β : Type} {d : ConstDataBuffer} {hmac : Hmac} {s : Session}

/-- The checked code has the same outcome, or stops at a subtraction. -/
def Agrees (c : Checked α) (v : Except ProtocolError α) : Prop := c = plain v ∨ c = .error .underflow

theorem agrees_plain (v : Except ProtocolError α) : Agrees (plain v) v := .inl rfl

theorem agrees_error (e : ProtocolError) : Agrees (.error (.plain e) : Checked α) (.error e) := .inl rfl

theorem agrees_bind {c : Checked α} {v : Except ProtocolError α} {f : α → Checked β} {g : α → Except ProtocolError β}
    (h : Agrees c v) (hf : ∀ a, v = .ok a → Agrees (f a) (g a)) : Agrees (c >>= f) (v >>= g) := by
  rcases h with rfl | rfl
  · cases v with
    | ok a => exact hf a rfl
    | error e => exact agrees_error e
  · exact .inr rfl

theorem agrees_minus {a b : Nat} {f : Nat → Checked α} {v : Except ProtocolError α}
    (h : b ≤ a → Agrees (f (a - b)) v) : Agrees (minus a b >>= f) v := by
  by_cases hle : b ≤ a
  · rw [minus_bind_of_le hle]
    exact h hle
  · rw [minus_bind_of_lt (not_le.mp hle)]
    exact .inr rfl

/-- The read of a message, with its size computed in front of it. -/
theorem agrees_body {offset : Nat} {f : ConstDataBuffer → Checked α} {g : ConstDataBuffer → Except ProtocolError α}
    (hle : offset + 32 ≤ d.length) (h : ∀ message, Agrees (f message) (g message)) :
    Agrees (plain (bytesAt d offset (d.length - (offset + 32))) >>= f) (bodyFrom d offset >>= g) := by
  have hbody : bodyFrom d offset = bytesAt d offset (d.length - (offset + 32)) := by
    unfold bodyFrom
    rw [if_pos hle, bytesAt_of_le (by omega), Nat.sub_sub, Nat.add_comm 32 offset]
  rw [hbody]
  exact agrees_bind (agrees_plain _) fun message _ => h message

theorem number_lt {offset size n : Nat} (h : numberAt d offset size = .ok n) : n < 2 ^ 64 := by
  unfold numberAt at h
  cases hbytes : bytesAt d offset size with
  | error e =>
    rw [hbytes] at h
    cases h
  | ok bytes =>
    rw [hbytes] at h
    obtain rfl : (bigEndian bytes).toNat = n := Except.ok.inj h
    exact (bigEndian bytes).toNat_lt

theorem readHead_agrees (thisNodeId partnerNodeId : ConstDataBuffer) :
    Agrees (readHead thisNodeId partnerNodeId d) (DhtNetwork.readHead thisNodeId partnerNodeId d) := by
  unfold readHead DhtNetwork.readHead
  refine agrees_bind (agrees_plain _) fun first _ => ?_
  dsimp only
  generalize UInt8.ofNat first &&& MessageType.specialCommand = command
  by_cases hsingle : command = MessageType.singleData
  · rw [if_pos hsingle, if_pos hsingle]
    refine agrees_minus fun hle => ?_
    exact agrees_body hle fun message => agrees_plain (.ok _)
  rw [if_neg hsingle, if_neg hsingle]
  by_cases hrouteSingle : command = MessageType.routeSingleData
  · rw [if_pos hrouteSingle, if_pos hrouteSingle]
    refine agrees_bind (agrees_plain _) fun targetNode _ => agrees_minus fun hle => ?_
    exact agrees_body hle fun message => agrees_plain (.ok _)
  rw [if_neg hrouteSingle, if_neg hrouteSingle]
  by_cases hproxySingle : command = MessageType.proxySingleData
  · rw [if_pos hproxySingle, if_pos hproxySingle]
    refine agrees_bind (agrees_plain _) fun targetNode _ => agrees_bind (agrees_plain _) fun hopsCount _ => ?_
    refine agrees_bind (agrees_plain _) fun hops _ => agrees_minus fun hle => ?_
    rw [show 70 + 32 * hopsCount = 38 + 32 * hopsCount + 32 by omega] at hle ⊢
    exact agrees_body hle fun message => agrees_plain (.ok _)
  rw [if_neg hproxySingle, if_neg hproxySingle]
  by_cases hdata : command = MessageType.data
  · rw [if_pos hdata, if_pos hdata]
    refine agrees_bind (agrees_plain _) fun size _ => agrees_minus fun hle => ?_
    by_cases hsize : size ≤ d.length - 41
    · rw [if_pos hsize, if_pos (.inr hsize)]
      exact agrees_error _
    · rw [if_neg hsize, if_neg (by omega)]
      refine agrees_minus fun _ => ?_
      exact agrees_body hle fun message => agrees_plain (.ok _)
  rw [if_neg hdata, if_neg hdata]
  by_cases hrouteData : command = MessageType.routeData
  · rw [if_pos hrouteData, if_pos hrouteData]
    refine agrees_bind (agrees_plain _) fun size _ => agrees_minus fun hle => ?_
    by_cases hsize : size ≤ d.length - 73
    · rw [if_pos hsize, if_pos (.inr hsize)]
      exact agrees_error _
    · rw [if_neg hsize, if_neg (by omega)]
      refine agrees_minus fun _ => agrees_bind (agrees_plain _) fun targetNode _ => ?_
      exact agrees_body hle fun message => agrees_plain (.ok _)
  rw [if_neg hrouteData, if_neg hrouteData]
  by_cases hproxyData : command = MessageType.proxyData
  · rw [if_pos hproxyData, if_pos hproxyData]
    refine agrees_bind (agrees_plain _) fun size hsize64 => agrees_minus fun hle => ?_
    by_cases hsize : size ≤ d.length - 106
    · rw [if_pos hsize, if_pos (.inr hsize)]
      exact agrees_error _
    · rw [if_neg hsize, if_neg (by omega)]
      refine agrees_bind (agrees_plain _) fun targetNode _ => agrees_bind (agrees_plain _) fun hopsCount _ => ?_
      refine agrees_bind (agrees_plain _) fun hops _ => agrees_minus fun hpart => agrees_minus fun hleft => ?_
      have hlt := number_lt hsize64
      have hwrap : (size + 2 ^ 64 - (d.length - (74 + 32 * hopsCount))) % 2 ^ 64 =
          size - (d.length - (74 + 32 * hopsCount)) := by omega
      rw [hwrap]
      rw [show 74 + 32 * hopsCount = 42 + 32 * hopsCount + 32 by omega] at hpart ⊢
      exact agrees_body hpart fun message => agrees_plain (.ok _)
  rw [if_neg hproxyData, if_neg hproxyData]
  exact agrees_plain (.ok _)

theorem collect_agrees (m : OrderedMap Nat ConstDataBuffer) (expectedIndex n index size : Nat)
    (message : ConstDataBuffer) :
    Agrees (collect m expectedIndex n index size message) (DhtNetwork.collect m expectedIndex n index size message) := by
  induction n generalizing index size message with
  | zero => exact agrees_error _
  | succ n ih =>
    unfold collect DhtNetwork.collect
    cases m.find ((expectedIndex + (index + 1)) % indexMod) with
    | none => exact agrees_plain (.ok _)
    | some d =>
      refine agrees_bind (agrees_plain _) fun first _ => ?_
      by_cases hfirst : first ≠ MessageType.continueData.toNat
      · rw [if_pos hfirst, if_pos hfirst]
        exact agrees_error _
      rw [if_neg hfirst, if_neg hfirst]
      refine agrees_minus fun hle => ?_
      by_cases hsize : size < d.length - 37
      · rw [if_pos hsize, if_pos (.inr hsize)]
        exact agrees_error _
      · rw [if_neg hsize, if_neg (by omega)]
        refine agrees_body hle fun part => agrees_minus fun _ => ?_
        by_cases hzero : size - (d.length - 37) = 0
        · rw [if_pos hzero, if_pos hzero]
          exact agrees_plain (.ok _)
        · rw [if_neg hzero, if_neg hzero]
          exact ih _ _ _

/-! ### The loop and the datagram -/

/-- From `s`, the checked code has the same outcome, or stops at a subtraction. -/
def AgreesAt (s : Session) (x : CheckedM α) (y : SessionM α) : Prop :=
  x s = plainM y s ∨ ∃ s', x s = .error .underflow s'

theorem plainM_congr {x y : SessionM α} {s s' : Session} (h : x s = y s') : plainM x s = plainM y s' := by
  unfold plainM
  rw [h]

theorem plainM_ok {x : SessionM α} {s s' : Session} {a : α} (h : x s = .ok a s') : plainM x s = .ok a s' := by
  unfold plainM
  rw [h]

theorem plainM_error {x : SessionM α} {s s' : Session} {e : ProtocolError} (h : x s = .error e s') :
    plainM x s = .error (.plain e) s' := by
  unfold plainM
  rw [h]

section Round

variable {p : DatagramProtocol} (hlast : p.inputMessages.find p.lastInputIndex = none)
include hlast

theorem round_none (hfront : p.inputMessages.front = none) : round p = .ok .returns := by
  unfold round
  rw [if_neg (Option.not_isSome_iff_eq_none.mpr hlast), hfront]
  rfl

theorem round_later {index : Nat} (hfront : p.inputMessages.front = some (index, d)) (hgt : p.expectedIndex < index) :
    round p = .ok .returns := by
  unfold round
  rw [if_neg (Option.not_isSome_iff_eq_none.mpr hlast), hfront]
  exact if_pos hgt

theorem round_stale {index : Nat} (hfront : p.inputMessages.front = some (index, d)) (hlt : index < p.expectedIndex) :
    round p = .ok .drops := by
  unfold round
  rw [if_neg (Option.not_isSome_iff_eq_none.mpr hlast), hfront]
  dsimp only
  rw [if_neg hlt.not_gt]
  exact if_pos hlt

/-- The datagram with the expected number. -/
theorem round_expected
    (hfront : p.inputMessages.front = some (p.expectedIndex, d)) :
    (∀ e, readHead p.thisNodeId p.partnerNodeId d = .error e → round p = .error e) ∧
    (readHead p.thisNodeId p.partnerNodeId d = .ok .unknown → round p = .error (.plain .outOfFuel)) ∧
    (∀ incoming, readHead p.thisNodeId p.partnerNodeId d = .ok (.single incoming) →
      round p = .ok (.hands incoming 1)) ∧
    ∀ incoming size, readHead p.thisNodeId p.partnerNodeId d = .ok (.multi incoming size) → ∀ c,
      collect p.inputMessages p.expectedIndex (p.inputMessages.size + 1) 0 size incoming.message = c →
      (∀ e, c = .error e → round p = .error e) ∧ (c = .ok none → round p = .ok .returns) ∧
        ∀ message index, c = .ok (some (message, index)) →
          round p = .ok (.hands { incoming with message } (index + 1)) := by
  unfold round
  rw [if_neg (Option.not_isSome_iff_eq_none.mpr hlast), hfront]
  dsimp only
  rw [if_neg (lt_irrefl _), if_neg (lt_irrefl _)]
  refine ⟨fun e h => ?_, fun h => ?_, fun incoming h => ?_, fun incoming size h c hc => ?_⟩
  · rw [h]
    rfl
  · rw [h]
    rfl
  · rw [h]
    rfl
  · rw [h]
    change (∀ e, c = .error e → (collect _ _ _ _ _ _ >>= _) = _) ∧ (c = .ok none → (collect _ _ _ _ _ _ >>= _) = _) ∧
      ∀ message index, c = .ok (some (message, index)) → (collect _ _ _ _ _ _ >>= _) = _
    rw [hc]
    refine ⟨fun e he => ?_, fun he => ?_, fun message index he => ?_⟩
    · rw [he]
      rfl
    · rw [he]
      rfl
    · rw [he]
      rfl

end Round

theorem continueLoop_agrees (n : Nat) (s : Session) : AgreesAt s (continueLoop n) (DhtNetwork.continueLoop n) := by
  induction n generalizing s with
  | zero => exact .inl rfl
  | succ n ih =>
    unfold AgreesAt
    rw [continueLoop_succ]
    by_cases hgap : s.self.inputMessages.find (afterSkip s).self.lastInputIndex = none
    · cases hf : s.self.inputMessages.front with
      | none =>
        have hround : round (afterSkip s).self = .ok .returns := round_none hgap hf
        rw [hround, plainM_ok (continueLoop_none hgap hf)]
        exact .inl rfl
      | some entry =>
        obtain ⟨index, d⟩ := entry
        have hfront : (afterSkip s).self.inputMessages.front = some (index, d) := hf
        rcases Nat.lt_trichotomy index s.self.expectedIndex with hlt | rfl | hgt
        · have hround : round (afterSkip s).self = .ok .drops := round_stale hgap hfront hlt
          rw [hround, plainM_congr (continueLoop_stale hgap hf hlt)]
          exact ih _
        · obtain ⟨herror, hunknown, hsingle, hmulti⟩ := round_expected hgap hfront
          rcases @readHead_agrees d s.self.thisNodeId s.self.partnerNodeId with hread | hread
          · cases hplain : DhtNetwork.readHead s.self.thisNodeId s.self.partnerNodeId d with
            | error e =>
              rw [hplain] at hread
              rw [herror _ hread, plainM_error (continueLoop_error hgap hf hplain)]
              exact .inl rfl
            | ok head =>
              rw [hplain] at hread
              cases head with
              | unknown =>
                rw [hunknown hread, plainM_error (continueLoop_unknown hgap hf hplain)]
                exact .inl rfl
              | single incoming =>
                rw [hsingle _ hread, plainM_congr (continueLoop_single hgap hf hplain)]
                exact ih _
              | multi incoming size =>
                obtain ⟨hfails, hmissing, hcomplete⟩ := hmulti _ _ hread _ rfl
                rcases collect_agrees s.self.inputMessages s.self.expectedIndex (s.self.inputMessages.size + 1) 0 size
                    incoming.message with hcollect | hcollect
                · cases hc : DhtNetwork.collect s.self.inputMessages s.self.expectedIndex
                      (s.self.inputMessages.size + 1) 0 size incoming.message with
                  | error e =>
                    rw [hc] at hcollect
                    rw [hfails _ hcollect, plainM_error (continueLoop_malformed hgap hf hplain hc)]
                    exact .inl rfl
                  | ok found =>
                    rw [hc] at hcollect
                    cases found with
                    | none =>
                      rw [hmissing hcollect, plainM_ok (continueLoop_missing hgap hf hplain hc)]
                      exact .inl rfl
                    | some result =>
                      obtain ⟨message, index⟩ := result
                      rw [hcomplete _ _ hcollect, plainM_congr (continueLoop_multi hgap hf hplain hc)]
                      exact ih _
                · rw [hfails _ hcollect]
                  exact .inr ⟨_, rfl⟩
          · rw [herror _ hread]
            exact .inr ⟨_, rfl⟩
        · have hround : round (afterSkip s).self = .ok .returns := round_later hgap hfront hgt
          rw [hround, plainM_ok (continueLoop_later hgap hf hgt)]
          exact .inl rfl
    · have hround : round (afterSkip s).self = .error (.plain .outOfFuel) := by
        unfold round
        exact if_pos (Option.isSome_iff_ne_none.mpr hgap)
      rw [hround, plainM_error (continueLoop_full n hgap)]
      exact .inl rfl

theorem processData_agrees {first : UInt8} (hlong : 33 ≤ d.length) :
    AgreesAt s (processData hmac first d) (DhtNetwork.processData hmac first d) := by
  unfold AgreesAt
  obtain ⟨index, hindex⟩ := @numberAt_of_le d 1 4 (by omega)
  cases hdata : isDataCommand first with
  | false =>
    have hplain : DhtNetwork.processData hmac first d s = .error (.runtimeError "Invalid data") s := by
      unfold DhtNetwork.processData
      rw [bind_of_ok (get_apply s), Expected.operatorNot_eq_false, hdata]
      rfl
    rw [processData_of_command hlong hdata, plainM_error hplain]
    exact .inl rfl
  | true =>
    have hplain : DhtNetwork.processData hmac first d s =
        if TimedOut s then .error (.runtimeError "Process timeout") s
        else if (s.self.inputMessages.find index).isNone then DhtNetwork.continueProcessMessages (stored index d s)
        else .ok () s := by
      unfold DhtNetwork.processData
      rw [bind_of_ok (get_apply s), Expected.operatorNot_eq_false, hdata]
      simp only [Bool.not_true, Bool.false_eq_true, if_false]
      rw [bind_of_ok (liftExcept_ok hindex s)]
      change (if TimedOut s then _ else if _ then _ else _ : SessionM Unit) s = _
      split_ifs <;> rfl
    rw [processData_eq hindex hlong hdata]
    by_cases htime : TimedOut s
    · rw [if_pos htime] at hplain
      rw [if_pos htime, plainM_error hplain]
      exact .inl rfl
    · rw [if_neg htime] at hplain ⊢
      by_cases hnew : (s.self.inputMessages.find index).isNone = true
      · rw [if_pos hnew] at hplain ⊢
        rw [plainM_congr hplain]
        exact continueLoop_agrees _ _
      · rw [if_neg hnew] at hplain ⊢
        rw [plainM_ok hplain]
        exact .inl rfl

theorem processDatagram_agrees (d : ConstDataBuffer) (s : Session) :
    AgreesAt s (processDatagram hmac d) (DhtNetwork.processDatagram hmac d) := by
  unfold AgreesAt
  by_cases hrefuses : Refuses s
  · have hget : (get : CheckedM Session) s = .ok s s := rfl
    unfold plainM processDatagram DhtNetwork.processDatagram
    rw [bind_of_ok hget, bind_of_ok (get_apply s)]
    by_cases hfailed : s.self.failedState = true
    · rw [if_pos hfailed, if_pos hfailed]
      exact .inl rfl
    · rw [if_neg hfailed, if_neg hfailed, if_pos (hrefuses.resolve_left hfailed),
        if_pos (hrefuses.resolve_left hfailed)]
      exact .inl rfl
  · rw [processDatagram_of_open hrefuses]
    cases d with
    | nil =>
      have hplain : DhtNetwork.processDatagram hmac [] s = .error .outOfRange (measured [] s) := by
        unfold Refuses at hrefuses
        push Not at hrefuses
        unfold DhtNetwork.processDatagram
        rw [bind_of_ok (get_apply s), if_neg hrefuses.1, if_neg (Nat.not_lt.mpr hrefuses.2)]
        rfl
      rw [plainM_error hplain]
      exact .inl rfl
    | cons first tail =>
      rw [plainM_congr (DhtNetwork.processDatagram_of_open hrefuses first tail), openDatagram_cons]
      split_ifs with htest hack hlength
      · exact .inl rfl
      · exact .inl rfl
      · exact .inl rfl
      · exact processData_agrees (not_lt.mp hlength)

/-- A datagram that is harmless finds no subtraction that fails: what is proved of the code without the
checks is true of it. -/
theorem processDatagram_of_harmless (hs : Sound s.self) (h : Harmless d s) :
    processDatagram hmac d s = plainM (DhtNetwork.processDatagram hmac d) s := by
  rcases @processDatagram_agrees hmac d s with heq | ⟨s', hfails⟩
  · exact heq
  · exact absurd trivial ((safe_iff_harmless hs).mpr h _ s' hfails)

end Vds.DhtNetwork.Checked
