import Vds.DhtNetwork.Channel

/-! Datagrams without a valid signature. The test of `hmac::verify` never fails, and such a datagram is
turned away only when another check, or a message that cannot be read, does it. -/

namespace Vds.DhtNetwork

open StateError

variable {hmac : Hmac}

/-! ### The rounds of the loop, from any state -/

/-- The stored datagram `d` with the expected number makes the loop fail with `e`. -/
def HeadError (s : Session) (d : ConstDataBuffer) (e : ProtocolError) : Prop :=
  readHead s.self.thisNodeId s.self.partnerNodeId d = .error e ∨
    ∃ incoming size, readHead s.self.thisNodeId s.self.partnerNodeId d = .ok (.multi incoming size) ∧
      collect s.self.inputMessages s.self.expectedIndex (s.self.inputMessages.size + 1) 0 size
        incoming.message = .error e

inductive Turn (n : Nat) (s : Session) : Prop
  | ends (loops : continueLoop (n + 1) s = .ok () (afterSkip s))
  | hangs (loops : continueLoop (n + 1) s = .error .outOfFuel (afterSkip s))
  | fails (e : ProtocolError) (d : ConstDataBuffer)
      (gap : s.self.inputMessages.find (afterSkip s).self.lastInputIndex = none)
      (front : s.self.inputMessages.front = some (s.self.expectedIndex, d)) (head : HeadError s d e)
      (loops : continueLoop (n + 1) s = .error e (afterSkip s))
  | drops (index : Nat) (d : ConstDataBuffer)
      (gap : s.self.inputMessages.find (afterSkip s).self.lastInputIndex = none)
      (front : s.self.inputMessages.front = some (index, d)) (stale : index < s.self.expectedIndex)
      (loops : continueLoop (n + 1) s = continueLoop n (afterDrop (afterSkip s)))
  | hands (incoming : Incoming) (count : Nat)
      (loops : continueLoop (n + 1) s = continueLoop n (afterMessage incoming count (afterSkip s)))

theorem continueLoop_turn (n : Nat) (s : Session) : Turn n s := by
  by_cases hgap : s.self.inputMessages.find (afterSkip s).self.lastInputIndex = none
  · cases hf : s.self.inputMessages.front with
    | none => exact .ends (continueLoop_none hgap hf)
    | some entry =>
      obtain ⟨index, d⟩ := entry
      rcases Nat.lt_trichotomy index s.self.expectedIndex with hlt | rfl | hgt
      · exact .drops index d hgap hf hlt (continueLoop_stale hgap hf hlt)
      · cases hread : readHead s.self.thisNodeId s.self.partnerNodeId d with
        | error e => exact .fails e d hgap hf (.inl hread) (continueLoop_error hgap hf hread)
        | ok head =>
          cases head with
          | single incoming => exact .hands incoming 1 (continueLoop_single hgap hf hread)
          | unknown => exact .hangs (continueLoop_unknown hgap hf hread)
          | multi incoming size =>
            cases hcollect : collect s.self.inputMessages s.self.expectedIndex
                (s.self.inputMessages.size + 1) 0 size incoming.message with
            | error e =>
              exact .fails e d hgap hf (.inr ⟨incoming, size, hread, hcollect⟩)
                (continueLoop_malformed hgap hf hread hcollect)
            | ok found =>
              cases found with
              | none => exact .ends (continueLoop_missing hgap hf hread hcollect)
              | some result => exact .hands _ _ (continueLoop_multi hgap hf hread hcollect)
      · exact .ends (continueLoop_later hgap hf hgt)
  · exact .hangs (continueLoop_full n hgap)

/-- The loop stores nothing, and takes back nothing that it has handed on. -/
structure Shrinks (s s' : Session) : Prop where
  processed : s.processed <+: s'.processed
  found : ∀ i, s'.self.inputMessages.find i ≠ none → s.self.inputMessages.find i ≠ none

theorem continueLoop_shrinks (n : Nat) (s : Session) : Shrinks s (final (continueLoop n s)) := by
  induction n generalizing s with
  | zero => exact ⟨List.prefix_rfl, fun _ h => h⟩
  | succ n ih =>
    cases continueLoop_turn n s with
    | ends loops =>
      rw [loops]
      exact ⟨List.prefix_rfl, fun _ h => h⟩
    | hangs loops =>
      rw [loops]
      exact ⟨List.prefix_rfl, fun _ h => h⟩
    | fails e d gap front head loops =>
      rw [loops]
      exact ⟨List.prefix_rfl, fun _ h => h⟩
    | drops index d gap front stale loops =>
      rw [loops]
      obtain ⟨hprocessed, hfound⟩ := ih (afterDrop (afterSkip s))
      refine ⟨hprocessed, fun i hi => ?_⟩
      have hi' : s.self.inputMessages.eraseFront.find i ≠ none := hfound i hi
      rw [OrderedMap.find_eraseFront front] at hi'
      split_ifs at hi'
      · exact absurd rfl hi'
      · exact hi'
    | hands incoming count loops =>
      rw [loops]
      obtain ⟨hprocessed, hfound⟩ := ih (afterMessage incoming count (afterSkip s))
      exact ⟨(List.prefix_append _ _).trans hprocessed, hfound⟩

/-- What stands in front of the map is lost when it is dropped. -/
theorem find_front_after_drop {n index : Nat} {d : ConstDataBuffer} {s : Session}
    (hf : s.self.inputMessages.front = some (index, d)) :
    (final (continueLoop n (afterDrop (afterSkip s)))).self.inputMessages.find index = none := by
  by_contra hne
  have hdrop := (continueLoop_shrinks n (afterDrop (afterSkip s))).found index hne
  change s.self.inputMessages.eraseFront.find index ≠ none at hdrop
  rw [OrderedMap.find_eraseFront hf, if_pos rfl] at hdrop
  exact hdrop rfl

/-! ### One datagram -/

/-- The last 32 bytes are the signature of the rest. -/
def ValidSignature (hmac : Hmac) (key d : ConstDataBuffer) : Prop :=
  32 ≤ d.length ∧ d.drop (d.length - 32) = hmac.signature key (d.take (d.length - 32))

/-- An acknowledgment or a test of the MTU, by its first byte. -/
def IsService (d : ConstDataBuffer) : Prop :=
  d.head? = some MessageType.acknowledgment ∨ d.head? = some MessageType.mtuTest

/-- Nothing is handed on, and nothing happens to the queue. -/
structure Quiet (s s' : Session) : Prop where
  processed : s'.processed = s.processed
  outputMessages : s'.self.outputMessages = s.self.outputMessages
  mtu : s'.self.mtu = s.self.mtu
  expectedIndex : s'.self.expectedIndex = s.self.expectedIndex

theorem Quiet.trans {s s' s'' : Session} (h : Quiet s s') (h' : Quiet s' s'') : Quiet s s'' :=
  ⟨h'.processed.trans h.processed, h'.outputMessages.trans h.outputMessages, h'.mtu.trans h.mtu,
    h'.expectedIndex.trans h.expectedIndex⟩

theorem quiet_measured (d : ConstDataBuffer) (s : Session) : Quiet s (measured d s) := ⟨rfl, rfl, rfl, rfl⟩

theorem quiet_stored (index : Nat) (d : ConstDataBuffer) (s : Session) : Quiet s (stored index d s) :=
  ⟨rfl, rfl, rfl, rfl⟩

theorem quiet_afterSkip (s : Session) : Quiet s (afterSkip s) := ⟨rfl, rfl, rfl, rfl⟩

theorem quiet_afterDrop (s : Session) : Quiet s (afterDrop s) := ⟨rfl, rfl, rfl, rfl⟩

/-- The fields of a session that a refused datagram must not change. -/
structure Unmoved (s s' : Session) : Prop extends Quiet s s' where
  inputMessages : s'.self.inputMessages = s.self.inputMessages
  lastInputIndex : s'.self.lastInputIndex = s.self.lastInputIndex

theorem unmoved_refl (s : Session) : Unmoved s s := ⟨⟨rfl, rfl, rfl, rfl⟩, rfl, rfl⟩

theorem unmoved_measured (d : ConstDataBuffer) (s : Session) : Unmoved s (measured d s) :=
  ⟨quiet_measured d s, rfl, rfl⟩

/-- `process_datagram` returns an error and hands nothing on. -/
def Rejects (hmac : Hmac) (d : ConstDataBuffer) (s : Session) : Prop :=
  ∃ what s', processDatagram hmac d s = .error (.runtimeError what) s' ∧ Unmoved s s'

/-- The next message is stored and cannot be read. -/
def IsBlocked (s : Session) : Prop :=
  ∃ d what, s.self.inputMessages.front = some (s.self.expectedIndex, d) ∧ HeadError s d (.runtimeError what)

/-- The number `index` has had its turn, and is dropped before the session fails at the next message. -/
structure Passed (s : Session) (index : Nat) : Prop where
  before : index < s.self.expectedIndex
  unknown : s.self.inputMessages.find index = none
  skipped : index ≠ s.self.lastInputIndex
  gap : s.self.inputMessages.find s.self.lastInputIndex = none
  blocked : IsBlocked s

/-- Something other than its signature turns the datagram away. -/
def TurnedAway (d : ConstDataBuffer) (s : Session) : Prop :=
  Refuses s ∨ ∃ first tail, d = first :: tail ∧
    (d.length < 33 ∨ isDataCommand first = false ∨ TimedOut s ∨
      ∃ index, numberAt d 1 4 = .ok index ∧ Passed s index)

theorem exists_number {d : ConstDataBuffer} (h : ¬d.length < 33) : ∃ index, numberAt d 1 4 = .ok index := by
  unfold numberAt bytesAt
  rw [if_pos (by omega)]
  exact ⟨_, rfl⟩

section Stored

variable {s : Session} {index : Nat} {d : ConstDataBuffer}

theorem size_stored (s : Session) (index : Nat) (d : ConstDataBuffer) :
    ∃ n, 2 * (stored index d s).self.inputMessages.size + 1 = n + 1 + 1 := by
  have hone : 1 ≤ (stored index d s).self.inputMessages.size := by
    refine @OrderedMap.run_le_size _ _ index 1 fun j hj => ?_
    obtain rfl : j = 0 := by omega
    change (s.self.inputMessages.assign index d).find (index + 0) ≠ none
    rw [Nat.add_zero, OrderedMap.find_assign, if_pos rfl]
    exact Option.some_ne_none d
  exact ⟨2 * (stored index d s).self.inputMessages.size - 1, by omega⟩

/-- Nothing of the datagram is left: it was dropped in the first round. -/
theorem first_round {n : Nat} {what : String} {s' : Session}
    (hnew : s.self.inputMessages.find index = none)
    (hloop : continueLoop (n + 1) (stored index d s) = .error (.runtimeError what) s')
    (hsame : Unmoved s s') :
    index < s.self.expectedIndex ∧ (stored index d s).self.inputMessages.front = some (index, d) ∧
      (stored index d s).self.inputMessages.find (afterSkip (stored index d s)).self.lastInputIndex = none ∧
      continueLoop n (afterDrop (afterSkip (stored index d s))) = .error (.runtimeError what) s' := by
  have hstored : ∀ i, (stored index d s).self.inputMessages.find i =
      if i = index then some d else s.self.inputMessages.find i :=
    fun i => OrderedMap.find_assign _ _ _ _
  have hfinal : final (continueLoop (n + 1) (stored index d s)) = s' := by rw [hloop]; rfl
  cases continueLoop_turn n (stored index d s) with
  | ends loops =>
    rw [loops] at hloop
    cases hloop
  | hangs loops =>
    rw [loops] at hloop
    cases hloop
  | fails e d' gap front head loops =>
    rw [loops] at hfinal
    have hfind := hstored index
    change (afterSkip (stored index d s)).self.inputMessages.find index = _ at hfind
    rw [if_pos rfl, show afterSkip (stored index d s) = s' from hfinal, hsame.inputMessages, hnew] at hfind
    cases hfind
  | hands incoming count loops =>
    have hgrows := (continueLoop_shrinks n (afterMessage incoming count (afterSkip (stored index d s)))).processed
    rw [← loops, hfinal, hsame.processed] at hgrows
    have hlength := hgrows.length_le
    change (s.processed ++ [incoming]).length ≤ _ at hlength
    rw [List.length_append, List.length_singleton] at hlength
    omega
  | drops index' d' gap front stale loops =>
    have hlost := find_front_after_drop (n := n) front
    rw [← loops, hfinal, hsame.inputMessages] at hlost
    have hfront := OrderedMap.find_front front
    rw [hstored] at hfront
    split_ifs at hfront with hindex
    · subst hindex
      obtain rfl : d = d' := Option.some_inj.mp hfront
      exact ⟨stale, front, gap, loops.symm.trans hloop⟩
    · rw [hlost] at hfront
      cases hfront

/-- The session fails at the next message: in the second round. -/
theorem second_round {n : Nat} {what : String} {s₂ s' : Session}
    (hloop : continueLoop (n + 1) s₂ = .error (.runtimeError what) s')
    (hprocessed : s'.processed = s₂.processed) (hfound : s'.self.inputMessages = s₂.self.inputMessages) :
    s' = afterSkip s₂ ∧ IsBlocked s₂ := by
  have hfinal : final (continueLoop (n + 1) s₂) = s' := by rw [hloop]; rfl
  cases continueLoop_turn n s₂ with
  | ends loops =>
    rw [loops] at hloop
    cases hloop
  | hangs loops =>
    rw [loops] at hloop
    cases hloop
  | fails e d' gap front head loops =>
    rw [loops] at hloop
    cases hloop
    exact ⟨rfl, d', what, front, head⟩
  | hands incoming count loops =>
    have hgrows := (continueLoop_shrinks n (afterMessage incoming count (afterSkip s₂))).processed
    rw [← loops, hfinal, hprocessed] at hgrows
    have hlength := hgrows.length_le
    change (s₂.processed ++ [incoming]).length ≤ _ at hlength
    rw [List.length_append, List.length_singleton] at hlength
    omega
  | drops index' d' gap front stale loops =>
    have hlost := find_front_after_drop (n := n) front
    rw [← loops, hfinal, hfound, OrderedMap.find_front front] at hlost
    cases hlost

/-- Where the search for a gap starts at a gap, it stays. -/
theorem skipReceived_of_none {m : OrderedMap Nat ConstDataBuffer} {n index : Nat} (h : m.find index = none) :
    skipReceived m n index = index := by
  cases n with
  | zero => rfl
  | succ n =>
    unfold skipReceived
    rw [if_neg (Option.not_isSome_iff_eq_none.mpr h)]

/-- What becomes of a new datagram: it is turned away just if its number has had its turn and the session
cannot go on. -/
theorem stored_rejects_iff (hnew : s.self.inputMessages.find index = none) :
    (∃ what s', continueProcessMessages (stored index d (measured d s)) = .error (.runtimeError what) s' ∧
      Unmoved s s') ↔ Passed s index := by
  obtain ⟨n, hn⟩ := size_stored (measured d s) index d
  have hrun : continueProcessMessages (stored index d (measured d s)) =
      continueLoop (n + 1 + 1) (stored index d (measured d s)) := by
    unfold continueProcessMessages
    rw [bind_of_ok (get_apply _), hn]
  have hstored : ∀ i, (stored index d (measured d s)).self.inputMessages.find i =
      if i = index then some d else s.self.inputMessages.find i :=
    fun i => OrderedMap.find_assign _ _ _ _
  rw [hrun]
  constructor
  · rintro ⟨what, s', hloop, hsame⟩
    have hsame' : Unmoved (measured d s) s' :=
      ⟨⟨hsame.processed, hsame.outputMessages, hsame.mtu, hsame.expectedIndex⟩, hsame.inputMessages,
        hsame.lastInputIndex⟩
    obtain ⟨hbefore, hfront, hgap, hloop₂⟩ := @first_round (measured d s) index d _ _ _ hnew hloop hsame'
    have hmap : (afterDrop (afterSkip (stored index d (measured d s)))).self.inputMessages =
        s.self.inputMessages := OrderedMap.eraseFront_assign hnew hfront
    obtain ⟨hlast, hblocked⟩ := second_round hloop₂ hsame.processed (hsame.inputMessages.trans hmap.symm)
    rw [hstored] at hgap
    split_ifs at hgap with hindex
    have hskip : s.self.lastInputIndex = (afterSkip (stored index d (measured d s))).self.lastInputIndex := by
      rw [← hsame.lastInputIndex, hlast]
      exact skipReceived_of_none (by rw [hmap]; exact hgap)
    rw [← hskip] at hgap hindex
    refine ⟨hbefore, hnew, fun heq => hindex heq.symm, hgap, ?_⟩
    obtain ⟨d', what', hfront', hhead⟩ := hblocked
    rw [hmap] at hfront'
    unfold HeadError at hhead
    rw [hmap] at hhead
    exact ⟨d', what', hfront', hhead⟩
  · rintro ⟨hbefore, -, hskipped, hgap, d', what, hfront', hhead⟩
    have hfront : (stored index d (measured d s)).self.inputMessages.front = some (index, d) :=
      OrderedMap.front_assign hfront' hbefore
    have hfree : (stored index d (measured d s)).self.inputMessages.find s.self.lastInputIndex = none := by
      rw [hstored, if_neg hskipped.symm, hgap]
    have hskip : (afterSkip (stored index d (measured d s))).self.lastInputIndex = s.self.lastInputIndex :=
      skipReceived_of_none hfree
    have hmap : (afterDrop (afterSkip (stored index d (measured d s)))).self.inputMessages =
        s.self.inputMessages := OrderedMap.eraseFront_assign hnew hfront
    have hskip₂ : (afterSkip (afterDrop (afterSkip (stored index d (measured d s))))).self.lastInputIndex =
        s.self.lastInputIndex := by
      refine (skipReceived_of_none ?_).trans hskip
      rw [hmap]
      change s.self.inputMessages.find (afterSkip (stored index d (measured d s))).self.lastInputIndex = none
      rw [hskip, hgap]
    have hgap₂ : (afterDrop (afterSkip (stored index d (measured d s)))).self.inputMessages.find
        (afterSkip (afterDrop (afterSkip (stored index d (measured d s))))).self.lastInputIndex = none := by
      rw [hmap, hskip₂, hgap]
    have hfront₂ : (afterDrop (afterSkip (stored index d (measured d s)))).self.inputMessages.front =
        some (s.self.expectedIndex, d') := by
      rw [hmap]
      exact hfront'
    have hquiet : Quiet s (afterSkip (afterDrop (afterSkip (stored index d (measured d s))))) :=
      (quiet_measured d s).trans ((quiet_stored index d _).trans ((quiet_afterSkip _).trans
        ((quiet_afterDrop _).trans (quiet_afterSkip _))))
    refine ⟨what, afterSkip (afterDrop (afterSkip (stored index d (measured d s)))), ?_,
      hquiet, hmap, hskip₂⟩
    rw [continueLoop_stale (by rw [hskip]; exact hfree) hfront hbefore]
    have hhead₂ : HeadError (afterDrop (afterSkip (stored index d (measured d s)))) d' (.runtimeError what) := by
      unfold HeadError at hhead ⊢
      rw [hmap]
      exact hhead
    rcases hhead₂ with hread | ⟨incoming, size, hread, hcollect⟩
    · exact continueLoop_error hgap₂ hfront₂ hread
    · exact continueLoop_malformed hgap₂ hfront₂ hread hcollect

end Stored

/-- What becomes of a datagram that is no service datagram. -/
inductive Outcome (hmac : Hmac) (d : ConstDataBuffer) (s : Session) : Prop
  | refused (refuses : Refuses s) (what : String) (run : processDatagram hmac d s = .error (.runtimeError what) s)
  | empty (nothing : d = []) (takes : ¬Refuses s)
      (run : processDatagram hmac d s = .error .outOfRange (measured d s))
  | checked (first : UInt8) (tail : ConstDataBuffer) (cons : d = first :: tail)
      (fails : d.length < 33 ∨ isDataCommand first = false ∨ TimedOut s) (what : String)
      (run : processDatagram hmac d s = .error (.runtimeError what) (measured d s))
  | taken (first : UInt8) (tail : ConstDataBuffer) (cons : d = first :: tail) (takes : ¬Refuses s)
      (passes : ¬(d.length < 33 ∨ isDataCommand first = false ∨ TimedOut s)) (index : Nat)
      (number : numberAt d 1 4 = .ok index)
      (run : processDatagram hmac d s = if s.self.inputMessages.find index = none then
        continueProcessMessages (stored index d (measured d s)) else .ok () (measured d s))

theorem processDatagram_outcome {d : ConstDataBuffer} (hd : ¬IsService d) (s : Session) : Outcome hmac d s := by
  by_cases hrefuses : Refuses s
  · obtain ⟨what, hrun⟩ := @processDatagram_of_refuses hmac s hrefuses d
    exact .refused hrefuses what hrun
  · cases d with
    | nil =>
      refine .empty rfl hrefuses ?_
      unfold Refuses at hrefuses
      push Not at hrefuses
      unfold processDatagram
      rw [bind_of_ok (get_apply s), if_neg hrefuses.1, if_neg (Nat.not_lt.mpr hrefuses.2)]
      rfl
    | cons first tail =>
      have htest : first ≠ MessageType.mtuTest := fun h => hd (.inr (congrArg some h))
      have hack : first ≠ MessageType.acknowledgment := fun h => hd (.inl (congrArg some h))
      by_cases hlength : (first :: tail).length < 33
      · refine .checked first tail rfl (.inl hlength) "Invalid data" ?_
        rw [processDatagram_of_open hrefuses, if_neg htest, if_neg hack, if_pos hlength]
        rfl
      · by_cases hdata : isDataCommand first = true
        · obtain ⟨index, hindex⟩ := exists_number hlength
          have hrun := @processDatagram_data hmac s index _ first tail rfl hindex hlength hdata htest hack hrefuses
          by_cases htime : TimedOut s
          · rw [if_pos htime] at hrun
            exact .checked first tail rfl (.inr (.inr htime)) "Process timeout" hrun
          · rw [if_neg htime] at hrun
            simp only [Option.isNone_iff_eq_none] at hrun
            refine .taken first tail rfl hrefuses ?_ index hindex hrun
            rintro (h | h | h)
            · exact hlength h
            · rw [hdata] at h
              cases h
            · exact htime h
        · refine .checked first tail rfl (.inr (.inl (Bool.eq_false_iff.mpr hdata))) "Invalid data" ?_
          rw [processDatagram_of_open hrefuses, if_neg htest, if_neg hack, if_neg hlength]
          unfold processData
          rw [bind_of_ok (get_apply _), Expected.operatorNot_eq_false, Bool.eq_false_iff.mpr hdata]
          rfl

/-- A datagram is turned away for another reason than its signature, or not at all. -/
theorem rejects_iff {d : ConstDataBuffer} (hd : ¬IsService d) (s : Session) :
    Rejects hmac d s ↔ TurnedAway d s := by
  unfold Rejects TurnedAway
  cases @processDatagram_outcome hmac d hd s with
  | refused refuses what run => exact ⟨fun _ => .inl refuses, fun _ => ⟨what, s, run, unmoved_refl s⟩⟩
  | empty nothing takes run =>
    subst nothing
    rw [run]
    refine ⟨fun ⟨what, s', he, _⟩ => (by cases he), fun h => ?_⟩
    obtain ⟨first, tail, hcons, -⟩ := h.resolve_left takes
    cases hcons
  | checked first tail cons fails what run =>
    refine ⟨fun _ => .inr ⟨first, tail, cons, ?_⟩, fun _ => ⟨what, _, run, unmoved_measured d s⟩⟩
    rcases fails with fails | fails | fails
    · exact .inl fails
    · exact .inr (.inl fails)
    · exact .inr (.inr (.inl fails))
  | taken first tail cons takes passes index number run =>
    have hcond : (Refuses s ∨ ∃ first tail, d = first :: tail ∧ (d.length < 33 ∨ isDataCommand first = false ∨
        TimedOut s ∨ ∃ index, numberAt d 1 4 = .ok index ∧ Passed s index)) ↔ Passed s index := by
      refine ⟨fun h => ?_, fun h => .inr ⟨first, tail, cons, .inr (.inr (.inr ⟨index, number, h⟩))⟩⟩
      obtain ⟨first', tail', hcons, h⟩ := h.resolve_left takes
      obtain ⟨rfl, rfl⟩ := List.cons.inj (cons.symm.trans hcons)
      rcases h with h | h | h | ⟨index', hindex', h⟩
      · exact absurd (.inl h) passes
      · exact absurd (.inr (.inl h)) passes
      · exact absurd (.inr (.inr h)) passes
      · rw [Except.ok.inj (number.symm.trans hindex')]
        exact h
    rw [hcond, run]
    by_cases hnew : s.self.inputMessages.find index = none
    · rw [if_pos hnew]
      exact stored_rejects_iff hnew
    · rw [if_neg hnew]
      exact ⟨fun ⟨what, s', he, _⟩ => (by cases he), fun h => absurd h.unknown hnew⟩

/-! ### A run with an attacker -/

/-- Who a session is, and how far its numbers go. -/
def identity (s : Session) : ConstDataBuffer × ConstDataBuffer × ConstDataBuffer × Nat :=
  (s.self.thisNodeId, s.self.partnerNodeId, s.self.sessionKey, s.self.lastOutputIndex)

theorem identity_continueLoop (n : Nat) (s : Session) : identity (final (continueLoop n s)) = identity s := by
  induction n generalizing s with
  | zero => rfl
  | succ n ih =>
    cases continueLoop_turn n s with
    | ends loops =>
      rw [loops]
      rfl
    | hangs loops =>
      rw [loops]
      rfl
    | fails e d gap front head loops =>
      rw [loops]
      rfl
    | drops index d gap front stale loops =>
      rw [loops]
      exact ih _
    | hands incoming count loops =>
      rw [loops]
      exact ih _

theorem identity_processDatagram {d : ConstDataBuffer} (hd : ¬IsService d) (s : Session) :
    identity (final (processDatagram hmac d s)) = identity s := by
  cases @processDatagram_outcome hmac d hd s with
  | refused refuses what run =>
    rw [run]
    rfl
  | empty nothing takes run =>
    rw [run]
    rfl
  | checked first tail cons fails what run =>
    rw [run]
    rfl
  | taken first tail cons takes passes index number run =>
    rw [run]
    split_ifs
    · exact identity_continueLoop _ _
    · rfl

/-- An acknowledgment of anybody erases a beginning of the queue at most. -/
theorem exists_serves (d : ConstDataBuffer) (s : Session) :
    ∃ last, Serves last s (final (processAcknowledgment d s)) := by
  cases hnumber : numberAt d 1 4 with
  | ok last => exact ⟨last, serves_processAcknowledgment hnumber s⟩
  | error e =>
    unfold processAcknowledgment
    rw [bind_of_error (liftExcept_error hnumber s)]
    exact ⟨0, refl_of (Serves 0) s⟩

namespace Channel

/-- The datagrams that an attacker without the key may bring: whatever carries a valid signature was signed
by one of the parties. -/
def Unforged (hmac : Hmac) (names : Names) (c : Channel) (d : ConstDataBuffer) : Prop :=
  ValidSignature hmac names.key d →
    ∃ (y : Side) (i : Nat), (stream hmac names.key (names.id !y) (c.sent y))[i]? = some d

/-- The attacker's datagram is a service datagram, or another check turns it away, or it has a valid
signature and is not brought back to the party that signed it. -/
def attacked (hmac : Hmac) (names : Names) : Network := fun c x s d =>
  Unforged hmac names c d ∧ (IsService d ∨ TurnedAway d s ∨ ValidSignature hmac names.key d ∧
    ¬∃ i : Nat, (stream hmac names.key (names.id !x) (c.sent x))[i]? = some d)

section Attack

variable {names : Names} {c : Channel} {x : Side} {now : Int} {refuses : List Bool}

theorem Core.service (h : Core hmac names c) {d : ConstDataBuffer} (hd : IsService d) :
    Core hmac names (c.update x (final (processDatagram hmac d (c.atTime x now refuses))) []) := by
  by_cases hrefuses : Refuses (c.atTime x now refuses)
  · obtain ⟨what, hrun⟩ := @processDatagram_of_refuses hmac _ hrefuses d
    rw [hrun]
    exact h.serves (refl_of (Serves 0) _)
  · cases d with
    | nil => exact absurd hd (by rintro (h | h) <;> cases h)
    | cons first tail =>
      have hmeasured : ∀ last, Serves last (c.atTime x now refuses)
          (measured (first :: tail) (c.atTime x now refuses)) :=
        fun last => ⟨rfl, fun _ _ hx => hx, fun _ hx => .inl hx, fun _ hx => .inl hx, le_rfl⟩
      rw [processDatagram_of_open hrefuses]
      by_cases htest : first = MessageType.mtuTest
      · rw [if_pos htest]
        exact h.serves (hmeasured 0)
      · have hack : first = MessageType.acknowledgment := by
          rcases hd with hd | hd
          · exact Option.some_inj.mp hd
          · exact absurd (Option.some_inj.mp hd) htest
        rw [if_neg htest, if_pos hack]
        obtain ⟨last, hlast⟩ := exists_serves (first :: tail) (measured (first :: tail) (c.atTime x now refuses))
        exact h.serves (trans_of (Serves last) (hmeasured last) hlast)

theorem Core.turnedAway (h : Core hmac names c) {d : ConstDataBuffer} (hd : ¬IsService d)
    (haway : TurnedAway d (c.atTime x now refuses)) :
    Core hmac names (c.update x (final (processDatagram hmac d (c.atTime x now refuses))) []) := by
  obtain ⟨what, s', hrun, hsame⟩ := (@rejects_iff hmac d hd _).mpr haway
  have hid := @identity_processDatagram hmac d hd (c.atTime x now refuses)
  rw [hrun] at hid ⊢
  have hsending := h.sending x
  have hreceiving := h.receiving x
  simp only [identity, final_error, Prod.mk.injEq] at hid
  obtain ⟨hthis, hpartner, hkey, hlast⟩ := hid
  refine h.update_nil ?_ ?_ ((h.least x).trans_eq hsame.mtu.symm)
  · exact ⟨hpartner.trans hsending.partnerNodeId, hkey.trans hsending.sessionKey,
      hlast.trans hsending.lastOutputIndex,
      fun i d hd => hsending.queued i d (by rw [final_error, hsame.outputMessages] at hd; exact hd)⟩
  · refine ⟨hthis.trans hreceiving.thisNodeId, hpartner.trans hreceiving.partnerNodeId, ?_, ?_, ?_,
      fun i d hd => hreceiving.found i d ?_, fun i hi => ?_⟩
    · rw [final_error, hsame.processed]
      exact hreceiving.processed
    · rw [final_error, hsame.processed, hsame.expectedIndex]
      exact hreceiving.expectedIndex
    · rw [final_error, hsame.processed]
      exact hreceiving.readable
    · rwa [final_error, hsame.inputMessages] at hd
    · rw [final_error, hsame.lastInputIndex] at hi
      unfold Has
      rw [final_error, hsame.expectedIndex, hsame.inputMessages]
      exact hreceiving.skipped i hi

/-- A datagram that was signed by the partner. -/
theorem Core.processSigned (h : Core hmac names c) {d : ConstDataBuffer} {i : Nat}
    (hi : (stream hmac names.key (names.id x) (c.sent !x))[i]? = some d) :
    Core hmac names (c.update x (final (processDatagram hmac d (c.atTime x now refuses))) []) := by
  by_cases hrefuses : Refuses (c.atTime x now refuses)
  · obtain ⟨what, hrun⟩ := @processDatagram_of_refuses hmac _ hrefuses d
    rw [hrun]
    exact h.serves (refl_of (Serves 0) _)
  · have hfew := h.few !x
    rw [Bool.not_not] at hfew
    obtain ⟨s', hs', hrec, hmoves, -, -⟩ :=
      processDatagram_stream h.receiving_at hfew (h.sendable !x) hi hrefuses
    rw [hs']
    exact h.receives hrec hmoves

theorem Core.step {c' : Channel} (h : Core hmac names c) (hs : Step hmac names (attacked hmac names) c c') :
    Core hmac names c' := by
  cases hs with
  | prepare x m now refuses promised few => exact h.prepare (promised (h.least x)) few
  | resend x index now refuses => exact h.serves (moves_resend 0 index _)
  | tick x now refuses => exact h.ticks (moves_onTimer _)
  | process x d now refuses arrives =>
    obtain ⟨hunforged, hcond⟩ := arrives
    by_cases hservice : IsService d
    · exact h.service hservice
    · rcases hcond.resolve_left hservice with haway | ⟨hvalid, hown⟩
      · exact h.turnedAway hservice haway
      · obtain ⟨y, i, hi⟩ := hunforged hvalid
        rcases Bool.eq_or_eq_not y x with rfl | rfl
        · exact absurd ⟨i, hi⟩ hown
        · rw [Bool.not_not] at hi
          exact h.processSigned hi

theorem core_of_attacked {start_ : Side → Int}
    (h : Relation.ReflTransGen (Step hmac names (attacked hmac names)) (start names start_) c) :
    Core hmac names c := by
  induction h with
  | refl => exact core_start names start_
  | tail _ hs ih => exact ih.step hs

end Attack

/-- A datagram with a wrong signature is turned away just if something else turns it away; and where every
datagram is turned away so, or has a signature of the partner, only messages of the partner are handed on. -/
theorem authentic_iff_turnedAway (hmac : Hmac) (names : Names) (now : Side → Int) :
    (∀ (s : Session) (d : ConstDataBuffer), ¬IsService d → ¬ValidSignature hmac s.self.sessionKey d →
      (Rejects hmac d s ↔ TurnedAway d s)) ∧
    ∀ c, Relation.ReflTransGen (Step hmac names (attacked hmac names)) (start names now) c → ∀ x,
      (c.node x).processed <+: (c.sent !x).map fun y => incomingOf (names.id !x) y.2 :=
  ⟨fun s _ hservice _ => rejects_iff hservice s, fun _ h x => ((core_of_attacked h).receiving x).processed⟩

/-- A message of nobody, with a signature of zeros. -/
def forged : ConstDataBuffer := 0x21 :: indexBytes 0 ++ [1, 2, 3] ++ List.replicate 32 0

/-- The session takes a datagram with a wrong signature, and hands its message on. -/
theorem forged_delivered :
    ∃ s : Session, ¬IsService forged ∧ ¬ValidSignature sampleHmac s.self.sessionKey forged ∧
      ¬Rejects sampleHmac forged s ∧
      (final (processDatagram sampleHmac forged s)).processed = [⟨1, sampleNode 2, [sampleNode 1], [1, 2, 3]⟩] := by
  refine ⟨fresh (sampleNode 2) (sampleNode 1) [1] 0, ?_, ?_, ?_, by decide +kernel⟩
  · unfold IsService
    decide
  · rintro ⟨-, h⟩
    exact absurd h (by decide +kernel)
  · rintro ⟨what, s', hrun, hsame⟩
    have hprocessed : (final (processDatagram sampleHmac forged
        (fresh (sampleNode 2) (sampleNode 1) [1] 0))).processed ≠ [] := by decide +kernel
    rw [hrun, final_error, hsame.processed] at hprocessed
    exact hprocessed rfl

end Channel

end Vds.DhtNetwork
