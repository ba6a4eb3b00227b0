import Vds.DhtNetwork.Heads

/-! Whatever datagrams of a sender reach its partner, the partner hands on the first messages of the
sender, whole and in their order, until it meets one that it takes for a malformed one. -/

namespace Vds.DhtNetwork

open BinarySerializer BinaryDeserializer

variable {hmac : Hmac}

/-! ### The stream of a sender -/

/-- Messages, each with the MTU of the time when it was given to `prepare_to_send`. -/
abbrev Sends := List (Nat × Outgoing)

def allParts (partner : ConstDataBuffer) (sends : Sends) : List (UInt8 × ConstDataBuffer) :=
  sends.flatMap fun x => partsOf partner x.1 x.2

/-- How many datagrams the messages are cut into. -/
def count (partner : ConstDataBuffer) (sends : Sends) : Nat := (allParts partner sends).length

/-- All datagrams of a session in the order of their numbers. -/
def stream (hmac : Hmac) (key partner : ConstDataBuffer) (sends : Sends) : List ConstDataBuffer :=
  datagrams hmac key 0 (allParts partner sends)

theorem getElem?_stream (key partner : ConstDataBuffer) (sends : Sends) (i : Nat) :
    (stream hmac key partner sends)[i]? = (allParts partner sends)[i]?.map (signed hmac key i) := by
  unfold stream
  rw [getElem?_datagrams, Nat.zero_add]

theorem allParts_append (partner : ConstDataBuffer) (xs ys : Sends) :
    allParts partner (xs ++ ys) = allParts partner xs ++ allParts partner ys := List.flatMap_append

theorem allParts_cons (partner : ConstDataBuffer) (x : Nat × Outgoing) (xs : Sends) :
    allParts partner (x :: xs) = partsOf partner x.1 x.2 ++ allParts partner xs := List.flatMap_cons

theorem count_append (partner : ConstDataBuffer) (xs ys : Sends) :
    count partner (xs ++ ys) = count partner xs + count partner ys := by
  unfold count
  rw [allParts_append, List.length_append]

theorem count_take_succ {partner : ConstDataBuffer} {sends : Sends} {k : Nat} {x : Nat × Outgoing}
    (hx : sends[k]? = some x) :
    count partner (sends.take (k + 1)) = count partner (sends.take k) + (partsOf partner x.1 x.2).length := by
  rw [List.take_add_one, hx, count_append]
  unfold count
  rw [Option.toList_some, allParts_cons, List.length_append]
  rfl

/-- Where the datagrams of one message stand in the stream. -/
theorem allParts_at {partner : ConstDataBuffer} {sends : Sends} {k : Nat} {x : Nat × Outgoing}
    (hx : sends[k]? = some x) {j : Nat} (hj : j < (partsOf partner x.1 x.2).length) :
    (allParts partner sends)[count partner (sends.take k) + j]? = (partsOf partner x.1 x.2)[j]? := by
  obtain ⟨hk, rfl⟩ := List.getElem?_eq_some_iff.mp hx
  have hsplit : sends = sends.take k ++ sends[k] :: sends.drop (k + 1) := by
    rw [List.getElem_cons_drop, List.take_append_drop]
  have hall : allParts partner sends = allParts partner (sends.take k) ++
      (partsOf partner sends[k].1 sends[k].2 ++ allParts partner (sends.drop (k + 1))) := by
    rw [← allParts_cons, ← allParts_append, ← hsplit]
  rw [hall]
  unfold count
  rw [List.getElem?_append_right (Nat.le_add_right _ _), Nat.add_sub_cancel_left,
    List.getElem?_append_left hj]

theorem count_take_le (partner : ConstDataBuffer) (sends : Sends) (k : Nat) :
    count partner (sends.take k) ≤ count partner sends := by
  have hsum : count partner (sends.take k) + count partner (sends.drop k) = count partner sends := by
    rw [← count_append, List.take_append_drop]
  omega

/-! ### The two loops over the map -/

section Loops

variable {inputMessages : OrderedMap Nat ConstDataBuffer}

/-- `skipReceived` stops at the first number that is not there. -/
theorem skipReceived_spec {n index : Nat} (hlast : ∀ i, inputMessages.find i ≠ none → i + 1 < indexMod) :
    index ≤ skipReceived inputMessages n index ∧
      ∀ i, index ≤ i → i < skipReceived inputMessages n index → inputMessages.find i ≠ none := by
  induction n generalizing index with
  | zero => exact ⟨le_rfl, fun i h₁ h₂ => absurd h₁ h₂.not_ge⟩
  | succ n ih =>
    unfold skipReceived
    split_ifs with hfound
    · have hne : inputMessages.find index ≠ none := Option.isSome_iff_ne_none.mp hfound
      rw [Nat.mod_eq_of_lt (hlast index hne)]
      obtain ⟨hle, hall⟩ := @ih (index + 1)
      refine ⟨by omega, fun i h₁ h₂ => ?_⟩
      rcases Nat.eq_or_lt_of_le h₁ with rfl | h₁
      · exact hne
      · exact hall i h₁ h₂
    · exact ⟨le_rfl, fun i h₁ h₂ => absurd h₁ h₂.not_ge⟩

theorem skipReceived_stops {n index : Nat} (hlast : ∀ i, inputMessages.find i ≠ none → i + 1 < indexMod)
    (hn : inputMessages.size < n) :
    inputMessages.find (skipReceived inputMessages n index) = none := by
  by_contra hne
  have hreach : ∀ {n index : Nat}, inputMessages.find (skipReceived inputMessages n index) ≠ none →
      skipReceived inputMessages n index = index + n := by
    intro n
    induction n with
    | zero => exact fun _ => rfl
    | succ n ih =>
      intro index hne
      unfold skipReceived at hne ⊢
      split_ifs at hne ⊢ with hfound
      · have hmod : (index + 1) % indexMod = index + 1 :=
          Nat.mod_eq_of_lt (hlast index (Option.isSome_iff_ne_none.mp hfound))
        rw [hmod] at hne ⊢
        rw [ih hne]
        omega
      · exact absurd (Option.not_isSome_iff_eq_none.mp hfound) hne
  have hall := (@skipReceived_spec inputMessages n index hlast).2
  rw [hreach hne] at hall
  have hle : n ≤ inputMessages.size :=
    @OrderedMap.run_le_size _ _ index n fun j hj => hall (index + j) (by omega) (by omega)
  omega

/-- `collect` waits for the missing datagrams, or puts the message together. -/
theorem collect_spec {key : ConstDataBuffer} {pieces : List ConstDataBuffer} (hne : pieces ≠ [])
    (hpos : ∀ piece ∈ pieces, 0 < piece.length) {expectedIndex index n : Nat} (message : ConstDataBuffer)
    (hmod : expectedIndex + index + pieces.length < indexMod)
    (hfound : ∀ j (hj : j < pieces.length),
      inputMessages.find (expectedIndex + (index + 1) + j) = none ∨
        inputMessages.find (expectedIndex + (index + 1) + j) = some
          (signed hmac key (expectedIndex + (index + 1) + j) (MessageType.continueData, pieces[j])))
    (hbefore : ∀ j, j < index + 1 → inputMessages.find (expectedIndex + j) ≠ none)
    (hn : inputMessages.size ≤ n + index) :
    collect inputMessages expectedIndex n index pieces.flatten.length message =
      .ok (if ∀ j, j < pieces.length → inputMessages.find (expectedIndex + (index + 1) + j) ≠ none then
        some (message ++ pieces.flatten, index + pieces.length) else none) := by
  induction n generalizing pieces index message with
  | zero =>
    have hle : index + 1 ≤ inputMessages.size := OrderedMap.run_le_size hbefore
    omega
  | succ n ih =>
    obtain ⟨piece, pieces, rfl⟩ := List.exists_cons_of_ne_nil hne
    rw [List.length_cons] at hmod
    have hnext : (expectedIndex + (index + 1)) % indexMod = expectedIndex + (index + 1) :=
      Nat.mod_eq_of_lt (by omega)
    unfold collect
    rw [hnext]
    rcases hfound 0 (Nat.zero_lt_succ _) with hnone | hsome
    · rw [Nat.add_zero] at hnone
      rw [hnone, if_neg fun hall => hall 0 (Nat.zero_lt_succ _) hnone]
      rfl
    · rw [Nat.add_zero, List.getElem_cons_zero] at hsome
      have hpiece : 0 < piece.length := hpos piece List.mem_cons_self
      have hbody : bodyFrom (signed hmac key (expectedIndex + (index + 1))
          (MessageType.continueData, [] ++ piece)) 5 = .ok piece := signed_bodyFrom rfl rfl
      rw [List.nil_append] at hbody
      rw [hsome]
      dsimp only
      rw [signed_command, ok_bind, if_neg (not_not_intro rfl), length_signed, hbody]
      dsimp only
      rw [List.flatten_cons, List.length_append, Nat.add_sub_cancel_left, Nat.add_sub_cancel_left,
        if_neg (by omega), ok_bind]
      have hshift : (∀ j, j < pieces.length + 1 →
          inputMessages.find (expectedIndex + (index + 1) + j) ≠ none) ↔
            ∀ j, j < pieces.length → inputMessages.find (expectedIndex + (index + 1 + 1) + j) ≠ none := by
        refine ⟨fun hall j hj => ?_, fun hall j hj => ?_⟩
        · have hj' := hall (j + 1) (by omega)
          rwa [show expectedIndex + (index + 1) + (j + 1) = expectedIndex + (index + 1 + 1) + j by omega] at hj'
        · cases j with
          | zero =>
            rw [Nat.add_zero, hsome]
            exact Option.some_ne_none _
          | succ j =>
            have hj' := hall j (by omega)
            rwa [show expectedIndex + (index + 1 + 1) + j = expectedIndex + (index + 1) + (j + 1) by omega] at hj'
      simp only [List.length_cons, hshift]
      by_cases hpieces : pieces = []
      · subst hpieces
        rw [List.flatten_nil, List.length_nil, if_pos rfl, if_pos fun j hj => absurd hj j.not_lt_zero,
          List.append_nil]
        rfl
      · have hrest : 0 < pieces.flatten.length := by
          obtain ⟨second, others, rfl⟩ := List.exists_cons_of_ne_nil hpieces
          have := hpos second (List.mem_cons_of_mem _ List.mem_cons_self)
          rw [List.flatten_cons, List.length_append]
          omega
        rw [if_neg (by omega),
          @ih pieces hpieces (fun x hx => hpos x (List.mem_cons_of_mem _ hx)) (index + 1) (message ++ piece)
            (by omega) ?_ ?_ (by omega), List.append_assoc,
          show index + 1 + pieces.length = index + (pieces.length + 1) by omega]
        · intro j hj
          have hj' := hfound (j + 1) (Nat.succ_lt_succ hj)
          rwa [show expectedIndex + (index + 1) + (j + 1) = expectedIndex + (index + 1 + 1) + j by omega] at hj'
        · intro j hj
          rcases Nat.lt_or_ge j (index + 1) with hlt | hge
          · exact hbefore j hlt
          · obtain rfl : j = index + 1 := by omega
            rw [hsome]
            exact Option.some_ne_none _

end Loops

/-! ### The receiver -/

/-- The number has been received: its datagram is stored, or its message has been handed on. -/
def Has (p : DatagramProtocol) (i : Nat) : Prop := i < p.expectedIndex ∨ p.inputMessages.find i ≠ none

/-- A session of the node `partner` that has received datagrams of the node `source`, which has sent
`sends`. -/
structure Receiving (hmac : Hmac) (key source partner : ConstDataBuffer) (sends : Sends) (s : Session) :
    Prop where
  thisNodeId : s.self.thisNodeId = partner
  partnerNodeId : s.self.partnerNodeId = source
  processed : s.processed <+: sends.map fun x => incomingOf source x.2
  expectedIndex : s.self.expectedIndex = count partner (sends.take s.processed.length)
  readable : ∀ x ∈ sends.take s.processed.length, Readable x.1 x.2
  found : ∀ i d, s.self.inputMessages.find i = some d → (stream hmac key partner sends)[i]? = some d
  skipped : ∀ i, i < s.self.lastInputIndex → Has s.self i

/-- The next message is not complete, or it is taken for a malformed one. -/
def Waits (partner : ConstDataBuffer) (sends : Sends) (s : Session) : Prop :=
  ∀ x, sends[s.processed.length]? = some x → ¬Readable x.1 x.2 ∨
    ∃ j, j < (partsOf partner x.1 x.2).length ∧ s.self.inputMessages.find (s.self.expectedIndex + j) = none

/-- A session without what it has received. -/
def sendingSide (s : Session) : Session :=
  { s with
    processed := []
    self := { s.self with lastInputIndex := 0, expectedIndex := 0, lastProcessed := 0, inputMessages := .empty } }

/-- What receiving does to a session. -/
structure Receives (s s' : Session) : Prop where
  sending : sendingSide s' = sendingSide s
  has : ∀ i, Has s.self i → Has s'.self i
  lastProcessed : s'.self.lastProcessed = s.self.lastProcessed ∨ s'.self.lastProcessed = s.now

theorem Receives.refl (s : Session) : Receives s s := ⟨rfl, fun _ h => h, .inl rfl⟩

theorem Receives.trans {s s' s'' : Session} (h : Receives s s') (h' : Receives s' s'') : Receives s s'' := by
  have hnow : (sendingSide s').now = (sendingSide s).now := by rw [h.sending]
  refine ⟨h'.sending.trans h.sending, fun i hi => h'.has i (h.has i hi), ?_⟩
  rcases h'.lastProcessed with hl | hl
  · rw [hl]
    exact h.lastProcessed
  · exact .inr (hl.trans hnow)

section Receiving

variable {key source partner : ConstDataBuffer} {sends : Sends} {s : Session}

/-- The session behind the `while` loop. -/
def afterSkip (s : Session) : Session :=
  { s with self := { s.self with
      lastInputIndex := skipReceived s.self.inputMessages (s.self.inputMessages.size + 1) s.self.lastInputIndex } }

theorem receives_afterSkip (s : Session) : Receives s (afterSkip s) := ⟨rfl, fun _ h => h, .inl rfl⟩

theorem Receiving.lt_count (h : Receiving hmac key source partner sends s) {i : Nat}
    (hi : s.self.inputMessages.find i ≠ none) : i < count partner sends := by
  obtain ⟨d, hd⟩ := Option.ne_none_iff_exists'.mp hi
  obtain ⟨hlt, -⟩ := List.getElem?_eq_some_iff.mp (h.found i d hd)
  unfold stream at hlt
  rwa [length_datagrams] at hlt

theorem receiving_afterSkip (h : Receiving hmac key source partner sends s) (hc : count partner sends < indexMod) :
    Receiving hmac key source partner sends (afterSkip s) := by
  refine ⟨h.thisNodeId, h.partnerNodeId, h.processed, h.expectedIndex, h.readable, h.found, fun i hi => ?_⟩
  have hlast : ∀ i, s.self.inputMessages.find i ≠ none → i + 1 < indexMod := by
    intro i hi
    have := h.lt_count hi
    omega
  rcases Nat.lt_or_ge i s.self.lastInputIndex with hlt | hge
  · exact h.skipped i hlt
  · exact .inr ((skipReceived_spec hlast).2 i hge hi)

/-- The session after a stored datagram has been dropped. -/
def afterDrop (s : Session) : Session :=
  { s with self := { s.self with inputMessages := s.self.inputMessages.eraseFront } }

theorem has_afterDrop {index : Nat} {d : ConstDataBuffer} (hf : s.self.inputMessages.front = some (index, d))
    (hlt : index < s.self.expectedIndex) (i : Nat) (hi : Has s.self i) : Has (afterDrop s).self i := by
  rcases hi with hi | hi
  · exact .inl hi
  · by_cases hx : i = index
    · exact .inl (hx ▸ hlt)
    · right
      change s.self.inputMessages.eraseFront.find i ≠ none
      rwa [OrderedMap.find_eraseFront hf, if_neg hx]

theorem receiving_afterDrop (h : Receiving hmac key source partner sends s) {index : Nat} {d : ConstDataBuffer}
    (hf : s.self.inputMessages.front = some (index, d)) (hlt : index < s.self.expectedIndex) :
    Receiving hmac key source partner sends (afterDrop s) := by
  refine ⟨h.thisNodeId, h.partnerNodeId, h.processed, h.expectedIndex, h.readable, fun i d' hd' => ?_,
    fun i hi => has_afterDrop hf hlt i (h.skipped i hi)⟩
  change s.self.inputMessages.eraseFront.find i = some d' at hd'
  rw [OrderedMap.find_eraseFront hf] at hd'
  split_ifs at hd'
  exact h.found i d' hd'

/-- The session after `process_message`. -/
def afterMessage (incoming : Incoming) (count : Nat) (s : Session) : Session :=
  { s with
    self := { s.self with
      expectedIndex := (s.self.expectedIndex + count) % indexMod
      lastProcessed := s.now }
    processed := s.processed ++ [incoming] }

theorem Receiving.length_le (h : Receiving hmac key source partner sends s) :
    s.processed.length ≤ sends.length := by
  have := h.processed.length_le
  rwa [List.length_map] at this

/-- Where the expected number stands after the next message. -/
theorem Receiving.next (h : Receiving hmac key source partner sends s) {x : Nat × Outgoing}
    (hx : sends[s.processed.length]? = some x) :
    s.self.expectedIndex + (partsOf partner x.1 x.2).length =
      count partner (sends.take (s.processed.length + 1)) := by
  rw [h.expectedIndex, count_take_succ hx]

theorem Receiving.next_le (h : Receiving hmac key source partner sends s) {x : Nat × Outgoing}
    (hx : sends[s.processed.length]? = some x) :
    s.self.expectedIndex + (partsOf partner x.1 x.2).length ≤ count partner sends := by
  rw [h.next hx]
  exact count_take_le _ _ _

theorem has_afterMessage {incoming : Incoming} {n : Nat} (hn : s.self.expectedIndex + n < indexMod) (i : Nat)
    (hi : Has s.self i) : Has (afterMessage incoming n s).self i := by
  rcases hi with hi | hi
  · left
    change i < (s.self.expectedIndex + n) % indexMod
    rw [Nat.mod_eq_of_lt hn]
    omega
  · exact .inr hi

theorem receiving_afterMessage (h : Receiving hmac key source partner sends s)
    (hc : count partner sends < indexMod) {x : Nat × Outgoing} (hx : sends[s.processed.length]? = some x)
    (hr : Readable x.1 x.2) :
    Receiving hmac key source partner sends
      (afterMessage (incomingOf source x.2) (partsOf partner x.1 x.2).length s) := by
  have hn : s.self.expectedIndex + (partsOf partner x.1 x.2).length < indexMod := (h.next_le hx).trans_lt hc
  have hlength : (s.processed ++ [incomingOf source x.2]).length = s.processed.length + 1 :=
    List.length_append
  have htake : sends.take (s.processed.length + 1) = sends.take s.processed.length ++ [x] := by
    rw [List.take_add_one, hx]
    rfl
  refine ⟨h.thisNodeId, h.partnerNodeId, ?_, ?_, ?_, h.found, fun i hi => ?_⟩
  · change s.processed ++ [incomingOf source x.2] <+: _
    rw [List.prefix_iff_eq_take, hlength, ← List.map_take, htake, List.map_append]
    have hbegins := List.prefix_iff_eq_take.mp h.processed
    rw [← List.map_take] at hbegins
    exact congrArg (· ++ [incomingOf source x.2]) hbegins
  · change (s.self.expectedIndex + (partsOf partner x.1 x.2).length) % indexMod =
      count partner (sends.take (s.processed ++ [incomingOf source x.2]).length)
    rw [Nat.mod_eq_of_lt hn, h.next hx, hlength]
  · change ∀ y ∈ sends.take (s.processed ++ [incomingOf source x.2]).length, Readable y.1 y.2
    rw [hlength, htake]
    intro y hy
    rcases List.mem_append.mp hy with hy | hy
    · exact h.readable y hy
    · rw [List.mem_singleton.mp hy]
      exact hr
  · exact has_afterMessage hn i (h.skipped i hi)

/-! ### The loop -/

theorem readable_of_isSingle {x : Nat × Outgoing} (h : IsSingle partner x.1 x.2) : Readable x.1 x.2 := by
  unfold IsSingle extraSizeOf routingSize at h
  unfold Readable
  split_ifs at h with hempty
  · rw [List.isEmpty_iff.mp hempty]
    exact .inl Nat.zero_lt_two
  · rw [List.isEmpty_iff.mp hempty]
    exact .inl Nat.zero_lt_two
  · omega

/-- The datagrams of the next message that are stored. -/
theorem Receiving.found_at (h : Receiving hmac key source partner sends s) {x : Nat × Outgoing}
    (hx : sends[s.processed.length]? = some x) {j : Nat} (hj : j < (partsOf partner x.1 x.2).length) :
    s.self.inputMessages.find (s.self.expectedIndex + j) = none ∨
      s.self.inputMessages.find (s.self.expectedIndex + j) =
        some (signed hmac key (s.self.expectedIndex + j) (partsOf partner x.1 x.2)[j]) := by
  cases hd : s.self.inputMessages.find (s.self.expectedIndex + j) with
  | none => exact .inl rfl
  | some d =>
    have hstream := h.found _ d hd
    rw [getElem?_stream, h.expectedIndex, allParts_at hx hj, List.getElem?_eq_getElem hj, Option.map_some,
      ← h.expectedIndex] at hstream
    rw [hstream]
    exact .inr rfl

/-- A stored datagram with the expected number is the first one of the next message. -/
theorem Receiving.exists_next (h : Receiving hmac key source partner sends s)
    (hd : s.self.inputMessages.find s.self.expectedIndex ≠ none) :
    ∃ x, sends[s.processed.length]? = some x := by
  have hlt := h.lt_count hd
  by_contra hno
  have hnone : sends[s.processed.length]? = none :=
    Option.eq_none_iff_forall_ne_some.mpr fun x hx => hno ⟨x, hx⟩
  rw [h.expectedIndex, List.take_of_length_le (List.getElem?_eq_none_iff.mp hnone)] at hlt
  exact lt_irrefl _ hlt

/-- How many rounds of the loop are left at most. -/
def work (p : DatagramProtocol) : Nat :=
  match p.inputMessages.front with
  | none => 0
  | some (index, _) =>
    if index < p.expectedIndex then 2 * p.inputMessages.size - 1 else 2 * p.inputMessages.size

theorem work_le (p : DatagramProtocol) : work p ≤ 2 * p.inputMessages.size := by
  unfold work
  split
  · omega
  · split_ifs <;> omega

theorem liftExcept_ok {α : Type} {v : Except ProtocolError α} {a : α} (h : v = .ok a) (s : Session) :
    liftExcept v s = .ok a s := by
  rw [h]
  rfl

theorem liftExcept_error {α : Type} {v : Except ProtocolError α} {e : ProtocolError} (h : v = .error e)
    (s : Session) : liftExcept v s = .error e s := by
  rw [h]
  rfl

/-- One round, up to the look at the first stored datagram. -/
theorem continueLoop_round (n : Nat) {s : Session}
    (hgap : s.self.inputMessages.find (afterSkip s).self.lastInputIndex = none) :
    continueLoop (n + 1) s =
      (match s.self.inputMessages.front with
      | none => return ()
      | some (index, datagram) =>
        if s.self.expectedIndex < index then return ()
        else if index < s.self.expectedIndex then do
          modifySelf fun p => { p with inputMessages := p.inputMessages.eraseFront }
          continueLoop n
        else do
          match ← liftExcept (readHead s.self.thisNodeId s.self.partnerNodeId datagram) with
          | .single incoming => do
            processMessage incoming 1
            continueLoop n
          | .multi incoming size => do
            match ← liftExcept (collect s.self.inputMessages s.self.expectedIndex
                (s.self.inputMessages.size + 1) 0 size incoming.message) with
            | none => return ()
            | some (message, index) => do
              processMessage { incoming with message } (index + 1)
              continueLoop n
          | .unknown => throw .outOfFuel : SessionM Unit) (afterSkip s) := by
  have hstops : ¬(s.self.inputMessages.find (afterSkip s).self.lastInputIndex).isSome = true :=
    Option.not_isSome_iff_eq_none.mpr hgap
  change (if (s.self.inputMessages.find (afterSkip s).self.lastInputIndex).isSome = true then throw .outOfFuel
    else _ : SessionM Unit) (afterSkip s) = _
  exact congrFun (if_neg hstops) (afterSkip s)

theorem continueLoop_full (n : Nat) {s : Session}
    (hgap : s.self.inputMessages.find (afterSkip s).self.lastInputIndex ≠ none) :
    continueLoop (n + 1) s = .error .outOfFuel (afterSkip s) := by
  have hfull : (s.self.inputMessages.find (afterSkip s).self.lastInputIndex).isSome = true :=
    Option.isSome_iff_ne_none.mpr hgap
  change (if (s.self.inputMessages.find (afterSkip s).self.lastInputIndex).isSome = true then throw .outOfFuel
    else _ : SessionM Unit) (afterSkip s) = _
  exact congrFun (if_pos hfull) (afterSkip s)

section Round

variable {n index size : Nat} {d message : ConstDataBuffer} {incoming : Incoming}
  (hgap : s.self.inputMessages.find (afterSkip s).self.lastInputIndex = none)
include hgap

theorem continueLoop_none (hf : s.self.inputMessages.front = none) :
    continueLoop (n + 1) s = .ok () (afterSkip s) := by
  rw [continueLoop_round n hgap, hf]
  rfl

theorem continueLoop_later (hf : s.self.inputMessages.front = some (index, d))
    (hlt : s.self.expectedIndex < index) : continueLoop (n + 1) s = .ok () (afterSkip s) := by
  rw [continueLoop_round n hgap, hf]
  dsimp only
  rw [if_pos hlt]
  rfl

theorem continueLoop_stale (hf : s.self.inputMessages.front = some (index, d))
    (hlt : index < s.self.expectedIndex) :
    continueLoop (n + 1) s = continueLoop n (afterDrop (afterSkip s)) := by
  rw [continueLoop_round n hgap, hf]
  dsimp only
  rw [if_neg hlt.not_gt, if_pos hlt]
  rfl

section Head

variable (hf : s.self.inputMessages.front = some (s.self.expectedIndex, d))
include hf

theorem continueLoop_single
    (hread : readHead s.self.thisNodeId s.self.partnerNodeId d = .ok (.single incoming)) :
    continueLoop (n + 1) s = continueLoop n (afterMessage incoming 1 (afterSkip s)) := by
  rw [continueLoop_round n hgap, hf]
  dsimp only
  rw [if_neg (lt_irrefl _), if_neg (lt_irrefl _), StateError.bind_of_ok (liftExcept_ok hread _)]
  rfl

theorem continueLoop_unknown (hread : readHead s.self.thisNodeId s.self.partnerNodeId d = .ok .unknown) :
    continueLoop (n + 1) s = .error .outOfFuel (afterSkip s) := by
  rw [continueLoop_round n hgap, hf]
  dsimp only
  rw [if_neg (lt_irrefl _), if_neg (lt_irrefl _), StateError.bind_of_ok (liftExcept_ok hread _)]
  rfl

theorem continueLoop_error {e : ProtocolError}
    (hread : readHead s.self.thisNodeId s.self.partnerNodeId d = .error e) :
    continueLoop (n + 1) s = .error e (afterSkip s) := by
  rw [continueLoop_round n hgap, hf]
  dsimp only
  rw [if_neg (lt_irrefl _), if_neg (lt_irrefl _), StateError.bind_of_error (liftExcept_error hread _)]

variable (hread : readHead s.self.thisNodeId s.self.partnerNodeId d = .ok (.multi incoming size))
include hread

theorem continueLoop_missing
    (hcollect : collect s.self.inputMessages s.self.expectedIndex (s.self.inputMessages.size + 1) 0 size
      incoming.message = .ok none) :
    continueLoop (n + 1) s = .ok () (afterSkip s) := by
  rw [continueLoop_round n hgap, hf]
  dsimp only
  rw [if_neg (lt_irrefl _), if_neg (lt_irrefl _), StateError.bind_of_ok (liftExcept_ok hread _)]
  dsimp only
  rw [StateError.bind_of_ok (liftExcept_ok hcollect _)]
  rfl

theorem continueLoop_malformed {e : ProtocolError}
    (hcollect : collect s.self.inputMessages s.self.expectedIndex (s.self.inputMessages.size + 1) 0 size
      incoming.message = .error e) :
    continueLoop (n + 1) s = .error e (afterSkip s) := by
  rw [continueLoop_round n hgap, hf]
  dsimp only
  rw [if_neg (lt_irrefl _), if_neg (lt_irrefl _), StateError.bind_of_ok (liftExcept_ok hread _)]
  dsimp only
  rw [StateError.bind_of_error (liftExcept_error hcollect _)]

theorem continueLoop_multi
    (hcollect : collect s.self.inputMessages s.self.expectedIndex (s.self.inputMessages.size + 1) 0 size
      incoming.message = .ok (some (message, index))) :
    continueLoop (n + 1) s =
      continueLoop n (afterMessage { incoming with message } (index + 1) (afterSkip s)) := by
  rw [continueLoop_round n hgap, hf]
  dsimp only
  rw [if_neg (lt_irrefl _), if_neg (lt_irrefl _), StateError.bind_of_ok (liftExcept_ok hread _)]
  dsimp only
  rw [StateError.bind_of_ok (liftExcept_ok hcollect _)]
  rfl

end Head

end Round

/-- A round stops with a message that is not complete or not readable, or it makes progress. -/
inductive Round (hmac : Hmac) (key source partner : ConstDataBuffer) (sends : Sends) (n : Nat) (s : Session) :
    Prop
  | stops (ends : continueLoop (n + 1) s = .ok () (afterSkip s)) (waits : Waits partner sends s)
  | fails (ends : continueLoop (n + 1) s = .error (.runtimeError "Invalid data") (afterSkip s))
      (waits : Waits partner sends s)
  | goesOn (s' : Session) (loops : continueLoop (n + 1) s = continueLoop n s')
      (receiving : Receiving hmac key source partner sends s') (receives : Receives s s')
      (less : work s'.self < work s.self)

/-- What `collect` makes of the datagrams behind the first one of the next message. -/
theorem Receiving.collect_rest (h : Receiving hmac key source partner sends s)
    (hc : count partner sends < indexMod) {x : Nat × Outgoing} (hx : sends[s.processed.length]? = some x)
    (hx' : Sendable x.1 x.2) (hmulti : ¬IsSingle partner x.1 x.2) {d : ConstDataBuffer}
    (hd : s.self.inputMessages.find s.self.expectedIndex = some d) :
    collect s.self.inputMessages s.self.expectedIndex (s.self.inputMessages.size + 1) 0
        (x.2.message.length - firstSize partner x.1 x.2) (x.2.message.take (firstSize partner x.1 x.2)) =
      .ok (if ∀ j, j < (restOf partner x.1 x.2).length →
          s.self.inputMessages.find (s.self.expectedIndex + (0 + 1) + j) ≠ none then
        some (x.2.message, 0 + (restOf partner x.1 x.2).length) else none) := by
  have hleast := hx'.least
  have hextra : 41 + extraSizeOf partner x.2 < x.1 := extraSizeOf_lt hx'
  unfold minMtu at hleast
  have hflat : (restOf partner x.1 x.2).flatten = x.2.message.drop (firstSize partner x.1 x.2) :=
    chunks_flatten (by omega) (by rw [List.length_drop]; omega)
  have hdrop : 0 < (x.2.message.drop (firstSize partner x.1 x.2)).length := by
    rw [List.length_drop]
    unfold IsSingle at hmulti
    unfold firstSize
    omega
  have hlist : (partsOf partner x.1 x.2).length = 1 + (restOf partner x.1 x.2).length := by
    unfold partsOf
    rw [if_neg hmulti, List.length_cons]
    unfold continueParts
    rw [List.length_map, Nat.add_comm]
  have hle := h.next_le hx
  have hspec := @collect_spec hmac s.self.inputMessages key (restOf partner x.1 x.2)
    (chunks_ne_nil (by rw [List.length_drop]; omega))
    (fun piece hp => length_pos_of_mem_chunks (by omega) hdrop hp) s.self.expectedIndex 0
    (s.self.inputMessages.size + 1) (x.2.message.take (firstSize partner x.1 x.2)) (by omega) ?_ ?_
    (by omega)
  · rw [hflat, List.length_drop, List.take_append_drop] at hspec
    exact hspec
  · intro j hj
    have hfound := h.found_at hx (show 1 + j < (partsOf partner x.1 x.2).length by omega)
    have hpart : (partsOf partner x.1 x.2)[1 + j] = (MessageType.continueData, (restOf partner x.1 x.2)[j]) := by
      simp only [partsOf, if_neg hmulti, Nat.add_comm 1 j, List.getElem_cons_succ, continueParts,
        List.getElem_map]
    rw [hpart, ← Nat.add_assoc] at hfound
    exact hfound
  · intro j hj
    obtain rfl : j = 0 := by omega
    rw [Nat.add_zero, hd]
    exact Option.some_ne_none d

theorem Receiving.gap (h : Receiving hmac key source partner sends s) (hc : count partner sends < indexMod) :
    s.self.inputMessages.find (afterSkip s).self.lastInputIndex = none :=
  skipReceived_stops (fun i hi => by have := h.lt_count hi; omega) (Nat.lt_succ_self _)

/-- The message of the next send is handed on. -/
theorem Receiving.round_message (h : Receiving hmac key source partner sends s)
    (hc : count partner sends < indexMod) {d : ConstDataBuffer}
    (hf : s.self.inputMessages.front = some (s.self.expectedIndex, d)) {x : Nat × Outgoing}
    (hx : sends[s.processed.length]? = some x) (hr : Readable x.1 x.2) {n : Nat}
    (hloop : continueLoop (n + 1) s = continueLoop n (afterMessage (incomingOf source x.2)
      (partsOf partner x.1 x.2).length (afterSkip s))) :
    Round hmac key source partner sends n s := by
  have hn : s.self.expectedIndex + (partsOf partner x.1 x.2).length < indexMod := (h.next_le hx).trans_lt hc
  have hparts : 0 < (partsOf partner x.1 x.2).length := List.length_pos_iff.mpr (partsOf_ne_nil _ _ _)
  refine .goesOn _ hloop (receiving_afterMessage (receiving_afterSkip h hc) hc hx hr)
    ((receives_afterSkip s).trans ⟨rfl, has_afterMessage hn, .inr rfl⟩) ?_
  have hsize : s.self.inputMessages.eraseFront.size + 1 = s.self.inputMessages.size :=
    OrderedMap.size_eraseFront hf
  have hstale : s.self.expectedIndex <
      (s.self.expectedIndex + (partsOf partner x.1 x.2).length) % indexMod := by
    rw [Nat.mod_eq_of_lt hn]
    omega
  have hafter : work (afterMessage (incomingOf source x.2) (partsOf partner x.1 x.2).length
      (afterSkip s)).self = 2 * s.self.inputMessages.size - 1 := by
    unfold work
    change (match s.self.inputMessages.front with | none => _ | some (index, _) => _) = _
    rw [hf]
    exact if_pos hstale
  have hbefore : work s.self = 2 * s.self.inputMessages.size := by
    unfold work
    rw [hf]
    exact if_neg (lt_irrefl _)
  omega

/-- A round at a stored first datagram. -/
theorem Receiving.round_head (h : Receiving hmac key source partner sends s)
    (hc : count partner sends < indexMod) (hsend : ∀ x ∈ sends, Sendable x.1 x.2) {d : ConstDataBuffer}
    (hf : s.self.inputMessages.front = some (s.self.expectedIndex, d)) (n : Nat) :
    Round hmac key source partner sends n s := by
  have hstored : s.self.inputMessages.find s.self.expectedIndex = some d := OrderedMap.find_front hf
  have hgap := h.gap hc
  obtain ⟨x, hx⟩ := h.exists_next (by rw [hstored]; exact Option.some_ne_none d)
  have hx' : Sendable x.1 x.2 := hsend x (List.mem_of_getElem? hx)
  have hmtu : 37 < x.1 := by have := hx'.least; unfold minMtu at this; omega
  have hparts : 0 < (partsOf partner x.1 x.2).length := List.length_pos_iff.mpr (partsOf_ne_nil _ _ _)
  have hd : d = signed hmac key s.self.expectedIndex (partsOf partner x.1 x.2)[0] := by
    have := h.found_at hx hparts
    rw [Nat.add_zero, hstored] at this
    simpa using this
  by_cases hone : IsSingle partner x.1 x.2
  · have hlist : partsOf partner x.1 x.2 = [singlePart partner x.2] := if_pos hone
    have hread : readHead s.self.thisNodeId s.self.partnerNodeId d =
        .ok (.single (incomingOf source x.2)) := by
      rw [h.thisNodeId, h.partnerNodeId, hd]
      simp only [hlist, List.getElem_cons_zero]
      exact readHead_singlePart hx'
    refine h.round_message hc hf hx (readable_of_isSingle hone) ?_
    rw [hlist]
    exact continueLoop_single hgap hf hread
  · have hlist : partsOf partner x.1 x.2 =
        firstPart partner x.1 x.2 :: continueParts (restOf partner x.1 x.2) := if_neg hone
    have hread : readHead s.self.thisNodeId s.self.partnerNodeId d = if Readable x.1 x.2 then
        .ok (.multi { incomingOf source x.2 with message := x.2.message.take (firstSize partner x.1 x.2) }
          (x.2.message.length - firstSize partner x.1 x.2))
        else .error (.runtimeError "Invalid data") := by
      rw [h.thisNodeId, h.partnerNodeId, hd]
      simp only [hlist, List.getElem_cons_zero]
      exact readHead_firstPart hx' hone
    by_cases hr : Readable x.1 x.2
    · rw [if_pos hr] at hread
      have hcollect := h.collect_rest hc hx hx' hone hstored
      by_cases hall : ∀ j, j < (restOf partner x.1 x.2).length →
          s.self.inputMessages.find (s.self.expectedIndex + (0 + 1) + j) ≠ none
      · rw [if_pos hall] at hcollect
        refine h.round_message hc hf hx hr ?_
        rw [continueLoop_multi hgap hf hread hcollect, hlist, List.length_cons]
        unfold continueParts
        rw [List.length_map, Nat.zero_add]
        rfl
      · rw [if_neg hall] at hcollect
        refine .stops (continueLoop_missing hgap hf hread hcollect) fun y hy => ?_
        obtain rfl : x = y := Option.some_inj.mp (hx.symm.trans hy)
        push Not at hall
        obtain ⟨j, hj, hnone⟩ := hall
        refine .inr ⟨1 + j, ?_, by rwa [← Nat.add_assoc]⟩
        rw [hlist, List.length_cons]
        unfold continueParts
        rw [List.length_map]
        omega
    · rw [if_neg hr] at hread
      refine .fails (continueLoop_error hgap hf hread) fun y hy => ?_
      obtain rfl : x = y := Option.some_inj.mp (hx.symm.trans hy)
      exact .inl hr

theorem Receiving.round (h : Receiving hmac key source partner sends s) (hc : count partner sends < indexMod)
    (hsend : ∀ x ∈ sends, Sendable x.1 x.2) (n : Nat) : Round hmac key source partner sends n s := by
  have hfirst : ∀ x : Nat × Outgoing, 0 < (partsOf partner x.1 x.2).length :=
    fun x => List.length_pos_iff.mpr (partsOf_ne_nil _ _ _)
  have hgap := h.gap hc
  cases hf : s.self.inputMessages.front with
  | none =>
    refine .stops (continueLoop_none hgap hf) fun x hx => .inr ⟨0, hfirst x, ?_⟩
    exact OrderedMap.find_of_front_none hf _
  | some e =>
    obtain ⟨index, d⟩ := e
    rcases Nat.lt_trichotomy index s.self.expectedIndex with hlt | rfl | hgt
    · refine .goesOn _ (continueLoop_stale hgap hf hlt)
        (receiving_afterDrop (receiving_afterSkip h hc) hf hlt)
        ((receives_afterSkip s).trans ⟨rfl, has_afterDrop hf hlt, .inl rfl⟩) ?_
      have hsize : s.self.inputMessages.eraseFront.size + 1 = s.self.inputMessages.size :=
        OrderedMap.size_eraseFront hf
      have hbefore : work s.self = 2 * s.self.inputMessages.size - 1 := by
        unfold work
        rw [hf]
        exact if_pos hlt
      have hafter : work (afterDrop (afterSkip s)).self ≤ 2 * s.self.inputMessages.eraseFront.size := work_le _
      omega
    · exact h.round_head hc hsend hf n
    · refine .stops (continueLoop_later hgap hf hgt) fun x hx => .inr ⟨0, hfirst x, ?_⟩
      by_contra hne
      exact hgt.not_ge (OrderedMap.front_le hf hne)

/-- The loop comes to an end, and it stops at a message that it cannot hand on. -/
theorem continueLoop_spec {n : Nat} (h : Receiving hmac key source partner sends s)
    (hc : count partner sends < indexMod) (hsend : ∀ x ∈ sends, Sendable x.1 x.2)
    (hn : work s.self < n) :
    ∃ s', (continueLoop n s = .ok () s' ∨ continueLoop n s = .error (.runtimeError "Invalid data") s') ∧
      Receiving hmac key source partner sends s' ∧ Receives s s' ∧ Waits partner sends s' := by
  induction n generalizing s with
  | zero => cases hn
  | succ n ih =>
    cases h.round hc hsend n with
    | stops ends waits =>
      exact ⟨_, .inl ends, receiving_afterSkip h hc, receives_afterSkip s, waits⟩
    | fails ends waits =>
      exact ⟨_, .inr ends, receiving_afterSkip h hc, receives_afterSkip s, waits⟩
    | goesOn s₁ loops receiving receives less =>
      obtain ⟨s', hends, hrec, hmoves, hwaits⟩ := ih receiving (by omega)
      rw [← loops] at hends
      exact ⟨s', hends, hrec, receives.trans hmoves, hwaits⟩

end Receiving

end Vds.DhtNetwork
