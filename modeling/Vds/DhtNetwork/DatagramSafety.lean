import Vds.DhtNetwork.LoopSafety

/-! Which datagrams make a session read behind their end, compute a size below zero or loop for ever. -/

namespace Vds.DhtNetwork.Checked

open BinaryDeserializer StateError

variable {hmac : Hmac} {d : ConstDataBuffer} {s : Session}

/-! ### Acknowledgments -/

/-- What is still queued when the datagrams in front of `last` are erased. -/
def queuedFrom (s : Session) (last i : Nat) : Option ConstDataBuffer :=
  if i < last then none else s.self.outputMessages.find i

/-- The transport refuses one of the datagrams with these numbers, as far as they are queued. -/
def IsRefused (s : Session) (last : Nat) (indexes : List Nat) : Prop :=
  true ∈ s.refuses.take (indexes.filterMap (queuedFrom s last)).length

/-- The numbers that a mask asks for. -/
def maskedIndexes (last mask : Nat) : List Nat :=
  ((List.range 32).filter mask.testBit).map fun i => (last + i + 1) % indexMod

/-- An acknowledgment has all its fields, or a refused write ends the call before it comes to the fields
that are not there. -/
def AcknowledgmentReads (d : ConstDataBuffer) (s : Session) : Prop :=
  11 ≤ d.length ∨ ∃ last, numberAt d 1 4 = .ok last ∧ (IsRefused s last [last] ∨
    ∃ mask, numberAt d 5 4 = .ok mask ∧ IsRefused s last (last :: maskedIndexes last mask))

theorem numberAt_of_le {offset size : Nat} (h : offset + size ≤ d.length) : ∃ n, numberAt d offset size = .ok n := by
  unfold numberAt
  rw [bytesAt_of_le h]
  exact ⟨_, rfl⟩

theorem numberAt_of_lt {offset size : Nat} (h : d.length < offset + size) :
    numberAt d offset size = .error .outOfRange := by
  unfold numberAt
  rw [bytesAt_of_lt h]
  rfl

theorem resend_writes (index : Nat) (s : Session) :
    resend index s = writes ([index].filterMap s.self.outputMessages.find) s := by
  rw [← forM_resend]
  change resend index s = (resend index >>= fun _ => pure ()) s
  rw [bind_pure_unit]

theorem find_erased (last i : Nat) :
    (eraseAcknowledged last s.self.outputMessages.size s.self).outputMessages.find i = queuedFrom s last i :=
  find_eraseAcknowledged le_rfl i

theorem mem_take_add {refuses : List Bool} {m n : Nat} :
    true ∈ refuses.take (m + n) ↔ true ∈ refuses.take m ∨ true ∈ (refuses.drop m).take n := by
  rw [List.take_add, List.mem_append]

theorem isRefused_cons {last : Nat} {indexes : List Nat} : IsRefused s last (last :: indexes) ↔
    IsRefused s last [last] ∨ true ∈ (s.refuses.drop ([last].filterMap (queuedFrom s last)).length).take
      (indexes.filterMap (queuedFrom s last)).length := by
  have happend : (last :: indexes).filterMap (queuedFrom s last) =
      [last].filterMap (queuedFrom s last) ++ indexes.filterMap (queuedFrom s last) :=
    @List.filterMap_append _ _ [last] indexes _
  unfold IsRefused
  rw [happend, List.length_append, mem_take_add]

/-- The session whose queue is erased in front of `last`. -/
def erasedBefore (last : Nat) (s : Session) : Session :=
  { s with self := eraseAcknowledged last s.self.outputMessages.size s.self }

theorem self_afterWrites (ds : List ConstDataBuffer) (s : Session) : (afterWrites ds s).self = s.self := by
  unfold afterWrites
  split_ifs <;> rfl

/-- The errors of unchecked code that are no faults. -/
def IsPlain (r : EStateM.Result ProtocolError Session Unit) : Prop :=
  ∀ e s', r = .error e s' → e ≠ .outOfRange ∧ e ≠ .outOfFuel

theorem safeResult_plainM (x : SessionM Unit) (s : Session) : SafeResult (plainM x s) ↔ IsPlain (x s) := by
  unfold plainM
  cases h : x s with
  | ok a s' => exact iff_of_true (safeResult_ok s') fun e s'' he => (by cases he)
  | error e s' =>
    rw [safeResult_error]
    change ¬(e = .outOfRange ∨ e = .outOfFuel) ↔ _
    rw [not_or]
    constructor
    · intro hne e' s'' he
      cases he
      exact hne
    · exact fun hne => hne e s' rfl

theorem isPlain_error (e : ProtocolError) (s : Session) :
    IsPlain (.error e s) ↔ e ≠ .outOfRange ∧ e ≠ .outOfFuel := by
  constructor
  · exact fun h => h e s rfl
  · intro h e' s' he
    cases he
    exact h

theorem isPlain_ok (s : Session) : IsPlain (.ok () s) := fun e s' he => (by cases he)

/-- The call with the mask, behind the first write. -/
theorem masked_plain_iff {last mask : Nat} (s₂ : Session) :
    IsPlain (((List.range 32).forM (fun i =>
        if mask.testBit i then resend ((last + i + 1) % indexMod) else return ()) >>= fun _ => do
      let mtu ← liftExcept (numberAt d 9 2)
      modifySelf fun p => { p with mtu := max p.mtu mtu }) s₂) ↔
    11 ≤ d.length ∨
      true ∈ s₂.refuses.take ((maskedIndexes last mask).filterMap s₂.self.outputMessages.find).length := by
  have hwrites : (List.range 32).forM (fun i =>
      if mask.testBit i then resend ((last + i + 1) % indexMod) else return ()) s₂ =
      writes ((maskedIndexes last mask).filterMap s₂.self.outputMessages.find) s₂ := by
    rw [forM_filter]
    exact forM_resend _ _
  unfold writes at hwrites
  split_ifs at hwrites with hrefused
  · rw [bind_of_error hwrites, isPlain_error]
    exact iff_of_true ⟨fun h => (by cases h), fun h => (by cases h)⟩ (.inr hrefused)
  · rw [bind_of_ok hwrites]
    by_cases hlength : 11 ≤ d.length
    · obtain ⟨mtu, hmtu⟩ := @numberAt_of_le d 9 2 hlength
      rw [bind_of_ok (liftExcept_ok hmtu _)]
      exact iff_of_true (isPlain_ok _) (.inl hlength)
    · have hmtu : numberAt d 9 2 = .error .outOfRange := numberAt_of_lt (by omega)
      rw [bind_of_error (liftExcept_error hmtu _), isPlain_error]
      refine iff_of_false (fun h => h.1 rfl) ?_
      rintro (h | h)
      · exact hlength h
      · exact hrefused h

theorem acknowledgment_safe_iff : SafeResult (plainM (processAcknowledgment d) s) ↔ AcknowledgmentReads d s := by
  rw [safeResult_plainM]
  unfold processAcknowledgment AcknowledgmentReads
  by_cases hfive : d.length < 5
  · have hlast : numberAt d 1 4 = .error .outOfRange := numberAt_of_lt (by omega)
    rw [bind_of_error (liftExcept_error hlast _), isPlain_error]
    refine iff_of_false (fun h => h.1 rfl) ?_
    rintro (h | ⟨last, h, -⟩)
    · omega
    · rw [hlast] at h
      cases h
  · obtain ⟨last, hlast⟩ := @numberAt_of_le d 1 4 (by omega)
    have hunique : ∀ {last'}, numberAt d 1 4 = .ok last' → last' = last :=
      fun h => Except.ok.inj (h.symm.trans hlast)
    have herase : modifySelf (fun p => eraseAcknowledged last p.outputMessages.size p) s =
      .ok () (erasedBefore last s) := rfl
    have hfind : (erasedBefore last s).self.outputMessages.find = queuedFrom s last := funext (find_erased last)
    have hwrite := resend_writes last (erasedBefore last s)
    rw [hfind] at hwrite
    rw [bind_of_ok (liftExcept_ok hlast _), bind_of_ok herase]
    by_cases hrefused : IsRefused s last [last]
    · have herror : resend last (erasedBefore last s) = .error .notWritten _ := hwrite.trans (if_pos hrefused)
      rw [bind_of_error herror, isPlain_error]
      exact iff_of_true ⟨fun h => (by cases h), fun h => (by cases h)⟩ (.inr ⟨last, hlast, .inl hrefused⟩)
    · have hok : resend last (erasedBefore last s) = .ok () _ := hwrite.trans (if_neg hrefused)
      rw [bind_of_ok hok]
      by_cases hnine : d.length < 9
      · have hmask : numberAt d 5 4 = .error .outOfRange := numberAt_of_lt (by omega)
        rw [bind_of_error (liftExcept_error hmask _), isPlain_error]
        refine iff_of_false (fun h => h.1 rfl) ?_
        rintro (h | ⟨last', h, hr | ⟨mask, hm, -⟩⟩)
        · omega
        · rw [hunique h] at hr
          exact hrefused hr
        · rw [hmask] at hm
          cases hm
      · obtain ⟨mask, hmask⟩ := @numberAt_of_le d 5 4 (by omega)
        rw [bind_of_ok (liftExcept_ok hmask _)]
        refine (@masked_plain_iff d last mask _).trans ?_
        rw [self_afterWrites, hfind]
        have hrefuses : (afterWrites ([last].filterMap (queuedFrom s last)) (erasedBefore last s)).refuses =
            s.refuses.drop ([last].filterMap (queuedFrom s last)).length := congrArg Session.refuses (if_neg hrefused)
        rw [hrefuses]
        constructor
        · rintro (h | h)
          · exact .inl h
          · exact .inr ⟨last, hlast, .inr ⟨mask, hmask, isRefused_cons.mpr (.inr h)⟩⟩
        · rintro (h | ⟨last', h, hr⟩)
          · exact .inl h
          · rw [hunique h] at hr
            rcases hr with hr | ⟨mask', hm, hr⟩
            · exact absurd hr hrefused
            · obtain rfl : mask' = mask := Except.ok.inj (hm.symm.trans hmask)
              exact .inr ((isRefused_cons.mp hr).resolve_left hrefused)

/-! ### One datagram -/

/-- A datagram with a number: it has come before, or it is stored and what comes to be expected then can
be read. -/
def HarmlessData (d : ConstDataBuffer) (s : Session) : Prop :=
  ∃ index, numberAt d 1 4 = .ok index ∧ (s.self.inputMessages.find index ≠ none ∨
    HasGap (s.self.inputMessages.assign index d) ∧
      NeverFaulty (s.self.inputMessages.assign index d) s.self.expectedIndex)

/-- The session takes no datagrams, or it is not empty and is a test of the MTU, an acknowledgment that can
be read, refused by the checks of its size and command and by the clock, or harmless data. -/
def Harmless (d : ConstDataBuffer) (s : Session) : Prop :=
  Refuses s ∨ ∃ first tail, d = first :: tail ∧ (first = MessageType.mtuTest ∨
    if first = MessageType.acknowledgment then AcknowledgmentReads d s
    else d.length < 33 ∨ isDataCommand first = false ∨ TimedOut s ∨ HarmlessData d s)

theorem index_lt {index : Nat} (h : numberAt d 1 4 = .ok index) : index < indexMod := by
  unfold numberAt bytesAt at h
  split_ifs at h with hlength
  · have hindex : (bigEndian ((d.drop 1).take 4)).toNat = index := Except.ok.inj h
    have hfour : ((d.drop 1).take 4).length = 4 := by
      rw [List.length_take, List.length_drop]
      omega
    have hlt := @bigEndian_lt ((d.drop 1).take 4) (by omega)
    rw [hfour, hindex] at hlt
    exact hlt
  · cases h

theorem sound_stored (hs : Sound s.self) {index : Nat} (hindex : index < indexMod) (hlong : 33 ≤ d.length)
    (hdata : isDataCommand (d.headD 0) = true) : Sound (stored index d s).self := by
  have hfind (i : Nat) : (stored index d s).self.inputMessages.find i =
      if i = index then some d else s.self.inputMessages.find i := OrderedMap.find_assign _ _ _ _
  refine ⟨fun i hi => ?_, fun i d' hd' => ?_, hs.expected, hs.last⟩
  · rw [hfind] at hi
    split_ifs at hi with he
    · exact he ▸ hindex
    · exact hs.keys i hi
  · rw [hfind] at hd'
    split_ifs at hd' with he
    · obtain rfl : d = d' := Option.some_inj.mp hd'
      exact ⟨hlong, hdata⟩
    · exact hs.stored i d' hd'

theorem continueProcessMessages_safe_iff (hs : Sound s.self) : SafeResult (continueProcessMessages s) ↔
    HasGap s.self.inputMessages ∧ NeverFaulty s.self.inputMessages s.self.expectedIndex := by
  change SafeResult (continueLoop (2 * s.self.inputMessages.size + 1) s) ↔ _
  by_cases hgap : HasGap s.self.inputMessages
  · rw [and_iff_right hgap]
    exact continueLoop_safe_iff hs hgap (Nat.lt_succ_of_le (work_le s.self))
  · exact iff_of_false (continueLoop_noGap hs hgap) fun h => hgap h.1

/-- What a datagram with a number comes to. -/
theorem processData_eq {first : UInt8} {index : Nat} (hindex : numberAt d 1 4 = .ok index) (hlong : 33 ≤ d.length)
    (hdata : isDataCommand first = true) : processData hmac first d s =
      if TimedOut s then .error (.plain (.runtimeError "Process timeout")) s
      else if (s.self.inputMessages.find index).isNone then continueProcessMessages (stored index d s)
      else .ok () s := by
  have hget : (get : CheckedM Session) s = .ok s s := rfl
  unfold processData
  rw [bind_of_ok hget, minus_of_le (show 32 ≤ d.length by omega)]
  change (if _ then _ else if _ then _ else _ : CheckedM Unit) s = _
  rw [Expected.operatorNot_eq_false, hdata, hindex]
  simp only [Bool.not_true, Bool.false_eq_true, if_false]
  change (if TimedOut s then _ else if _ then _ else _ : CheckedM Unit) s = _
  split_ifs <;> rfl

theorem processData_of_command {first : UInt8} (hlong : 33 ≤ d.length) (hdata : isDataCommand first = false) :
    processData hmac first d s = .error (.plain (.runtimeError "Invalid data")) s := by
  have hget : (get : CheckedM Session) s = .ok s s := rfl
  unfold processData
  rw [bind_of_ok hget, minus_of_le (show 32 ≤ d.length by omega)]
  change (if _ then _ else if _ then _ else _ : CheckedM Unit) s = _
  rw [Expected.operatorNot_eq_false, hdata]
  rfl

theorem processData_safe_iff {first : UInt8} {tail : ConstDataBuffer} (hd : d = first :: tail) (hs : Sound s.self)
    (hlong : 33 ≤ d.length) :
    SafeResult (processData hmac first d s) ↔ isDataCommand first = false ∨ TimedOut s ∨ HarmlessData d s := by
  cases hdata : isDataCommand first with
  | false =>
    rw [processData_of_command hlong hdata]
    refine iff_of_true ((safeResult_error _ _).mpr ?_) (.inl rfl)
    rintro (he | he) <;> cases he
  | true =>
    obtain ⟨index, hindex⟩ := @numberAt_of_le d 1 4 (by omega)
    rw [processData_eq hindex hlong hdata, or_iff_right (by decide)]
    by_cases htime : TimedOut s
    · rw [if_pos htime]
      refine iff_of_true ((safeResult_error _ _).mpr ?_) (.inl htime)
      rintro (he | he) <;> cases he
    · rw [if_neg htime, or_iff_right htime]
      have hharmless : HarmlessData d s ↔ s.self.inputMessages.find index ≠ none ∨
          HasGap (s.self.inputMessages.assign index d) ∧
            NeverFaulty (s.self.inputMessages.assign index d) s.self.expectedIndex := by
        constructor
        · rintro ⟨index', hindex', h⟩
          rwa [Except.ok.inj (hindex.symm.trans hindex')]
        · exact fun h => ⟨index, hindex, h⟩
      rw [hharmless]
      by_cases hnew : s.self.inputMessages.find index = none
      · rw [if_pos (Option.isNone_iff_eq_none.mpr hnew), or_iff_right (not_not.mpr hnew)]
        have hhead : d.headD 0 = first := by rw [hd]; rfl
        exact continueProcessMessages_safe_iff (sound_stored hs (index_lt hindex) hlong (by rw [hhead, hdata]))
      · rw [if_neg (fun h => hnew (Option.isNone_iff_eq_none.mp h))]
        exact iff_of_true (safeResult_ok s) (.inl hnew)

theorem sound_processData {first : UInt8} {tail : ConstDataBuffer} (hd : d = first :: tail) (hs : Sound s.self)
    (hlong : 33 ≤ d.length) : Sound (final (processData hmac first d s)).self := by
  cases hdata : isDataCommand first with
  | false =>
    rw [processData_of_command hlong hdata]
    exact hs
  | true =>
    obtain ⟨index, hindex⟩ := @numberAt_of_le d 1 4 (by omega)
    have hhead : d.headD 0 = first := by rw [hd]; rfl
    rw [processData_eq hindex hlong hdata]
    split_ifs
    · exact hs
    · exact sound_continueLoop _ (sound_stored hs (index_lt hindex) hlong (by rw [hhead, hdata]))
    · exact hs

/-- Behind the checks of the session itself. -/
def openDatagram (hmac : Hmac) : ConstDataBuffer → CheckedM Unit
  | [] => throw (.plain .outOfRange)
  | first :: tail =>
    if first = MessageType.mtuTest then return ()
    else if first = MessageType.acknowledgment then plainM (processAcknowledgment (first :: tail))
    else if (first :: tail).length < 33 then throw (.plain (.runtimeError "Invalid data"))
    else processData hmac first (first :: tail)

theorem openDatagram_cons (first : UInt8) (tail : ConstDataBuffer) : openDatagram hmac (first :: tail) =
    if first = MessageType.mtuTest then return ()
    else if first = MessageType.acknowledgment then plainM (processAcknowledgment (first :: tail))
    else if (first :: tail).length < 33 then throw (.plain (.runtimeError "Invalid data"))
    else processData hmac first (first :: tail) := rfl

theorem processDatagram_of_open (hopen : ¬Refuses s) :
    processDatagram hmac d s = openDatagram hmac d (measured d s) := by
  have hget : (get : CheckedM Session) s = .ok s s := rfl
  have hmeasured : (modify (measured d) : CheckedM PUnit) s = .ok () (measured d s) := rfl
  unfold Refuses at hopen
  push Not at hopen
  unfold processDatagram
  rw [bind_of_ok hget, if_neg hopen.1, if_neg (Nat.not_lt.mpr hopen.2), bind_of_ok hmeasured]
  cases d <;> rfl

theorem processDatagram_of_refuses (hrefuses : Refuses s) :
    ∃ what, processDatagram hmac d s = .error (.plain (.runtimeError what)) s := by
  have hget : (get : CheckedM Session) s = .ok s s := rfl
  unfold processDatagram
  rw [bind_of_ok hget]
  by_cases hfailed : s.self.failedState = true
  · rw [if_pos hfailed]
    exact ⟨_, rfl⟩
  · rw [if_neg hfailed, if_pos (hrefuses.resolve_left hfailed)]
    exact ⟨_, rfl⟩

theorem harmlessData_measured : HarmlessData d (measured d s) ↔ HarmlessData d s := Iff.rfl

theorem acknowledgmentReads_measured : AcknowledgmentReads d (measured d s) ↔ AcknowledgmentReads d s := Iff.rfl

theorem timedOut_measured : TimedOut (measured d s) ↔ TimedOut s := Iff.rfl

theorem openDatagram_safe_iff {first : UInt8} {tail : ConstDataBuffer} (hs : Sound s.self) :
    SafeResult (openDatagram hmac (first :: tail) (measured (first :: tail) s)) ↔ first = MessageType.mtuTest ∨
      if first = MessageType.acknowledgment then AcknowledgmentReads (first :: tail) s
      else (first :: tail).length < 33 ∨ isDataCommand first = false ∨ TimedOut s ∨ HarmlessData (first :: tail) s := by
  rw [openDatagram_cons]
  by_cases htest : first = MessageType.mtuTest
  · rw [if_pos htest]
    exact iff_of_true (safeResult_ok _) (.inl htest)
  · rw [if_neg htest, or_iff_right htest]
    by_cases hack : first = MessageType.acknowledgment
    · rw [if_pos hack, if_pos hack]
      exact acknowledgment_safe_iff
    · rw [if_neg hack, if_neg hack]
      by_cases hlength : (first :: tail).length < 33
      · rw [if_pos hlength]
        refine iff_of_true ((safeResult_error _ _).mpr ?_) (.inl hlength)
        rintro (he | he) <;> cases he
      · rw [if_neg hlength, or_iff_right hlength]
        exact @processData_safe_iff hmac _ (measured (first :: tail) s) first tail rfl
          ⟨hs.keys, hs.stored, hs.expected, hs.last⟩ (not_lt.mp hlength)

theorem safe_iff_harmless (hs : Sound s.self) : Safe hmac d s ↔ Harmless d s := by
  change SafeResult (processDatagram hmac d s) ↔ _
  unfold Harmless
  by_cases hrefuses : Refuses s
  · obtain ⟨what, hrun⟩ := @processDatagram_of_refuses hmac d s hrefuses
    rw [hrun]
    refine iff_of_true ((safeResult_error _ _).mpr ?_) (.inl hrefuses)
    rintro (he | he) <;> cases he
  · rw [processDatagram_of_open hrefuses, or_iff_right hrefuses]
    cases d with
    | nil =>
      refine iff_of_false (fun h => (safeResult_error _ _).mp h (.inl rfl)) ?_
      rintro ⟨first, tail, hcons, -⟩
      cases hcons
    | cons first tail =>
      rw [openDatagram_safe_iff hs]
      constructor
      · exact fun h => ⟨first, tail, rfl, h⟩
      · rintro ⟨first', tail', hcons, h⟩
        obtain ⟨rfl, rfl⟩ := List.cons.inj hcons
        exact h

/-! ### What a session stores -/

/-- What the reading of datagrams depends on. -/
def inputSide (s : Session) : OrderedMap Nat ConstDataBuffer × Nat × Nat :=
  (s.self.inputMessages, s.self.expectedIndex, s.self.lastInputIndex)

theorem sound_of_inputSide {s' : Session} (h : inputSide s' = inputSide s) (hs : Sound s.self) : Sound s'.self := by
  obtain ⟨hmap, hexpected, hlast⟩ : s'.self.inputMessages = s.self.inputMessages ∧
      s'.self.expectedIndex = s.self.expectedIndex ∧ s'.self.lastInputIndex = s.self.lastInputIndex := by
    unfold inputSide at h
    rwa [Prod.mk.injEq, Prod.mk.injEq] at h
  refine ⟨?_, ?_, ?_, ?_⟩
  · rw [hmap]
    exact hs.keys
  · rw [hmap]
    exact hs.stored
  · rw [hexpected]
    exact hs.expected
  · rw [hlast]
    exact hs.last

theorem inputSide_of_receivingSide {s' : Session} (h : receivingSide s' = receivingSide s) :
    inputSide s' = inputSide s := by
  have hside : inputSide (receivingSide s') = inputSide (receivingSide s) := congrArg inputSide h
  exact hside

theorem final_plainM (x : SessionM Unit) (s : Session) : final (plainM x s) = final (x s) := by
  unfold plainM
  cases x s <;> rfl

theorem frames_processAcknowledgment (d : ConstDataBuffer) : Frames inputSide (processAcknowledgment d) := by
  intro s
  obtain ⟨last, hserves⟩ := exists_serves d s
  exact inputSide_of_receivingSide hserves.receiving

theorem sound_processDatagram (hs : Sound s.self) : Sound (final (processDatagram hmac d s)).self := by
  by_cases hrefuses : Refuses s
  · obtain ⟨what, hrun⟩ := @processDatagram_of_refuses hmac d s hrefuses
    rw [hrun]
    exact hs
  · rw [processDatagram_of_open hrefuses]
    have hmeasured : Sound (measured d s).self := ⟨hs.keys, hs.stored, hs.expected, hs.last⟩
    generalize measured d s = s₁ at hmeasured
    cases d with
    | nil => exact hmeasured
    | cons first tail =>
      rw [openDatagram_cons]
      by_cases htest : first = MessageType.mtuTest
      · rw [if_pos htest]
        exact hmeasured
      · rw [if_neg htest]
        by_cases hack : first = MessageType.acknowledgment
        · rw [if_pos hack, final_plainM]
          exact sound_of_inputSide (frames_processAcknowledgment _ s₁) hmeasured
        · rw [if_neg hack]
          by_cases hlength : (first :: tail).length < 33
          · rw [if_pos hlength]
            exact hmeasured
          · rw [if_neg hlength]
            exact sound_processData rfl hmeasured (not_lt.mp hlength)

end Vds.DhtNetwork.Checked
