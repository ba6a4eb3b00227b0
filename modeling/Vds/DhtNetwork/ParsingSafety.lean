import Vds.DhtNetwork.Checked

/-! What the reading of one message comes to, by the sizes of its datagrams and what their first bytes
announce. -/

namespace Vds.DhtNetwork.Checked

open BinaryDeserializer StateError

/-! ### The layout of a datagram -/

def command (d : ConstDataBuffer) : UInt8 := d.headD 0 &&& MessageType.specialCommand

def hopsCountAt (d : ConstDataBuffer) (offset : Nat) : Nat := (d.getD offset 0).toNat

/-- The size of the message, as its first datagram announces it. -/
def announcedSize (d : ConstDataBuffer) : Nat := (bigEndian ((d.drop 5).take 4)).toNat

/-- The size of all that is not the message: the header with its hops, and the signature. -/
def overhead (d : ConstDataBuffer) : Nat :=
  if command d = MessageType.singleData then 37
  else if command d = MessageType.routeSingleData then 69
  else if command d = MessageType.proxySingleData then 70 + 32 * hopsCountAt d 37
  else if command d = MessageType.data then 41
  else if command d = MessageType.routeData then 73
  else 74 + 32 * hopsCountAt d 41

/-- Where one datagram is a message. -/
def IsWhole (d : ConstDataBuffer) : Prop :=
  command d = MessageType.singleData ∨ command d = MessageType.routeSingleData ∨
    command d = MessageType.proxySingleData

/-- What the size of the datagram less its overhead has to be below of; for messages with hops the code
counts one hop. -/
def countedPart (d : ConstDataBuffer) : Nat :=
  if command d = MessageType.proxyData then d.length - 106 else d.length - overhead d

/-- A datagram that begins a message of several ones, and how much of the message it leaves open. -/
def LeavesOpen (d : ConstDataBuffer) (left : Nat) : Prop :=
  (command d = MessageType.data ∨ command d = MessageType.routeData ∨ command d = MessageType.proxyData) ∧
    countedPart d < announcedSize d ∧ left = announcedSize d - (d.length - overhead d)

/-- A datagram that no message begins with, or that is too short for its header, or announces less than it
brings. -/
def FaultyHead (d : ConstDataBuffer) : Prop :=
  if command d = MessageType.proxyData then
    d.length < 106 ∨ d.length - 106 < announcedSize d ∧
      (d.length < overhead d ∨ announcedSize d < d.length - overhead d)
  else command d = 0 ∨ d.length < overhead d

/-! ### Reads -/

variable {d : ConstDataBuffer}

theorem bytesAt_of_le {offset size : Nat} (h : offset + size ≤ d.length) :
    bytesAt d offset size = .ok ((d.drop offset).take size) := if_pos h

theorem bytesAt_of_lt {offset size : Nat} (h : d.length < offset + size) :
    bytesAt d offset size = .error .outOfRange := if_neg (not_le.mpr h)

theorem hopsAt_of_le {offset n : Nat} (h : offset + 32 * n ≤ d.length) : ∃ hops, hopsAt d offset n = .ok hops := by
  induction n generalizing offset with
  | zero => exact ⟨[], rfl⟩
  | succ n ih =>
    obtain ⟨hops, hhops⟩ := @ih (offset + 32) (by omega)
    refine ⟨(d.drop offset).take 32 :: hops, ?_⟩
    unfold hopsAt
    rw [bytesAt_of_le (by omega), ok_bind, hhops, ok_bind]
    rfl

theorem hopsAt_of_lt {offset n : Nat} (hoffset : offset ≤ d.length) (h : d.length < offset + 32 * n) :
    hopsAt d offset n = .error .outOfRange := by
  induction n generalizing offset with
  | zero => omega
  | succ n ih =>
    unfold hopsAt
    by_cases hfirst : offset + 32 ≤ d.length
    · rw [bytesAt_of_le hfirst, ok_bind, ih hfirst (by omega)]
      rfl
    · rw [bytesAt_of_lt (by omega)]
      rfl

theorem numberAt_byte {offset : Nat} (h : offset < d.length) : numberAt d offset 1 = .ok (hopsCountAt d offset) := by
  have hone : (d.drop offset).take 1 = [d.getD offset 0] := by
    rw [List.getD_eq_getElem _ _ h, List.drop_eq_getElem_cons h]
    rfl
  unfold numberAt
  rw [bytesAt_of_le h, ok_bind, hone, bigEndian_byte]
  rfl

theorem numberAt_size (h : 9 ≤ d.length) : numberAt d 5 4 = .ok (announcedSize d) := by
  unfold numberAt
  rw [bytesAt_of_le h]
  rfl

theorem hopsCountAt_zero (d : ConstDataBuffer) : hopsCountAt d 0 = (d.headD 0).toNat := by
  unfold hopsCountAt
  cases d <;> rfl

theorem minus_of_le {a b : Nat} (h : b ≤ a) : minus a b = .ok (a - b) := if_pos h

theorem minus_of_lt {a b : Nat} (h : a < b) : minus a b = .error .underflow := if_neg (not_le.mpr h)

/-! ### The first datagram of a message -/

/-- What `readHead` comes to. -/
inductive HeadResult (d : ConstDataBuffer) : Checked Head → Prop
  | fault (e : CheckedError) (isFault : e.IsFault) (faulty : FaultyHead d) : HeadResult d (.error e)
  | unknown (faulty : FaultyHead d) : HeadResult d (.ok .unknown)
  | refused (what : String) (sound : ¬FaultyHead d) (several : ¬IsWhole d) (closed : ∀ left, ¬LeavesOpen d left) :
    HeadResult d (.error (.plain (.runtimeError what)))
  | single (incoming : Incoming) (sound : ¬FaultyHead d) (whole : IsWhole d) : HeadResult d (.ok (.single incoming))
  | multi (incoming : Incoming) (left : Nat) (sound : ¬FaultyHead d) (several : ¬IsWhole d) (opens : LeavesOpen d left) :
    HeadResult d (.ok (.multi incoming left))

variable {thisNodeId partnerNodeId : ConstDataBuffer}

theorem plain_bind_ok {α β : Type} (a : α) (f : α → Checked β) : (plain (.ok a) >>= f) = f a := rfl

theorem plain_bind_error {α β : Type} (e : ProtocolError) (f : α → Checked β) :
    (plain (.error e) >>= f) = .error (.plain e) := rfl

theorem minus_bind_of_le {β : Type} {a b : Nat} (h : b ≤ a) (f : Nat → Checked β) : (minus a b >>= f) = f (a - b) := by
  rw [minus_of_le h]
  rfl

theorem minus_bind_of_lt {β : Type} {a b : Nat} (h : a < b) (f : Nat → Checked β) :
    (minus a b >>= f) = .error .underflow := by
  rw [minus_of_lt h]
  rfl

/-- The first switch. -/
theorem readHead_first (hlength : 33 ≤ d.length) {β : Type} (f : Nat → Checked β) :
    (plain (numberAt d 0 1) >>= f) = f (d.headD 0).toNat := by
  rw [numberAt_byte (by omega), plain_bind_ok, hopsCountAt_zero]

theorem head_singleData (hlength : 33 ≤ d.length) (hc : command d = MessageType.singleData) :
    HeadResult d (readHead thisNodeId partnerNodeId d) := by
  have hoverhead : overhead d = 37 := if_pos hc
  have hfaulty : FaultyHead d ↔ d.length < 37 := by
    unfold FaultyHead
    rw [hc, if_neg (by decide), hoverhead, or_iff_right (by decide)]
  unfold readHead
  rw [readHead_first hlength]
  dsimp only
  rw [UInt8.ofNat_toNat]
  change HeadResult d (if command d = _ then _ else _)
  rw [if_pos hc]
  by_cases hlt : d.length < 37
  · rw [minus_bind_of_lt hlt]
    exact .fault _ trivial (hfaulty.mpr hlt)
  · rw [minus_bind_of_le (not_lt.mp hlt), bytesAt_of_le (by omega), plain_bind_ok]
    exact .single _ (fun h => hlt (hfaulty.mp h)) (.inl hc)

theorem head_routeSingleData (hlength : 33 ≤ d.length) (hc : command d = MessageType.routeSingleData) :
    HeadResult d (readHead thisNodeId partnerNodeId d) := by
  have hoverhead : overhead d = 69 := by
    unfold overhead
    rw [hc]
    rfl
  have hfaulty : FaultyHead d ↔ d.length < 69 := by
    unfold FaultyHead
    rw [hc, if_neg (by decide), hoverhead, or_iff_right (by decide)]
  unfold readHead
  rw [readHead_first hlength]
  dsimp only
  rw [UInt8.ofNat_toNat]
  change HeadResult d (if command d = _ then _ else if command d = _ then _ else _)
  rw [hc, if_neg (by decide), if_pos rfl]
  by_cases htarget : d.length < 37
  · rw [bytesAt_of_lt (by omega)]
    exact .fault _ (.inl rfl) (hfaulty.mpr (by omega))
  · rw [bytesAt_of_le (by omega), plain_bind_ok]
    by_cases hlt : d.length < 69
    · rw [minus_bind_of_lt hlt]
      exact .fault _ trivial (hfaulty.mpr hlt)
    · rw [minus_bind_of_le (not_lt.mp hlt), bytesAt_of_le (by omega), plain_bind_ok]
      exact .single _ (fun h => hlt (hfaulty.mp h)) (.inr (.inl hc))

theorem head_proxySingleData (hlength : 33 ≤ d.length) (hc : command d = MessageType.proxySingleData) :
    HeadResult d (readHead thisNodeId partnerNodeId d) := by
  have hoverhead : overhead d = 70 + 32 * hopsCountAt d 37 := by
    unfold overhead
    rw [hc]
    rfl
  have hfaulty : FaultyHead d ↔ d.length < 70 + 32 * hopsCountAt d 37 := by
    unfold FaultyHead
    rw [hc, if_neg (by decide), hoverhead, or_iff_right (by decide)]
  unfold readHead
  rw [readHead_first hlength]
  dsimp only
  rw [UInt8.ofNat_toNat]
  change HeadResult d (if command d = _ then _ else if command d = _ then _ else if command d = _ then _ else _)
  rw [hc, if_neg (by decide), if_neg (by decide), if_pos rfl]
  by_cases htarget : d.length < 37
  · rw [bytesAt_of_lt (by omega)]
    exact .fault _ (.inl rfl) (hfaulty.mpr (by omega))
  · rw [bytesAt_of_le (by omega), plain_bind_ok]
    by_cases hcount : d.length < 38
    · have hread : numberAt d 37 1 = .error .outOfRange := by
        unfold numberAt
        rw [bytesAt_of_lt (by omega)]
        rfl
      rw [hread]
      exact .fault _ (.inl rfl) (hfaulty.mpr (by omega))
    · rw [numberAt_byte (by omega), plain_bind_ok]
      by_cases hhops : d.length < 38 + 32 * hopsCountAt d 37
      · rw [hopsAt_of_lt (by omega) hhops]
        exact .fault _ (.inl rfl) (hfaulty.mpr (by omega))
      · obtain ⟨hops, hread⟩ := @hopsAt_of_le d 38 (hopsCountAt d 37) (not_lt.mp hhops)
        rw [hread, plain_bind_ok]
        by_cases hlt : d.length < 70 + 32 * hopsCountAt d 37
        · rw [minus_bind_of_lt hlt]
          exact .fault _ trivial (hfaulty.mpr hlt)
        · rw [minus_bind_of_le (not_lt.mp hlt), bytesAt_of_le (by omega), plain_bind_ok]
          exact .single _ (fun h => hlt (hfaulty.mp h)) (.inr (.inr hc))

/-- A command of several datagrams is none of one. -/
theorem not_isWhole (h : command d = MessageType.data ∨ command d = MessageType.routeData ∨
    command d = MessageType.proxyData) : ¬IsWhole d := by
  unfold IsWhole
  rcases h with h | h | h <;> rw [h] <;> decide

theorem head_data (hlength : 33 ≤ d.length) (hc : command d = MessageType.data) :
    HeadResult d (readHead thisNodeId partnerNodeId d) := by
  have hoverhead : overhead d = 41 := by
    unfold overhead
    rw [hc]
    rfl
  have hcounted : countedPart d = d.length - 41 := by
    unfold countedPart
    rw [hc, if_neg (by decide), hoverhead]
  have hfaulty : FaultyHead d ↔ d.length < 41 := by
    unfold FaultyHead
    rw [hc, if_neg (by decide), hoverhead, or_iff_right (by decide)]
  have hseveral := not_isWhole (.inl hc)
  unfold readHead
  rw [readHead_first hlength]
  dsimp only
  rw [UInt8.ofNat_toNat]
  change HeadResult d (if command d = _ then _ else if command d = _ then _ else if command d = _ then _ else
    if command d = _ then _ else _)
  rw [hc, if_neg (by decide), if_neg (by decide), if_neg (by decide), if_pos rfl, numberAt_size (by omega),
    plain_bind_ok]
  by_cases hlt : d.length < 41
  · rw [minus_bind_of_lt hlt]
    exact .fault _ trivial (hfaulty.mpr hlt)
  · have hsound : ¬FaultyHead d := fun h => hlt (hfaulty.mp h)
    rw [minus_bind_of_le (not_lt.mp hlt)]
    by_cases hsize : announcedSize d ≤ d.length - 41
    · rw [if_pos hsize]
      refine .refused _ hsound hseveral fun left h => ?_
      have hopen := h.2.1
      omega
    · rw [if_neg hsize, minus_bind_of_le (by omega), bytesAt_of_le (by omega), plain_bind_ok]
      exact .multi _ _ hsound hseveral ⟨.inl hc, by omega, by rw [hoverhead]⟩

theorem head_routeData (hlength : 33 ≤ d.length) (hc : command d = MessageType.routeData) :
    HeadResult d (readHead thisNodeId partnerNodeId d) := by
  have hoverhead : overhead d = 73 := by
    unfold overhead
    rw [hc]
    rfl
  have hcounted : countedPart d = d.length - 73 := by
    unfold countedPart
    rw [hc, if_neg (by decide), hoverhead]
  have hfaulty : FaultyHead d ↔ d.length < 73 := by
    unfold FaultyHead
    rw [hc, if_neg (by decide), hoverhead, or_iff_right (by decide)]
  have hseveral := not_isWhole (.inr (.inl hc))
  unfold readHead
  rw [readHead_first hlength]
  dsimp only
  rw [UInt8.ofNat_toNat]
  change HeadResult d (if command d = _ then _ else if command d = _ then _ else if command d = _ then _ else
    if command d = _ then _ else if command d = _ then _ else _)
  rw [hc, if_neg (by decide), if_neg (by decide), if_neg (by decide), if_neg (by decide), if_pos rfl,
    numberAt_size (by omega), plain_bind_ok]
  by_cases hlt : d.length < 73
  · rw [minus_bind_of_lt hlt]
    exact .fault _ trivial (hfaulty.mpr hlt)
  · have hsound : ¬FaultyHead d := fun h => hlt (hfaulty.mp h)
    rw [minus_bind_of_le (not_lt.mp hlt)]
    by_cases hsize : announcedSize d ≤ d.length - 73
    · rw [if_pos hsize]
      refine .refused _ hsound hseveral fun left h => ?_
      have hopen := h.2.1
      omega
    · rw [if_neg hsize, minus_bind_of_le (by omega), bytesAt_of_le (by omega), plain_bind_ok,
        bytesAt_of_le (by omega), plain_bind_ok]
      exact .multi _ _ hsound hseveral ⟨.inr (.inl hc), by omega, by rw [hoverhead]⟩

theorem head_proxyData (hlength : 33 ≤ d.length) (hc : command d = MessageType.proxyData) :
    HeadResult d (readHead thisNodeId partnerNodeId d) := by
  have hoverhead : overhead d = 74 + 32 * hopsCountAt d 41 := by
    unfold overhead
    rw [hc]
    rfl
  have hcounted : countedPart d = d.length - 106 := by
    unfold countedPart
    rw [if_pos hc]
  have hfaulty : FaultyHead d ↔ d.length < 106 ∨ d.length - 106 < announcedSize d ∧
      (d.length < overhead d ∨ announcedSize d < d.length - overhead d) := by
    unfold FaultyHead
    rw [if_pos hc]
  have hseveral := not_isWhole (.inr (.inr hc))
  unfold readHead
  rw [readHead_first hlength]
  dsimp only
  rw [UInt8.ofNat_toNat]
  change HeadResult d (if command d = _ then _ else if command d = _ then _ else if command d = _ then _ else
    if command d = _ then _ else if command d = _ then _ else if command d = _ then _ else _)
  rw [hc, if_neg (by decide), if_neg (by decide), if_neg (by decide), if_neg (by decide), if_neg (by decide),
    if_pos rfl, numberAt_size (by omega), plain_bind_ok]
  by_cases hlt : d.length < 106
  · rw [minus_bind_of_lt hlt]
    exact .fault _ trivial (hfaulty.mpr (.inl hlt))
  · rw [minus_bind_of_le (not_lt.mp hlt)]
    by_cases hsize : announcedSize d ≤ d.length - 106
    · rw [if_pos hsize]
      refine .refused _ (fun h => ?_) hseveral fun left h => ?_
      · rcases hfaulty.mp h with h | ⟨h, -⟩ <;> omega
      · have hopen := h.2.1
        omega
    · rw [if_neg hsize, bytesAt_of_le (by omega), plain_bind_ok, numberAt_byte (by omega), plain_bind_ok]
      rw [not_le] at hsize
      by_cases hhops : d.length < 42 + 32 * hopsCountAt d 41
      · rw [hopsAt_of_lt (by omega) hhops]
        exact .fault _ (.inl rfl) (hfaulty.mpr (.inr ⟨hsize, .inl (by omega)⟩))
      · obtain ⟨hops, hread⟩ := @hopsAt_of_le d 42 (hopsCountAt d 41) (not_lt.mp hhops)
        rw [hread, plain_bind_ok]
        by_cases hover : d.length < 74 + 32 * hopsCountAt d 41
        · rw [minus_bind_of_lt hover]
          exact .fault _ trivial (hfaulty.mpr (.inr ⟨hsize, .inl (by omega)⟩))
        · rw [minus_bind_of_le (not_lt.mp hover)]
          by_cases hless : announcedSize d < d.length - (74 + 32 * hopsCountAt d 41)
          · rw [minus_bind_of_lt hless]
            exact .fault _ trivial (hfaulty.mpr (.inr ⟨hsize, .inr (by rw [hoverhead]; exact hless)⟩))
          · rw [minus_bind_of_le (not_lt.mp hless), bytesAt_of_le (by omega), plain_bind_ok]
            refine .multi _ _ (fun h => ?_) hseveral ⟨.inr (.inr hc), by omega, by rw [hoverhead]⟩
            rcases hfaulty.mp h with h | ⟨-, h | h⟩ <;> omega

/-- A datagram that continues a message does not begin one. -/
theorem head_continueData (hlength : 33 ≤ d.length) (hc : command d = 0) :
    HeadResult d (readHead thisNodeId partnerNodeId d) := by
  have hfaulty : FaultyHead d := by
    unfold FaultyHead
    rw [hc, if_neg (by decide)]
    exact .inl rfl
  unfold readHead
  rw [readHead_first hlength]
  dsimp only
  rw [UInt8.ofNat_toNat]
  change HeadResult d (if command d = _ then _ else if command d = _ then _ else if command d = _ then _ else
    if command d = _ then _ else if command d = _ then _ else if command d = _ then _ else _)
  rw [hc, if_neg (by decide), if_neg (by decide), if_neg (by decide), if_neg (by decide), if_neg (by decide),
    if_neg (by decide)]
  exact .unknown hfaulty

theorem readHead_result (hlength : 33 ≤ d.length) (hdata : isDataCommand (d.headD 0) = true) :
    HeadResult d (readHead thisNodeId partnerNodeId d) := by
  unfold isDataCommand at hdata
  simp only [Bool.or_eq_true, decide_eq_true_eq] at hdata
  change (((((command d = _ ∨ command d = _) ∨ command d = _) ∨ command d = _) ∨ command d = _) ∨ command d = _) ∨ _
    at hdata
  rcases hdata with (((((h | h) | h) | h) | h) | h) | h
  · exact head_singleData hlength h
  · exact head_routeSingleData hlength h
  · exact head_proxySingleData hlength h
  · exact head_data hlength h
  · exact head_routeData hlength h
  · exact head_proxyData hlength h
  · refine head_continueData hlength ?_
    unfold command
    rw [h]
    rfl

/-! ### The datagrams behind the first one -/

def IsContinue (d : ConstDataBuffer) : Prop := d.headD 0 = MessageType.continueData

/-- From the number `start` on, `count` datagrams bring exactly the `left` bytes that are missing. -/
inductive Continues (m : OrderedMap Nat ConstDataBuffer) : Nat → Nat → Nat → Prop
  | last {start left : Nat} {d : ConstDataBuffer} (found : m.find start = some d) (kind : IsContinue d)
    (long : 37 ≤ d.length) (fits : d.length - 37 = left) : Continues m start left 1
  | more {start left count : Nat} {d : ConstDataBuffer} (found : m.find start = some d) (kind : IsContinue d)
    (long : 37 ≤ d.length) (fits : d.length - 37 < left)
    (rest : Continues m (start + 1) (left - (d.length - 37)) count) : Continues m start left (count + 1)

/-- Before the message is complete, a datagram comes that is too short for its header. -/
inductive FaultyTail (m : OrderedMap Nat ConstDataBuffer) : Nat → Nat → Prop
  | here {start left : Nat} {d : ConstDataBuffer} (found : m.find start = some d) (kind : IsContinue d)
    (short : d.length < 37) : FaultyTail m start left
  | later {start left : Nat} {d : ConstDataBuffer} (found : m.find start = some d) (kind : IsContinue d)
    (long : 37 ≤ d.length) (fits : d.length - 37 < left)
    (rest : FaultyTail m (start + 1) (left - (d.length - 37))) : FaultyTail m start left

section Tail

variable {m : OrderedMap Nat ConstDataBuffer} {start left count : Nat}

theorem not_continues_of_none (h : m.find start = none) : ¬Continues m start left count := by
  intro hc
  cases hc with
  | last found _ _ _ =>
    rw [h] at found
    cases found
  | more found _ _ _ _ =>
    rw [h] at found
    cases found

theorem not_faultyTail_of_none (h : m.find start = none) : ¬FaultyTail m start left := by
  intro hf
  cases hf with
  | here found _ _ =>
    rw [h] at found
    cases found
  | later found _ _ _ _ =>
    rw [h] at found
    cases found

theorem continues_iff (h : m.find start = some d) : Continues m start left count ↔
    IsContinue d ∧ 37 ≤ d.length ∧ (d.length - 37 = left ∧ count = 1 ∨
      d.length - 37 < left ∧ ∃ k, Continues m (start + 1) (left - (d.length - 37)) k ∧ count = k + 1) := by
  constructor
  · intro hc
    cases hc with
    | last found kind long fits =>
      obtain rfl := Option.some_inj.mp (h.symm.trans found)
      exact ⟨kind, long, .inl ⟨fits, rfl⟩⟩
    | more found kind long fits rest =>
      obtain rfl := Option.some_inj.mp (h.symm.trans found)
      exact ⟨kind, long, .inr ⟨fits, _, rest, rfl⟩⟩
  · rintro ⟨kind, long, ⟨fits, rfl⟩ | ⟨fits, k, rest, rfl⟩⟩
    · exact .last h kind long fits
    · exact .more h kind long fits rest

theorem faultyTail_iff (h : m.find start = some d) : FaultyTail m start left ↔
    IsContinue d ∧ (d.length < 37 ∨
      37 ≤ d.length ∧ d.length - 37 < left ∧ FaultyTail m (start + 1) (left - (d.length - 37))) := by
  constructor
  · intro hf
    cases hf with
    | here found kind short =>
      obtain rfl := Option.some_inj.mp (h.symm.trans found)
      exact ⟨kind, .inl short⟩
    | later found kind long fits rest =>
      obtain rfl := Option.some_inj.mp (h.symm.trans found)
      exact ⟨kind, .inr ⟨long, fits, rest⟩⟩
  · rintro ⟨kind, short | ⟨long, fits, rest⟩⟩
    · exact .here h kind short
    · exact .later h kind long fits rest

/-- What `collect` comes to. -/
inductive TailResult (m : OrderedMap Nat ConstDataBuffer) (start left index : Nat) :
    Checked (Option (ConstDataBuffer × Nat)) → Prop
  | fault (e : CheckedError) (isFault : e.IsFault) (faulty : FaultyTail m start left) :
    TailResult m start left index (.error e)
  | refused (what : String) (sound : ¬FaultyTail m start left) (never : ∀ k, ¬Continues m start left k) :
    TailResult m start left index (.error (.plain (.runtimeError what)))
  | missing (sound : ¬FaultyTail m start left) (never : ∀ k, ¬Continues m start left k) :
    TailResult m start left index (.ok none)
  | complete (message : ConstDataBuffer) (k : Nat) (sound : ¬FaultyTail m start left)
    (only : ∀ k', Continues m start left k' ↔ k' = k) : TailResult m start left index (.ok (some (message, index + k)))

/-- The stored datagrams, of which the first one is expected, and a number that is not stored. -/
structure AtFront (m : OrderedMap Nat ConstDataBuffer) (expectedIndex : Nat) : Prop where
  keys : ∀ i, m.find i ≠ none → i < indexMod
  long : ∀ i d, m.find i = some d → 33 ≤ d.length
  gap : ∃ i, i < indexMod ∧ m.find i = none
  least : ∀ i, m.find i ≠ none → expectedIndex ≤ i

/-- The numbers do not go round while datagrams are collected. -/
theorem AtFront.find_mod {expectedIndex : Nat} (h : AtFront m expectedIndex) {index : Nat}
    (hfound : ∀ j, j ≤ index → m.find (expectedIndex + j) ≠ none) :
    m.find ((expectedIndex + (index + 1)) % indexMod) = m.find (expectedIndex + (index + 1)) := by
  have hlast := h.keys _ (hfound index le_rfl)
  rcases Nat.lt_or_ge (expectedIndex + (index + 1)) indexMod with hlt | hge
  · rw [Nat.mod_eq_of_lt hlt]
  · have heq : expectedIndex + (index + 1) = indexMod := by omega
    rw [heq, Nat.mod_self]
    have hbehind : m.find indexMod = none := by
      by_contra hne
      exact lt_irrefl _ (h.keys _ hne)
    rw [hbehind]
    by_contra hzero
    have hleast := h.least 0 hzero
    obtain ⟨i, hi, hnone⟩ := h.gap
    refine hfound i (by omega) ?_
    rw [Nat.le_zero.mp hleast, Nat.zero_add]
    exact hnone

theorem collect_result {expectedIndex : Nat} (h : AtFront m expectedIndex) {n index : Nat} {message : ConstDataBuffer}
    (hfound : ∀ j, j ≤ index → m.find (expectedIndex + j) ≠ none) (hn : n + index = m.size + 1) :
    TailResult m (expectedIndex + (index + 1)) left index (collect m expectedIndex n index left message) := by
  induction n generalizing index left message with
  | zero =>
    have hrun : index + 1 ≤ m.size := @OrderedMap.run_le_size _ m expectedIndex (index + 1) fun j hj => hfound j (by omega)
    omega
  | succ n ih =>
    unfold collect
    rw [h.find_mod hfound]
    cases hd : m.find (expectedIndex + (index + 1)) with
    | none => exact .missing (not_faultyTail_of_none hd) fun _ => not_continues_of_none hd
    | some d =>
      have hlong := h.long _ _ hd
      dsimp only
      rw [readHead_first hlong]
      by_cases hkind : IsContinue d
      · have hbyte : ¬(d.headD 0).toNat ≠ MessageType.continueData.toNat := not_not.mpr (congrArg UInt8.toNat hkind)
        rw [if_neg hbyte]
        by_cases hshort : d.length < 37
        · rw [minus_bind_of_lt hshort]
          exact .fault _ trivial ((faultyTail_iff hd).mpr ⟨hkind, .inl hshort⟩)
        · rw [not_lt] at hshort
          rw [minus_bind_of_le hshort]
          by_cases hover : left < d.length - 37
          · rw [if_pos hover]
            refine .refused _ (fun hf => ?_) fun k hc => ?_
            · rcases ((faultyTail_iff hd).mp hf).2 with hf | ⟨-, hf, -⟩ <;> omega
            · rcases ((continues_iff hd).mp hc).2.2 with ⟨hc, -⟩ | ⟨hc, -⟩ <;> omega
          · rw [not_lt] at hover
            rw [if_neg (not_lt.mpr hover), bytesAt_of_le (by omega), plain_bind_ok, minus_bind_of_le hover]
            by_cases hdone : left - (d.length - 37) = 0
            · rw [if_pos hdone]
              refine .complete _ 1 (fun hf => ?_) fun k => ?_
              · rcases ((faultyTail_iff hd).mp hf).2 with hf | ⟨-, hf, -⟩ <;> omega
              · rw [continues_iff hd]
                constructor
                · rintro ⟨-, -, ⟨-, hk⟩ | ⟨hless, -⟩⟩
                  · exact hk
                  · omega
                · exact fun hk => ⟨hkind, hshort, .inl ⟨by omega, hk⟩⟩
            · rw [if_neg hdone]
              have hless : d.length - 37 < left := by omega
              have hnext : ∀ j, j ≤ index + 1 → m.find (expectedIndex + j) ≠ none := by
                intro j hj
                rcases Nat.le_succ_iff.mp hj with hj | rfl
                · exact hfound j hj
                · rw [hd]
                  exact Option.some_ne_none d
              have hrest := @ih (left - (d.length - 37)) (index + 1) (message ++ (d.drop 5).take (d.length - 37)) hnext (by omega)
              have hfaulty : FaultyTail m (expectedIndex + (index + 1)) left ↔
                  FaultyTail m (expectedIndex + (index + 1 + 1)) (left - (d.length - 37)) := by
                rw [faultyTail_iff hd]
                constructor
                · rintro ⟨-, hf | ⟨-, -, hf⟩⟩
                  · omega
                  · exact hf
                · exact fun hf => ⟨hkind, .inr ⟨hshort, hless, hf⟩⟩
              have hcontinues (k : Nat) : Continues m (expectedIndex + (index + 1)) left k ↔
                  ∃ k', Continues m (expectedIndex + (index + 1 + 1)) (left - (d.length - 37)) k' ∧ k = k' + 1 := by
                rw [continues_iff hd]
                constructor
                · rintro ⟨-, -, ⟨he, -⟩ | ⟨-, hc⟩⟩
                  · omega
                  · exact hc
                · exact fun hc => ⟨hkind, hshort, .inr ⟨hless, hc⟩⟩
              cases hr : collect m expectedIndex n (index + 1) (left - (d.length - 37))
                  (message ++ (d.drop 5).take (d.length - 37)) with
              | error e =>
                rw [hr] at hrest
                cases hrest with
                | fault _ isFault faulty => exact .fault _ isFault (hfaulty.mpr faulty)
                | refused what sound never =>
                  refine .refused _ (fun hf => sound (hfaulty.mp hf)) fun k hc => ?_
                  obtain ⟨k', hc, -⟩ := (hcontinues k).mp hc
                  exact never k' hc
              | ok o =>
                rw [hr] at hrest
                cases hrest with
                | missing sound never =>
                  refine .missing (fun hf => sound (hfaulty.mp hf)) fun k hc => ?_
                  obtain ⟨k', hc, -⟩ := (hcontinues k).mp hc
                  exact never k' hc
                | complete text k sound only =>
                  have hindex : index + 1 + k = index + (k + 1) := by omega
                  rw [hindex]
                  refine .complete text (k + 1) (fun hf => sound (hfaulty.mp hf)) fun k' => ?_
                  rw [hcontinues]
                  constructor
                  · rintro ⟨k'', hc, rfl⟩
                    rw [(only k'').mp hc]
                  · exact fun hk => ⟨k, (only k).mpr rfl, hk⟩
      · have hbyte : (d.headD 0).toNat ≠ MessageType.continueData.toNat := fun he => hkind (UInt8.toNat_inj.mp he)
        rw [if_pos hbyte]
        exact .refused _ (fun hf => hkind ((faultyTail_iff hd).mp hf).1) fun k hc => hkind ((continues_iff hd).mp hc).1

end Tail

end Vds.DhtNetwork.Checked
