import Vds.Http.WebsocketClient
import Vds.Http.MessageDelivery

/-! The client gets every message of the server if no read finds too many of them: it takes one out of its
buffer in every read. -/

namespace Vds.Http

open WebsocketOutput HandlerState

section

variable (m : Message)

theorem fields_serverHeader (tail : ConstDataBuffer) :
    Fields false m.size (serverHeader m.isBinary m.size ++ tail) := fields_header false _ tail

theorem length_serverHeader : (serverHeader m.isBinary m.size).length =
    offsetOf ((serverHeader m.isBinary m.size).getD 1 0) := by
  have hoffset := (fields_serverHeader m []).offset
  rw [List.append_nil] at hoffset
  rw [hoffset]
  unfold serverHeader
  rw [List.length_cons, Nat.add_comm]
  rfl

theorem two_le_serverHeader : 2 ≤ (serverHeader m.isBinary m.size).length := by
  rw [length_serverHeader]
  unfold offsetOf
  split_ifs <;> omega

theorem length_serverFrame : (serverFrame m).length = (serverHeader m.isBinary m.size).length + m.payload.length :=
  List.length_append

theorem serverHeader_le : (serverHeader m.isBinary m.size).length ≤ 10 := by
  rw [length_serverHeader]
  unfold offsetOf
  split_ifs <;> omega

/-- The sum of the sizes does not wrap. -/
theorem toNat_frameEnd :
    (m.size + UInt64.ofNat (serverHeader m.isBinary m.size).length + UInt64.ofNat (maskSize false)).toNat =
      (serverFrame m).length := by
  have hle := serverHeader_le m
  have hsmall := m.small
  have hheader : (UInt64.ofNat (serverHeader m.isBinary m.size).length).toNat = (serverHeader m.isBinary m.size).length :=
    UInt64.toNat_ofNat_of_lt' (by rw [UInt64.size]; omega)
  rw [UInt64.toNat_add, UInt64.toNat_add, m.toNat_size, hheader, length_serverFrame]
  change ((_ + _) % 2 ^ 64 + 0) % 2 ^ 64 = _
  omega

end

namespace InputState

variable {s : InputState} {data : ConstDataBuffer} {m : Message}

/-- What the client sees in the first bytes of a frame. -/
theorem second_of_prefix (h : s.buffer ++ data <+: serverFrame m ∨ serverFrame m <+: s.buffer ++ data)
    (htwo : 2 ≤ (s.buffer ++ data).length) :
    (s.buffer ++ data).getD 1 0 = (serverHeader m.isBinary m.size).getD 1 0 := by
  have hframe : (serverFrame m).getD 1 0 = (serverHeader m.isBinary m.size).getD 1 0 :=
    (getD_of_begins (List.prefix_append _ _) (two_le_serverHeader m)).symm
  rw [← hframe]
  rcases h with h | h
  · exact getD_of_begins h htwo
  · refine (getD_of_begins h ?_).symm
    have htwo := two_le_serverHeader m
    rw [length_serverFrame]
    omega

theorem writeAsync_short (hdata : data ≠ []) (h : s.buffer ++ data <+: serverFrame m)
    (hlt : (s.buffer ++ data).length < (serverFrame m).length) :
    s.writeAsync data = (.ok (), { s with buffer := s.buffer ++ data }) := by
  unfold InputState.writeAsync
  rw [if_neg (by rwa [List.isEmpty_iff])]
  dsimp only
  by_cases htwo : (s.buffer ++ data).length < 2
  · rw [if_pos htwo]
  · have hmask := (fields_serverHeader m []).mask
    rw [List.append_nil] at hmask
    rw [if_neg htwo, second_of_prefix (.inl h) (not_lt.mp htwo), hmask, ← length_serverHeader]
    by_cases hheader : (s.buffer ++ data).length < (serverHeader m.isBinary m.size).length + maskSize false
    · rw [if_pos hheader]
    · obtain ⟨part, hpart⟩ : serverHeader m.isBinary m.size <+: s.buffer ++ data :=
        List.prefix_of_prefix_length_le (List.prefix_append _ _) h (not_lt.mp hheader)
      have hlength : payloadLengthOf (s.buffer ++ data) = m.size := by
        rw [← hpart]
        exact (fields_serverHeader m part).payloadLength
      rw [if_neg hheader, hlength, toNat_frameEnd, if_pos hlt]

theorem writeAsync_whole {rest : ConstDataBuffer} (hdata : data ≠ []) (h : s.buffer ++ data = serverFrame m ++ rest) :
    s.writeAsync data = (.ok (), { buffer := rest, received := s.received ++ [(m.isBinary, m.payload)] }) := by
  have hframe : serverFrame m <+: s.buffer ++ data := h ▸ List.prefix_append _ _
  have hle := hframe.length_le
  have hheader := length_serverFrame m
  have htwo := two_le_serverHeader m
  have hmask := (fields_serverHeader m []).mask
  rw [List.append_nil] at hmask
  have hassoc : s.buffer ++ data = serverHeader m.isBinary m.size ++ (m.payload ++ rest) := by
    rw [h, ← List.append_assoc]
    rfl
  have hlength : payloadLengthOf (s.buffer ++ data) = m.size := by
    rw [hassoc]
    exact (fields_serverHeader m _).payloadLength
  have hopcode : (s.buffer ++ data).getD 0 0 &&& 0x0F = if m.isBinary then 0x2 else 0x1 := by
    rw [hassoc]
    change Message.firstByte m.isBinary &&& 0x0F = _
    cases m.isBinary <;> rfl
  have hmaskSize : (serverHeader m.isBinary m.size).length + maskSize false ≤ (s.buffer ++ data).length := by
    change (serverHeader m.isBinary m.size).length + 0 ≤ _
    omega
  have hrest : (s.buffer ++ data).drop ((serverHeader m.isBinary m.size).length + m.payload.length) = rest := by
    rw [← hheader, h, List.drop_left]
  have hpayload : ((s.buffer ++ data).drop (serverHeader m.isBinary m.size).length).take m.payload.length = m.payload := by
    rw [hassoc, List.drop_left, List.take_left]
  unfold InputState.writeAsync
  rw [if_neg (by rwa [List.isEmpty_iff])]
  dsimp only
  rw [if_neg (by omega), second_of_prefix (.inr hframe) (by omega), hmask, ← length_serverHeader,
    if_neg (not_lt.mpr hmaskSize), hlength, toNat_frameEnd, if_neg (not_lt.mpr hle), if_neg Bool.false_ne_true,
    m.toNat_size]
  unfold handle
  dsimp only
  rw [hopcode, hrest, hpayload]
  cases m.isBinary <;> rfl

/-! ### Reads -/

/-- A read of a stream that still holds the messages `ms`: the first of them is taken out if it is there. -/
theorem writeAsync_stream {ms : List Message} {rest : ConstDataBuffer} (hdata : data ≠ [])
    (h : s.buffer ++ (data ++ rest) = serverWire ms) : ∃ m ms', ms = m :: ms' ∧
    (((serverFrame m).length ≤ s.buffer.length + data.length ∧ ∃ left, left ++ rest = serverWire ms' ∧
        (serverFrame m).length + left.length = s.buffer.length + data.length ∧
        s.writeAsync data = (.ok (), { buffer := left, received := s.received ++ [(m.isBinary, m.payload)] })) ∨
      (s.buffer.length + data.length < (serverFrame m).length ∧
        s.writeAsync data = (.ok (), { s with buffer := s.buffer ++ data }))) := by
  cases ms with
  | nil =>
    change _ = [] at h
    rw [List.append_eq_nil_iff, List.append_eq_nil_iff] at h
    exact absurd h.2.1 hdata
  | cons m ms =>
    refine ⟨m, ms, rfl, ?_⟩
    have hwire : (s.buffer ++ data) ++ rest = serverFrame m ++ serverWire ms := by
      rw [List.append_assoc, h]
      rfl
    have hlength : (s.buffer ++ data).length = s.buffer.length + data.length := List.length_append
    rcases Nat.lt_or_ge (s.buffer ++ data).length (serverFrame m).length with hlt | hge
    · have hbegins : s.buffer ++ data <+: serverFrame m :=
        List.prefix_of_prefix_length_le (hwire ▸ List.prefix_append _ _) (List.prefix_append _ _) hlt.le
      exact .inr ⟨hlength ▸ hlt, writeAsync_short hdata hbegins hlt⟩
    · obtain ⟨left, hleft⟩ : serverFrame m <+: s.buffer ++ data :=
        List.prefix_of_prefix_length_le (List.prefix_append _ _) (hwire ▸ List.prefix_append _ _) hge
      have hsum := congrArg List.length hleft
      rw [List.length_append, hlength] at hsum
      rw [← hleft, List.append_assoc] at hwire
      exact .inl ⟨hlength ▸ hge, left, List.append_cancel_left hwire, hsum, writeAsync_whole hdata hleft.symm⟩

/-- With the messages `ms` still in the stream: are all of them received? -/
theorem receive_stream {reads : List ConstDataBuffer} {ms : List Message} (hreads : ∀ data ∈ reads, data ≠ [])
    (h : s.buffer ++ reads.flatten = serverWire ms) : ∃ n, n ≤ ms.length ∧
      (receive s reads).1 = .ok () ∧
      (receive s reads).2.received = s.received ++ (ms.take n).map (fun m => (m.isBinary, m.payload)) ∧
      (n = ms.length ↔ ms.length ≤ reads.length ∧ ∀ k, k < reads.length →
        ms.length + (k + 1) ≤
          completeAt ms (s.buffer.length + (reads.take (k + 1)).flatten.length) + reads.length) := by
  induction reads generalizing s ms with
  | nil =>
    refine ⟨0, Nat.zero_le _, rfl, (List.append_nil _).symm, ?_⟩
    constructor
    · exact fun h0 => ⟨h0 ▸ le_rfl, fun k hk => absurd hk (Nat.not_lt_zero k)⟩
    · exact fun h0 => (Nat.le_zero.mp h0.1).symm
  | cons data reads ih =>
    have hdata := hreads data List.mem_cons_self
    have hrest : ∀ d ∈ reads, d ≠ [] := fun d hd => hreads d (List.mem_cons_of_mem _ hd)
    have hshift (k : Nat) : ((data :: reads).take (k + 1)).flatten.length =
        data.length + (reads.take k).flatten.length := by
      rw [List.take_succ_cons, List.flatten_cons, List.length_append]
    rw [List.flatten_cons] at h
    obtain ⟨m, ms', rfl, hstep⟩ := writeAsync_stream hdata h
    rcases hstep with ⟨hle, left, hleft, hsum, hwrite⟩ | ⟨hlt, hwrite⟩
    · -- the first message is taken out
      obtain ⟨n, hn, hok, hreceived, hiff⟩ := @ih
        { buffer := left, received := s.received ++ [(m.isBinary, m.payload)] } ms' hrest hleft
      have hcomplete (j : Nat) : completeAt (m :: ms') (s.buffer.length + (data.length + j)) =
          completeAt ms' (left.length + j) + 1 := by
        have hsub : s.buffer.length + (data.length + j) - (serverFrame m).length = left.length + j := by omega
        rw [completeAt, if_pos (by omega), hsub]
      refine ⟨n + 1, Nat.succ_le_succ hn, ?_, ?_, ?_⟩
      · unfold receive
        rw [hwrite]
        exact hok
      · unfold receive
        rw [hwrite]
        refine hreceived.trans ?_
        rw [List.append_assoc]
        rfl
      · rw [List.length_cons, List.length_cons, Nat.add_right_cancel_iff, hiff]
        constructor
        · rintro ⟨hlength, hall⟩
          refine ⟨Nat.succ_le_succ hlength, fun k hk => ?_⟩
          rw [hshift, hcomplete]
          cases k with
          | zero => omega
          | succ k =>
            have hk := hall k (by omega)
            dsimp only at hk
            omega
        · rintro ⟨hlength, hall⟩
          refine ⟨Nat.le_of_succ_le_succ hlength, fun k hk => ?_⟩
          have hk := hall (k + 1) (by omega)
          rw [hshift, hcomplete] at hk
          dsimp only
          omega
    · -- no message is there as a whole
      have happend : (s.buffer ++ data) ++ reads.flatten = serverWire (m :: ms') := by
        rw [List.append_assoc]
        exact h
      obtain ⟨n, hn, hok, hreceived, hiff⟩ := @ih { s with buffer := s.buffer ++ data } (m :: ms') hrest happend
      refine ⟨n, hn, ?_, ?_, ?_⟩
      · unfold receive
        rw [hwrite]
        exact hok
      · unfold receive
        rw [hwrite]
        exact hreceived
      · have hbuffer (j : Nat) : s.buffer.length + (data.length + j) = (s.buffer ++ data).length + j := by
          rw [List.length_append, Nat.add_assoc]
        have hone : (data :: reads).length = reads.length + 1 := List.length_cons
        rw [hiff, hone]
        constructor
        · rintro ⟨hlength, hall⟩
          refine ⟨Nat.le_succ_of_le hlength, fun k hk => ?_⟩
          rw [hshift, hbuffer]
          cases k with
          | zero => omega
          | succ k =>
            have hk := hall k (by omega)
            dsimp only at hk
            omega
        · rintro ⟨-, hall⟩
          have hfirst := hall 0 (Nat.succ_pos _)
          rw [hshift, List.take_zero, List.flatten_nil, List.length_nil, Nat.add_zero, completeAt, if_neg (by omega)]
            at hfirst
          refine ⟨by omega, fun k hk => ?_⟩
          have hk := hall (k + 1) (by omega)
          rw [hshift, hbuffer] at hk
          dsimp only
          omega

end InputState

theorem completeAt_zero (ms : List Message) : completeAt ms 0 = 0 := by
  cases ms with
  | nil => rfl
  | cons m ms =>
    have htwo := two_le_serverHeader m
    have hlength := length_serverFrame m
    rw [completeAt, if_neg (by omega)]

/-- The client's handlers have got the messages, each once and in their order. -/
def ReceivesAll (ms : List Message) (reads : List ConstDataBuffer) : Prop :=
  (InputState.receive {} reads).2.received = ms.map fun m => (m.isBinary, m.payload)

/-- All messages are received exactly when after any number of reads no more messages wait for their last
byte than reads are still to come. The reads cut the bytes that the output has written for the messages. -/
theorem receivesAll_iff {ws : List Written} {reads : List ConstDataBuffer} {output : WebsocketOutput}
    (hwritten : ws.forM writeMessage {} = .ok () output)
    (hreads : ∀ data ∈ reads, data ≠ []) (hwire : reads.flatten = output.target) :
    ReceivesAll (ws.map Written.message) reads ↔ ∀ k ≤ reads.length,
      ws.length - completeAt (ws.map Written.message) (reads.take k).flatten.length ≤ reads.length - k := by
  have htarget : output.target = serverWire (ws.map Written.message) := by
    have happly := writeMessages_apply ws []
    rw [List.nil_append] at happly
    rw [happly] at hwritten
    cases hwritten
    rfl
  have hlength : (ws.map Written.message).length = ws.length := List.length_map _
  obtain ⟨n, hn, -, hreceived, hiff⟩ := @InputState.receive_stream {} reads (ws.map Written.message) hreads
    (hwire.trans htarget)
  have hall : ReceivesAll (ws.map Written.message) reads ↔ n = (ws.map Written.message).length := by
    unfold ReceivesAll
    rw [hreceived]
    constructor
    · intro he
      have hsize := congrArg List.length he
      rw [List.length_append, List.length_map, List.length_map, List.length_take_of_le hn] at hsize
      change 0 + n = _ at hsize
      omega
    · intro he
      rw [he, List.take_length]
      rfl
  rw [hall, hiff, hlength]
  constructor
  · rintro ⟨hle, hsteps⟩ k hk
    cases k with
    | zero => omega
    | succ k =>
      have hk := hsteps k (by omega)
      change _ ≤ completeAt _ (0 + _) + _ at hk
      rw [Nat.zero_add] at hk
      omega
  · intro hsteps
    have hzero := hsteps 0 (Nat.zero_le _)
    rw [List.take_zero, List.flatten_nil, List.length_nil, completeAt_zero] at hzero
    refine ⟨by omega, fun k hk => ?_⟩
    have hk := hsteps (k + 1) hk
    change _ ≤ completeAt _ (0 + _) + _
    rw [Nat.zero_add]
    omega

/-- Two messages of the server, each written at once. -/
def sampleWritten : List Written :=
  [⟨shortMessage, [], [104, 105], rfl, .inl (by decide)⟩, ⟨⟨true, [1], by decide⟩, [], [1], rfl, .inl (by decide)⟩]

def sampleOutput : WebsocketOutput := ⟨[0x81, 2, 104, 105, 0x82, 1, 1], false⟩

/-- The second frame is cut inside its header. -/
def sampleCuts : List ConstDataBuffer := [[0x81, 2, 104, 105, 0x82], [1, 1]]

theorem receivesAll_iff_cut : ReceivesAll (sampleWritten.map Written.message) sampleCuts ↔
    ∀ k ≤ sampleCuts.length,
      sampleWritten.length - completeAt (sampleWritten.map Written.message) (sampleCuts.take k).flatten.length ≤
        sampleCuts.length - k :=
  receivesAll_iff (show sampleWritten.forM writeMessage {} = .ok () sampleOutput from rfl) (by decide) rfl

/-- Of two frames in one read the second one stays in the buffer. -/
theorem not_receivesAll_together :
    sampleWritten.forM writeMessage {} = .ok () sampleOutput ∧ [sampleOutput.target].flatten = sampleOutput.target ∧
      ¬ReceivesAll (sampleWritten.map Written.message) [sampleOutput.target] := by
  refine ⟨rfl, rfl, fun h => ?_⟩
  unfold ReceivesAll at h
  revert h
  decide +kernel

end Vds.Http
