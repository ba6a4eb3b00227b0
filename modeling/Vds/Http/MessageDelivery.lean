import Vds.Http.WebsocketHandler

/-! However the bytes of the client are cut, the handler of the server has delivered what has come; only the
end of an empty message waits for one more byte. -/

namespace Vds.Http

/-! ### Masks -/

/-- The mask from its byte `index` on, over a list of bytes. -/
def xorMask (mask : Mask) : Nat → ConstDataBuffer → ConstDataBuffer
  | _, [] => []
  | index, b :: rest => (mask (Fin.ofNat 4 index) ^^^ b) :: xorMask mask (index + 1) rest

theorem length_xorMask (mask : Mask) (index : Nat) (data : ConstDataBuffer) :
    (xorMask mask index data).length = data.length := by
  induction data generalizing index with
  | nil => rfl
  | cons b rest ih =>
    unfold xorMask
    rw [List.length_cons, List.length_cons, ih]

theorem xorMask_append (mask : Mask) (index : Nat) (xs ys : ConstDataBuffer) :
    xorMask mask index (xs ++ ys) = xorMask mask index xs ++ xorMask mask (index + xs.length) ys := by
  induction xs generalizing index with
  | nil => rfl
  | cons x xs ih =>
    have hindex : index + 1 + xs.length = index + (x :: xs).length := by
      rw [List.length_cons]
      omega
    rw [List.cons_append, xorMask, xorMask, ih, hindex, List.cons_append]

theorem ofNat_and_three : ∀ index : UInt8, Fin.ofNat 4 (3 &&& index).toNat = Fin.ofNat 4 index.toNat :=
  Library.forall_byte (by decide +kernel)

/-- The `uint8_t` index goes round, which the mask does not see. -/
theorem maskPayload_eq (mask : Mask) (index : UInt8) (k : Nat) (data : ConstDataBuffer)
    (h : index.toNat % 4 = k % 4) : maskPayload mask index data = xorMask mask k data := by
  induction data generalizing index k with
  | nil => rfl
  | cons b rest ih =>
    have hnext : (index + 1).toNat % 4 = (k + 1) % 4 := by
      rw [UInt8.toNat_add]
      change (index.toNat + 1) % 256 % 4 = (k + 1) % 4
      omega
    have hfin : Fin.ofNat 4 index.toNat = Fin.ofNat 4 k := Fin.ext h
    rw [maskPayload, xorMask, ofNat_and_three, hfin, ih _ _ hnext]

theorem sendMessage_eq (mask : Mask) (m : Message) :
    sendMessage mask m = clientHeader mask m ++ xorMask mask 0 m.payload := by
  unfold sendMessage
  rw [maskPayload_eq mask 0 0 m.payload rfl]

/-- Taking the mask off what it was put on. -/
theorem unmask_xorMask {mask : Mask} {index : Nat} {data : ConstDataBuffer} (h : index + data.length < 2 ^ 31) :
    HandlerState.unmask mask index (xorMask mask index data) = .ok (data, index + data.length) := by
  induction data generalizing index with
  | nil => rfl
  | cons b rest ih =>
    rw [List.length_cons] at h
    have hrest := @ih (index + 1) (by omega)
    have hb : mask (Fin.ofNat 4 index) ^^^ b ^^^ mask (Fin.ofNat 4 index) = b := by
      rw [UInt8.xor_comm, ← UInt8.xor_assoc, UInt8.xor_self, UInt8.zero_xor]
    have hindex : index + 1 + rest.length = index + (b :: rest).length := by
      rw [List.length_cons]
      omega
    rw [xorMask, HandlerState.unmask, if_neg (by omega), hrest, hb, hindex]
    rfl

theorem unmask_error {mask : Mask} {index : Nat} {data : ConstDataBuffer} (hdata : data ≠ [])
    (h : 2 ^ 31 ≤ index + data.length) : HandlerState.unmask mask index data = .error .undefined := by
  induction data generalizing index with
  | nil => exact absurd rfl hdata
  | cons b rest ih =>
    rw [HandlerState.unmask]
    split_ifs with hi
    · rfl
    · have hrest : rest ≠ [] := by
        rintro rfl
        exact hi h
      rw [List.length_cons] at h
      rw [@ih (index + 1) hrest (by omega)]
      rfl

namespace HandlerState

/-! ### The header -/

variable {s : HandlerState} {data : ConstDataBuffer}

theorem readMinimal_eq (k : Nat) (s : HandlerState) (data : ConstDataBuffer) :
    s.readMinimal k data = ({ s with buffer := (s.buffer ++ data).take (max k s.buffer.length) },
      (s.buffer ++ data).drop (max k s.buffer.length)) := by
  have hmin : max k s.buffer.length - s.buffer.length = k - s.buffer.length := by omega
  have htake : data.take (min data.length (k - s.buffer.length)) = data.take (k - s.buffer.length) :=
    List.take_eq_take_iff.mpr (by omega)
  have hdrop : data.drop (min data.length (k - s.buffer.length)) = data.drop (k - s.buffer.length) := by
    rcases Nat.le_total data.length (k - s.buffer.length) with h | h
    · rw [min_eq_left h, List.drop_length, List.drop_eq_nil_of_le h]
    · rw [min_eq_right h]
  unfold readMinimal
  dsimp only
  rw [htake, hdrop, List.take_append, List.drop_append, hmin, List.take_of_length_le (le_max_right _ _),
    List.drop_eq_nil_of_le (le_max_right _ _), List.nil_append]

theorem getD_of_begins {xs ys : ConstDataBuffer} (h : xs <+: ys) {i : Nat} (hi : i < xs.length) :
    xs.getD i 0 = ys.getD i 0 := by
  obtain ⟨rest, rfl⟩ := h
  rw [List.getD_append _ _ _ _ hi]

end HandlerState

section

variable (mask : Mask) (m : Message)

theorem fields_clientHeader : Fields true m.size (clientHeader mask m) := fields_header true _ _

theorem length_clientHeader : (clientHeader mask m).length = offsetOf ((clientHeader mask m).getD 1 0) + 4 := by
  rw [(fields_clientHeader mask m).offset]
  unfold clientHeader
  rw [List.length_cons, List.length_append, List.length_ofFn]
  change _ = 1 + (sizeBytes 0x80 m.size).length + 4
  omega

theorem six_le_clientHeader : 6 ≤ (clientHeader mask m).length := by
  rw [length_clientHeader]
  unfold offsetOf
  split_ifs <;> omega

theorem getD_mask (i : Fin 4) :
    (clientHeader mask m).getD (offsetOf ((clientHeader mask m).getD 1 0) + i) 0 = mask i := by
  have hcons : clientHeader mask m = (Message.firstByte m.isBinary :: sizeBytes 0x80 m.size) ++ List.ofFn mask := rfl
  have hoffset : offsetOf ((clientHeader mask m).getD 1 0) =
      (Message.firstByte m.isBinary :: sizeBytes 0x80 m.size).length := by
    rw [(fields_clientHeader mask m).offset, List.length_cons, Nat.add_comm]
    rfl
  rw [hoffset, hcons, List.getD_append_right _ _ _ _ (Nat.le_add_right _ _), Nat.add_sub_cancel_left]
  rw [List.getD_eq_getElem _ _ (by rw [List.length_ofFn]; exact i.isLt), List.getElem_ofFn]

end

namespace HandlerState

section

variable {s : HandlerState} {data : ConstDataBuffer} {mask : Mask} {m : Message}

/-- The header is not there as a whole: the round keeps what has come. -/
theorem headerRest_short (hthree : 3 ≤ s.buffer.length) (h : s.buffer ++ data <+: clientHeader mask m)
    (hlt : (s.buffer ++ data).length < (clientHeader mask m).length) :
    ∃ s', headerRest s data = .returns (.ok ()) s' ∧ s'.buffer = s.buffer ++ data ∧
      s'.readState = s.readState ∧ s'.deliveries = s.deliveries := by
  have hbegins : s.buffer <+: clientHeader mask m := (List.prefix_append _ _).trans h
  have hsecond : s.buffer.getD 1 0 = (clientHeader mask m).getD 1 0 := getD_of_begins hbegins (by omega)
  have hmask := (fields_clientHeader mask m).mask
  have hlength := length_clientHeader mask m
  have hle : s.buffer.length ≤ (s.buffer ++ data).length := by
    rw [List.length_append]
    exact Nat.le_add_right _ _
  have hsize : offsetOf ((clientHeader mask m).getD 1 0) + maskSize true = (clientHeader mask m).length := hlength.symm
  unfold headerRest
  dsimp only
  rw [hsecond, hmask, hsize, readMinimal_eq]
  dsimp only
  have htake : (s.buffer ++ data).take (max (clientHeader mask m).length s.buffer.length) = s.buffer ++ data :=
    List.take_of_length_le (by omega)
  rw [htake, if_pos hlt]
  exact ⟨_, rfl, rfl, rfl, rfl⟩

theorem headerTurn_short (h : s.buffer ++ data <+: clientHeader mask m)
    (hlt : (s.buffer ++ data).length < (clientHeader mask m).length) :
    ∃ s', headerTurn s data = .returns (.ok ()) s' ∧ s'.buffer = s.buffer ++ data ∧
      s'.readState = s.readState ∧ s'.deliveries = s.deliveries := by
  unfold headerTurn
  rw [readMinimal_eq]
  dsimp only
  split_ifs with h₁
  · refine ⟨_, rfl, ?_, rfl, rfl⟩
    rw [List.length_take, List.length_append] at h₁
    exact List.take_of_length_le (by rw [List.length_append]; omega)
  · have hsplit : (s.buffer ++ data).take (max 3 s.buffer.length) ++
        (s.buffer ++ data).drop (max 3 s.buffer.length) = s.buffer ++ data := List.take_append_drop _ _
    rw [← hsplit] at h hlt
    obtain ⟨s', hs', hbuffer, hstate, hdeliveries⟩ := @headerRest_short
      { s with buffer := (s.buffer ++ data).take (max 3 s.buffer.length) } _ mask m (not_lt.mp h₁) h hlt
    exact ⟨s', hs', hbuffer.trans hsplit, hstate, hdeliveries⟩

/-- The state in which the opcode of a frame is looked at. -/
def opened (s : HandlerState) (mask : Mask) (m : Message) : HandlerState :=
  { s with
    buffer := clientHeader mask m
    hasMask := true
    payloadLength := m.payload.length
    mask
    maskIndex := 0 }

theorem headerRest_whole {rest : ConstDataBuffer} (hthree : 3 ≤ s.buffer.length)
    (hle : s.buffer.length ≤ (clientHeader mask m).length) (h : s.buffer ++ data = clientHeader mask m ++ rest) :
    headerRest s data = openFrame (s.opened mask m) rest := by
  have hbegins : s.buffer <+: clientHeader mask m :=
    List.prefix_of_prefix_length_le (h ▸ List.prefix_append _ _) (List.prefix_append _ _) hle
  have hsecond : s.buffer.getD 1 0 = (clientHeader mask m).getD 1 0 := getD_of_begins hbegins (by omega)
  have hfields := fields_clientHeader mask m
  have hsize : offsetOf ((clientHeader mask m).getD 1 0) + maskSize true = (clientHeader mask m).length :=
    (length_clientHeader mask m).symm
  have hmax : max (clientHeader mask m).length s.buffer.length = (clientHeader mask m).length := max_eq_left hle
  unfold headerRest
  dsimp only
  rw [hsecond, hfields.mask, hsize, readMinimal_eq]
  dsimp only
  rw [h, hmax, List.take_left, List.drop_left, if_neg (lt_irrefl _)]
  unfold takeHeader opened
  dsimp only
  rw [if_pos rfl, if_pos rfl, hfields.payloadLength, Message.toNat_size]
  have hfun : (fun i : Fin 4 => (clientHeader mask m).getD (offsetOf ((clientHeader mask m).getD 1 0) + i) 0) = mask :=
    funext (getD_mask mask m)
  rw [hfun]

theorem headerTurn_whole {rest : ConstDataBuffer} (hle : s.buffer.length ≤ (clientHeader mask m).length)
    (h : s.buffer ++ data = clientHeader mask m ++ rest) :
    headerTurn s data = openFrame (s.opened mask m) rest := by
  have hsix := six_le_clientHeader mask m
  have hlength : (s.buffer ++ data).length = (clientHeader mask m).length + rest.length := by
    rw [h, List.length_append]
  unfold headerTurn
  rw [readMinimal_eq]
  dsimp only
  have hthree : ¬((s.buffer ++ data).take (max 3 s.buffer.length)).length < 3 := by
    rw [List.length_take]
    omega
  rw [if_neg hthree]
  refine (@headerRest_whole { s with buffer := (s.buffer ++ data).take (max 3 s.buffer.length) } _ mask m rest
    (not_lt.mp hthree) ?_ ?_).trans rfl
  · rw [List.length_take]
    omega
  · exact (List.take_append_drop _ _).trans h

/-- The stream that the opcode stands for. -/
def kind (m : Message) : ReadState := if m.isBinary then .binary else .text

theorem openFrame_opened (rest : ConstDataBuffer) : openFrame (s.opened mask m) rest =
    .again { s.opened mask m with
      readState := kind m
      deliveries := s.deliveries ++ [.start m.isBinary] } rest := by
  have hopcode : (clientHeader mask m).getD 0 0 &&& 0x0F = if m.isBinary then 0x2 else 0x1 := by
    change Message.firstByte m.isBinary &&& 0x0F = _
    cases m.isBinary <;> rfl
  unfold openFrame kind
  change (if (clientHeader mask m).getD 0 0 &&& 0x0F = 0x1 then _ else if (clientHeader mask m).getD 0 0 &&& 0x0F = 0x2 then _ else _) = _
  rw [hopcode]
  cases m.isBinary <;> rfl

/-! ### The payload -/

/-- The state within the payload of `m`, of which `left` is still to come. -/
structure Reading (mask : Mask) (m : Message) (taken left : ConstDataBuffer) (s : HandlerState) : Prop where
  readState : s.readState = kind m
  hasMask : s.hasMask = true
  mask : s.mask = mask
  maskIndex : s.maskIndex = taken.length
  payloadLength : s.payloadLength = left.length
  payload : m.payload = taken ++ left

theorem turn_reading {taken left : ConstDataBuffer} (h : Reading mask m taken left s) :
    turn s data = payloadTurn s data := by
  have hstate := h.readState
  unfold kind at hstate
  unfold turn
  rw [hstate]
  cases m.isBinary <;> rfl

/-- How many bytes a round takes. -/
def portion (data left : ConstDataBuffer) : Nat := min (min data.length left.length) bufferSize

theorem portion_pos {left : ConstDataBuffer} (hdata : data ≠ []) (hleft : left ≠ []) : 0 < portion data left := by
  have h₁ := List.length_pos_iff.mpr hdata
  have h₂ := List.length_pos_iff.mpr hleft
  unfold portion bufferSize
  omega

theorem payloadTurn_empty {taken : ConstDataBuffer} (h : Reading mask m taken [] s) :
    payloadTurn s data = .again { s with
      buffer := []
      readState := .header
      deliveries := s.deliveries ++ [.finish] } data := by
  have hzero : s.payloadLength = 0 := h.payloadLength
  unfold payloadTurn closeFrame
  dsimp only
  rw [hzero, min_eq_right (Nat.zero_le _), if_neg (lt_irrefl 0), if_pos rfl]

theorem payloadTurn_reading {taken left : ConstDataBuffer} (h : Reading mask m taken left s)
    (hdata : data ≠ []) (hleft : left ≠ []) : payloadTurn s data =
      match unmask mask taken.length (data.take (portion data left)) with
      | .error e => .returns (.error e) s
      | .ok (bytes, maskIndex) => passBytes { s with maskIndex } bytes (portion data left) data := by
  have hpos : 0 < min data.length s.payloadLength := by
    have hportion := portion_pos hdata hleft
    rw [h.payloadLength]
    unfold portion at hportion
    omega
  unfold payloadTurn
  dsimp only
  rw [if_pos hpos, if_pos h.hasMask, h.mask, h.maskIndex, h.payloadLength]
  rfl

end

/-! ### Where the handler stands in the stream -/

/-- What all messages of a list bring. -/
def delivered (sends : Sends) : List Delivery := sends.flatMap fun x => delivery x.2

/-- The lengths that the `int` index of the mask can count. -/
def Short (x : Mask × Message) : Prop := x.2.payload.length < 2 ^ 31

/-- `done` has been delivered, and some of the header of the next message may be there. Between two reads an
empty message is not the last one of `done`. -/
structure AtHeader (done todo : Sends) (s : HandlerState) (data rest : ConstDataBuffer) : Prop where
  readState : s.readState = .header
  deliveries : s.deliveries = delivered done
  stream : s.buffer ++ (data ++ rest) = wire todo
  partly : ∀ x ∈ todo.head?, s.buffer.length < (clientHeader x.1 x.2).length
  fresh : s.buffer = [] → data = [] → ∀ x ∈ done.getLast?, x.2.payload ≠ []
  short : ∀ x ∈ done, Short x

/-- `taken` of the message behind `done` has been delivered; there is more of it, or it is empty. -/
structure InPayload (done : Sends) (x : Mask × Message) (todo : Sends) (taken left : ConstDataBuffer)
    (s : HandlerState) (data rest : ConstDataBuffer) : Prop where
  reading : Reading x.1 x.2 taken left s
  deliveries : s.deliveries = delivered done ++ .start x.2.isBinary :: taken.map .byte
  stream : data ++ rest = xorMask x.1 taken.length left ++ wire todo
  pending : left = [] → taken = []
  short : ∀ y ∈ done, Short y
  counted : taken.length < 2 ^ 31

inductive Stands (sends : Sends) (s : HandlerState) (data rest : ConstDataBuffer) : Prop
  | header (done todo : Sends) (hsends : sends = done ++ todo) (h : AtHeader done todo s data rest)
  | payload (done : Sends) (x : Mask × Message) (todo : Sends) (taken left : ConstDataBuffer)
    (hsends : sends = done ++ x :: todo) (h : InPayload done x todo taken left s data rest)

/-- The index of a mask has overflown, and something is missing for ever. -/
structure Stuck (sends : Sends) (s : HandlerState) : Prop where
  long : ∃ x ∈ sends, ¬Short x
  due : ∃ due, due ≠ [] ∧ s.deliveries ++ due = delivered sends

theorem delivered_append (xs ys : Sends) : delivered (xs ++ ys) = delivered xs ++ delivered ys :=
  List.flatMap_append

theorem wire_cons (x : Mask × Message) (sends : Sends) :
    wire (x :: sends) = clientHeader x.1 x.2 ++ (xorMask x.1 0 x.2.payload ++ wire sends) := by
  unfold wire
  rw [List.flatMap_cons, sendMessage_eq, List.append_assoc]

/-- What a round makes of its data. -/
inductive Outcome (sends : Sends) (s : HandlerState) (data rest : ConstDataBuffer) : Turn → Prop
  | returns (s' : HandlerState) (h : Stands sends s' [] rest) : Outcome sends s data rest (.returns (.ok ()) s')
  | stuck (e : HandlerError) (s' : HandlerState) (h : Stuck sends s') :
    Outcome sends s data rest (.returns (.error e) s')
  | again (s' : HandlerState) (data' : ConstDataBuffer) (h : Stands sends s' data' rest)
    (hcost : 2 * data'.length + (if s'.readState = .header then 0 else 1) <
      2 * data.length + (if s.readState = .header then 0 else 1)) :
    Outcome sends s data rest (.again s' data')

variable {sends done todo : Sends} {s : HandlerState} {data rest : ConstDataBuffer}

theorem outcome_header (hsends : sends = done ++ todo) (h : AtHeader done todo s data rest) (hdata : data ≠ []) :
    Outcome sends s data rest (turn s data) := by
  have hturn : turn s data = headerTurn s data := by
    unfold turn
    rw [h.readState]
  rw [hturn]
  cases todo with
  | nil =>
    have hnil := h.stream
    change _ = [] at hnil
    rw [List.append_eq_nil_iff, List.append_eq_nil_iff] at hnil
    exact absurd hnil.2.1 hdata
  | cons x todo =>
    obtain ⟨mask, m⟩ := x
    have hpartly : s.buffer.length < (clientHeader mask m).length := h.partly _ rfl
    have hstream := h.stream
    rw [wire_cons, ← List.append_assoc] at hstream
    rcases Nat.lt_or_ge (s.buffer ++ data).length (clientHeader mask m).length with hlt | hge
    · have hbegins : s.buffer ++ data <+: clientHeader mask m :=
        List.prefix_of_prefix_length_le (hstream ▸ List.prefix_append _ _) (List.prefix_append _ _) hlt.le
      obtain ⟨s', hs', hbuffer, hstate, hdeliveries⟩ := headerTurn_short hbegins hlt
      rw [hs']
      refine .returns s' (.header done _ hsends ⟨hstate.trans h.readState, hdeliveries.trans h.deliveries, ?_, ?_, ?_, h.short⟩)
      · rw [hbuffer, List.nil_append, List.append_assoc]
        exact h.stream
      · intro x hx
        obtain rfl := Option.some_inj.mp hx
        rw [hbuffer]
        exact hlt
      · intro hnil
        rw [hbuffer, List.append_eq_nil_iff] at hnil
        exact absurd hnil.2 hdata
    · obtain ⟨data', hdata'⟩ : clientHeader mask m <+: s.buffer ++ data :=
        List.prefix_of_prefix_length_le (List.prefix_append _ _) (hstream ▸ List.prefix_append _ _) hge
      rw [headerTurn_whole hpartly.le hdata'.symm, openFrame_opened]
      have hlength := congrArg List.length hdata'
      rw [List.length_append, List.length_append] at hlength
      rw [← hdata', List.append_assoc] at hstream
      refine .again _ _ (.payload done (mask, m) todo [] m.payload hsends ?_) ?_
      · refine ⟨⟨rfl, rfl, rfl, rfl, rfl, rfl⟩, ?_, List.append_cancel_left hstream, fun _ => rfl, h.short, by decide⟩
        exact congrArg (· ++ [Delivery.start m.isBinary]) h.deliveries
      · rw [h.readState]
        split_ifs <;> omega

variable {x : Mask × Message} {taken left : ConstDataBuffer}

theorem portion_le_data : portion data left ≤ data.length := (min_le_left _ _).trans (min_le_left _ _)

theorem portion_le_left : portion data left ≤ left.length := (min_le_left _ _).trans (min_le_right _ _)

theorem xorMask_split (mask : Mask) (index n : Nat) (hn : n ≤ left.length) :
    xorMask mask index left = xorMask mask index (left.take n) ++ xorMask mask (index + n) (left.drop n) := by
  have hlength : (left.take n).length = n := List.length_take_of_le hn
  have happend := xorMask_append mask index (left.take n) (left.drop n)
  rwa [List.take_append_drop, hlength] at happend

/-- What a round takes of the data is what it takes of the message, under its mask. -/
theorem stream_split {mask : Mask} {index n : Nat} {tail : ConstDataBuffer}
    (h : data ++ rest = xorMask mask index left ++ tail) (hdata : n ≤ data.length) (hleft : n ≤ left.length) :
    data.take n = xorMask mask index (left.take n) ∧
      data.drop n ++ rest = xorMask mask (index + n) (left.drop n) ++ tail := by
  rw [xorMask_split mask index n hleft, List.append_assoc] at h
  have hsplit : data.take n ++ (data.drop n ++ rest) = data ++ rest := by
    rw [← List.append_assoc, List.take_append_drop]
  rw [← hsplit] at h
  refine List.append_inj h ?_
  rw [length_xorMask, List.length_take_of_le hdata, List.length_take_of_le hleft]

/-- The end of a message behind its last byte. -/
theorem outcome_finish (hsends : sends = done ++ x :: todo) (hshort : ∀ y ∈ done, Short y) (hx : Short x)
    (hstate : s.readState = .header) (hbuffer : s.buffer = []) (hstream : data ++ rest = wire todo)
    (hdeliveries : s.deliveries = delivered done ++ delivery x.2) (hfresh : data = [] → x.2.payload ≠ []) :
    Stands sends s data rest := by
  refine .header (done ++ [x]) todo ?_ ⟨hstate, ?_, ?_, ?_, ?_, ?_⟩
  · rw [hsends, List.append_assoc]
    rfl
  · rw [hdeliveries, delivered_append]
    exact congrArg (delivered done ++ ·) (List.append_nil _).symm
  · rw [hbuffer]
    exact hstream
  · intro y _
    have hsix := six_le_clientHeader y.1 y.2
    rw [hbuffer, List.length_nil]
    omega
  · intro _ hdata y hy
    rw [List.getLast?_concat] at hy
    obtain rfl := Option.some_inj.mp hy
    exact hfresh hdata
  · intro y hy
    rcases List.mem_append.mp hy with hy | hy
    · exact hshort y hy
    · obtain rfl := List.mem_singleton.mp hy
      exact hx

theorem outcome_pass (hsends : sends = done ++ x :: todo) (h : InPayload done x todo taken left s data rest)
    (hdata : data ≠ []) (hleft : left ≠ []) (hfit : taken.length + portion data left < 2 ^ 31) :
    Outcome sends s data rest (passBytes { s with maskIndex := taken.length + portion data left }
      (left.take (portion data left)) (portion data left) data) := by
  have hpos := portion_pos hdata hleft
  have hledata := @portion_le_data data left
  have hleleft := @portion_le_left data left
  generalize portion data left = n at *
  obtain ⟨-, hdrop⟩ := stream_split h.stream hledata hleleft
  have hstate : s.readState ≠ .header := by
    rw [h.reading.readState]
    unfold kind
    cases x.2.isBinary <;> exact fun hk => (by cases hk)
  have hpayload := h.reading.payload
  have hlength : s.payloadLength - n = (left.drop n).length := by
    rw [h.reading.payloadLength, List.length_drop]
  have hdropped : (data.drop n).length < data.length := by
    rw [List.length_drop]
    omega
  have hdeliveries : s.deliveries ++ (left.take n).map .byte =
      delivered done ++ .start x.2.isBinary :: (taken ++ left.take n).map .byte := by
    rw [h.deliveries, List.map_append, List.append_assoc]
    rfl
  unfold passBytes closeFrame
  dsimp only
  rw [hlength]
  split_ifs with hlast
  · -- the last byte of the message
    have hnil : left.drop n = [] := List.length_eq_zero_iff.mp hlast
    have hall : left.take n = left := by
      have happend := List.take_append_drop n left
      rwa [hnil, List.append_nil] at happend
    have hn : n = left.length := by
      rw [← hall, List.length_take_of_le hleleft]
    have hx : x.2.payload ≠ [] := by
      rw [hpayload]
      exact List.append_ne_nil_of_right_ne_nil _ hleft
    refine .again _ _ (outcome_finish hsends h.short ?_ rfl rfl ?_ ?_ fun _ => hx) ?_
    · unfold Short
      rw [hpayload, List.length_append, ← hn]
      exact hfit
    · rw [hdrop, hnil]
      rfl
    · change s.deliveries ++ (left.take n).map .byte ++ [.finish] = _
      rw [hdeliveries, hall, ← hpayload, List.append_assoc]
      rfl
    · rw [if_pos rfl, if_neg hstate]
      omega
  · refine .again _ _ (.payload done x todo (taken ++ left.take n) (left.drop n) hsends ?_) ?_
    · refine ⟨⟨h.reading.readState, h.reading.hasMask, h.reading.mask, ?_, rfl, ?_⟩, hdeliveries, ?_, ?_, h.short, ?_⟩
      · change taken.length + n = _
        rw [List.length_append, List.length_take_of_le hleleft]
      · rw [List.append_assoc, List.take_append_drop]
        exact hpayload
      · rw [List.length_append, List.length_take_of_le hleleft]
        exact hdrop
      · intro hnil
        exact absurd (congrArg List.length hnil) hlast
      · rw [List.length_append, List.length_take_of_le hleleft]
        exact hfit
    · rw [if_neg hstate]
      omega

theorem delivered_cons (x : Mask × Message) (todo : Sends) :
    delivered (done ++ x :: todo) = delivered done ++ (delivery x.2 ++ delivered todo) := by
  rw [delivered_append]
  rfl

theorem stuck_overflow (hsends : sends = done ++ x :: todo) (h : InPayload done x todo taken left s data rest)
    (hover : 2 ^ 31 ≤ taken.length + left.length) : Stuck sends s := by
  refine ⟨⟨x, ?_, ?_⟩, left.map .byte ++ .finish :: delivered todo, ?_, ?_⟩
  · rw [hsends]
    exact List.mem_append_right _ List.mem_cons_self
  · unfold Short
    rw [h.reading.payload, List.length_append]
    exact not_lt.mpr hover
  · exact List.append_ne_nil_of_right_ne_nil _ (List.cons_ne_nil _ _)
  · rw [hsends, delivered_cons, h.deliveries]
    unfold delivery
    rw [h.reading.payload, List.map_append]
    simp only [List.append_assoc, List.cons_append, List.nil_append]

theorem outcome_payload (hsends : sends = done ++ x :: todo) (h : InPayload done x todo taken left s data rest)
    (hdata : data ≠ []) : Outcome sends s data rest (turn s data) := by
  rw [turn_reading h.reading]
  by_cases hleft : left = []
  · -- an empty message that waits for its end
    subst hleft
    have htaken := h.pending rfl
    have hempty : x.2.payload = [] := by
      rw [h.reading.payload, htaken]
      rfl
    have hstate : s.readState ≠ .header := by
      rw [h.reading.readState]
      unfold kind
      cases x.2.isBinary <;> exact fun hk => (by cases hk)
    rw [payloadTurn_empty h.reading]
    refine .again _ _ (outcome_finish hsends h.short ?_ rfl rfl h.stream ?_ fun hnil => absurd hnil hdata) ?_
    · unfold Short
      rw [hempty]
      decide
    · change s.deliveries ++ [.finish] = _
      rw [h.deliveries, htaken]
      unfold delivery
      rw [hempty, List.append_assoc]
      rfl
    · rw [if_pos rfl, if_neg hstate]
      omega
  · have hsplit := stream_split h.stream portion_le_data portion_le_left
    have hlength : (left.take (portion data left)).length = portion data left :=
      List.length_take_of_le portion_le_left
    rw [payloadTurn_reading h.reading hdata hleft, hsplit.1]
    by_cases hfit : taken.length + portion data left < 2 ^ 31
    · rw [unmask_xorMask (by rwa [hlength]), hlength]
      exact outcome_pass hsends h hdata hleft hfit
    · have hne : xorMask x.1 taken.length (left.take (portion data left)) ≠ [] := by
        have hpos := portion_pos hdata hleft
        refine List.length_pos_iff.mp ?_
        rw [length_xorMask, hlength]
        exact hpos
      rw [unmask_error hne (by rw [length_xorMask, hlength]; exact not_lt.mp hfit)]
      have hle := @portion_le_left data left
      exact .stuck _ _ (stuck_overflow hsends h (by omega))

/-! ### Reads -/

/-- What a read, or a list of reads, comes to. -/
def Comes (sends : Sends) (rest : ConstDataBuffer) (r : Except HandlerError Unit × HandlerState) : Prop :=
  (r.1 = .ok () ∧ Stands sends r.2 [] rest) ∨ ((∃ e, r.1 = .error e) ∧ Stuck sends r.2)

theorem comes_loop {n : Nat} (h : Stands sends s data rest)
    (hn : 2 * data.length + (if s.readState = .header then 0 else 1) < n) :
    Comes sends rest (loop n s data) := by
  induction n generalizing s data with
  | zero => exact absurd hn (Nat.not_lt_zero _)
  | succ n ih =>
    unfold loop
    by_cases hdata : data = []
    · subst hdata
      exact .inl ⟨rfl, h⟩
    · rw [if_neg (by rwa [List.isEmpty_iff])]
      have hturn : Outcome sends s data rest (turn s data) := by
        cases h with
        | header done todo hsends h => exact outcome_header hsends h hdata
        | payload done x todo taken left hsends h => exact outcome_payload hsends h hdata
      cases hturn' : turn s data with
      | returns result s' =>
        rw [hturn'] at hturn
        cases hturn with
        | returns _ h => exact .inl ⟨rfl, h⟩
        | stuck e _ h => exact .inr ⟨⟨e, rfl⟩, h⟩
      | again s' data' =>
        rw [hturn'] at hturn
        cases hturn with
        | again _ _ h hcost => exact ih h (by omega)

/-- A read that is there brings the handler to the first of its bytes. -/
theorem stands_read (h : Stands sends s [] (data ++ rest)) (hdata : data ≠ []) : Stands sends s data rest := by
  cases h with
  | header done todo hsends h =>
    exact .header done todo hsends
      ⟨h.readState, h.deliveries, h.stream, h.partly, fun _ hnil => absurd hnil hdata, h.short⟩
  | payload done x todo taken left hsends h =>
    exact .payload done x todo taken left hsends
      ⟨h.reading, h.deliveries, h.stream, h.pending, h.short, h.counted⟩

theorem comes_writeAsync (h : Stands sends s [] (data ++ rest)) (hdata : data ≠ []) :
    Comes sends rest (s.writeAsync data) := by
  unfold writeAsync
  rw [if_neg (by rwa [List.isEmpty_iff])]
  refine comes_loop (stands_read h hdata) ?_
  split_ifs <;> omega

theorem comes_receive {reads : List ConstDataBuffer} (hreads : ∀ data ∈ reads, data ≠ [])
    (h : Stands sends s [] (reads.flatten ++ rest)) : Comes sends rest (receive s reads) := by
  induction reads generalizing s with
  | nil => exact .inl ⟨rfl, h⟩
  | cons data reads ih =>
    rw [List.flatten_cons, List.append_assoc] at h
    have hread := comes_writeAsync h (hreads data List.mem_cons_self)
    unfold receive
    cases hw : s.writeAsync data with
    | mk result s' =>
      rw [hw] at hread
      rcases hread with ⟨hresult, hstands⟩ | ⟨⟨e, he⟩, hstuck⟩
      · obtain rfl : result = .ok () := hresult
        exact ih (fun d hd => hreads d (List.mem_cons_of_mem _ hd)) hstands
      · obtain rfl : result = .error e := he
        exact .inr ⟨⟨e, rfl⟩, hstuck⟩

theorem stands_start (sends : Sends) : Stands sends {} [] (wire sends) := by
  refine .header [] sends rfl ⟨rfl, rfl, rfl, fun x _ => ?_, fun _ _ x hx => (by cases hx), fun x hx => (by cases hx)⟩
  have hsix := six_le_clientHeader x.1 x.2
  change 0 < _
  omega

end HandlerState

/-! ### What has been delivered after some bytes -/

open HandlerState

/-- As `dueAt`, but an empty message does not end with its own last byte. -/
def heldAt : Sends → Nat → List Delivery
  | [], _ => []
  | (mask, m) :: sends, n =>
    let header := (clientHeader mask m).length
    if n < header then []
    else if n < header + m.payload.length ∨ m.payload = [] ∧ n = header then
      .start m.isBinary :: (m.payload.take (n - header)).map .byte
    else delivery m ++ heldAt sends (n - (header + m.payload.length))

/-- The size of a frame. -/
def frameSize (x : Mask × Message) : Nat := (clientHeader x.1 x.2).length + x.2.payload.length

theorem length_wire_cons (x : Mask × Message) (sends : Sends) :
    (wire (x :: sends)).length = frameSize x + (wire sends).length := by
  rw [wire_cons, List.length_append, List.length_append, length_xorMask, ← Nat.add_assoc]
  rfl

theorem length_wire_append (xs ys : Sends) : (wire (xs ++ ys)).length = (wire xs).length + (wire ys).length := by
  unfold wire
  rw [List.flatMap_append, List.length_append]

theorem frameSize_pos (x : Mask × Message) : 0 < frameSize x := by
  have hsix := six_le_clientHeader x.1 x.2
  unfold frameSize
  omega

theorem heldAt_append (done todo : Sends) {n : Nat}
    (h : n = 0 → ∀ x ∈ done.getLast?, x.2.payload ≠ []) :
    heldAt (done ++ todo) ((wire done).length + n) = delivered done ++ heldAt todo n := by
  induction done with
  | nil =>
    change heldAt todo (0 + n) = _
    rw [Nat.zero_add]
    rfl
  | cons x done ih =>
    have hlast : n = 0 → ∀ y ∈ done.getLast?, y.2.payload ≠ [] := by
      intro hn y hy
      refine h hn y ?_
      rw [List.getLast?_cons, Option.mem_def.mp hy]
      rfl
    have hempty : ¬(x.2.payload = [] ∧ (wire (x :: done)).length + n = (clientHeader x.1 x.2).length) := by
      rintro ⟨hx, hn⟩
      rw [length_wire_cons, frameSize, hx, List.length_nil] at hn
      have hn0 : n = 0 := by omega
      cases done with
      | nil => exact h hn0 x rfl hx
      | cons y done =>
        rw [length_wire_cons] at hn
        have hpos := frameSize_pos y
        omega
    have hsize := length_wire_cons x done
    unfold frameSize at hsize
    obtain ⟨mask, m⟩ := x
    rw [List.cons_append, heldAt]
    dsimp only at hsize hempty ⊢
    rw [if_neg (by omega), if_neg (not_or.mpr ⟨by omega, hempty⟩)]
    have hrest : (wire ((mask, m) :: done)).length + n - ((clientHeader mask m).length + m.payload.length) =
        (wire done).length + n := by omega
    rw [hrest, ih hlast]
    exact (List.append_assoc _ _ _).symm

theorem deliveries_of_stands {sends : Sends} {s : HandlerState} {rest : ConstDataBuffer} {n : Nat}
    (h : Stands sends s [] rest) (hn : n + rest.length = (wire sends).length) : s.deliveries = heldAt sends n := by
  cases h with
  | header done todo hsends h =>
    subst hsends
    have hstream := congrArg List.length h.stream
    rw [List.nil_append, List.length_append] at hstream
    rw [length_wire_append] at hn
    obtain rfl : n = (wire done).length + s.buffer.length := by omega
    rw [heldAt_append done todo fun hzero => h.fresh (List.length_eq_zero_iff.mp hzero) rfl, h.deliveries]
    cases todo with
    | nil => exact (List.append_nil _).symm
    | cons x todo =>
      have hpartly := h.partly x rfl
      obtain ⟨mask, m⟩ := x
      rw [heldAt]
      rw [if_pos hpartly, List.append_nil]
  | payload done x todo taken left hsends h =>
    subst hsends
    have hstream := congrArg List.length h.stream
    rw [List.nil_append, List.length_append, length_xorMask] at hstream
    have hpayload := congrArg List.length h.reading.payload
    rw [List.length_append] at hpayload
    rw [length_wire_append, length_wire_cons, frameSize] at hn
    obtain ⟨mask, m⟩ := x
    dsimp only at hn hpayload
    have hsix := six_le_clientHeader mask m
    obtain rfl : n = (wire done).length + ((clientHeader mask m).length + taken.length) := by omega
    rw [heldAt_append _ _ fun hzero => by omega, h.deliveries, heldAt]
    dsimp only
    have hinside : (clientHeader mask m).length + taken.length < (clientHeader mask m).length + m.payload.length ∨
        m.payload = [] ∧ (clientHeader mask m).length + taken.length = (clientHeader mask m).length := by
      by_cases hleft : left = []
      · have htaken := h.pending hleft
        refine .inr ⟨?_, ?_⟩
        · rw [h.reading.payload, hleft, htaken]
          rfl
        · rw [htaken]
          rfl
      · have hpos := List.length_pos_iff.mpr hleft
        exact .inl (by omega)
    have htake : m.payload.take taken.length = taken := by
      rw [h.reading.payload]
      exact List.take_left
    rw [if_neg (by omega), if_pos hinside, Nat.add_sub_cancel_left, htake]

/-- No byte count is that of the end of an empty message. -/
def ApartFrom (sends : Sends) (n : Nat) : Prop :=
  ∀ pre x post, sends = pre ++ x :: post → x.2.payload = [] → n ≠ (wire (pre ++ [x])).length

theorem apartFrom_cons {x : Mask × Message} {sends : Sends} {n : Nat} (hn : frameSize x ≤ n) :
    ApartFrom (x :: sends) n ↔ ¬(x.2.payload = [] ∧ n = frameSize x) ∧ ApartFrom sends (n - frameSize x) := by
  constructor
  · refine fun h => ⟨fun ⟨hx, he⟩ => h [] x sends rfl hx ?_, fun pre y post hs hy he => ?_⟩
    · rw [he, List.nil_append, length_wire_cons]
      rfl
    · refine h (x :: pre) y post (by rw [hs]; rfl) hy ?_
      rw [List.cons_append, length_wire_cons, ← he]
      omega
  · rintro ⟨hfirst, hrest⟩ pre y post hs hy he
    cases pre with
    | nil =>
      obtain ⟨rfl, -⟩ := List.cons.inj hs
      rw [List.nil_append, length_wire_cons] at he
      exact hfirst ⟨hy, he⟩
    | cons z pre =>
      obtain ⟨rfl, htail⟩ := List.cons.inj hs
      refine hrest pre y post htail hy ?_
      rw [List.cons_append, length_wire_cons] at he
      omega

theorem apartFrom_of_lt {x : Mask × Message} {sends : Sends} {n : Nat} (hn : n < frameSize x) :
    ApartFrom (x :: sends) n := by
  intro pre y post hs _ he
  have hpos := frameSize_pos y
  cases pre with
  | nil =>
    obtain ⟨rfl, -⟩ := List.cons.inj hs
    rw [List.nil_append, length_wire_cons] at he
    omega
  | cons z pre =>
    obtain ⟨rfl, -⟩ := List.cons.inj hs
    rw [List.cons_append, length_wire_cons] at he
    omega

theorem heldAt_eq_dueAt_iff (sends : Sends) (n : Nat) : heldAt sends n = dueAt sends n ↔ ApartFrom sends n := by
  induction sends generalizing n with
  | nil =>
    refine ⟨fun _ pre x post hs => ?_, fun _ => rfl⟩
    exact absurd hs.symm (List.append_ne_nil_of_right_ne_nil _ (List.cons_ne_nil _ _))
  | cons x sends ih =>
    obtain ⟨mask, m⟩ := x
    rw [heldAt, dueAt]
    have hframe : frameSize (mask, m) = (clientHeader mask m).length + m.payload.length := rfl
    by_cases hheader : n < (clientHeader mask m).length
    · rw [if_pos hheader, if_pos hheader]
      exact iff_of_true rfl (apartFrom_of_lt (by omega))
    · rw [if_neg hheader, if_neg hheader]
      by_cases hinside : n < (clientHeader mask m).length + m.payload.length
      · rw [if_pos (.inl hinside), if_pos hinside]
        exact iff_of_true rfl (apartFrom_of_lt hinside)
      · have hle : frameSize (mask, m) ≤ n := by omega
        rw [if_neg hinside, apartFrom_cons hle, ← ih]
        by_cases hempty : m.payload = [] ∧ n = (clientHeader mask m).length
        · rw [if_pos (.inr hempty)]
          have hsame : m.payload = [] ∧ n = frameSize (mask, m) := by
            refine ⟨hempty.1, ?_⟩
            rw [hframe, hempty.1]
            exact hempty.2
          refine iff_of_false (fun he => ?_) fun h => h.1 hsame
          unfold delivery at he
          rw [hempty.1, List.take_nil] at he
          have hnil := (List.cons.inj he).2
          exact List.cons_ne_nil _ _ hnil.symm
        · rw [if_neg (not_or.mpr ⟨hinside, hempty⟩)]
          have hsame : ¬(m.payload = [] ∧ n = frameSize (mask, m)) := by
            rintro ⟨hm, hn⟩
            rw [hframe, hm] at hn
            exact hempty ⟨hm, hn⟩
          constructor
          · exact fun he => ⟨hsame, List.append_cancel_left he⟩
          · rintro ⟨-, he⟩
            rw [← hframe, he]

/-! ### The claim -/

theorem dueAt_all (sends : Sends) : dueAt sends (wire sends).length = delivered sends := by
  induction sends with
  | nil => rfl
  | cons x sends ih =>
    obtain ⟨mask, m⟩ := x
    have hframe : frameSize (mask, m) = (clientHeader mask m).length + m.payload.length := rfl
    rw [length_wire_cons, dueAt, if_neg (by omega), if_neg (by omega), hframe, Nat.add_sub_cancel_left, ih]
    rfl

theorem not_deliversAll_of_stuck {sends : Sends} {reads : List ConstDataBuffer}
    (hwire : reads.flatten = wire sends) (h : Stuck sends (receive {} reads).2) : ¬DeliversAll sends reads := by
  intro hall
  obtain ⟨due, hdue, hlast⟩ := h.due
  have hend := hall reads.length
  rw [List.take_length, hwire, dueAt_all] at hend
  rw [hend] at hlast
  exact hdue (List.append_right_eq_self.mp hlast)

/-- At the end of the stream every message has been counted. -/
theorem short_of_stands {sends : Sends} {s : HandlerState} (h : Stands sends s [] []) : ∀ x ∈ sends, Short x := by
  cases h with
  | header done todo hsends h =>
    cases todo with
    | nil =>
      rw [List.append_nil] at hsends
      rw [hsends]
      exact h.short
    | cons x todo =>
      have hpartly := h.partly x rfl
      have hstream := congrArg List.length h.stream
      rw [List.append_nil, List.append_nil, length_wire_cons, frameSize] at hstream
      omega
  | payload done x todo taken left hsends h =>
    have hstream := congrArg List.length h.stream
    rw [List.nil_append, List.length_append, length_xorMask] at hstream
    have hleft : left = [] := List.length_eq_zero_iff.mp (Nat.eq_zero_of_add_eq_zero_right hstream.symm)
    have htodo : todo = [] := by
      cases todo with
      | nil => rfl
      | cons y todo =>
        have hpos := frameSize_pos y
        rw [length_wire_cons] at hstream
        change 0 = _ at hstream
        omega
    intro y hy
    rw [hsends, htodo] at hy
    rcases List.mem_append.mp hy with hy | hy
    · exact h.short y hy
    · obtain rfl := List.mem_singleton.mp hy
      unfold Short
      rw [h.reading.payload, hleft, List.append_nil]
      exact h.counted

section

variable {sends : Sends} {reads : List ConstDataBuffer} (hreads : ∀ data ∈ reads, data ≠ [])
  (hwire : reads.flatten = wire sends)
include hreads hwire

theorem comes_take (k : Nat) : Comes sends (reads.drop k).flatten (receive {} (reads.take k)) := by
  refine comes_receive (fun data hdata => hreads data (List.mem_of_mem_take hdata)) ?_
  rw [← List.flatten_append, List.take_append_drop, hwire]
  exact stands_start sends

theorem deliveries_take (hshort : ∀ x ∈ sends, Short x) (k : Nat) :
    (receive {} (reads.take k)).2.deliveries = heldAt sends (reads.take k).flatten.length := by
  rcases comes_take hreads hwire k with ⟨-, hstands⟩ | ⟨-, hstuck⟩
  · refine deliveries_of_stands hstands ?_
    rw [← hwire, ← List.length_append, ← List.flatten_append, List.take_append_drop]
  · obtain ⟨x, hx, hlong⟩ := hstuck.long
    exact absurd (hshort x hx) hlong

/-- The handler keeps up with the bytes exactly when no message is longer than its index can count, and no
read ends with the last byte of an empty message. -/
theorem deliversAll_iff : DeliversAll sends reads ↔
    (∀ x ∈ sends, x.2.payload.length < 2 ^ 31) ∧
    ∀ pre x post, sends = pre ++ x :: post → x.2.payload = [] →
      ∀ k, (reads.take k).flatten.length ≠ (wire (pre ++ [x])).length := by
  constructor
  · intro hall
    have hshort : ∀ x ∈ sends, Short x := by
      have hend := comes_take hreads hwire reads.length
      rw [List.take_length, List.drop_length] at hend
      rcases hend with ⟨-, hstands⟩ | ⟨-, hstuck⟩
      · exact short_of_stands hstands
      · exact absurd hall (not_deliversAll_of_stuck hwire hstuck)
    refine ⟨hshort, fun pre x post hs hx k => ?_⟩
    have heq := (deliveries_take hreads hwire hshort k).symm.trans (hall k)
    exact (heldAt_eq_dueAt_iff _ _).mp heq pre x post hs hx
  · rintro ⟨hshort, hends⟩ k
    rw [deliveries_take hreads hwire hshort k]
    exact (heldAt_eq_dueAt_iff _ _).mpr fun pre x post hs hx => hends pre x post hs hx k

end

/-- An empty message, and one of two bytes. -/
def emptyMessage : Message := ⟨false, [], by decide⟩

def shortMessage : Message := ⟨false, [104, 105], by decide⟩

def sampleMask : Mask := fun i => UInt8.ofNat (17 * (i + 1))

/-- The message of two bytes in three reads. -/
def sampleReads : List ConstDataBuffer := [[0x81], [0x82, 17, 34, 51, 68, 121], [75]]

theorem deliversAll_iff_cut : DeliversAll [(sampleMask, shortMessage)] sampleReads ↔
    (∀ x ∈ [(sampleMask, shortMessage)], x.2.payload.length < 2 ^ 31) ∧
    ∀ pre x post, [(sampleMask, shortMessage)] = pre ++ x :: post → x.2.payload = [] →
      ∀ k, (sampleReads.take k).flatten.length ≠ (wire (pre ++ [x])).length := by
  have hreads : ∀ data ∈ sampleReads, data ≠ [] := by decide
  have hwire : sampleReads.flatten = wire [(sampleMask, shortMessage)] := by decide +kernel
  exact deliversAll_iff hreads hwire

/-- The end of an empty message that nothing follows is never delivered. -/
theorem not_deliversAll_empty :
    (∀ data ∈ [sendMessage sampleMask emptyMessage], data ≠ []) ∧
    [sendMessage sampleMask emptyMessage].flatten = wire [(sampleMask, emptyMessage)] ∧
    ¬DeliversAll [(sampleMask, emptyMessage)] [sendMessage sampleMask emptyMessage] := by
  refine ⟨by decide, by decide +kernel, fun h => ?_⟩
  have hlast := h 1
  revert hlast
  decide +kernel

end Vds.Http
