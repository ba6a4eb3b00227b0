import Vds.DhtNetwork.Channel

/-! What a session writes again when the acknowledgment of its partner comes: the mask is built from its
last bit to its first one and read the other way round. -/

namespace Vds.DhtNetwork

open BinarySerializer BinaryDeserializer StateError

/-! ### The mask -/

/-- The number whose bits `i` with `b i` are set. -/
def numberOfBits (b : Nat → Bool) (n : Nat) : Nat :=
  ((List.range n).map fun i => if b i then 2 ^ i else 0).sum

theorem numberOfBits_succ (b : Nat → Bool) (n : Nat) :
    numberOfBits b (n + 1) = numberOfBits b n + if b n then 2 ^ n else 0 := by
  unfold numberOfBits
  rw [List.range_succ, List.map_append, List.sum_append, List.map_singleton, List.sum_singleton]

theorem numberOfBits_lt (b : Nat → Bool) (n : Nat) : numberOfBits b n < 2 ^ n := by
  induction n with
  | zero => exact Nat.one_pos
  | succ n ih =>
    rw [numberOfBits_succ, pow_succ]
    split_ifs <;> omega

theorem testBit_numberOfBits (b : Nat → Bool) {n i : Nat} (hi : i < n) :
    (numberOfBits b n).testBit i = b i := by
  induction n with
  | zero => exact absurd hi (Nat.not_lt_zero i)
  | succ n ih =>
    have hlt := numberOfBits_lt b n
    rw [numberOfBits_succ]
    rcases Nat.lt_succ_iff_lt_or_eq.mp hi with hin | rfl
    · split_ifs with hb
      · rw [Nat.add_comm, Nat.testBit_two_pow_add_gt hin]
        exact ih hin
      · exact ih hin
    · split_ifs with hb
      · rw [Nat.add_comm, Nat.testBit_two_pow_add_eq, Nat.testBit_lt_two_pow hlt, hb]
        rfl
      · have hfalse : b i = false := Bool.eq_false_iff.mpr hb
        rw [Nat.add_zero, Nat.testBit_lt_two_pow hlt, hfalse]

variable (p : DatagramProtocol)

/-- Is the datagram behind `last_input_index_` by `i + 1` missing? -/
def missing (i : Nat) : Bool := (p.inputMessages.find ((p.lastInputIndex + (i + 1)) % indexMod)).isNone

theorem maskBits_eq : maskBits p = numberOfBits (missing p) 32 := by
  unfold maskBits numberOfBits
  congr 1
  refine List.map_congr_left fun i _ => ?_
  unfold missing
  cases p.inputMessages.find ((p.lastInputIndex + (i + 1)) % indexMod) <;> rfl

theorem testBit_maskBits {i : Nat} (hi : i < 32) : (maskBits p).testBit i = missing p i := by
  rw [maskBits_eq]
  exact testBit_numberOfBits _ hi

theorem acknowledgment_lastIndex (h : p.lastInputIndex < indexMod) :
    numberAt (acknowledgment p) 1 4 = .ok p.lastInputIndex := by
  unfold acknowledgment
  rw [List.cons_append, List.cons_append, List.append_assoc]
  exact Channel.index_at h _

theorem acknowledgment_mask : numberAt (acknowledgment p) 5 4 = .ok (maskBits p) := by
  have hlt : maskBits p < indexMod := (maskBits_eq p).trans_lt (numberOfBits_lt _ 32)
  have hvalue : (bigEndian (indexBytes (maskBits p))).toNat = maskBits p := toNat_indexBytes hlt
  refine Eq.trans ?_ (congrArg Except.ok hvalue)
  exact @numberAt_append _ (MessageType.acknowledgment :: indexBytes p.lastInputIndex)
    (indexBytes (maskBits p)) _ 5 4 rfl rfl rfl

theorem acknowledgment_mtu : ∃ mtu, numberAt (acknowledgment p) 9 2 = .ok mtu := by
  have hmtu := @numberAt_append (acknowledgment p) (MessageType.acknowledgment :: indexBytes p.lastInputIndex ++
    putUInt32 (UInt32.ofNat (maskBits p))) [UInt8.ofNat (p.inputMtu / 256), UInt8.ofNat (p.inputMtu % 256)] [] 9 2
    (List.append_nil _).symm rfl rfl
  exact ⟨_, hmtu⟩

/-! ### The queue -/

variable {p} in
theorem find_eraseAcknowledged {last n : Nat} (hn : p.outputMessages.size ≤ n) (i : Nat) :
    (eraseAcknowledged last n p).outputMessages.find i =
      if i < last then none else p.outputMessages.find i := by
  induction n generalizing p with
  | zero =>
    have hempty : p.outputMessages.front = none := by
      have hnil : p.outputMessages.entries = [] := List.length_eq_zero_iff.mp (Nat.le_zero.mp hn)
      exact List.head?_eq_none_iff.mpr hnil
    change p.outputMessages.find i = _
    rw [OrderedMap.find_of_front_none hempty, ite_self]
  | succ n ih =>
    unfold eraseAcknowledged
    cases hf : p.outputMessages.front with
    | none =>
      change p.outputMessages.find i = _
      rw [OrderedMap.find_of_front_none hf, ite_self]
    | some e =>
      obtain ⟨index, d⟩ := e
      dsimp only
      split_ifs with hlast hi hi
      · rw [ih (by have := OrderedMap.size_eraseFront hf; dsimp only; omega), if_pos hi]
      · rw [ih (by have := OrderedMap.size_eraseFront hf; dsimp only; omega), if_neg hi]
        change p.outputMessages.eraseFront.find i = _
        rw [OrderedMap.find_eraseFront hf, if_neg]
        rintro rfl
        exact hi hlast
      -- the front is not in front of `last`, so nothing is
      · by_contra hne
        have hle := OrderedMap.front_le hf hne
        omega
      · rfl

/-! ### The writes -/

/-- The session after it has written `ds`, as far as the transport takes them. -/
def afterWrites (ds : List ConstDataBuffer) (s : Session) : Session :=
  if true ∈ s.refuses.take ds.length then
    { s with
      written := s.written ++ ds.take (s.refuses.idxOf true)
      refuses := s.refuses.drop (s.refuses.idxOf true + 1) }
  else { s with written := s.written ++ ds, refuses := s.refuses.drop ds.length }

/-- What writing `ds` comes to. -/
def writes (ds : List ConstDataBuffer) (s : Session) : EStateM.Result ProtocolError Session Unit :=
  if true ∈ s.refuses.take ds.length then .error .notWritten (afterWrites ds s) else .ok () (afterWrites ds s)

theorem forM_writeAsync (ds : List ConstDataBuffer) (s : Session) : ds.forM writeAsync s = writes ds s := by
  induction ds generalizing s with
  | nil =>
    unfold writes afterWrites
    rw [List.length_nil, List.take_zero, if_neg List.not_mem_nil, if_neg List.not_mem_nil, List.append_nil,
      List.drop_zero]
    rfl
  | cons d ds ih =>
    obtain ⟨self, processed, written, now, refuses⟩ := s
    change (writeAsync d >>= fun _ => ds.forM writeAsync) _ = _
    cases refuses with
    | nil =>
      rw [bind_of_ok (rfl : writeAsync d ⟨self, processed, written, now, []⟩ =
        .ok () ⟨self, processed, written ++ [d], now, []⟩), ih]
      unfold writes afterWrites
      simp
    | cons refused refuses =>
      cases refused with
      | true =>
        rw [bind_of_error (rfl : writeAsync d ⟨self, processed, written, now, true :: refuses⟩ =
          .error .notWritten ⟨self, processed, written, now, refuses⟩)]
        unfold writes afterWrites
        simp
      | false =>
        rw [bind_of_ok (rfl : writeAsync d ⟨self, processed, written, now, false :: refuses⟩ =
          .ok () ⟨self, processed, written ++ [d], now, refuses⟩), ih]
        unfold writes afterWrites
        simp

theorem writeAsync_self {d : ConstDataBuffer} {s s' : Session} (h : writeAsync d s = .ok () s') :
    s'.self = s.self := by
  obtain ⟨refuses, hs | hs⟩ := writeAsync_final d s <;> rw [h] at hs <;> rw [final_ok] at hs <;> rw [hs]

theorem forM_resend (indexes : List Nat) (s : Session) :
    indexes.forM resend s = writes (indexes.filterMap s.self.outputMessages.find) s := by
  rw [← forM_writeAsync]
  induction indexes generalizing s with
  | nil => rfl
  | cons index indexes ih =>
    change (resend index >>= fun _ => indexes.forM resend) s = _
    have hget : (get : SessionM Session) s = .ok s s := rfl
    cases hd : s.self.outputMessages.find index with
    | none =>
      have hskip : resend index s = .ok () s := by
        unfold resend
        rw [bind_of_ok hget, hd]
        rfl
      rw [bind_of_ok hskip, List.filterMap_cons_none hd]
      exact ih s
    | some d =>
      have hwrite : resend index s = writeAsync d s := by
        unfold resend
        rw [bind_of_ok hget, hd]
      rw [List.filterMap_cons_some hd]
      change _ = (writeAsync d >>= fun _ => List.forM _ writeAsync) s
      cases hw : writeAsync d s with
      | ok u s' =>
        rw [bind_of_ok (hwrite.trans hw), bind_of_ok hw, ih s', writeAsync_self hw]
      | error e s' => rw [bind_of_error (hwrite.trans hw), bind_of_error hw]

/-- The numbers that the acknowledgment of `p` asks for, in the order in which they are looked up. -/
def asked : List Nat :=
  p.lastInputIndex :: ((List.range 32).filter (missing p)).map fun i => (p.lastInputIndex + i + 1) % indexMod

theorem forM_filter (b : Nat → Bool) (f : Nat → Nat) (xs : List Nat) :
    (xs.forM fun i => if b i then resend (f i) else pure ()) = ((xs.filter b).map f).forM resend := by
  induction xs with
  | nil => rfl
  | cons i xs ih =>
    have hcons (g : Nat → SessionM PUnit) : (i :: xs).forM g = g i >>= fun _ => xs.forM g := rfl
    rw [hcons, ih]
    by_cases hi : b i
    · rw [if_pos hi, List.filter_cons_of_pos hi]
      rfl
    · rw [if_neg hi, List.filter_cons_of_neg hi]
      rfl

theorem filter_maskBits : (List.range 32).filter (maskBits p).testBit = (List.range 32).filter (missing p) :=
  List.filter_congr fun _ hi => testBit_maskBits p (List.mem_range.mp hi)

/-- `mtu_` after the partner has told the size of the largest datagram that it has got. -/
def raiseMtu (mtu : Nat) (q : DatagramProtocol) : DatagramProtocol := { q with mtu := max q.mtu mtu }

/-- The call erases, writes again, and then looks at the MTU of its partner. -/
theorem processAcknowledgment_eq (h : p.lastInputIndex < indexMod) :
    ∃ mtu, processAcknowledgment (acknowledgment p) =
      modifySelf (fun q => eraseAcknowledged p.lastInputIndex q.outputMessages.size q) >>= fun _ =>
        (asked p).forM resend >>= fun _ => modifySelf (raiseMtu mtu) := by
  obtain ⟨mtu, hmtu⟩ := acknowledgment_mtu p
  refine ⟨mtu, ?_⟩
  unfold processAcknowledgment
  rw [acknowledgment_lastIndex p h, acknowledgment_mask, hmtu]
  have hcons (f : Unit → SessionM Unit) : ((asked p).forM resend >>= f) = resend p.lastInputIndex >>= fun _ =>
      (List.range 32).forM (fun i => if (maskBits p).testBit i then
        resend ((p.lastInputIndex + i + 1) % indexMod) else pure ()) >>= f := by
    rw [forM_filter, filter_maskBits, ← bind_assoc]
    rfl
  rw [hcons]
  rfl

/-- `last_input_index_`, and what is missing among the 32 numbers behind it. -/
def Asked (i : Nat) : Prop :=
  i = p.lastInputIndex ∨
    p.lastInputIndex < i ∧ i ≤ p.lastInputIndex + 32 ∧ p.inputMessages.find i = none

/-- The acknowledgment of `p` makes its partner erase what stands in front of `last_input_index_`, and write
the queued datagrams that `p` asks for, each once: all of them, or those before the first one that the
transport refuses. -/
structure Resends (s : Session) (indexes : List Nat) : Prop where
  ascending : indexes.Pairwise (· < ·)
  asked : ∀ i, i ∈ indexes ↔ Asked p i ∧ s.self.outputMessages.find i ≠ none
  queue : ∀ i, (final (processAcknowledgment (acknowledgment p) s)).self.outputMessages.find i =
    if i < p.lastInputIndex then none else s.self.outputMessages.find i
  refused : true ∈ s.refuses.take indexes.length →
    returned (processAcknowledgment (acknowledgment p) s) = none ∧
    (final (processAcknowledgment (acknowledgment p) s)).written =
      s.written ++ (indexes.take (s.refuses.idxOf true)).filterMap s.self.outputMessages.find
  written : true ∉ s.refuses.take indexes.length →
    returned (processAcknowledgment (acknowledgment p) s) = some () ∧
    (final (processAcknowledgment (acknowledgment p) s)).written =
      s.written ++ indexes.filterMap s.self.outputMessages.find

section

variable {p} (h : p.lastInputIndex < 2 ^ 32 - 33)
include h

theorem asked_eq : asked p = p.lastInputIndex ::
    ((List.range' (p.lastInputIndex + 1) 32).filter fun i => (p.inputMessages.find i).isNone) := by
  have hmod (i : Nat) (hi : i ∈ List.range 32) : (p.lastInputIndex + (i + 1)) % indexMod = p.lastInputIndex + 1 + i := by
    have hlt : i < 32 := List.mem_range.mp hi
    unfold indexMod
    omega
  unfold asked
  rw [List.range'_eq_map_range, List.filter_map]
  congr 1
  have hfilter : (List.range 32).filter (missing p) =
      (List.range 32).filter ((fun i => (p.inputMessages.find i).isNone) ∘ fun i => p.lastInputIndex + 1 + i) := by
    refine List.filter_congr fun i hi => ?_
    unfold missing
    rw [hmod i hi]
    rfl
  rw [hfilter]
  refine List.map_congr_left fun i hi => ?_
  exact hmod i (List.mem_filter.mp hi).1

theorem mem_asked {i : Nat} : i ∈ asked p ↔ Asked p i := by
  rw [asked_eq h, List.mem_cons, List.mem_filter, List.mem_range'_1, Option.isNone_iff_eq_none]
  unfold Asked
  constructor
  · rintro (hi | ⟨hi, hnone⟩)
    · exact .inl hi
    · exact .inr ⟨by omega, by omega, hnone⟩
  · rintro (hi | ⟨hlt, hle, hnone⟩)
    · exact .inl hi
    · exact .inr ⟨by omega, hnone⟩

theorem ascending_asked : (asked p).Pairwise (· < ·) := by
  rw [asked_eq h]
  refine List.pairwise_cons.mpr ⟨fun i hi => ?_, List.Pairwise.filter _ List.pairwise_lt_range'⟩
  have hi := List.mem_range'_1.mp (List.mem_filter.mp hi).1
  omega

omit h in
theorem filterMap_found {f : Nat → Option ConstDataBuffer} {xs : List Nat} (hf : ∀ i ∈ xs, f i ≠ none) :
    xs.filterMap f = xs.map fun i => (f i).getD [] := by
  induction xs with
  | nil => rfl
  | cons i xs ih =>
    obtain ⟨d, hd⟩ := Option.ne_none_iff_exists'.mp (hf i List.mem_cons_self)
    rw [List.filterMap_cons_some hd, List.map_cons, hd, ih fun j hj => hf j (List.mem_cons_of_mem _ hj)]
    rfl

/-- The numbers that are asked for and queued. -/
def served (p q : DatagramProtocol) : List Nat :=
  (asked p).filter fun i => (q.outputMessages.find i).isSome

omit h in
theorem found_of_mem_served {q : DatagramProtocol} {i : Nat} (hi : i ∈ served p q) :
    q.outputMessages.find i ≠ none :=
  Option.isSome_iff_ne_none.mp (List.mem_filter.mp hi).2

/-- What is erased was not asked for. -/
theorem filterMap_asked (q : DatagramProtocol) :
    (asked p).filterMap (eraseAcknowledged p.lastInputIndex q.outputMessages.size q).outputMessages.find =
      (served p q).filterMap q.outputMessages.find := by
  have hfind : ∀ i ∈ asked p, (eraseAcknowledged p.lastInputIndex q.outputMessages.size q).outputMessages.find i =
      q.outputMessages.find i := by
    intro i hi
    rw [find_eraseAcknowledged le_rfl, if_neg]
    rcases (mem_asked h).mp hi with rfl | ⟨hlt, -⟩
    · exact lt_irrefl _
    · exact hlt.not_gt
  rw [List.filterMap_congr hfind]
  unfold served
  rw [List.filterMap_filter]
  refine List.filterMap_congr fun i _ => ?_
  cases q.outputMessages.find i <;> rfl

omit h in
/-- The state in which the writes begin. -/
def erased (p : DatagramProtocol) (s : Session) : Session :=
  { s with self := eraseAcknowledged p.lastInputIndex s.self.outputMessages.size s.self }

omit h in
/-- The datagrams that are asked for and queued. -/
def toWrite (p : DatagramProtocol) (s : Session) : List ConstDataBuffer :=
  (served p s.self).filterMap s.self.outputMessages.find

theorem processAcknowledgment_result (s : Session) : ∃ mtu,
    processAcknowledgment (acknowledgment p) s =
      if true ∈ s.refuses.take (toWrite p s).length then
        .error .notWritten (afterWrites (toWrite p s) (erased p s))
      else .ok () { afterWrites (toWrite p s) (erased p s) with
        self := raiseMtu mtu (afterWrites (toWrite p s) (erased p s)).self } := by
  have hlast : p.lastInputIndex < indexMod := by
    unfold indexMod
    omega
  obtain ⟨mtu, hmtu⟩ := processAcknowledgment_eq p hlast
  have herase : modifySelf (fun q => eraseAcknowledged p.lastInputIndex q.outputMessages.size q) s =
      .ok () (erased p s) := rfl
  have hwrites : (asked p).forM resend (erased p s) = writes (toWrite p s) (erased p s) := by
    rw [forM_resend]
    exact congrArg (fun ds => writes ds (erased p s)) (filterMap_asked h s.self)
  refine ⟨mtu, ?_⟩
  rw [hmtu, bind_of_ok herase]
  unfold writes at hwrites
  change (asked p).forM resend (erased p s) =
    if true ∈ s.refuses.take (toWrite p s).length then _ else _ at hwrites
  split_ifs at hwrites ⊢ with hrefused
  · rw [bind_of_error hwrites]
  · rw [bind_of_ok hwrites]
    rfl

theorem exists_resends (s : Session) : ∃ indexes, Resends p s indexes := by
  have hfound : ∀ i ∈ served p s.self, s.self.outputMessages.find i ≠ none := fun i hi => found_of_mem_served hi
  have hlength : (toWrite p s).length = (served p s.self).length := by
    unfold toWrite
    rw [filterMap_found hfound, List.length_map]
  have htake (k : Nat) : (toWrite p s).take k = ((served p s.self).take k).filterMap s.self.outputMessages.find := by
    unfold toWrite
    rw [filterMap_found hfound, filterMap_found fun i hi => hfound i (List.mem_of_mem_take hi), List.map_take]
  obtain ⟨mtu, hmtu⟩ := processAcknowledgment_result h s
  have hself : (afterWrites (toWrite p s) (erased p s)).self = (erased p s).self := by
    unfold afterWrites
    split_ifs <;> rfl
  have hfinal : (final (processAcknowledgment (acknowledgment p) s)).self.outputMessages =
      (erased p s).self.outputMessages := by
    rw [hmtu]
    split_ifs
    · rw [final_error, hself]
    · rw [final_ok, hself]
      rfl
  refine ⟨served p s.self, (ascending_asked h).filter _, fun i => ?_, fun i => ?_, fun hrefused => ?_, fun hrefused => ?_⟩
  · unfold served
    rw [List.mem_filter, mem_asked h, Option.isSome_iff_ne_none]
  · rw [hfinal]
    exact find_eraseAcknowledged le_rfl i
  · rw [← hlength] at hrefused
    rw [hmtu, if_pos hrefused, ← htake]
    exact ⟨rfl, congrArg Session.written (if_pos hrefused)⟩
  · rw [← hlength] at hrefused
    rw [hmtu, if_neg hrefused]
    exact ⟨rfl, congrArg Session.written (if_neg hrefused)⟩

end

def sampleReceiver : DatagramProtocol where
  thisNodeId := sampleNode 2
  partnerNodeId := sampleNode 1
  sessionKey := []
  lastInputIndex := 2
  expectedIndex := 2
  lastProcessed := 0
  inputMessages := OrderedMap.empty.assign 3 [3]

/-- Its partner has queued the datagrams 1 to 4. -/
def sampleSender : Session where
  self := { sampleReceiver with
    lastOutputIndex := 5
    outputMessages := (((OrderedMap.empty.assign 1 [1]).assign 2 [2]).assign 3 [3]).assign 4 [4] }
  now := 0

theorem exists_resends_sample : ∃ indexes, Resends sampleReceiver sampleSender indexes :=
  exists_resends (by decide) sampleSender

example : (final (processAcknowledgment (acknowledgment sampleReceiver) sampleSender)).written = [[2], [4]] := by
  decide +kernel

end Vds.DhtNetwork
