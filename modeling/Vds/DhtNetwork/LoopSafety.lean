import Vds.DhtNetwork.ParsingSafety

/-! The loop of `continue_process_messages` is safe just if no message that comes to be expected is faulty. -/

namespace Vds.DhtNetwork.Checked

open BinaryDeserializer StateError

variable {d : ConstDataBuffer}

/-! ### The messages that come to be expected -/

/-- The message that begins with the number `e` has come as a whole, in `n` datagrams. -/
def Complete (m : OrderedMap Nat ConstDataBuffer) (e n : Nat) : Prop :=
  ∃ d, m.find e = some d ∧ ¬FaultyHead d ∧
    (IsWhole d ∧ n = 1 ∨ ∃ left k, LeavesOpen d left ∧ Continues m (e + 1) left k ∧ n = k + 1)

/-- The numbers that come to be expected from `e` on, without those that come after the greatest one. -/
inductive Expected (m : OrderedMap Nat ConstDataBuffer) : Nat → Nat → Prop
  | here (e : Nat) : Expected m e e
  | next {e e' n : Nat} (complete : Complete m e n) (less : e + n < indexMod) (rest : Expected m (e + n) e') :
    Expected m e e'

/-- What is stored under `e` can not be read as a message. -/
def Faulty (m : OrderedMap Nat ConstDataBuffer) (e : Nat) : Prop :=
  ∃ d, m.find e = some d ∧ (FaultyHead d ∨ ∃ left, LeavesOpen d left ∧ FaultyTail m (e + 1) left)

def NeverFaulty (m : OrderedMap Nat ConstDataBuffer) (e : Nat) : Prop := ∀ e', Expected m e e' → ¬Faulty m e'

section Expected

variable {m m' : OrderedMap Nat ConstDataBuffer} {e e' n : Nat}

/-- Of the stored datagrams only those from `e` on count. -/
theorem continues_congr {start left k : Nat} (h : ∀ i, e ≤ i → m.find i = m'.find i) (hs : e ≤ start)
    (hc : Continues m start left k) : Continues m' start left k := by
  induction hc with
  | last found kind long fits => exact .last (h _ hs ▸ found) kind long fits
  | more found kind long fits _ ih => exact .more (h _ hs ▸ found) kind long fits (ih (Nat.le_succ_of_le hs))

theorem faultyTail_congr {start left : Nat} (h : ∀ i, e ≤ i → m.find i = m'.find i) (hs : e ≤ start)
    (hf : FaultyTail m start left) : FaultyTail m' start left := by
  induction hf with
  | here found kind short => exact .here (h _ hs ▸ found) kind short
  | later found kind long fits _ ih => exact .later (h _ hs ▸ found) kind long fits (ih (Nat.le_succ_of_le hs))

theorem complete_congr {e₁ : Nat} (h : ∀ i, e ≤ i → m.find i = m'.find i) (hs : e ≤ e₁) (hc : Complete m e₁ n) :
    Complete m' e₁ n := by
  obtain ⟨d, hd, hsound, hkind⟩ := hc
  refine ⟨d, h _ hs ▸ hd, hsound, hkind.imp_right ?_⟩
  rintro ⟨left, k, hopen, hc, hn⟩
  exact ⟨left, k, hopen, continues_congr h (Nat.le_succ_of_le hs) hc, hn⟩

theorem faulty_congr {e₁ : Nat} (h : ∀ i, e ≤ i → m.find i = m'.find i) (hs : e ≤ e₁) (hf : Faulty m e₁) :
    Faulty m' e₁ := by
  obtain ⟨d, hd, hkind⟩ := hf
  refine ⟨d, h _ hs ▸ hd, hkind.imp_right ?_⟩
  rintro ⟨left, hopen, hf⟩
  exact ⟨left, hopen, faultyTail_congr h (Nat.le_succ_of_le hs) hf⟩

theorem expected_congr {e₁ : Nat} (h : ∀ i, e ≤ i → m.find i = m'.find i) (hs : e ≤ e₁) (hx : Expected m e₁ e') :
    Expected m' e₁ e' := by
  induction hx with
  | here _ => exact .here _
  | next complete less _ ih => exact .next (complete_congr h hs complete) less (ih (Nat.le_add_right_of_le hs))

theorem le_of_expected (h : Expected m e e') : e ≤ e' := by
  induction h with
  | here _ => exact le_rfl
  | next _ _ _ ih => exact (Nat.le_add_right _ _).trans ih

theorem neverFaulty_congr (h : ∀ i, e ≤ i → m.find i = m'.find i) : NeverFaulty m e ↔ NeverFaulty m' e := by
  have hsymm : ∀ i, e ≤ i → m'.find i = m.find i := fun i hi => (h i hi).symm
  constructor
  · intro hn e' hx hf
    exact hn e' (expected_congr hsymm le_rfl hx) (faulty_congr hsymm (le_of_expected hx) hf)
  · intro hn e' hx hf
    exact hn e' (expected_congr h le_rfl hx) (faulty_congr h (le_of_expected hx) hf)

/-- Where no message is complete, the question is about the first one only. -/
theorem neverFaulty_of_not_complete (h : ∀ n, ¬Complete m e n) : NeverFaulty m e ↔ ¬Faulty m e := by
  constructor
  · exact fun hn => hn e (.here e)
  · intro hn e' hx
    cases hx with
    | here _ => exact hn
    | next complete _ _ => exact absurd complete (h _)

theorem neverFaulty_of_complete (honly : ∀ k, Complete m e k ↔ k = n) (hsound : ¬Faulty m e) :
    NeverFaulty m e ↔ (e + n < indexMod → NeverFaulty m (e + n)) := by
  constructor
  · exact fun hn hless e' hx => hn e' (.next ((honly n).mpr rfl) hless hx)
  · intro hn e' hx
    cases hx with
    | here _ => exact hsound
    | next complete less rest =>
      obtain rfl := (honly _).mp complete
      exact hn less e' rest

theorem not_complete_of_none (h : m.find e = none) : ¬Complete m e n := by
  rintro ⟨d, hd, -⟩
  rw [h] at hd
  cases hd

theorem not_faulty_of_none (h : m.find e = none) : ¬Faulty m e := by
  rintro ⟨d, hd, -⟩
  rw [h] at hd
  cases hd

theorem continues_le (hkeys : ∀ i, m.find i ≠ none → i < indexMod) {start left k : Nat} (h : Continues m start left k) :
    start + k ≤ indexMod ∧ ∀ j, j < k → m.find (start + j) ≠ none := by
  induction h with
  | @last start left d found _ _ _ =>
    have hne : m.find start ≠ none := by
      rw [found]
      exact Option.some_ne_none d
    refine ⟨hkeys start hne, fun j hj => ?_⟩
    obtain rfl : j = 0 := by omega
    exact hne
  | @more start left k d found _ _ _ _ ih =>
    refine ⟨by omega, fun j hj => ?_⟩
    cases j with
    | zero =>
      rw [Nat.add_zero, found]
      exact Option.some_ne_none d
    | succ j =>
      have hj := ih.2 j (by omega)
      rwa [Nat.add_assoc, Nat.add_comm 1 j] at hj

theorem complete_le (hkeys : ∀ i, m.find i ≠ none → i < indexMod) (h : Complete m e n) :
    0 < n ∧ e + n ≤ indexMod ∧ ∀ j, j < n → m.find (e + j) ≠ none := by
  obtain ⟨d, hd, -, ⟨-, rfl⟩ | ⟨left, k, -, hc, rfl⟩⟩ := h
  · have hne : m.find e ≠ none := by
      rw [hd]
      exact Option.some_ne_none d
    refine ⟨Nat.one_pos, hkeys e hne, fun j hj => ?_⟩
    obtain rfl : j = 0 := by omega
    exact hne
  · obtain ⟨hle, hfound⟩ := continues_le hkeys hc
    refine ⟨Nat.succ_pos k, by omega, fun j hj => ?_⟩
    cases j with
    | zero =>
      rw [Nat.add_zero, hd]
      exact Option.some_ne_none d
    | succ j =>
      have hj := hfound j (by omega)
      rwa [Nat.add_assoc, Nat.add_comm 1 j] at hj

end Expected

/-! ### The search for a gap -/

section Gap

variable {m : OrderedMap Nat ConstDataBuffer}

theorem skipReceived_all {n index : Nat} (hindex : index < indexMod) (h : m.find (skipReceived m n index) ≠ none) :
    ∀ j, j < n → m.find ((index + j) % indexMod) ≠ none := by
  induction n generalizing index with
  | zero => exact fun j hj => absurd hj (Nat.not_lt_zero j)
  | succ n ih =>
    unfold skipReceived at h
    intro j hj
    split_ifs at h with hfound
    · cases j with
      | zero =>
        rw [Nat.add_zero, Nat.mod_eq_of_lt hindex]
        exact Option.isSome_iff_ne_none.mp hfound
      | succ j =>
        have hstep := ih (Nat.mod_lt _ (by decide)) h j (by omega)
        rw [Nat.mod_add_mod] at hstep
        rwa [show index + (j + 1) = index + 1 + j by omega]
    · exact absurd (Option.not_isSome_iff_eq_none.mp hfound) h

theorem skipReceived_lt {n index : Nat} (hindex : index < indexMod) : skipReceived m n index < indexMod := by
  induction n generalizing index with
  | zero => exact hindex
  | succ n ih =>
    unfold skipReceived
    split_ifs
    · exact ih (Nat.mod_lt _ (by decide))
    · exact hindex

/-- The search ends at a number that is not stored, if there is one. -/
theorem skipReceived_gap {index : Nat} (hindex : index < indexMod) (hgap : ∃ i, i < indexMod ∧ m.find i = none) :
    m.find (skipReceived m (m.size + 1) index) = none := by
  by_contra hne
  have hall := skipReceived_all hindex hne
  rcases Nat.lt_or_ge indexMod (m.size + 1) with hlarge | hsmall
  · -- the search has been at every number
    obtain ⟨i, hi, hnone⟩ := hgap
    refine hall ((i + indexMod - index) % indexMod) ((Nat.mod_lt _ (by decide)).trans hlarge) ?_
    rw [Nat.add_mod_mod, show index + (i + indexMod - index) = i + indexMod by omega, Nat.add_mod_right,
      Nat.mod_eq_of_lt hi]
    exact hnone
  · have hnodup : ((List.range (m.size + 1)).map fun j => (index + j) % indexMod).Nodup := by
      refine List.Nodup.map_on (fun i hi j hj he => ?_) List.nodup_range
      rw [List.mem_range] at hi hj
      have hmod : i ≡ j [MOD indexMod] := Nat.ModEq.add_left_cancel' index he
      have heq : i % indexMod = j % indexMod := hmod
      rwa [Nat.mod_eq_of_lt (by omega), Nat.mod_eq_of_lt (by omega)] at heq
    have hle : ((List.range (m.size + 1)).map fun j => (index + j) % indexMod).length ≤ m.size := by
      refine OrderedMap.length_le_size hnodup fun k hk => ?_
      obtain ⟨j, hj, rfl⟩ := List.mem_map.mp hk
      exact hall j (List.mem_range.mp hj)
    rw [List.length_map, List.length_range] at hle
    omega

end Gap

/-! ### The loop -/

/-- What the session has stored are datagrams with numbers that exist. -/
structure Sound (p : DatagramProtocol) : Prop where
  keys : ∀ i, p.inputMessages.find i ≠ none → i < indexMod
  stored : ∀ i d, p.inputMessages.find i = some d → 33 ≤ d.length ∧ isDataCommand (d.headD 0) = true
  expected : p.expectedIndex < indexMod
  last : p.lastInputIndex < indexMod

/-- Not every number is stored. -/
def HasGap (m : OrderedMap Nat ConstDataBuffer) : Prop := ∃ i, i < indexMod ∧ m.find i = none

/-- What a round comes to. -/
inductive RoundResult (p : DatagramProtocol) : Checked Next → Prop
  | fault (e : CheckedError) (isFault : e.IsFault) (faulty : ¬NeverFaulty p.inputMessages p.expectedIndex) :
    RoundResult p (.error e)
  | refused (what : String) (sound : NeverFaulty p.inputMessages p.expectedIndex) :
    RoundResult p (.error (.plain (.runtimeError what)))
  | returns (sound : NeverFaulty p.inputMessages p.expectedIndex) : RoundResult p (.ok .returns)
  | drops (index : Nat) (d : ConstDataBuffer) (front : p.inputMessages.front = some (index, d))
    (stale : index < p.expectedIndex) : RoundResult p (.ok .drops)
  | hands (incoming : Incoming) (n : Nat) (d : ConstDataBuffer)
    (front : p.inputMessages.front = some (p.expectedIndex, d))
    (only : ∀ k, Complete p.inputMessages p.expectedIndex k ↔ k = n)
    (sound : ¬Faulty p.inputMessages p.expectedIndex) : RoundResult p (.ok (.hands incoming n))

section Round

variable {p : DatagramProtocol}

theorem round_head (hp : Sound p) (hgap : HasGap p.inputMessages)
    (hfront : p.inputMessages.front = some (p.expectedIndex, d)) :
    RoundResult p (do
      match ← readHead p.thisNodeId p.partnerNodeId d with
      | .single incoming => return .hands incoming 1
      | .multi incoming size => do
        match ← collect p.inputMessages p.expectedIndex (p.inputMessages.size + 1) 0 size incoming.message with
        | none => return .returns
        | some (message, index) => return .hands { incoming with message } (index + 1)
      | .unknown => .error (.plain .outOfFuel)) := by
  have hd : p.inputMessages.find p.expectedIndex = some d := OrderedMap.find_front hfront
  obtain ⟨hlong, hdata⟩ := hp.stored _ d hd
  have hatFront : AtFront p.inputMessages p.expectedIndex :=
    ⟨hp.keys, fun i d hd => (hp.stored i d hd).1, hgap, fun i hi => OrderedMap.front_le hfront hi⟩
  have hthis : ∀ {d'}, p.inputMessages.find p.expectedIndex = some d' → d' = d :=
    fun h => Option.some_inj.mp (h.symm.trans hd)
  have hresult := @readHead_result d p.thisNodeId p.partnerNodeId hlong hdata
  cases hr : readHead p.thisNodeId p.partnerNodeId d with
  | error e =>
    rw [hr] at hresult
    cases hresult with
    | fault _ isFault faulty =>
      refine .fault e isFault fun hn => hn _ (.here _) ⟨d, hd, .inl faulty⟩
    | refused what sound several closed =>
      refine .refused what ((neverFaulty_of_not_complete fun n => ?_).mpr ?_)
      · rintro ⟨d', hd', -, ⟨hwhole, -⟩ | ⟨left, k, hopen, -⟩⟩
        · rw [hthis hd'] at hwhole
          exact several hwhole
        · rw [hthis hd'] at hopen
          exact closed left hopen
      · rintro ⟨d', hd', hf | ⟨left, hopen, -⟩⟩
        · rw [hthis hd'] at hf
          exact sound hf
        · rw [hthis hd'] at hopen
          exact closed left hopen
  | ok head =>
    rw [hr] at hresult
    cases hresult with
    | unknown faulty =>
      exact .fault _ (.inr rfl) fun hn => hn _ (.here _) ⟨d, hd, .inl faulty⟩
    | single incoming sound whole =>
      refine .hands incoming 1 d hfront (fun k => ?_) ?_
      · constructor
        · rintro ⟨d', hd', -, ⟨-, hk⟩ | ⟨left, k', hopen, -⟩⟩
          · exact hk
          · rw [hthis hd'] at hopen
            exact absurd whole (not_isWhole hopen.1)
        · exact fun hk => ⟨d, hd, sound, .inl ⟨whole, hk⟩⟩
      · rintro ⟨d', hd', hf | ⟨left, hopen, -⟩⟩
        · rw [hthis hd'] at hf
          exact sound hf
        · rw [hthis hd'] at hopen
          exact absurd whole (not_isWhole hopen.1)
    | multi incoming left sound several opens =>
      have hleft : ∀ {d' left'}, p.inputMessages.find p.expectedIndex = some d' → LeavesOpen d' left' → left' = left := by
        intro d' left' hd' hopen
        rw [hthis hd'] at hopen
        exact hopen.2.2.trans opens.2.2.symm
      have hfaulty : Faulty p.inputMessages p.expectedIndex ↔ FaultyTail p.inputMessages (p.expectedIndex + 1) left := by
        constructor
        · rintro ⟨d', hd', hf | ⟨left', hopen, hf⟩⟩
          · rw [hthis hd'] at hf
            exact absurd hf sound
          · rwa [hleft hd' hopen] at hf
        · exact fun hf => ⟨d, hd, .inr ⟨left, opens, hf⟩⟩
      have hcomplete (n : Nat) : Complete p.inputMessages p.expectedIndex n ↔
          ∃ k, Continues p.inputMessages (p.expectedIndex + 1) left k ∧ n = k + 1 := by
        constructor
        · rintro ⟨d', hd', -, ⟨hwhole, -⟩ | ⟨left', k, hopen, hc, hn⟩⟩
          · rw [hthis hd'] at hwhole
            exact absurd hwhole several
          · rw [hleft hd' hopen] at hc
            exact ⟨k, hc, hn⟩
        · exact fun ⟨k, hc, hn⟩ => ⟨d, hd, sound, .inr ⟨left, k, opens, hc, hn⟩⟩
      have htail := @collect_result _ left _ hatFront (p.inputMessages.size + 1) 0 incoming.message
        (fun j hj => by
          rw [Nat.le_zero.mp hj, Nat.add_zero, hd]
          exact Option.some_ne_none d) rfl
      rw [Nat.zero_add] at htail
      change RoundResult p (collect _ _ _ _ _ _ >>= _)
      cases hc : collect p.inputMessages p.expectedIndex (p.inputMessages.size + 1) 0 left incoming.message with
      | error e =>
        rw [hc] at htail
        cases htail with
        | fault _ isFault faulty => exact .fault e isFault fun hn => hn _ (.here _) (hfaulty.mpr faulty)
        | refused what sound never =>
          refine .refused what ((neverFaulty_of_not_complete fun n hn => ?_).mpr fun hf => sound (hfaulty.mp hf))
          obtain ⟨k, hk, -⟩ := (hcomplete n).mp hn
          exact never k hk
      | ok o =>
        rw [hc] at htail
        cases htail with
        | missing sound never =>
          refine .returns ((neverFaulty_of_not_complete fun n hn => ?_).mpr fun hf => sound (hfaulty.mp hf))
          obtain ⟨k, hk, -⟩ := (hcomplete n).mp hn
          exact never k hk
        | complete message k sound only =>
          refine .hands _ (0 + k + 1) d hfront (fun n => ?_) fun hf => sound (hfaulty.mp hf)
          rw [hcomplete, Nat.zero_add]
          constructor
          · rintro ⟨k', hk', rfl⟩
            rw [(only k').mp hk']
          · exact fun hn => ⟨k, (only k).mpr rfl, hn⟩

theorem round_result (hp : Sound p) (hgap : HasGap p.inputMessages)
    (hlast : p.inputMessages.find p.lastInputIndex = none) : RoundResult p (round p) := by
  unfold round
  rw [if_neg (Option.not_isSome_iff_eq_none.mpr hlast)]
  cases hf : p.inputMessages.front with
  | none =>
    have hnone := OrderedMap.find_of_front_none hf p.expectedIndex
    exact .returns ((neverFaulty_of_not_complete fun n => not_complete_of_none hnone).mpr (not_faulty_of_none hnone))
  | some entry =>
    obtain ⟨index, d⟩ := entry
    dsimp only
    rcases Nat.lt_trichotomy index p.expectedIndex with hlt | rfl | hgt
    · rw [if_neg hlt.not_gt, if_pos hlt]
      exact .drops index d hf hlt
    · rw [if_neg (lt_irrefl _), if_neg (lt_irrefl _)]
      exact round_head hp hgap hf
    · rw [if_pos hgt]
      have hnone : p.inputMessages.find p.expectedIndex = none := by
        by_contra hne
        exact (OrderedMap.front_le hf hne).not_gt hgt
      exact .returns ((neverFaulty_of_not_complete fun n => not_complete_of_none hnone).mpr (not_faulty_of_none hnone))

end Round

/-- A result that is no fault. -/
def SafeResult (r : EStateM.Result CheckedError Session Unit) : Prop := ∀ e s', r = .error e s' → ¬e.IsFault

theorem safeResult_ok (s : Session) : SafeResult (.ok () s) := fun e s' h => (by cases h)

theorem safeResult_error (e : CheckedError) (s : Session) : SafeResult (.error e s) ↔ ¬e.IsFault := by
  constructor
  · exact fun h => h e s rfl
  · intro h e' s' he
    cases he
    exact h

/-- One round of the loop and what follows. -/
def afterRound (n : Nat) (s : Session) : Checked Next → EStateM.Result CheckedError Session Unit
  | .error e => .error e s
  | .ok .returns => .ok () s
  | .ok .drops => continueLoop n (afterDrop s)
  | .ok (.hands incoming count) => continueLoop n (afterMessage incoming count s)

theorem continueLoop_succ (n : Nat) (s : Session) :
    continueLoop (n + 1) s = afterRound n (afterSkip s) (round (afterSkip s).self) := by
  have hskip : (modify afterSkip : CheckedM PUnit) s = .ok () (afterSkip s) := rfl
  have hget : (get : CheckedM Session) (afterSkip s) = .ok (afterSkip s) (afterSkip s) := rfl
  unfold continueLoop
  rw [bind_of_ok hskip, bind_of_ok hget]
  cases hr : round (afterSkip s).self with
  | error e => rfl
  | ok next => cases next <;> rfl

section Loop

variable {s : Session}

theorem sound_afterSkip (hs : Sound s.self) : Sound (afterSkip s).self :=
  ⟨hs.keys, hs.stored, hs.expected, skipReceived_lt hs.last⟩

theorem sound_afterMessage (hs : Sound s.self) (incoming : Incoming) (count : Nat) :
    Sound (afterMessage incoming count s).self :=
  ⟨hs.keys, hs.stored, Nat.mod_lt _ (by decide), hs.last⟩

section Drop

variable {index : Nat} (hfront : s.self.inputMessages.front = some (index, d))
include hfront

theorem find_afterDrop (i : Nat) :
    (afterDrop s).self.inputMessages.find i = if i = index then none else s.self.inputMessages.find i :=
  OrderedMap.find_eraseFront hfront i

theorem sound_afterDrop (hs : Sound s.self) : Sound (afterDrop s).self := by
  refine ⟨fun i hi => ?_, fun i d' hd' => ?_, hs.expected, hs.last⟩
  · rw [find_afterDrop hfront] at hi
    split_ifs at hi
    · exact absurd rfl hi
    · exact hs.keys i hi
  · rw [find_afterDrop hfront] at hd'
    split_ifs at hd'
    exact hs.stored i d' hd'

theorem hasGap_afterDrop (hgap : HasGap s.self.inputMessages) : HasGap (afterDrop s).self.inputMessages := by
  obtain ⟨i, hi, hnone⟩ := hgap
  refine ⟨i, hi, ?_⟩
  rw [find_afterDrop hfront, hnone, ite_self]

theorem work_afterDrop (hstale : index < s.self.expectedIndex) : work (afterDrop s).self < work s.self := by
  have hsize : s.self.inputMessages.eraseFront.size + 1 = s.self.inputMessages.size :=
    OrderedMap.size_eraseFront hfront
  have hbefore : work s.self = 2 * s.self.inputMessages.size - 1 := by
    unfold work
    rw [hfront]
    exact if_pos hstale
  have hafter : work (afterDrop s).self ≤ 2 * s.self.inputMessages.eraseFront.size := work_le _
  omega

end Drop

theorem work_afterMessage (hfront : s.self.inputMessages.front = some (s.self.expectedIndex, d)) {count : Nat}
    (hcount : 0 < count) (hless : s.self.expectedIndex + count < indexMod) (incoming : Incoming) :
    work (afterMessage incoming count s).self < work s.self := by
  have hsize : s.self.inputMessages.eraseFront.size + 1 = s.self.inputMessages.size :=
    OrderedMap.size_eraseFront hfront
  have hbefore : work s.self = 2 * s.self.inputMessages.size := by
    unfold work
    rw [hfront]
    exact if_neg (lt_irrefl _)
  have hstale : s.self.expectedIndex < (s.self.expectedIndex + count) % indexMod := by
    rw [Nat.mod_eq_of_lt hless]
    omega
  have hsame : (afterMessage incoming count s).self.inputMessages.front =
      some (s.self.expectedIndex, d) := hfront
  have hafter : work (afterMessage incoming count s).self = 2 * s.self.inputMessages.size - 1 := by
    unfold work
    rw [hsame]
    exact if_pos hstale
  omega

/-- Behind the greatest number nothing is expected any more. -/
theorem continueLoop_wrapped {n : Nat} (hs : Sound s.self) (hgap : HasGap s.self.inputMessages)
    (hexpected : s.self.expectedIndex = 0) (hzero : s.self.inputMessages.find 0 = none) :
    SafeResult (continueLoop (n + 1) s) := by
  have hround := round_result (sound_afterSkip hs) hgap (skipReceived_gap hs.last hgap)
  have hsound : NeverFaulty (afterSkip s).self.inputMessages (afterSkip s).self.expectedIndex := by
    change NeverFaulty s.self.inputMessages s.self.expectedIndex
    rw [hexpected]
    exact (neverFaulty_of_not_complete fun n => not_complete_of_none hzero).mpr (not_faulty_of_none hzero)
  rw [continueLoop_succ]
  cases hr : round (afterSkip s).self with
  | error e =>
    rw [hr] at hround
    cases hround with
    | fault _ isFault faulty => exact absurd hsound faulty
    | refused what sound =>
      refine (safeResult_error _ _).mpr ?_
      rintro (he | he) <;> cases he
  | ok next =>
    rw [hr] at hround
    cases hround with
    | returns sound => exact safeResult_ok _
    | drops index d front stale =>
      change index < s.self.expectedIndex at stale
      omega
    | hands incoming n d front only sound =>
      have hd := OrderedMap.find_front front
      change s.self.inputMessages.find s.self.expectedIndex = some d at hd
      rw [hexpected, hzero] at hd
      cases hd

theorem continueLoop_safe_iff {n : Nat} (hs : Sound s.self) (hgap : HasGap s.self.inputMessages)
    (hn : work s.self < n) :
    SafeResult (continueLoop n s) ↔ NeverFaulty s.self.inputMessages s.self.expectedIndex := by
  induction n generalizing s with
  | zero => exact absurd hn (Nat.not_lt_zero _)
  | succ n ih =>
    have hskip := sound_afterSkip hs
    have hround := round_result hskip hgap (skipReceived_gap hs.last hgap)
    rw [continueLoop_succ]
    cases hr : round (afterSkip s).self with
    | error e =>
      rw [hr] at hround
      cases hround with
      | fault _ isFault faulty =>
        exact iff_of_false (fun h => (safeResult_error _ _).mp h isFault) faulty
      | refused what sound =>
        refine iff_of_true ((safeResult_error _ _).mpr ?_) sound
        rintro (he | he) <;> cases he
    | ok next =>
      rw [hr] at hround
      cases hround with
      | returns sound => exact iff_of_true (safeResult_ok _) sound
      | drops index d front stale =>
        have hwork := @work_afterDrop d (afterSkip s) index front stale
        have hsame : work (afterSkip s).self = work s.self := rfl
        refine (@ih (afterDrop (afterSkip s)) (sound_afterDrop front hskip) (hasGap_afterDrop front hgap)
          (by omega)).trans ?_
        refine neverFaulty_congr fun i hi => ?_
        change s.self.expectedIndex ≤ i at hi
        change index < s.self.expectedIndex at stale
        rw [find_afterDrop front, if_neg (by omega)]
        rfl
      | hands incoming count d front only sound =>
        obtain ⟨hpos, hle, hfound⟩ := complete_le hs.keys ((only count).mpr rfl)
        rw [show NeverFaulty s.self.inputMessages s.self.expectedIndex ↔ _ from neverFaulty_of_complete only sound]
        change SafeResult (continueLoop n (afterMessage incoming count (afterSkip s))) ↔
          (s.self.expectedIndex + count < indexMod → NeverFaulty s.self.inputMessages (s.self.expectedIndex + count))
        change s.self.expectedIndex + count ≤ indexMod at hle
        have hafter := sound_afterMessage hskip incoming count
        by_cases hless : s.self.expectedIndex + count < indexMod
        · have hwork := @work_afterMessage d (afterSkip s) front count hpos hless incoming
          have hsame : work (afterSkip s).self = work s.self := rfl
          refine (@ih (afterMessage incoming count (afterSkip s)) hafter hgap (by omega)).trans ?_
          change NeverFaulty s.self.inputMessages ((s.self.expectedIndex + count) % indexMod) ↔ _
          rw [Nat.mod_eq_of_lt hless]
          exact ⟨fun h _ => h, fun h => h hless⟩
        · have heq : s.self.expectedIndex + count = indexMod := by omega
          refine iff_of_true ?_ fun h => absurd h hless
          have hzero : s.self.inputMessages.find 0 = none := by
            by_contra hne
            have hleast : s.self.expectedIndex ≤ 0 := OrderedMap.front_le front hne
            obtain ⟨i, hi, hnone⟩ := hgap
            refine hfound i (by omega) ?_
            change s.self.inputMessages.find (s.self.expectedIndex + i) = none
            rw [Nat.le_zero.mp hleast, Nat.zero_add]
            exact hnone
          have hwork : 0 < work s.self := by
            have hsize : s.self.inputMessages.eraseFront.size + 1 = s.self.inputMessages.size :=
              OrderedMap.size_eraseFront front
            have hfrontWork : work s.self = 2 * s.self.inputMessages.size := by
              unfold work
              rw [show s.self.inputMessages.front = some (s.self.expectedIndex, d) from front]
              exact if_neg (lt_irrefl _)
            omega
          obtain ⟨k, rfl⟩ : ∃ k, n = k + 1 := ⟨n - 1, by omega⟩
          refine continueLoop_wrapped hafter hgap ?_ hzero
          change (s.self.expectedIndex + count) % indexMod = 0
          rw [heq, Nat.mod_self]

theorem sound_continueLoop (n : Nat) (hs : Sound s.self) : Sound (final (continueLoop n s)).self := by
  induction n generalizing s with
  | zero => exact hs
  | succ n ih =>
    have hskip := sound_afterSkip hs
    rw [continueLoop_succ]
    cases hr : round (afterSkip s).self with
    | error e => exact hskip
    | ok next =>
      cases next with
      | returns => exact hskip
      | drops =>
        refine ih ?_
        cases hf : (afterSkip s).self.inputMessages.front with
        | none =>
          have hnone (i : Nat) : (afterDrop (afterSkip s)).self.inputMessages.find i = none := by
            have hempty : (afterSkip s).self.inputMessages.entries = [] := List.head?_eq_none_iff.mp hf
            change (afterSkip s).self.inputMessages.entries.tail.lookup i = none
            rw [hempty]
            rfl
          refine ⟨fun i hi => absurd (hnone i) hi, fun i d hd => ?_, hskip.expected, hskip.last⟩
          rw [hnone] at hd
          cases hd
        | some entry =>
          obtain ⟨index, d⟩ := entry
          exact sound_afterDrop hf hskip
      | hands incoming count => exact ih (sound_afterMessage hskip incoming count)

/-- When every number is stored, the search for a gap does not end. -/
theorem continueLoop_noGap {n : Nat} (hs : Sound s.self) (hgap : ¬HasGap s.self.inputMessages) :
    ¬SafeResult (continueLoop (n + 1) s) := by
  have hfound : ((afterSkip s).self.inputMessages.find (afterSkip s).self.lastInputIndex).isSome = true := by
    refine Option.isSome_iff_ne_none.mpr fun hnone => hgap ⟨_, skipReceived_lt hs.last, hnone⟩
  have hround : round (afterSkip s).self = .error (.plain .outOfFuel) := by
    unfold round
    rw [if_pos hfound]
  rw [continueLoop_succ, hround]
  exact fun h => (safeResult_error _ _).mp h (.inr rfl)

end Loop

end Vds.DhtNetwork.Checked
