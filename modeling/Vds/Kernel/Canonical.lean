import Vds.Kernel.BinarySerialize

/-! What the serializer writes is read back, and what a reader takes in the shortest form is what
the serializer writes. -/

namespace Vds

open BinarySerializer BinaryDeserializer StateError

/-! ### The order of buffers -/

/-- The order of the buffers: by length, then byte by byte. -/
def bufferKey (data : ConstDataBuffer) : ℕ ×ₗ List ℕ := toLex (data.length, data.map UInt8.toNat)

theorem bufferKey_inj : Function.Injective bufferKey := fun _ _ h =>
  List.map_injective_iff.mpr (fun _ _ hab => UInt8.toNat_inj.mp hab)
    (congrArg (fun x => (ofLex x).2) h)

theorem memcmpLess_iff {left right : List UInt8} (h : left.length = right.length) :
    memcmpLess left right = true ↔ left.map UInt8.toNat < right.map UInt8.toNat := by
  induction left generalizing right with
  | nil =>
    obtain rfl := List.eq_nil_of_length_eq_zero h.symm
    exact ⟨fun h => (by cases h), fun h => absurd h (List.not_lt_nil _)⟩
  | cons a left ih =>
    obtain ⟨b, right, rfl⟩ := List.exists_cons_of_length_eq_add_one h.symm
    rw [List.length_cons, List.length_cons, Nat.add_right_cancel_iff] at h
    rw [List.map_cons, List.map_cons, List.cons_lt_cons_iff, ← ih h, UInt8.toNat_inj]
    simp [memcmpLess, UInt8.lt_iff_toNat_lt]

theorem bufferLess_iff (left right : ConstDataBuffer) :
    bufferLess left right = true ↔ bufferKey left < bufferKey right := by
  unfold bufferLess bufferKey
  rw [Prod.Lex.toLex_lt_toLex, Bool.or_eq_true, decide_eq_true_iff, Bool.and_eq_true, beq_iff_eq]
  exact or_congr_right (and_congr_right memcmpLess_iff)

/-! ### Big-endian bytes -/

theorem bigEndian_concat (data : ConstDataBuffer) (b : UInt8) :
    bigEndian (data ++ [b]) = bigEndian data <<< 8 ||| b.toUInt64 := by
  unfold bigEndian
  rw [List.foldl_append]
  rfl

theorem ofDigits_lt (data : ConstDataBuffer) :
    Nat.ofDigits 256 (data.map UInt8.toNat) < 256 ^ data.length := by
  have h := Nat.ofDigits_lt_base_pow_length (b := 256) (l := data.map UInt8.toNat) (by decide) (by
    intro d hd
    obtain ⟨b, -, rfl⟩ := List.mem_map.mp hd
    exact b.toNat_lt)
  rwa [List.length_map] at h

/-- The bytes are the digits to the base 256, the highest first. -/
theorem bigEndian_toNat {data : ConstDataBuffer} (h : data.length ≤ 8) :
    (bigEndian data).toNat = Nat.ofDigits 256 (data.reverse.map UInt8.toNat) := by
  induction data using List.reverseRecOn with
  | nil => rfl
  | append_singleton data b ih =>
    rw [List.length_append, List.length_singleton] at h
    have hx := ih (by omega)
    have hlt : (bigEndian data).toNat < 256 ^ 7 := by
      rw [hx]
      refine (ofDigits_lt _).trans_le ?_
      rw [List.length_reverse]
      exact Nat.pow_le_pow_right (by decide) (by omega)
    rw [bigEndian_concat, List.reverse_concat, List.map_cons, Nat.ofDigits_cons, ← hx,
      UInt64.toNat_or, UInt64.toNat_shiftLeft, UInt8.toNat_toUInt64]
    have hb := b.toNat_lt
    have hshift : (bigEndian data).toNat <<< ((8 : UInt64).toNat % 64) % 2 ^ 64 =
        (bigEndian data).toNat <<< 8 := by
      rw [show (8 : UInt64).toNat % 64 = 8 from rfl, Nat.shiftLeft_eq]
      exact Nat.mod_eq_of_lt (by omega)
    rw [hshift, ← Nat.shiftLeft_add_eq_or_of_lt (by omega), Nat.shiftLeft_eq]
    push_cast
    omega

/-- Bytes with the same value are the same, if there are equally many. -/
theorem bigEndian_inj {data data' : ConstDataBuffer} (h : data.length ≤ 8)
    (hl : data'.length = data.length) (he : bigEndian data' = bigEndian data) : data' = data := by
  have hv := congrArg UInt64.toNat he
  rw [bigEndian_toNat h, bigEndian_toNat (hl ▸ h)] at hv
  have hd := Nat.ofDigits_inj_of_len_eq (b := 256) (by decide) (by simp [hl])
    (by
      intro d hd
      obtain ⟨b, -, rfl⟩ := List.mem_map.mp hd
      exact b.toNat_lt)
    (by
      intro d hd
      obtain ⟨b, -, rfl⟩ := List.mem_map.mp hd
      exact b.toNat_lt) hv
  have hr := List.map_injective_iff.mpr (fun a b hab => UInt8.toNat_inj.mp hab) hd
  exact List.reverse_injective hr

theorem bigEndian_putUInt64 (v : UInt64) : bigEndian (putUInt64 v) = v := by
  refine UInt64.toNat_inj.mp ?_
  have hl : (putUInt64 v).length ≤ 8 := Nat.le_refl 8
  rw [bigEndian_toNat hl]
  have hv := v.toNat_lt
  simp only [putUInt64, List.reverse_cons, List.reverse_nil, List.nil_append, List.cons_append,
    List.map_cons, List.map_nil, Nat.ofDigits_cons, Nat.ofDigits_nil, UInt64.toNat_toUInt8,
    UInt64.toNat_shiftRight, Nat.shiftRight_eq_div_pow, UInt64.reduceToNat, Nat.reduceMod,
    Nat.reducePow]
  omega

theorem bigEndian_putUInt32 (v : UInt32) : (bigEndian (putUInt32 v)).toUInt32 = v := by
  refine UInt32.toNat_inj.mp ?_
  have hl : (putUInt32 v).length ≤ 8 := Nat.le_add_right 4 4
  rw [UInt64.toNat_toUInt32, bigEndian_toNat hl]
  have hv := v.toNat_lt
  simp only [putUInt32, List.reverse_cons, List.reverse_nil, List.nil_append, List.cons_append,
    List.map_cons, List.map_nil, Nat.ofDigits_cons, Nat.ofDigits_nil, UInt32.toNat_toUInt8,
    UInt32.toNat_shiftRight, Nat.shiftRight_eq_div_pow, UInt32.reduceToNat, Nat.reduceMod,
    Nat.reducePow]
  omega

theorem bigEndian_lt {data : ConstDataBuffer} (h : data.length ≤ 8) :
    (bigEndian data).toNat < 256 ^ data.length := by
  rw [bigEndian_toNat h, ← List.length_reverse]
  exact ofDigits_lt data.reverse

theorem toNat_bigEndian_putUInt32 (v : UInt32) : (bigEndian (putUInt32 v)).toNat = v.toNat := by
  have hl : (putUInt32 v).length = 4 := rfl
  have hlt := bigEndian_lt (hl.le.trans (by decide))
  have hv := congrArg UInt32.toNat (bigEndian_putUInt32 v)
  rwa [UInt64.toNat_toUInt32, Nat.mod_eq_of_lt (by rw [hl] at hlt; exact hlt)] at hv

/-! ### Numbers -/

theorem numberData_length {n : Nat} (hn : 0 < n) (v : UInt64) :
    0 < (numberData n v).length ∧ (numberData n v).length ≤ n := by
  induction n generalizing v with
  | zero => cases hn
  | succ n ih =>
    unfold numberData
    split_ifs with h
    · simp
    · cases n with
      | zero => simp [numberData]
      | succ n =>
        have := ih n.succ_pos (v >>> 8)
        simp only [List.length_cons]
        omega

/-- The bytes of a number are its digits. -/
theorem numberData_toNat {n : Nat} (hn : 0 < n) {v : UInt64} (hv : v.toNat < 256 ^ n) (h0 : v ≠ 0) :
    (numberData n v).map UInt8.toNat = Nat.digits 256 v.toNat := by
  induction n generalizing v with
  | zero => cases hn
  | succ n ih =>
    have hpos : 0 < v.toNat := Nat.pos_of_ne_zero fun h => h0 (UInt64.toNat_inj.mp h)
    have hshift : (v >>> 8).toNat = v.toNat / 256 := by
      rw [UInt64.toNat_shiftRight, Nat.shiftRight_eq_div_pow]
      rfl
    rw [Nat.digits_def' (by decide) hpos, ← hshift]
    unfold numberData
    rw [List.map_cons, UInt64.toNat_toUInt8]
    split_ifs with h
    · rw [h, UInt64.toNat_zero, Nat.digits_zero, List.map_nil]
    · have hlt : (v >>> 8).toNat < 256 ^ n := by
        rw [hshift]
        rw [Nat.pow_succ] at hv
        exact Nat.div_lt_of_lt_mul (by rwa [Nat.mul_comm])
      have hn' : 0 < n := by
        refine Nat.pos_of_ne_zero ?_
        rintro rfl
        exact h (UInt64.toNat_inj.mp (Nat.lt_one_iff.mp hlt))
      rw [ih hn' hlt h]

theorem numberData_value (v : UInt64) : bigEndian (numberData 8 v).reverse = v := by
  refine UInt64.toNat_inj.mp ?_
  have hl := (numberData_length (by decide : 0 < 8) v).2
  rw [bigEndian_toNat (by rwa [List.length_reverse]), List.reverse_reverse]
  by_cases h0 : v = 0
  · subst h0
    rfl
  · rw [numberData_toNat (by decide) (v.toNat_lt.trans_le (by decide)) h0, Nat.ofDigits_digits]

/-- Bytes that no shorter ones stand for; they come after the byte that counts them. -/
def Shortest (data : ConstDataBuffer) : Prop :=
  0 < data.length ∧ data.length ≤ 8 ∧ (data.length = 1 ∨ data.headD 0 ≠ 0) ∧
    (bigEndian data).toNat < 2 ^ 64 - 128

instance decidableShortest (data : ConstDataBuffer) : Decidable (Shortest data) :=
  inferInstanceAs (Decidable (_ ∧ _))

theorem Shortest.numberData {data : ConstDataBuffer} (h : Shortest data) :
    (numberData 8 (bigEndian data)).reverse = data := by
  obtain ⟨hpos, hle, hhead, -⟩ := h
  by_cases h0 : bigEndian data = 0
  · -- only one byte can stand for zero
    have hone : data.length = 1 := by
      refine hhead.resolve_right fun hne => ?_
      obtain ⟨b, rest, rfl⟩ := List.exists_cons_of_length_pos hpos
      have hz := congrArg UInt64.toNat h0
      rw [bigEndian_toNat hle, List.reverse_cons, List.map_append, Nat.ofDigits_append] at hz
      simp only [List.map_cons, List.map_nil, Nat.ofDigits_singleton, UInt64.toNat_zero,
        Nat.add_eq_zero_iff, Nat.mul_eq_zero] at hz
      rcases hz.2 with hz | hz
      · exact absurd hz (by positivity)
      · exact hne (UInt8.toNat_inj.mp hz)
    refine bigEndian_inj hle ?_ ?_
    · rw [h0, hone]
      rfl
    · rw [numberData_value]
  · have hv := bigEndian_toNat hle
    have hd := numberData_toNat (by decide : 0 < 8) ((bigEndian data).toNat_lt.trans_le (by decide)) h0
    have hcanon : Nat.digits 256 (Nat.ofDigits 256 (data.reverse.map UInt8.toNat)) =
        data.reverse.map UInt8.toNat := by
      refine Nat.digits_ofDigits 256 (by decide) _ (fun d hd => ?_) fun hne => ?_
      · obtain ⟨b, -, rfl⟩ := List.mem_map.mp hd
        exact b.toNat_lt
      · obtain ⟨b, rest, rfl⟩ := List.exists_cons_of_length_pos hpos
        simp only [List.reverse_cons, List.map_append, List.map_cons, List.map_nil,
          List.getLast_append_singleton]
        intro hb
        have hb0 : b = 0 := UInt8.toNat_inj.mp hb
        rcases hhead with hone | hne
        · obtain rfl : rest = [] := List.length_eq_zero_iff.mp (by simpa using hone)
          exact h0 (by rw [hb0]; rfl)
        · exact hne hb0
    rw [hv, hcanon] at hd
    have := List.map_injective_iff.mpr (fun a b hab => UInt8.toNat_inj.mp hab) hd
    rw [this, List.reverse_reverse]

theorem shortest_numberData {v : UInt64} (h : v.toNat < 2 ^ 64 - 128) :
    Shortest (numberData 8 v).reverse := by
  have hl := numberData_length (by decide : 0 < 8) v
  refine ⟨by rw [List.length_reverse]; exact hl.1, by rw [List.length_reverse]; exact hl.2, ?_, ?_⟩
  · by_cases h0 : v = 0
    · subst h0
      exact .inl rfl
    · refine .inr fun hz => ?_
      have hd := numberData_toNat (by decide : 0 < 8) (v.toNat_lt.trans_le (by decide)) h0
      have hne : numberData 8 v ≠ [] := List.ne_nil_of_length_pos hl.1
      have hlast := Nat.getLast_digit_ne_zero 256 (m := v.toNat)
        fun hv => h0 (UInt64.toNat_inj.mp hv)
      rw [List.headD_eq_head?_getD, List.head?_reverse, List.getLast?_eq_getLast_of_ne_nil hne,
        Option.getD_some] at hz
      refine hlast ?_
      simp only [← hd, List.getLast_map, hz]
      rfl
  · rwa [numberData_value]

/-! ### Readers -/

theorem popData_append (data rest : ConstDataBuffer) :
    popData data.length (data ++ rest) = .ok data rest := by
  unfold popData
  rw [bind_of_ok (get_apply _), if_neg (by simp)]
  change EStateM.Result.ok ((data ++ rest).take data.length) ((data ++ rest).drop data.length) = _
  rw [List.take_left, List.drop_left]

theorem popData_eq_ok {size : Nat} {d data rest : ConstDataBuffer} :
    popData size d = .ok data rest ↔ data.length = size ∧ d = data ++ rest := by
  constructor
  · intro h
    unfold popData at h
    rw [bind_of_ok (get_apply _)] at h
    split_ifs at h with hlt
    · cases h
    · cases h
      exact ⟨List.length_take_of_le (Nat.not_lt.mp hlt), (List.take_append_drop size d).symm⟩
  · rintro ⟨rfl, rfl⟩
    exact popData_append data rest

theorem getUInt8_eq_ok {d rest : ConstDataBuffer} {v : UInt8} :
    getUInt8 d = .ok v rest ↔ d = v :: rest := by
  unfold getUInt8
  rw [bind_eq_ok]
  constructor
  · rintro ⟨data, d₁, hp, h⟩
    obtain ⟨hl, rfl⟩ := popData_eq_ok.mp hp
    obtain ⟨b, rfl⟩ := List.length_eq_one_iff.mp hl
    cases h
    rfl
  · rintro rfl
    exact ⟨[v], rest, popData_eq_ok.mpr ⟨rfl, rfl⟩, rfl⟩

theorem getUInt64_eq_ok {d rest : ConstDataBuffer} {v : UInt64} :
    getUInt64 d = .ok v rest ↔ d = putUInt64 v ++ rest := by
  unfold getUInt64
  rw [bind_eq_ok]
  constructor
  · rintro ⟨data, d₁, hp, h⟩
    obtain ⟨hl, rfl⟩ := popData_eq_ok.mp hp
    cases h
    have hp : (putUInt64 (bigEndian data)).length = data.length := hl.symm
    rw [bigEndian_inj hl.le hp (bigEndian_putUInt64 (bigEndian data))]
  · rintro rfl
    exact ⟨putUInt64 v, rest, popData_eq_ok.mpr ⟨rfl, rfl⟩, by rw [bigEndian_putUInt64]; rfl⟩

theorem getUInt32_eq_ok {d rest : ConstDataBuffer} {v : UInt32} :
    getUInt32 d = .ok v rest ↔ d = putUInt32 v ++ rest := by
  unfold getUInt32
  rw [bind_eq_ok]
  constructor
  · rintro ⟨data, d₁, hp, h⟩
    obtain ⟨hl, rfl⟩ := popData_eq_ok.mp hp
    cases h
    have hp : (putUInt32 (bigEndian data).toUInt32).length = data.length := hl.symm
    have he : bigEndian (putUInt32 (bigEndian data).toUInt32) = bigEndian data := by
      refine UInt64.toNat_inj.mp ?_
      have hlt : ∀ x : ConstDataBuffer, x.length = 4 → (bigEndian x).toNat < 2 ^ 32 := by
        intro x hx
        rw [bigEndian_toNat (by omega)]
        refine (ofDigits_lt _).trans_le ?_
        rw [List.length_reverse, hx]
        decide
      have h₁ := congrArg UInt32.toNat (bigEndian_putUInt32 (bigEndian data).toUInt32)
      rwa [UInt64.toNat_toUInt32, UInt64.toNat_toUInt32, Nat.mod_eq_of_lt (hlt _ (hp.trans hl)),
        Nat.mod_eq_of_lt (hlt _ hl)] at h₁
    rw [bigEndian_inj (by omega) hp he]
  · rintro rfl
    exact ⟨putUInt32 v, rest, popData_eq_ok.mpr ⟨rfl, rfl⟩, by rw [bigEndian_putUInt32]; rfl⟩

/-! ### Readers that take the shortest form only -/

def readShortest : BinaryDeserializer UInt64 := do
  let value ← getUInt8
  if value < 0x80 then return value.toUInt64
  else do
    let data ← popData (value &&& 0x7F).toNat
    if Shortest data then return bigEndian data + 0x80
    else throw (.runtimeError "Invalid data")

def getDataShortest : BinaryDeserializer ConstDataBuffer := do
  let len ← readShortest
  if 1024 * 1024 * 1024 < len then throw (.runtimeError "very big object")
  else popData len.toNat

theorem readNumber_of_readShortest {d rest : ConstDataBuffer} {v : UInt64}
    (h : readShortest d = .ok v rest) : readNumber d = .ok v rest := by
  unfold readShortest at h
  unfold readNumber
  obtain ⟨value, d₁, hv, h⟩ := bind_eq_ok.mp h
  rw [bind_of_ok hv]
  split_ifs at h ⊢ with hlt
  · exact h
  · obtain ⟨data, d₂, hp, h⟩ := bind_eq_ok.mp h
    rw [bind_of_ok hp]
    split_ifs at h
    · exact h
    · cases h

/-- The byte in front of the `n` bytes of a number. -/
theorem count_byte : ∀ n : Fin 9, ¬(0x80 ||| UInt8.ofNat n) < 0x80 ∧
    ((0x80 ||| UInt8.ofNat n) &&& 0x7F).toNat = n := by decide

theorem count_byte_inj : ∀ value : Fin 256, ¬UInt8.ofNat value < 0x80 →
    0x80 ||| UInt8.ofNat (UInt8.ofNat value &&& 0x7F).toNat = UInt8.ofNat value := by decide +kernel

theorem toUInt64_toUInt8 {v : UInt64} (h : v < 128) : v.toUInt8.toUInt64 = v ∧ v.toUInt8 < 0x80 := by
  have hn := UInt64.lt_iff_toNat_lt.mp h
  have h128 : (128 : UInt64).toNat = 128 := rfl
  have hm : v.toNat % 256 = v.toNat := Nat.mod_eq_of_lt (by omega)
  constructor
  · refine UInt64.toNat_inj.mp ?_
    rw [UInt8.toNat_toUInt64, UInt64.toNat_toUInt8]
    exact hm
  · rw [UInt8.lt_iff_toNat_lt, UInt64.toNat_toUInt8]
    change v.toNat % 256 < 128
    omega

theorem readShortest_eq_ok {d rest : ConstDataBuffer} {v : UInt64} :
    readShortest d = .ok v rest ↔ d = writeNumber v ++ rest := by
  unfold readShortest writeNumber
  rw [bind_eq_ok]
  constructor
  · rintro ⟨value, d₁, hv, h⟩
    rw [getUInt8_eq_ok] at hv
    subst hv
    split_ifs at h with hlt
    · cases h
      have hn := UInt8.lt_iff_toNat_lt.mp hlt
      have h128 : value.toUInt64 < 128 := by
        rw [UInt64.lt_iff_toNat_lt, UInt8.toNat_toUInt64]
        exact hn
      rw [if_pos h128, UInt8.toUInt8_toUInt64]
      rfl
    · obtain ⟨data, d₂, hp, hdone⟩ := bind_eq_ok.mp h
      obtain ⟨hl, rfl⟩ := popData_eq_ok.mp hp
      split_ifs at hdone with hs
      · cases hdone
        have hb := hs.2.2.2
        have hadd : (bigEndian data + 0x80).toNat = (bigEndian data).toNat + 128 := by
          rw [UInt64.toNat_add]
          exact Nat.mod_eq_of_lt (by change (bigEndian data).toNat + 128 < _; omega)
        have hge : ¬bigEndian data + 0x80 < 128 := by
          rw [UInt64.lt_iff_toNat_lt, hadd]
          change ¬(bigEndian data).toNat + 128 < 128
          omega
        have hsub : bigEndian data + 0x80 - 128 = bigEndian data := UInt64.add_sub_cancel ..
        have hc := count_byte_inj ⟨value.toNat, value.toNat_lt⟩
        simp only [UInt8.ofNat_toNat] at hc
        rw [if_neg hge]
        simp only [hsub]
        rw [← List.length_reverse, hs.numberData, hl, UInt8.ofNat_toNat, hc hlt]
        rfl
      · cases hdone
  · rintro rfl
    split_ifs with h128
    · obtain ⟨he, hlt⟩ := toUInt64_toUInt8 h128
      refine ⟨v.toUInt8, rest, getUInt8_eq_ok.mpr rfl, ?_⟩
      rw [if_pos hlt, he]
      rfl
    · have hl := numberData_length (by decide : 0 < 8) (v - 128)
      have hn := UInt64.lt_iff_toNat_lt.not.mp h128
      have h128' : (128 : UInt64).toNat = 128 := rfl
      have hsub : (v - 128).toNat = v.toNat - 128 :=
        UInt64.toNat_sub_of_le _ _ (UInt64.not_lt.mp h128)
      have hlt := v.toNat_lt
      have hs : Shortest (numberData 8 (v - 128)).reverse := shortest_numberData (by omega)
      obtain ⟨hbyte, hcount⟩ := count_byte ⟨(numberData 8 (v - 128)).length, by omega⟩
      refine ⟨_, _, getUInt8_eq_ok.mpr rfl, ?_⟩
      simp only at hbyte hcount
      rw [if_neg hbyte, bind_eq_ok]
      refine ⟨(numberData 8 (v - 128)).reverse, rest, popData_eq_ok.mpr ⟨?_, rfl⟩, ?_⟩
      · rw [hcount, List.length_reverse]
      · rw [if_pos hs, numberData_value]
        have hback : v - 128 + 0x80 = v := UInt64.sub_add_cancel ..
        rw [hback]
        rfl

theorem readNumber_writeNumber (v : UInt64) (rest : ConstDataBuffer) :
    readNumber (writeNumber v ++ rest) = .ok v rest :=
  readNumber_of_readShortest (readShortest_eq_ok.mpr rfl)

theorem getData_of_getDataShortest {d data rest : ConstDataBuffer}
    (h : getDataShortest d = .ok data rest) : getData d = .ok data rest := by
  unfold getDataShortest at h
  unfold getData
  obtain ⟨len, d₁, hlen, h⟩ := bind_eq_ok.mp h
  rw [bind_of_ok (readNumber_of_readShortest hlen)]
  exact h

/-- The largest buffer that `operator >>` takes. -/
def maxData : Nat := 1024 * 1024 * 1024

theorem getDataShortest_eq_ok {d data rest : ConstDataBuffer} :
    getDataShortest d = .ok data rest ↔ data.length ≤ maxData ∧ d = putData data ++ rest := by
  unfold getDataShortest putData maxData
  have hmax : (1024 * 1024 * 1024 : UInt64).toNat = 1024 * 1024 * 1024 := rfl
  rw [bind_eq_ok]
  constructor
  · rintro ⟨len, d₁, hlen, h⟩
    rw [readShortest_eq_ok] at hlen
    subst hlen
    split_ifs at h with hbig
    · cases h
    · obtain ⟨hl, rfl⟩ := popData_eq_ok.mp h
      have hn := UInt64.lt_iff_toNat_lt.not.mp hbig
      refine ⟨by omega, ?_⟩
      rw [hl, UInt64.ofNat_toNat, List.append_assoc]
  · rintro ⟨hle, rfl⟩
    have hn : (UInt64.ofNat data.length).toNat = data.length :=
      UInt64.toNat_ofNat_of_lt' (by change _ < 2 ^ 64; omega)
    refine ⟨UInt64.ofNat data.length, data ++ rest, ?_, ?_⟩
    · rw [readShortest_eq_ok, List.append_assoc]
    · rw [if_neg (by rw [UInt64.lt_iff_toNat_lt, hn, hmax]; omega), hn]
      exact popData_append data rest

end Vds
