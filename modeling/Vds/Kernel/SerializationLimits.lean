import Vds.Kernel.Serialization

/-! Values that are outside of their type, such as a buffer above the limit of the reader: they can be
written, but they never come back. -/

namespace Vds

open BinarySerializer BinaryDeserializer StateError

namespace SortedMap

variable {K V : Type} [DecidableEq K] {less : K → K → Bool}

theorem mem_emplaceEntry {k : K} {v : V} {m : List (K × V)} {e : K × V}
    (h : e ∈ emplaceEntry less k v m) : e = (k, v) ∨ e ∈ m := by
  unfold emplaceEntry at h
  split_ifs at h
  · exact .inr h
  · exact (List.mem_orderedInsert _).mp h

theorem length_emplaceEntry_le (k : K) (v : V) (m : List (K × V)) :
    (emplaceEntry less k v m).length ≤ m.length + 1 := by
  unfold emplaceEntry
  split_ifs
  · exact Nat.le_succ _
  · rw [List.orderedInsert_length]

theorem keys_emplaceEntry (k : K) (v : V) (m : List (K × V)) :
    keys (emplaceEntry less k v m) = emplace less k (keys m) := by
  unfold emplaceEntry emplace
  split_ifs
  · rfl
  · exact List.map_orderedInsert _ _ Prod.fst m (k, v) (fun _ _ => Iff.rfl) fun _ _ => Iff.rfl

/-- What the entries put one after another into a map leave in it. -/
theorem emplaceEntries_spec {O : Type} [LinearOrder O] {order : K → O}
    (hless : ∀ x y, less x y = true ↔ order x < order y) (hinj : Function.Injective order)
    (entries m : List (K × V)) (hm : Ascending less (keys m)) :
    let result := entries.foldl (fun m e => emplaceEntry less e.1 e.2 m) m
    Ascending less (keys result) ∧ result.length ≤ m.length + entries.length ∧
      ∀ e ∈ result, e ∈ m ∨ e ∈ entries := by
  induction entries generalizing m with
  | nil => exact ⟨hm, le_rfl, fun e he => .inl he⟩
  | cons e entries ih =>
    have hascending : Ascending less (keys (emplaceEntry less e.1 e.2 m)) := by
      rw [keys_emplaceEntry]
      exact ascending_emplace hless hinj hm
    obtain ⟨hkeys, hlength, hmem⟩ := ih (emplaceEntry less e.1 e.2 m) hascending
    have hone := @length_emplaceEntry_le K V _ less e.1 e.2 m
    refine ⟨hkeys, ?_, fun x hx => ?_⟩
    · rw [List.length_cons]
      rw [List.foldl_cons]
      omega
    · rcases hmem x hx with hx | hx
      · rcases mem_emplaceEntry hx with rfl | hx
        · exact .inr List.mem_cons_self
        · exact .inl hx
      · exact .inr (List.mem_cons_of_mem e hx)

end SortedMap

namespace Serializable

variable {α β : Type}

/-- Every form is one of a value of the type. -/
def Sound (c : Serializable α) : Prop := ∀ d x, c.form d x → c.holds x

/-- What is not a value of the type does not come back from its bytes. -/
def Strict (c : Serializable α) : Prop :=
  ∀ x bytes, c.put x = .ok bytes → bytes.length < 2 ^ 64 → ¬c.holds x →
    ∀ rest rest', c.get (bytes ++ rest) ≠ .ok x rest'

/-- What is written comes back if and only if it is a readable value of the type. -/
theorem get_iff {c : Serializable α} (hlaw : c.Law) (hstrict : c.Strict) {x : α}
    {bytes : ConstDataBuffer} (hput : c.put x = .ok bytes) (hsize : bytes.length < 2 ^ 64)
    (rest : ConstDataBuffer) :
    (∃ rest', c.get (bytes ++ rest) = .ok x rest') ↔ c.holds x ∧ c.readable x := by
  constructor
  · rintro ⟨rest', hget⟩
    have hx : c.holds x := by
      by_contra hx
      exact hstrict x bytes hput hsize hx rest rest' hget
    refine ⟨hx, ?_⟩
    obtain ⟨⟨e, he⟩, -⟩ | ⟨bytes', o, hput', hgives, hself, -⟩ := hlaw x hx
    · cases hput.symm.trans he
    · cases hput.symm.trans hput'
      apply hself.1
      have hback := hgives rest
      cases o with
      | none =>
        obtain ⟨e, s, he⟩ := hback
        cases hget.symm.trans he
      | some y =>
        cases hget.symm.trans hback
        rfl
  · rintro ⟨hx, hread⟩
    obtain ⟨bytes', hput', hback⟩ := (hlaw.roundTrips_iff hx).2 hread
    cases hput.symm.trans hput'
    exact ⟨rest, hback rest⟩

theorem get_readable {c : Serializable α} (hlaw : c.Law) {x : α} {bytes : ConstDataBuffer}
    (hput : c.put x = .ok bytes) (hx : c.holds x) (hread : c.readable x) (rest : ConstDataBuffer) :
    c.get (bytes ++ rest) = .ok x rest := by
  obtain ⟨bytes', hput', hback⟩ := (hlaw.roundTrips_iff hx).2 hread
  cases hput.symm.trans hput'
  exact hback rest

theorem Takes.strict {c : Serializable α} (htakes : c.Takes) (hsound : c.Sound) : c.Strict := by
  intro x bytes _ _ hx rest rest' hget
  obtain ⟨used, -, hform⟩ := (htakes _ _ _).1 hget
  exact hx (hsound used x hform)

/-! ### Plain types -/

theorem uint64_sound : uint64.Sound := fun _ _ _ => trivial

theorem string_sound : string.Sound := by
  rintro d x ⟨len, n, -, hlength, -⟩
  exact hlength.trans_lt n.toNat_lt

theorem buffer_sound : buffer.Sound := fun _ _ h => h.1

/-- A key whose DER form the library does not take for it is read as something else. -/
theorem key_strict (der : α → ConstDataBuffer) (parse : ConstDataBuffer → Expected α) :
    (key der parse).Strict := by
  intro k bytes hput hsize hk rest rest' hget
  cases hput
  have hnumber : (UInt64.ofNat (der k).length).toNat = (der k).length := by
    rw [putData, List.length_append] at hsize
    have hlength : (der k).length < 2 ^ 64 := by omega
    exact UInt64.toNat_ofNat_of_lt' hlength
  obtain ⟨keyData, rest₁, hdata, hparse⟩ := bind_eq_ok.1 hget
  obtain ⟨n, rest₂, hn, hrest⟩ := bind_eq_ok.1 hdata
  rw [putData, List.append_assoc, readNumber_writeNumber] at hn
  cases hn
  split_ifs at hrest with hbig
  · cases hrest
  · have hle : (der k).length ≤ maxData := by
      rw [UInt64.lt_iff_toNat_lt, hnumber, not_lt] at hbig
      exact hbig
    have hkey : keyData = der k := by
      rw [hnumber, popData_append] at hrest
      cases hrest
      rfl
    rw [hkey] at hparse
    cases hder : parse (der k) with
    | error e =>
      rw [hder] at hparse
      cases hparse
    | ok k' =>
      rw [hder] at hparse
      cases hparse
      exact hk ⟨hle, hder⟩

theorem json_strict : json.Strict := by
  intro v bytes hput hsize hv
  exfalso
  apply hv
  intro text htext
  simp only [json, htext, Except.ok.injEq] at hput
  rw [← hput, putString, putData, List.length_append] at hsize
  omega

/-! ### Templates -/

theorem Sound.both {a : Serializable α} {b : Serializable β} (ha : a.Sound) (hb : b.Sound) :
    (a.both b).Sound := by
  rintro d x ⟨d₁, d₂, -, h₁, h₂⟩
  exact ⟨ha d₁ x.1 h₁, hb d₂ x.2 h₂⟩

theorem Sound.as {c : Serializable α} (h : c.Sound) {fields : β → α} {make : α → β}
    (hfields : ∀ y, fields (make y) = y) : (c.as fields make).Sound := by
  rintro d x ⟨y, hy, rfl⟩
  change c.holds (fields (make y))
  rw [hfields]
  exact h d y hy

theorem Sound.many {c : Serializable α} (h : c.Sound) {d : ConstDataBuffer} {xs : List α}
    (hform : ManyForm c.form d xs) : ∀ x ∈ xs, c.holds x := by
  induction hform with
  | nil => exact fun x hx => absurd hx List.not_mem_nil
  | cons hx _ ih => exact List.forall_mem_cons.2 ⟨h _ _ hx, ih⟩

theorem Sound.counted {c : Serializable α} (h : c.Sound) {d : ConstDataBuffer} {xs : List α}
    (hform : CountedForm c.form d xs) : xs.length < 2 ^ 64 ∧ ∀ x ∈ xs, c.holds x := by
  obtain ⟨count, n, body, -, hlength, hmany, -⟩ := hform
  exact ⟨hlength.trans_lt n.toNat_lt, h.many hmany⟩

theorem Sound.list {c : Serializable α} (h : c.Sound) : c.list.Sound := fun _ _ hform => h.counted hform

theorem Sound.map [DecidableEq α] {a : Serializable α} {b : Serializable β} (ha : a.Sound)
    (hb : b.Sound) {less : α → α → Bool} {O : Type} [LinearOrder O] {order : α → O}
    (hless : ∀ x y, less x y = true ↔ order x < order y) (hinj : Function.Injective order) :
    (a.map less b).Sound := by
  rintro d m ⟨entries, hform, rfl⟩
  obtain ⟨hlength, hentries⟩ := (ha.both hb).counted hform
  obtain ⟨hkeys, hle, hmem⟩ := SortedMap.emplaceEntries_spec hless hinj entries [] List.Pairwise.nil
  rw [List.length_nil, Nat.zero_add] at hle
  refine ⟨hle.trans_lt hlength, fun e he => ?_, hkeys⟩
  exact hentries e ((hmem e he).resolve_left List.not_mem_nil)

theorem Strict.both {a : Serializable α} {b : Serializable β} (hlaw : a.Law) (ha : a.Strict)
    (hb : b.Strict) : (a.both b).Strict := by
  rintro ⟨x, y⟩ bytes hput hsize hxy rest rest' hget
  cases hx : a.put x with
  | error e =>
    simp only [Serializable.both, hx] at hput
    cases hput
  | ok first =>
  cases hy : b.put y with
  | error e =>
    simp only [Serializable.both, hx, hy] at hput
    cases hput
  | ok second =>
  simp only [Serializable.both, hx, hy] at hput
  cases hput
  rw [List.length_append] at hsize
  rw [List.append_assoc] at hget
  obtain ⟨x', rest₁, hgetx, hrest⟩ := bind_eq_ok.1 hget
  obtain ⟨y', rest₂, hgety, hdone⟩ := bind_eq_ok.1 hrest
  cases hdone
  obtain ⟨hholds, hread⟩ := (get_iff hlaw ha hx (by omega) (second ++ rest)).1 ⟨rest₁, hgetx⟩
  have hrest₁ : rest₁ = second ++ rest := by
    have hback := get_readable hlaw hx hholds hread (second ++ rest)
    cases hgetx.symm.trans hback
    rfl
  subst hrest₁
  refine hb y second hy (by omega) (fun hholds' => hxy ⟨hholds, hholds'⟩) rest rest' hgety

theorem Strict.as {c : Serializable α} (h : c.Strict) {fields : β → α} {make : α → β}
    (hfields : ∀ y, fields (make y) = y) : (c.as fields make).Strict := by
  intro x bytes hput hsize hx rest rest' hget
  obtain ⟨y, hy, hmake⟩ := map_eq_ok.1 hget
  have hxy : fields x = y := by
    rw [hmake, hfields]
  refine h (fields x) bytes hput hsize hx rest rest' ?_
  rw [hxy]
  exact hy

end Serializable
end Vds
