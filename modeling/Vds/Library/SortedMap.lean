import Mathlib

/-! Ordered maps and sets as lists kept in the order of their keys, so that the head is the
element an ordered container gives first. -/

namespace Vds.SortedMap

variable {K V : Type}

def keys (m : List (K × V)) : List K := m.map Prod.fst

@[simp] theorem keys_nil : keys ([] : List (K × V)) = [] := rfl

@[simp] theorem keys_cons (e : K × V) (m : List (K × V)) : keys (e :: m) = e.1 :: keys m := rfl

theorem mem_keys {m : List (K × V)} {k : K} : k ∈ keys m ↔ ∃ v, (k, v) ∈ m := by
  simp [keys]

section Lookup

variable [BEq K] [LawfulBEq K]

theorem mem_of_lookup {k : K} {v : V} {m : List (K × V)} (h : m.lookup k = some v) : (k, v) ∈ m := by
  obtain ⟨l₁, l₂, he, -⟩ := List.lookup_eq_some_iff.mp h
  rw [he]
  exact List.mem_append_right _ List.mem_cons_self

theorem lookup_of_mem {k : K} {v : V} {m : List (K × V)} (hn : (keys m).Nodup) (h : (k, v) ∈ m) :
    m.lookup k = some v := by
  induction m with
  | nil => cases h
  | cons e m ih =>
    obtain ⟨hk, hn⟩ := List.nodup_cons.mp hn
    rw [List.lookup_cons]
    rcases List.mem_cons.mp h with rfl | h
    · rw [beq_self_eq_true]
    · have hne : k ≠ e.1 := fun he => hk (mem_keys.mpr ⟨v, he ▸ h⟩)
      rw [beq_false_of_ne hne, ih hn h]

theorem lookup_isSome_iff {k : K} {m : List (K × V)} : (m.lookup k).isSome ↔ k ∈ keys m := by
  induction m with
  | nil => simp
  | cons e m ih =>
    rw [List.lookup_cons, keys_cons, List.mem_cons]
    by_cases hk : k = e.1
    · simp [hk]
    · rw [beq_false_of_ne hk, ih]
      simp [hk]

end Lookup

variable [DecidableEq K] (less : K → K → Bool)

/-- The map after the assignment of `v` to the key `k`. -/
def assign (k : K) (v : V) (m : List (K × V)) : List (K × V) :=
  (m.filter fun e => e.1 ≠ k).orderedInsert (fun a b => less a.1 b.1) (k, v)

/-- The map with an entry of the key `k`; an entry that is there stays. -/
def emplaceEntry (k : K) (v : V) (m : List (K × V)) : List (K × V) :=
  if k ∈ keys m then m else m.orderedInsert (fun a b => less a.1 b.1) (k, v)

/-- The set with `k` in it. -/
def emplace (k : K) (s : List K) : List K :=
  if k ∈ s then s else s.orderedInsert (fun a b => less a b) k

theorem mem_emplace {k x : K} {s : List K} : x ∈ emplace less k s ↔ x = k ∨ x ∈ s := by
  unfold emplace
  split_ifs with h
  · exact ⟨.inr, fun hx => hx.elim (fun hk => hk ▸ h) id⟩
  · exact List.mem_orderedInsert _

theorem nodup_emplace {k : K} {s : List K} (h : s.Nodup) : (emplace less k s).Nodup := by
  unfold emplace
  split_ifs with hk
  · exact h
  · exact (List.perm_orderedInsert _ k s).nodup_iff.mpr (List.nodup_cons.mpr ⟨hk, h⟩)

theorem assign_perm (k : K) (v : V) (m : List (K × V)) :
    (assign less k v m).Perm ((k, v) :: m.filter fun e => e.1 ≠ k) :=
  List.perm_orderedInsert _ _ _

theorem mem_assign {k : K} {v : V} {m : List (K × V)} {e : K × V} :
    e ∈ assign less k v m ↔ e = (k, v) ∨ e ∈ m ∧ e.1 ≠ k := by
  rw [(assign_perm less k v m).mem_iff, List.mem_cons, List.mem_filter]
  simp

theorem mem_keys_assign {k x : K} {v : V} {m : List (K × V)} :
    x ∈ keys (assign less k v m) ↔ x = k ∨ x ∈ keys m := by
  simp only [mem_keys, mem_assign]
  constructor
  · rintro ⟨w, h | h⟩
    · exact .inl (congrArg Prod.fst h)
    · exact .inr ⟨w, h.1⟩
  · rintro (rfl | ⟨w, h⟩)
    · exact ⟨v, .inl rfl⟩
    · by_cases hx : x = k
      · exact ⟨v, .inl (by rw [hx])⟩
      · exact ⟨w, .inr ⟨h, hx⟩⟩

theorem nodup_keys_assign {k : K} {v : V} {m : List (K × V)} (h : (keys m).Nodup) :
    (keys (assign less k v m)).Nodup := by
  have hp := (assign_perm less k v m).map Prod.fst
  refine hp.nodup_iff.mpr (List.nodup_cons.mpr ⟨?_, ?_⟩)
  · simp
  · exact h.sublist ((List.filter_sublist (l := m)).map Prod.fst)

/-! ### A map from a list -/

section Assigns

variable {A : Type} (key : A → K) (value : A → V) (items : List A)

/-- The map that the assignments of `items` make of `m`. -/
def assigns (m : List (K × V)) : List (K × V) :=
  items.foldl (fun m i => assign less (key i) (value i) m) m

theorem mem_keys_assigns {m : List (K × V)} {x : K} :
    x ∈ keys (assigns less key value items m) ↔ x ∈ keys m ∨ ∃ i ∈ items, key i = x := by
  induction items generalizing m with
  | nil => simp [assigns]
  | cons i items ih =>
    rw [show assigns less key value (i :: items) m =
      assigns less key value items (assign less (key i) (value i) m) from rfl, ih,
      mem_keys_assign, List.exists_mem_cons_iff]
    tauto

theorem mem_assigns {m : List (K × V)} {e : K × V} (h : e ∈ assigns less key value items m) :
    e ∈ m ∨ ∃ i ∈ items, e = (key i, value i) := by
  induction items generalizing m with
  | nil => exact .inl h
  | cons i items ih =>
    rw [List.exists_mem_cons_iff]
    rcases ih h with h | h
    · rcases (mem_assign less).mp h with h | h
      · exact .inr (.inl h)
      · exact .inl h.1
    · exact .inr (.inr h)

theorem nodup_keys_assigns {m : List (K × V)} (h : (keys m).Nodup) :
    (keys (assigns less key value items m)).Nodup := by
  induction items generalizing m with
  | nil => exact h
  | cons i items ih => exact ih (nodup_keys_assign less h)

end Assigns

/-! ### A set in its order -/

def Ascending (s : List K) : Prop := s.Pairwise fun a b => less a b = true

instance decidableAscending (s : List K) : Decidable (Ascending less s) :=
  inferInstanceAs (Decidable (s.Pairwise _))

section Order

variable {less} {O : Type} [LinearOrder O] {key : K → O} (hl : ∀ a b, less a b = true ↔ key a < key b)
include hl

theorem ascending_emplace (hk : Function.Injective key) {k : K} {s : List K} (h : Ascending less s) :
    Ascending less (emplace less k s) := by
  unfold emplace
  split_ifs with hmem
  · exact h
  · induction s with
    | nil => exact List.pairwise_singleton _ _
    | cons a s ih =>
      obtain ⟨ha, hs⟩ := List.pairwise_cons.mp h
      rw [List.mem_cons, not_or] at hmem
      rw [List.orderedInsert_cons]
      split_ifs with hless
      · refine List.pairwise_cons.mpr ⟨fun b hb => ?_, h⟩
        rcases List.mem_cons.mp hb with rfl | hb
        · exact hless
        · exact (hl _ _).mpr (((hl _ _).mp hless).trans ((hl _ _).mp (ha b hb)))
      · refine List.pairwise_cons.mpr ⟨fun b hb => ?_, ih hs hmem.2⟩
        rcases (List.mem_orderedInsert _).mp hb with rfl | hb
        · have hle := not_lt.mp ((hl _ _).not.mp hless)
          exact (hl _ _).mpr (lt_of_le_of_ne hle fun he => hmem.1 (hk he).symm)
        · exact ha b hb

omit [DecidableEq K] in
theorem nodup_of_ascending {s : List K} (h : Ascending less s) : s.Nodup := by
  refine h.imp fun {a b} hab => ?_
  rintro rfl
  exact lt_irrefl _ ((hl a a).mp hab)

theorem ascending_assign (hk : Function.Injective key) {k : K} {v : V} {m : List (K × V)}
    (h : Ascending less (keys m)) : Ascending less (keys (assign less k v m)) := by
  unfold assign
  have hmem : ∀ e ∈ m.filter fun e => e.1 ≠ k, e.1 ≠ k := by simp
  have hrest : Ascending less (keys (m.filter fun e => e.1 ≠ k)) :=
    h.sublist ((List.filter_sublist (l := m)).map Prod.fst)
  generalize m.filter (fun e => e.1 ≠ k) = rest at hmem hrest
  clear h
  induction rest with
  | nil => exact List.pairwise_singleton _ _
  | cons e rest ih =>
    obtain ⟨he, hrest'⟩ := List.pairwise_cons.mp hrest
    rw [List.orderedInsert_cons]
    split_ifs with hless
    · refine List.pairwise_cons.mpr ⟨fun x hx => ?_, hrest⟩
      rcases List.mem_cons.mp hx with rfl | hx
      · exact hless
      · exact (hl _ _).mpr (((hl _ _).mp hless).trans ((hl _ _).mp (he x hx)))
    · refine List.pairwise_cons.mpr
        ⟨fun x hx => ?_, ih (fun f hf => hmem f (List.mem_cons_of_mem e hf)) hrest'⟩
      obtain ⟨f, hf, rfl⟩ := List.mem_map.mp hx
      rcases (List.mem_orderedInsert _).mp hf with rfl | hf
      · have hle := not_lt.mp ((hl _ _).not.mp hless)
        exact (hl _ _).mpr (lt_of_le_of_ne hle fun heq => hmem e List.mem_cons_self (hk heq))
      · exact he f.1 (List.mem_map_of_mem hf)

theorem emplace_last {k : K} {s : List K} (h : ∀ a ∈ s, less a k = true) :
    emplace less k s = s ++ [k] := by
  have hmem : k ∉ s := fun hk => lt_irrefl _ ((hl _ _).mp (h k hk))
  unfold emplace
  rw [if_neg hmem]
  induction s with
  | nil => rfl
  | cons a s ih =>
    have hka : ¬less k a = true := fun hka =>
      lt_asymm ((hl _ _).mp hka) ((hl _ _).mp (h a List.mem_cons_self))
    rw [List.orderedInsert_cons, if_neg hka, List.cons_append,
      ih (fun b hb => h b (List.mem_cons_of_mem a hb)) fun hk => hmem (List.mem_cons_of_mem a hk)]

theorem emplaceAll_ascending {s items : List K} (h : Ascending less (s ++ items)) :
    items.foldl (fun s item => emplace less item s) s = s ++ items := by
  induction items generalizing s with
  | nil => rw [List.append_nil]; rfl
  | cons a items ih =>
    have hs : ∀ b ∈ s, less b a = true := fun b hb =>
      (List.pairwise_append.mp h).2.2 b hb a List.mem_cons_self
    rw [List.foldl_cons, emplace_last hl hs]
    rw [ih (by rwa [List.append_assoc]), List.append_assoc, List.singleton_append]

theorem emplaceEntry_last {k : K} {v : V} {m : List (K × V)} (h : ∀ a ∈ keys m, less a k = true) :
    emplaceEntry less k v m = m ++ [(k, v)] := by
  have hmem : k ∉ keys m := fun hk => lt_irrefl _ ((hl _ _).mp (h k hk))
  unfold emplaceEntry
  rw [if_neg hmem]
  induction m with
  | nil => rfl
  | cons a m ih =>
    have hka : ¬less k a.1 = true := fun hka =>
      lt_asymm ((hl _ _).mp hka) ((hl _ _).mp (h a.1 List.mem_cons_self))
    rw [List.orderedInsert_cons, if_neg hka, List.cons_append,
      ih (fun b hb => h b (List.mem_cons_of_mem _ hb)) fun hk => hmem (List.mem_cons_of_mem _ hk)]

/-- Entries that come in the order of their keys are the map. -/
theorem emplaceEntries_ascending {m entries : List (K × V)}
    (h : Ascending less (keys (m ++ entries))) :
    entries.foldl (fun m e => emplaceEntry less e.1 e.2 m) m = m ++ entries := by
  induction entries generalizing m with
  | nil => rw [List.append_nil]; rfl
  | cons e entries ih =>
    have hm : ∀ b ∈ keys m, less b e.1 = true := by
      intro b hb
      rw [keys, List.map_append] at h
      exact (List.pairwise_append.mp h).2.2 b hb e.1 List.mem_cons_self
    rw [List.foldl_cons, emplaceEntry_last hl hm]
    rw [ih (by rwa [List.append_assoc]), List.append_assoc, List.singleton_append]

end Order

end Vds.SortedMap
