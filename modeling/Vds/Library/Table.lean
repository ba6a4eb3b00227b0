import Mathlib

/-! Tables with a primary key: association lists in which no key occurs twice. -/

namespace Vds

/-- A table of rows `V` under the primary key `K`. -/
abbrev Table (K V : Type) := AList fun _ : K => V

namespace Table

variable {K V : Type} [DecidableEq K]

/-- The update of the row under `k`; without such a row nothing is written. -/
def update (k : K) (g : V → V) (t : Table K V) : Table K V :=
  match t.lookup k with
  | none => t
  | some v => t.insert k (g v)

/-- The rows that satisfy `p`. -/
def select (p : K → V → Bool) (t : Table K V) : List (K × V) :=
  (t.entries.filter fun e => p e.1 e.2).map fun e => (e.1, e.2)

/-- The table without the rows that satisfy `p`. -/
def filterOut (p : K → V → Bool) (t : Table K V) : Table K V :=
  ⟨t.entries.filter fun e => !p e.1 e.2, t.nodupKeys.sublist List.filter_sublist⟩

/-- The sum of `f` over all rows. -/
def total {M : Type} [AddCommMonoid M] (f : K → V → M) (t : Table K V) : M :=
  (t.entries.map fun e => f e.1 e.2).sum

@[simp] theorem lookup_update (k : K) (g : V → V) (t : Table K V) :
    (update k g t).lookup k = (t.lookup k).map g := by
  unfold update
  cases h : t.lookup k with
  | none => simpa using h
  | some v => simp

theorem lookup_update_ne {k k' : K} (h : k' ≠ k) (g : V → V) (t : Table K V) :
    (update k g t).lookup k' = t.lookup k' := by
  unfold update
  cases t.lookup k with
  | none => rfl
  | some v => exact AList.lookup_insert_ne h

theorem lookup_update_eq (k k' : K) (g : V → V) (t : Table K V) :
    (update k g t).lookup k' = if k' = k then (t.lookup k').map g else t.lookup k' := by
  split_ifs with h
  · subst h
    exact lookup_update k' g t
  · exact lookup_update_ne h g t

theorem lookup_insert_eq (k k' : K) (v : V) (t : Table K V) :
    (t.insert k v).lookup k' = if k' = k then some v else t.lookup k' := by
  split_ifs with h
  · subst h
    exact AList.lookup_insert t
  · exact AList.lookup_insert_ne h

theorem lookup_erase_eq (k k' : K) (t : Table K V) :
    (t.erase k).lookup k' = if k' = k then none else t.lookup k' := by
  split_ifs with h
  · subst h
    exact AList.lookup_erase k' t
  · exact AList.lookup_erase_ne h

theorem lookup_filterOut_eq_some {p : K → V → Bool} {t : Table K V} {k : K} {v : V} :
    (filterOut p t).lookup k = some v ↔ t.lookup k = some v ∧ p k v = false := by
  rw [← Option.mem_def, ← Option.mem_def, AList.mem_lookup_iff, AList.mem_lookup_iff]
  change (⟨k, v⟩ : Sigma fun _ : K => V) ∈ t.entries.filter (fun e => !p e.1 e.2) ↔ _
  rw [List.mem_filter, Bool.not_eq_true']

theorem mem_select {p : K → V → Bool} {t : Table K V} {k : K} {v : V} :
    (k, v) ∈ select p t ↔ t.lookup k = some v ∧ p k v = true := by
  unfold select
  rw [List.mem_map]
  constructor
  · rintro ⟨⟨a, b⟩, hm, h⟩
    cases h
    obtain ⟨hm, hp⟩ := List.mem_filter.mp hm
    exact ⟨AList.mem_lookup_iff.mpr hm, hp⟩
  · rintro ⟨hl, hp⟩
    exact ⟨⟨k, v⟩, List.mem_filter.mpr ⟨AList.mem_lookup_iff.mp hl, hp⟩, rfl⟩

/-! ### Tables with the same rows -/

/-- The order of the rows does not count. -/
def SameRows (t u : Table K V) : Prop := ∀ k, t.lookup k = u.lookup k

section SameRows

variable {t u w : Table K V}

theorem SameRows.refl (t : Table K V) : SameRows t t := fun _ => rfl

theorem SameRows.symm (h : SameRows t u) : SameRows u t := fun k => (h k).symm

theorem SameRows.trans (h : SameRows t u) (h' : SameRows u w) : SameRows t w := fun k => (h k).trans (h' k)

theorem SameRows.insert (h : SameRows t u) (k : K) (v : V) : SameRows (t.insert k v) (u.insert k v) := by
  intro x
  rw [lookup_insert_eq, lookup_insert_eq, h x]

theorem SameRows.update (h : SameRows t u) (k : K) (g : V → V) :
    SameRows (Table.update k g t) (Table.update k g u) := by
  intro x
  rw [lookup_update_eq, lookup_update_eq, h x]

theorem SameRows.erase (h : SameRows t u) (k : K) : SameRows (t.erase k) (u.erase k) := by
  intro x
  rw [lookup_erase_eq, lookup_erase_eq, h x]

/-- A row that is inserted and erased again. -/
theorem SameRows.erase_of_insert {k : K} {v : V} (h : SameRows u (t.insert k v)) (hk : t.lookup k = none) :
    SameRows (u.erase k) t := by
  intro x
  rw [lookup_erase_eq]
  split_ifs with hx
  · rw [hx, hk]
  · rw [h x, lookup_insert_eq, if_neg hx]

theorem sameRows_iff : SameRows t u ↔ ∀ k v, t.lookup k = some v ↔ u.lookup k = some v := by
  constructor
  · intro h k v
    rw [h k]
  · exact fun h k => Option.ext fun v => h k v

theorem SameRows.select_isEmpty (h : SameRows t u) (p : K → V → Bool) :
    (Table.select p t).isEmpty = (Table.select p u).isEmpty := by
  have hall : ∀ {a b : Table K V}, SameRows a b → (Table.select p a).isEmpty = true → (Table.select p b).isEmpty = true := by
    intro a b hab ha
    rw [List.isEmpty_iff, List.eq_nil_iff_forall_not_mem] at ha ⊢
    rintro ⟨k, v⟩ hm
    obtain ⟨hl, hp⟩ := mem_select.mp hm
    exact ha (k, v) (mem_select.mpr ⟨(hab k).trans hl, hp⟩)
  exact Bool.eq_iff_iff.mpr ⟨hall h, hall h.symm⟩

end SameRows

/-! ### Rows that come and go -/

/-- `u` has the rows of `t`, and others only where `P` holds. -/
structure Adds (P : K → V → Prop) (t u : Table K V) : Prop where
  old : ∀ k v, t.lookup k = some v → u.lookup k = some v
  new : ∀ k v, u.lookup k = some v → t.lookup k = some v ∨ P k v

/-- `u` has the rows of `t` for which `P` does not hold. -/
def Removes (P : K → V → Prop) (t u : Table K V) : Prop :=
  ∀ k v, u.lookup k = some v ↔ t.lookup k = some v ∧ ¬P k v

/-- No row of `t` satisfies `P`. -/
def Lacks (P : K → V → Prop) (t : Table K V) : Prop := ∀ k v, t.lookup k = some v → ¬P k v

section AddsRemoves

variable {P Q : K → V → Prop} {t u w : Table K V}

theorem Adds.refl (t : Table K V) : Adds (fun _ _ => False) t t := ⟨fun _ _ h => h, fun _ _ h => .inl h⟩

theorem Adds.trans (h : Adds P t u) (h' : Adds Q u w) : Adds (fun k v => P k v ∨ Q k v) t w := by
  refine ⟨fun k v hk => h'.old k v (h.old k v hk), fun k v hk => ?_⟩
  rcases h'.new k v hk with hk | hk
  · exact (h.new k v hk).imp_right .inl
  · exact .inr (.inr hk)

theorem Adds.mono (h : Adds P t u) (hPQ : ∀ k v, P k v → Q k v) : Adds Q t u :=
  ⟨h.old, fun k v hk => (h.new k v hk).imp_right (hPQ k v)⟩

theorem adds_insert {k : K} {v : V} (hk : t.lookup k = none) : Adds (fun x y => x = k ∧ y = v) t (t.insert k v) := by
  refine ⟨fun x y hx => ?_, fun x y hx => ?_⟩
  · have hne : x ≠ k := by
      rintro rfl
      rw [hk] at hx
      cases hx
    rw [lookup_insert_eq, if_neg hne, hx]
  · rw [lookup_insert_eq] at hx
    split_ifs at hx with he
    · exact .inr ⟨he, (Option.some_inj.mp hx).symm⟩
    · exact .inl hx

theorem Removes.trans (h : Removes P t u) (h' : Removes Q u w) : Removes (fun k v => P k v ∨ Q k v) t w := by
  intro k v
  rw [h' k v, h k v, not_or, and_assoc]

theorem removes_false (t : Table K V) : Removes (fun _ _ => False) t t :=
  fun _ _ => (and_iff_left not_false).symm

theorem Removes.congr (h : Removes P t u) (hPQ : ∀ k v, P k v ↔ Q k v) : Removes Q t u := by
  intro k v
  rw [h k v, hPQ k v]

theorem removes_erase (k : K) (t : Table K V) : Removes (fun x _ => x = k) t (t.erase k) := by
  intro x v
  rw [lookup_erase_eq]
  split_ifs with hx
  · exact iff_of_false (fun h => (by cases h)) fun h => h.2 hx
  · exact (and_iff_left hx).symm

theorem removes_filterOut (p : K → V → Bool) (t : Table K V) :
    Removes (fun k v => p k v = true) t (filterOut p t) := by
  intro k v
  rw [lookup_filterOut_eq_some, Bool.not_eq_true]

theorem Removes.of_sameRows {t' : Table K V} (h : Removes P t u) (hs : SameRows t t') : Removes P t' u := by
  intro k v
  rw [h k v, hs k]

/-- When the added rows go again, the rest is as before just if none of them was there before. -/
theorem Adds.removed_iff (h : Adds P t u) (h' : Removes P u w) : SameRows w t ↔ Lacks P t := by
  rw [sameRows_iff]
  constructor
  · exact fun hs k v hk => ((h' k v).mp ((hs k v).mpr hk)).2
  · intro hl k v
    rw [h' k v]
    constructor
    · rintro ⟨hk, hP⟩
      exact (h.new k v hk).resolve_right hP
    · exact fun hk => ⟨h.old k v hk, hl k v hk⟩

end AddsRemoves

/-! ### Rows that stay -/

/-- The rows of `t` are still in `u`, changed only as `P` allows. -/
def Kept (P : V → V → Prop) (t u : Table K V) : Prop :=
  ∀ k v, t.lookup k = some v → ∃ v', u.lookup k = some v' ∧ P v v'

section Kept

variable {P : V → V → Prop} {t u w : Table K V}

theorem Kept.refl [Std.Refl P] (t : Table K V) : Kept P t t := fun _ v h => ⟨v, h, refl_of P v⟩

theorem Kept.trans [IsTrans V P] (h : Kept P t u) (h' : Kept P u w) : Kept P t w := by
  intro k v hk
  obtain ⟨v₁, hk₁, hP⟩ := h k v hk
  obtain ⟨v₂, hk₂, hP'⟩ := h' k v₁ hk₁
  exact ⟨v₂, hk₂, trans_of P hP hP'⟩

theorem Kept.of_old [Std.Refl P] (h : ∀ k v, t.lookup k = some v → u.lookup k = some v) : Kept P t u :=
  fun k v hk => ⟨v, h k v hk, refl_of P v⟩

theorem kept_insert [Std.Refl P] {k : K} (v : V) (hk : t.lookup k = none) : Kept P t (t.insert k v) :=
  Kept.of_old (adds_insert hk).old

theorem kept_update [Std.Refl P] {k : K} {g : V → V} (hg : ∀ v, t.lookup k = some v → P v (g v)) :
    Kept P t (update k g t) := by
  intro x v hx
  rw [lookup_update_eq]
  split_ifs with he
  · subst he
    rw [hx]
    exact ⟨g v, rfl, hg v hx⟩
  · exact ⟨v, hx, refl_of P v⟩

end Kept

section Total

variable {M : Type} [AddCommMonoid M]

theorem total_insert {f : K → V → M} {t : Table K V} {k : K} {v : V} (h : t.lookup k = none) :
    total f (t.insert k v) = f k v + total f t := by
  unfold total
  rw [AList.entries_insert_of_notMem (AList.lookup_eq_none.mp h), List.map_cons, List.sum_cons]

theorem total_erase {f : K → V → M} {t : Table K V} {k : K} {v : V} (h : t.lookup k = some v) :
    total f t = f k v + total f (t.erase k) := by
  have hm : (⟨k, v⟩ : Sigma fun _ : K => V) ∈ t.entries := AList.mem_lookup_iff.mp h
  have hp : t.entries.Perm (⟨k, v⟩ :: t.entries.kerase k) := by
    obtain ⟨v', l₁, l₂, -, hl, hk⟩ := List.exists_of_kerase (List.mem_keys_of_mem hm)
    have hv : v' = v := by
      have hmem : (⟨k, v'⟩ : Sigma fun _ : K => V) ∈ t.entries := by rw [hl]; simp
      have : t.lookup k = some v' := AList.mem_lookup_iff.mpr hmem
      rw [h] at this
      exact (Option.some.inj this).symm
    subst hv
    rw [hk, hl]
    exact List.perm_middle
  unfold total
  rw [(hp.map _).sum_eq, List.map_cons, List.sum_cons]
  rfl

theorem update_of_some {t : Table K V} {k : K} {v : V} (g : V → V) (h : t.lookup k = some v) :
    update k g t = (t.erase k).insert k (g v) := by
  unfold update
  rw [h]
  apply AList.ext
  simp only [AList.entries_insert, AList.erase]
  rw [List.kerase_of_notMem_keys (List.notMem_keys_kerase k t.nodupKeys)]

theorem update_of_none {t : Table K V} {k : K} (g : V → V) (h : t.lookup k = none) :
    update k g t = t := by
  unfold update
  rw [h]

theorem total_update {f : K → V → M} {t : Table K V} {k : K} {v : V} (g : V → V)
    (h : t.lookup k = some v) : total f (update k g t) + f k v = total f t + f k (g v) := by
  rw [update_of_some g h, total_insert (AList.lookup_erase k t), total_erase h]
  abel

theorem total_congr {f g : K → V → M} {t : Table K V}
    (h : ∀ k v, t.lookup k = some v → f k v = g k v) : total f t = total g t := by
  unfold total
  apply congrArg List.sum
  apply List.map_congr_left
  intro e he
  exact h e.1 e.2 (AList.mem_lookup_iff.mpr he)

/-- An update that changes no value of `f`. -/
theorem total_update_same {f : K → V → M} {t : Table K V} {k : K} {g : V → V}
    (h : ∀ v, t.lookup k = some v → f k (g v) = f k v) : total f (update k g t) = total f t := by
  cases hk : t.lookup k with
  | none => rw [update_of_none g hk]
  | some v => rw [update_of_some g hk, total_insert (AList.lookup_erase k t), h v hk, ← total_erase hk]

omit [DecidableEq K] in
theorem total_add (f g : K → V → M) (t : Table K V) :
    total (fun k v => f k v + g k v) t = total f t + total g t := List.sum_map_add

theorem total_zero {f : K → V → M} {t : Table K V} (h : ∀ k v, t.lookup k = some v → f k v = 0) :
    total f t = 0 := by
  rw [total_congr h]
  exact List.sum_map_zero

/-- Only the row under `k` counts. -/
theorem total_single {f : K → V → M} {t : Table K V} {k : K} {v : V} (h : t.lookup k = some v)
    (hf : ∀ k' v', k' ≠ k → f k' v' = 0) : total f t = f k v := by
  rw [total_erase h, total_zero, add_zero]
  intro k' v' hk'
  rw [lookup_erase_eq] at hk'
  split_ifs at hk' with he
  exact hf k' v' he

/-- The sum over the rows, as a sum over keys. -/
theorem total_eq_sum (f : K → V → M) (t : Table K V) {keys : Finset K}
    (h : ∀ k v, t.lookup k = some v → k ∈ keys) :
    total f t = ∑ k ∈ keys, (t.lookup k).elim 0 (f k) := by
  have hkeys : total f t = ∑ k ∈ t.keys.toFinset, (t.lookup k).elim 0 (f k) := by
    unfold total AList.keys
    rw [List.sum_toFinset _ t.nodupKeys, List.keys, List.map_map]
    refine congrArg List.sum (List.map_congr_left fun e he => ?_)
    rw [Function.comp_apply, AList.mem_lookup_iff.mpr he]
    rfl
  rw [hkeys]
  refine Finset.sum_subset (fun k hk => ?_) fun k _ hk => ?_
  · rw [List.mem_toFinset, ← AList.mem_keys, ← AList.lookup_isSome] at hk
    obtain ⟨v, hv⟩ := Option.isSome_iff_exists.mp hk
    exact h k v hv
  · rw [List.mem_toFinset, ← AList.mem_keys, ← AList.lookup_eq_none] at hk
    rw [hk]
    rfl

/-- Two tables whose rows count the same. -/
theorem total_eq_total {W : Type} {f : K → V → M} {g : K → W → M} {t : Table K V} {u : Table K W}
    (h : ∀ k, (t.lookup k).elim 0 (f k) = (u.lookup k).elim 0 (g k)) : total f t = total g u := by
  have hin : ∀ k, ((t.lookup k).isSome ∨ (u.lookup k).isSome) → k ∈ t.keys.toFinset ∪ u.keys.toFinset := by
    intro k hk
    simpa only [Finset.mem_union, List.mem_toFinset, AList.mem_keys, AList.lookup_isSome] using hk
  rw [total_eq_sum f t fun k v hv => hin k (.inl (hv ▸ rfl)),
    total_eq_sum g u fun k v hv => hin k (.inr (hv ▸ rfl))]
  exact Finset.sum_congr rfl fun k _ => h k

/-- Two tables whose rows count the same but for those under `a`. -/
theorem total_add_eq {W : Type} {f : K → V → M} {g : K → W → M} {t : Table K V} {u : Table K W} (a : K)
    (h : ∀ k, k ≠ a → (t.lookup k).elim 0 (f k) = (u.lookup k).elim 0 (g k)) :
    total f t + (u.lookup a).elim 0 (g a) = total g u + (t.lookup a).elim 0 (f a) := by
  have hin : ∀ k, ((t.lookup k).isSome ∨ (u.lookup k).isSome) →
      k ∈ insert a (t.keys.toFinset ∪ u.keys.toFinset) := by
    intro k hk
    refine Finset.mem_insert_of_mem ?_
    simpa only [Finset.mem_union, List.mem_toFinset, AList.mem_keys, AList.lookup_isSome] using hk
  rw [total_eq_sum f t fun k v hv => hin k (.inl (hv ▸ rfl)),
    total_eq_sum g u fun k v hv => hin k (.inr (hv ▸ rfl)),
    ← Finset.add_sum_erase _ _ (Finset.mem_insert_self a _),
    ← Finset.add_sum_erase _ (fun k => (u.lookup k).elim 0 (g k)) (Finset.mem_insert_self a _),
    Finset.sum_congr rfl fun k hk => h k (Finset.ne_of_mem_erase hk)]
  abel

omit [DecidableEq K] in
/-- A sum of sums, taken through a homomorphism. -/
theorem map_total {N : Type} [AddCommMonoid N] (φ : M →+ N) (f : K → V → M) (t : Table K V) :
    φ (total f t) = total (fun k v => φ (f k v)) t := by
  unfold total
  rw [map_list_sum, List.map_map]
  rfl

end Total

end Table
end Vds
