import Mathlib
import Vds.Library.Table

/-! A ledger: a table of rows, each made by one transfer and drawn on by others. Row by row, what is
left and what has been drawn add up to what came in, so all rows together hold what has been
issued. -/

namespace Vds

/-- `value` goes to the new row `credit`, from the row `debit` or out of nothing. -/
structure Transfer (K : Type) where
  credit : K
  value : Nat
  debit : Option K

namespace Ledger

variable {K V : Type} [DecidableEq K]

/-- What the transfers bring to the row `k`. -/
def credits (T : Multiset (Transfer K)) (k : K) : Multiset Nat :=
  (T.filter fun tr => tr.credit = k).map (·.value)

/-- What the transfers draw from the row `k`. -/
def debited (T : Multiset (Transfer K)) (k : K) : Nat :=
  ((T.filter fun tr => tr.debit = some k).map (·.value)).sum

/-- The rows are those that the transfers have made, with what they have left in them. -/
structure Balanced (worth : V → Nat) (rows : Table K V) (T : Multiset (Transfer K)) : Prop where
  absent : ∀ k, rows.lookup k = none → credits T k = 0
  present : ∀ k v, rows.lookup k = some v → credits T k = {worth v + debited T k}

/-- The transfers draw from rows that transfers have made. -/
def Backed (T : Multiset (Transfer K)) : Prop :=
  ∀ tr ∈ T, ∀ k, tr.debit = some k → credits T k ≠ 0

variable {worth : V → Nat} {rows : Table K V} {T : Multiset (Transfer K)} {tr : Transfer K} {k : K}

theorem credits_cons {c : K} {value : Nat} {debit : Option K} :
    credits (⟨c, value, debit⟩ ::ₘ T) k = if c = k then value ::ₘ credits T k else credits T k := by
  unfold credits
  rw [Multiset.filter_cons]
  split_ifs <;> simp

theorem debited_cons {c : K} {value : Nat} {debit : Option K} :
    debited (⟨c, value, debit⟩ ::ₘ T) k = (if debit = some k then value else 0) + debited T k := by
  unfold debited
  rw [Multiset.filter_cons]
  split_ifs <;> simp

theorem debited_cons_none {c : K} {value : Nat} :
    debited (⟨c, value, none⟩ ::ₘ T) k = debited T k := by
  simp [debited_cons]

theorem credits_ne_zero : credits T k ≠ 0 ↔ ∃ tr ∈ T, tr.credit = k := by
  simp [credits, Multiset.eq_zero_iff_forall_notMem]

theorem Balanced.credits_ne_zero (h : Balanced worth rows T) {v : V} (hv : rows.lookup k = some v) :
    credits T k ≠ 0 := by
  rw [h.present k v hv]
  exact Multiset.singleton_ne_zero _

/-- A row is there when a transfer has made it. -/
theorem Balanced.isSome_iff (h : Balanced worth rows T) :
    (rows.lookup k).isSome ↔ credits T k ≠ 0 := by
  cases hv : rows.lookup k with
  | none => simp [h.absent k hv]
  | some v => simpa using h.credits_ne_zero hv

theorem Balanced.congr {rows' : Table K V} (h : Balanced worth rows T)
    (hr : ∀ k, (rows'.lookup k).map worth = (rows.lookup k).map worth) : Balanced worth rows' T where
  absent k hk := by
    have hk' := hr k
    rw [hk, Option.map_none, eq_comm, Option.map_eq_none_iff] at hk'
    exact h.absent k hk'
  present k v hv := by
    have hk := hr k
    rw [hv, Option.map_some, eq_comm, Option.map_eq_some_iff] at hk
    obtain ⟨v', hv', hw⟩ := hk
    rw [h.present k v' hv', hw]

theorem Backed.debited_eq_zero (h : Backed T) (hk : credits T k = 0) : debited T k = 0 := by
  unfold debited
  rw [Multiset.filter_eq_nil.mpr fun tr ht hd => h tr ht k hd hk]
  rfl

theorem Backed.cons (h : Backed T) (hd : ∀ k, tr.debit = some k → credits T k ≠ 0) :
    Backed (tr ::ₘ T) := by
  have hle : ∀ {k}, credits T k ≠ 0 → credits (tr ::ₘ T) k ≠ 0 := by
    intro k hk
    obtain ⟨c, value, debit⟩ := tr
    rw [credits_cons]
    split_ifs
    · exact Multiset.cons_ne_zero
    · exact hk
  intro tr' ht k hk
  rcases Multiset.mem_cons.mp ht with rfl | ht
  · exact hle (hd k hk)
  · exact hle (h tr' ht k hk)

/-! ### Transfers -/

/-- A new row. -/
theorem Balanced.issue (h : Balanced worth rows T) (hb : Backed T) (hn : rows.lookup k = none) {w : V} :
    Balanced worth (rows.insert k w) (⟨k, worth w, none⟩ ::ₘ T) where
  absent k' hk' := by
    rw [Table.lookup_insert_eq] at hk'
    split_ifs at hk' with he
    rw [credits_cons, if_neg (Ne.symm he)]
    exact h.absent k' hk'
  present k' v hv := by
    rw [Table.lookup_insert_eq] at hv
    rw [credits_cons, debited_cons_none]
    split_ifs at hv with he
    · subst he
      cases hv
      rw [if_pos rfl, h.absent k' hn, hb.debited_eq_zero (h.absent k' hn)]
      rfl
    · rw [if_neg (Ne.symm he)]
      exact h.present k' v hv

/-- A payment from one row to a new one. -/
theorem Balanced.pay (h : Balanced worth rows T) (hb : Backed T) {s : K} {v w : V} {g : V → V}
    (hs : rows.lookup s = some v) (hn : rows.lookup k = none) (hg : worth (g v) + worth w = worth v) :
    Balanced worth ((rows.update s g).insert k w) (⟨k, worth w, some s⟩ ::ₘ T) where
  absent k' hk' := by
    rw [Table.lookup_insert_eq] at hk'
    split_ifs at hk' with he
    rw [credits_cons, if_neg (Ne.symm he)]
    rw [Table.lookup_update_eq] at hk'
    split_ifs at hk' with he'
    · rw [Option.map_eq_none_iff] at hk'
      exact h.absent k' hk'
    · exact h.absent k' hk'
  present k' v' hv := by
    rw [Table.lookup_insert_eq, Table.lookup_update_eq] at hv
    rw [credits_cons, debited_cons]
    split_ifs at hv with he he'
    · subst he
      cases hv
      have hne : s ≠ k' := by
        rintro rfl
        cases hs.symm.trans hn
      rw [if_pos rfl, if_neg fun h => hne (Option.some.inj h), h.absent k' hn,
        hb.debited_eq_zero (h.absent k' hn)]
      rfl
    · subst he'
      rw [hs] at hv
      cases hv
      rw [if_neg (Ne.symm he), if_pos rfl, h.present k' v hs, ← hg, add_assoc]
    · have hne : ¬(some s : Option K) = some k' := fun h => he' (Option.some.inj h).symm
      rw [if_neg (Ne.symm he), if_neg hne, zero_add]
      exact h.present k' v' hv

/-! ### Transfers taken back -/

theorem Balanced.credits_of_cons {value : Nat} {debit : Option K}
    (h : Balanced worth rows (⟨k, value, debit⟩ ::ₘ T)) :
    credits T k = 0 ∧ ∃ v, rows.lookup k = some v := by
  have hc : credits (⟨k, value, debit⟩ ::ₘ T) k = value ::ₘ credits T k := by
    rw [credits_cons, if_pos rfl]
  cases hv : rows.lookup k with
  | none => exact absurd (hc.symm.trans (h.absent k hv)) Multiset.cons_ne_zero
  | some v =>
    have hone := (h.present k v hv).symm.trans hc
    exact ⟨((Multiset.singleton_eq_cons_iff _).mp hone).2, v, rfl⟩

/-- The row of a transfer goes when the transfer is taken back. -/
theorem Balanced.unissue {value : Nat} (h : Balanced worth rows (⟨k, value, none⟩ ::ₘ T)) :
    Balanced worth (rows.erase k) T where
  absent k' hk' := by
    rw [Table.lookup_erase_eq] at hk'
    split_ifs at hk' with he
    · subst he
      exact h.credits_of_cons.1
    · have hc := h.absent k' hk'
      rwa [credits_cons, if_neg (Ne.symm he)] at hc
  present k' v hv := by
    rw [Table.lookup_erase_eq] at hv
    split_ifs at hv with he
    have hp := h.present k' v hv
    rwa [credits_cons, if_neg (Ne.symm he), debited_cons_none] at hp

/-- A payment goes back to the row it came from. -/
theorem Balanced.unpay {value : Nat} {s : K} {v : V} {g : V → V}
    (h : Balanced worth rows (⟨k, value, some s⟩ ::ₘ T)) (hs : rows.lookup s = some v)
    (hg : (∃ total ∈ credits (⟨k, value, some s⟩ ::ₘ T) s, worth v + value ≤ total) →
      worth (g v) = worth v + value) :
    Balanced worth ((rows.update s g).erase k) T where
  absent k' hk' := by
    rw [Table.lookup_erase_eq, Table.lookup_update_eq] at hk'
    split_ifs at hk' with he he'
    · subst he
      exact h.credits_of_cons.1
    · subst he'
      rw [hs] at hk'
      cases hk'
    · have hc := h.absent k' hk'
      rwa [credits_cons, if_neg (Ne.symm he)] at hc
  present k' v' hv := by
    rw [Table.lookup_erase_eq, Table.lookup_update_eq] at hv
    split_ifs at hv with he he'
    · subst he'
      rw [hs] at hv
      cases hv
      have hp := h.present k' v hs
      rw [debited_cons, if_pos rfl] at hp
      have hw := hg ⟨worth v + (value + debited T k'), hp ▸ Multiset.mem_singleton_self _, by omega⟩
      rw [credits_cons, if_neg (Ne.symm he)] at hp
      rw [hp, hw, add_assoc]
    · have hne : ¬(some s : Option K) = some k' := fun h => he' (Option.some.inj h).symm
      have hp := h.present k' v' hv
      rwa [credits_cons, if_neg (Ne.symm he), debited_cons, if_neg hne, zero_add] at hp

/-! ### Conservation -/

theorem total_sum_eq {key : Transfer K → Option K} (P : K → Prop) [DecidablePred P]
    (hkey : ∀ tr ∈ T, ∀ k, key tr = some k → ∃ v, rows.lookup k = some v) :
    rows.total (fun k _ => if P k then ((T.filter fun tr => key tr = some k).map (·.value)).sum else 0) =
      ((T.filter fun tr => ∃ k, key tr = some k ∧ P k).map (·.value)).sum := by
  classical
  induction T using Multiset.induction_on with
  | empty =>
    simp only [Multiset.filter_zero, Multiset.map_zero, Multiset.sum_zero, ite_self]
    exact Table.total_zero fun _ _ _ => rfl
  | cons tr T ih =>
    have ih := ih fun tr' ht => hkey tr' (Multiset.mem_cons_of_mem ht)
    have hsplit : ∀ k, (if P k then
        (((tr ::ₘ T).filter fun tr => key tr = some k).map (·.value)).sum else 0) =
        (if key tr = some k ∧ P k then tr.value else 0) +
          if P k then ((T.filter fun tr => key tr = some k).map (·.value)).sum else 0 := by
      intro k
      rw [Multiset.filter_cons]
      by_cases hP : P k
      · by_cases hk : key tr = some k
        · simp [hP, hk]
        · simp [hP, hk]
      · simp [hP]
    simp only [hsplit]
    rw [Table.total_add, ih, Multiset.filter_cons, Multiset.map_add, Multiset.sum_add]
    congr 1
    cases hk : key tr with
    | none =>
      rw [Table.total_zero fun k v _ => by simp]
      simp
    | some a =>
      obtain ⟨v, hv⟩ := hkey tr (Multiset.mem_cons_self tr T) a hk
      rw [Table.total_single hv fun k' v' hne => if_neg fun h => hne (Option.some.inj h.1).symm]
      by_cases hP : P a
      · simp [hP]
      · simp [hP]

/-- The rows that are there hold what the transfers have brought less what they have drawn. -/
def Settled (worth : V → Nat) (rows : Table K V) (T : Multiset (Transfer K)) : Prop :=
  ∀ k v, rows.lookup k = some v → worth v + debited T k = (credits T k).sum

/-- The rows between which the transfers go are there. -/
structure Covered (rows : Table K V) (T : Multiset (Transfer K)) : Prop where
  credit : ∀ tr ∈ T, ∃ v, rows.lookup tr.credit = some v
  debit : ∀ tr ∈ T, ∀ k, tr.debit = some k → ∃ v, rows.lookup k = some v

theorem Balanced.settled (h : Balanced worth rows T) : Settled worth rows T := by
  intro k v hv
  rw [h.present k v hv, Multiset.sum_singleton]

theorem Balanced.covered (h : Balanced worth rows T) (hb : Backed T) : Covered rows T where
  credit tr ht := Option.isSome_iff_exists.mp
    (h.isSome_iff.mpr (Ledger.credits_ne_zero.mpr ⟨tr, ht, rfl⟩))
  debit tr ht k hk := Option.isSome_iff_exists.mp (h.isSome_iff.mpr (hb tr ht k hk))

theorem Covered.mono {S : Multiset (Transfer K)} (h : Covered rows T) (hle : S ≤ T) :
    Covered rows S where
  credit tr ht := h.credit tr (Multiset.mem_of_le hle ht)
  debit tr ht := h.debit tr (Multiset.mem_of_le hle ht)

theorem Covered.credits_eq_zero (h : Covered rows T) (hn : rows.lookup k = none) :
    credits T k = 0 := by
  by_contra hz
  obtain ⟨tr, ht, rfl⟩ := Ledger.credits_ne_zero.mp hz
  obtain ⟨v, hv⟩ := h.credit tr ht
  cases hn.symm.trans hv

theorem Covered.debited_eq_zero (h : Covered rows T) (hn : rows.lookup k = none) :
    debited T k = 0 := by
  unfold debited
  rw [Multiset.filter_eq_nil.mpr fun tr ht hd => ?_]
  · rfl
  · obtain ⟨v, hv⟩ := h.debit tr ht k hd
    cases hn.symm.trans hv

/-- Together the rows hold what was issued. `P` picks rows between which no payment goes. -/
theorem Settled.conserved (h : Settled worth rows T) (hc : Covered rows T) (P : K → Prop)
    [DecidablePred P] (hP : ∀ tr ∈ T, ∀ k, tr.debit = some k → (P k ↔ P tr.credit)) :
    rows.total (fun k v => if P k then worth v else 0) =
      ((T.filter fun tr => tr.debit = none ∧ P tr.credit).map (·.value)).sum := by
  classical
  -- row by row: what is left and what was drawn is what came in
  have hrow : rows.total (fun k v => (if P k then worth v else 0) + if P k then debited T k else 0) =
      rows.total fun k _ => if P k then (credits T k).sum else 0 := by
    refine Table.total_congr fun k v hv => ?_
    rw [← h k v hv]
    split_ifs <;> rfl
  have hin : rows.total (fun k _ => if P k then (credits T k).sum else 0) =
      ((T.filter fun tr => P tr.credit).map (·.value)).sum := by
    have hkey : ∀ tr ∈ T, ∀ k, some tr.credit = some k → ∃ v, rows.lookup k = some v :=
      fun tr ht k hk => Option.some.inj hk ▸ hc.credit tr ht
    have := total_sum_eq P hkey
    simpa only [Option.some.injEq, credits, exists_eq_left'] using this
  have hout : rows.total (fun k _ => if P k then debited T k else 0) =
      ((T.filter fun tr => ∃ k, tr.debit = some k ∧ P k).map (·.value)).sum :=
    total_sum_eq P hc.debit
  have hdebit : (T.filter fun tr => ∃ k, tr.debit = some k ∧ P k) =
      (T.filter fun tr => P tr.credit).filter fun tr => tr.debit ≠ none := by
    rw [Multiset.filter_filter]
    refine Multiset.filter_congr fun tr ht => ?_
    constructor
    · rintro ⟨k, hk, hp⟩
      exact ⟨by simp [hk], (hP tr ht k hk).mp hp⟩
    · rintro ⟨hne, hp⟩
      obtain ⟨k, hk⟩ := Option.ne_none_iff_exists'.mp hne
      exact ⟨k, hk, (hP tr ht k hk).mpr hp⟩
  have hissue : (T.filter fun tr => tr.debit = none ∧ P tr.credit) =
      (T.filter fun tr => P tr.credit).filter fun tr => ¬tr.debit ≠ none := by
    rw [Multiset.filter_filter]
    exact Multiset.filter_congr fun tr _ => by simp
  rw [Table.total_add, hin, hout, hdebit] at hrow
  have hsum : (((T.filter fun tr => P tr.credit).filter fun tr => tr.debit ≠ none).map (·.value)).sum +
      (((T.filter fun tr => P tr.credit).filter fun tr => ¬tr.debit ≠ none).map (·.value)).sum =
      ((T.filter fun tr => P tr.credit).map (·.value)).sum := by
    rw [← Multiset.sum_add, ← Multiset.map_add, Multiset.filter_add_not]
  rw [hissue]
  omega

/-! ### Some of the transfers -/

theorem credits_mono {S : Multiset (Transfer K)} (h : S ≤ T) (k : K) : credits S k ≤ credits T k :=
  Multiset.map_le_map (Multiset.filter_le_filter _ h)

theorem debited_mono {S : Multiset (Transfer K)} (h : S ≤ T) (k : K) : debited S k ≤ debited T k := by
  obtain ⟨U, rfl⟩ := Multiset.le_iff_exists_add.mp h
  unfold debited
  rw [Multiset.filter_add, Multiset.map_add, Multiset.sum_add]
  exact Nat.le_add_right ..

/-- A row gets what one transfer brings. -/
theorem Balanced.credits_eq_zero (h : Balanced worth rows T) {S : Multiset (Transfer K)} {value : Nat}
    {debit : Option K} (hle : ⟨k, value, debit⟩ ::ₘ S ≤ T) : credits S k = 0 := by
  have hc := credits_mono hle k
  rw [credits_cons, if_pos rfl] at hc
  have hcard := Multiset.card_le_card hc
  rw [Multiset.card_cons] at hcard
  cases hv : rows.lookup k with
  | none =>
    rw [h.absent k hv] at hcard
    simp at hcard
  | some v =>
    rw [h.present k v hv, Multiset.card_singleton] at hcard
    exact Multiset.card_eq_zero.mp (by omega)

/-- One payment more is settled, if the row it draws on has got its own. -/
theorem Balanced.le_of_settled {settled : V → Nat} {S : Multiset (Transfer K)} {value : Nat} {s : K}
    {v : V} (h : Balanced worth rows T) (hs : Settled settled rows S)
    (hle : ⟨k, value, some s⟩ ::ₘ S ≤ T) (hv : rows.lookup s = some v) (hc : credits S s ≠ 0) :
    value ≤ settled v := by
  have hsub := credits_mono ((Multiset.le_cons_self S _).trans hle) s
  rw [h.present s v hv] at hsub
  have heq := (Multiset.le_singleton.mp hsub).resolve_left hc
  have hset := hs s v hv
  have hdeb := debited_mono hle s
  rw [debited_cons, if_pos rfl] at hdeb
  rw [heq, Multiset.sum_singleton] at hset
  omega

theorem Settled.issue (h : Settled worth rows T) {value : Nat} {v : V} {g : V → V}
    (hv : rows.lookup k = some v) (hg : worth (g v) = worth v + value) :
    Settled worth (rows.update k g) (⟨k, value, none⟩ ::ₘ T) := by
  intro k' v' hv'
  rw [Table.lookup_update_eq] at hv'
  rw [credits_cons, debited_cons_none]
  split_ifs at hv' with he
  · subst he
    rw [hv] at hv'
    cases hv'
    have := h k' v hv
    rw [if_pos rfl, Multiset.sum_cons]
    omega
  · rw [if_neg (Ne.symm he)]
    exact h k' v' hv'

theorem Settled.pay (h : Settled worth rows T) {value : Nat} {s : K} {v w : V} {g g' : V → V}
    (hs : rows.lookup s = some v) (hg : worth (g v) + value = worth v)
    (hw : (rows.update s g).lookup k = some w) (hg' : worth (g' w) = worth w + value) :
    Settled worth ((rows.update s g).update k g') (⟨k, value, some s⟩ ::ₘ T) := by
  have hmid : ∀ k' v', (rows.update s g).lookup k' = some v' →
      worth v' + debited (⟨k, value, some s⟩ ::ₘ T) k' = (credits T k').sum := by
    intro k' v' hv'
    rw [Table.lookup_update_eq] at hv'
    rw [debited_cons]
    split_ifs at hv' with he
    · subst he
      rw [hs] at hv'
      cases hv'
      have := h k' v hs
      rw [if_pos rfl]
      omega
    · have hne : ¬(some s : Option K) = some k' := fun h => he (Option.some.inj h).symm
      rw [if_neg hne, zero_add]
      exact h k' v' hv'
  intro k' v' hv'
  rw [Table.lookup_update_eq] at hv'
  rw [credits_cons]
  split_ifs at hv' with he
  · subst he
    rw [hw] at hv'
    cases hv'
    have := hmid k' w hw
    rw [if_pos rfl, Multiset.sum_cons]
    omega
  · rw [if_neg (Ne.symm he)]
    exact hmid k' v' hv'

/-- No row is drawn on for more than it got. -/
theorem Balanced.debited_le (h : Balanced worth rows T) (hb : Backed T) :
    debited T k ≤ (credits T k).sum := by
  cases hv : rows.lookup k with
  | none => rw [hb.debited_eq_zero (h.absent k hv)]; exact Nat.zero_le _
  | some v =>
    rw [h.present k v hv, Multiset.sum_singleton]
    exact Nat.le_add_left ..

end Ledger
end Vds
