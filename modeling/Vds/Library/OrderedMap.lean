import Vds.Library.SortedMap

/-! `std::map`: the entries stand in the order of their keys, so that the first one has the least key. -/

namespace Vds

structure OrderedMap (K V : Type) [LinearOrder K] where
  entries : List (K × V)
  ascending : (entries.map Prod.fst).Pairwise (· < ·)

namespace OrderedMap

variable {K V : Type} [LinearOrder K]

def empty : OrderedMap K V := ⟨[], List.Pairwise.nil⟩

def find (m : OrderedMap K V) (k : K) : Option V := m.entries.lookup k

/-- `begin`, if the map is not empty. -/
def front (m : OrderedMap K V) : Option (K × V) := m.entries.head?

def size (m : OrderedMap K V) : Nat := m.entries.length

def eraseFront (m : OrderedMap K V) : OrderedMap K V :=
  ⟨m.entries.tail, by rw [List.map_tail]; exact m.ascending.tail⟩

def assignEntry (k : K) (v : V) : List (K × V) → List (K × V)
  | [] => [(k, v)]
  | e :: es =>
    if k < e.1 then (k, v) :: e :: es
    else if e.1 < k then e :: assignEntry k v es
    else (k, v) :: es

theorem mem_keys_assignEntry {k x : K} {v : V} {es : List (K × V)} :
    x ∈ (assignEntry k v es).map Prod.fst → x = k ∨ x ∈ es.map Prod.fst := by
  induction es with
  | nil => exact fun h => .inl (List.mem_singleton.mp h)
  | cons e es ih =>
    unfold assignEntry
    split_ifs with h₁ h₂
    · exact fun h => List.mem_cons.mp h
    · intro h
      rcases List.mem_cons.mp h with h | h
      · exact .inr (List.mem_cons.mpr (.inl h))
      · exact (ih h).imp id (List.mem_cons_of_mem _)
    · intro h
      rcases List.mem_cons.mp h with h | h
      · exact .inl h
      · exact .inr (List.mem_cons_of_mem _ h)

theorem ascending_assignEntry (k : K) (v : V) {es : List (K × V)}
    (h : (es.map Prod.fst).Pairwise (· < ·)) :
    ((assignEntry k v es).map Prod.fst).Pairwise (· < ·) := by
  induction es with
  | nil => exact List.pairwise_singleton _ _
  | cons e es ih =>
    obtain ⟨he, hes⟩ := List.pairwise_cons.mp h
    unfold assignEntry
    split_ifs with h₁ h₂
    · refine List.pairwise_cons.mpr ⟨fun x hx => ?_, h⟩
      rcases List.mem_cons.mp hx with rfl | hx
      · exact h₁
      · exact h₁.trans (he x hx)
    · refine List.pairwise_cons.mpr ⟨fun x hx => ?_, ih hes⟩
      rcases mem_keys_assignEntry hx with rfl | hx
      · exact h₂
      · exact he x hx
    · have hk : k = e.1 := le_antisymm (not_lt.mp h₂) (not_lt.mp h₁)
      refine List.pairwise_cons.mpr ⟨fun x hx => ?_, hes⟩
      rw [hk]
      exact he x hx

/-- `operator []` with an assignment. -/
def assign (m : OrderedMap K V) (k : K) (v : V) : OrderedMap K V :=
  ⟨assignEntry k v m.entries, ascending_assignEntry k v m.ascending⟩

theorem mem_assign {m : OrderedMap K V} {k : K} {v : V} {e : K × V} (h : e ∈ (m.assign k v).entries) :
    e = (k, v) ∨ e ∈ m.entries := by
  change e ∈ assignEntry k v m.entries at h
  generalize m.entries = es at h ⊢
  induction es with
  | nil => exact .inl (List.mem_singleton.mp h)
  | cons e' es ih =>
    unfold assignEntry at h
    split_ifs at h
    · exact List.mem_cons.mp h
    · rcases List.mem_cons.mp h with rfl | h
      · exact .inr List.mem_cons_self
      · exact (ih h).imp id (List.mem_cons_of_mem e')
    · exact (List.mem_cons.mp h).imp id (List.mem_cons_of_mem e')

/-- The map with its values replaced. -/
def mapValues (f : V → V) (m : OrderedMap K V) : OrderedMap K V :=
  ⟨m.entries.map fun e => (e.1, f e.2), by
    rw [List.map_map]
    exact m.ascending⟩

/-- `emplace`: an entry that is there stays. -/
def emplace (m : OrderedMap K V) (k : K) (v : V) : OrderedMap K V :=
  if (m.find k).isSome then m else m.assign k v

/-- `erase` of the entry under a key. -/
def erase (m : OrderedMap K V) (k : K) : OrderedMap K V :=
  ⟨m.entries.filter fun e => e.1 ≠ k, m.ascending.sublist (List.filter_sublist.map Prod.fst)⟩

@[simp] theorem find_empty (k : K) : (empty : OrderedMap K V).find k = none := rfl

theorem lookup_assignEntry (k x : K) (v : V) (es : List (K × V)) :
    (assignEntry k v es).lookup x = if x = k then some v else es.lookup x := by
  induction es with
  | nil =>
    unfold assignEntry
    rw [List.lookup_cons]
    by_cases hx : x = k
    · rw [if_pos hx, beq_iff_eq.mpr hx]
    · rw [if_neg hx, beq_false_of_ne hx]
  | cons e es ih =>
    unfold assignEntry
    by_cases hx : x = k
    · subst hx
      rw [if_pos rfl]
      split_ifs with h₁ h₂
      · rw [List.lookup_cons, beq_self_eq_true]
      · rw [List.lookup_cons, beq_false_of_ne h₂.ne', ih, if_pos rfl]
      · rw [List.lookup_cons, beq_self_eq_true]
    · rw [if_neg hx]
      split_ifs with h₁ h₂
      · rw [List.lookup_cons, beq_false_of_ne hx]
      · rw [List.lookup_cons, List.lookup_cons, ih, if_neg hx]
      · have hk : k = e.1 := le_antisymm (not_lt.mp h₂) (not_lt.mp h₁)
        rw [List.lookup_cons, List.lookup_cons, beq_false_of_ne hx,
          beq_false_of_ne (hk ▸ hx)]

@[simp] theorem find_assign (m : OrderedMap K V) (k x : K) (v : V) :
    (m.assign k v).find x = if x = k then some v else m.find x :=
  lookup_assignEntry k x v m.entries

theorem find_eq_some_iff {m : OrderedMap K V} {k : K} {v : V} :
    m.find k = some v ↔ (k, v) ∈ m.entries :=
  ⟨SortedMap.mem_of_lookup, SortedMap.lookup_of_mem (m.ascending.imp ne_of_lt)⟩

@[simp] theorem find_erase (m : OrderedMap K V) (k x : K) :
    (m.erase k).find x = if x = k then none else m.find x := by
  refine Option.ext fun v => ?_
  rw [find_eq_some_iff]
  change (x, v) ∈ m.entries.filter (fun e => e.1 ≠ k) ↔ _
  rw [List.mem_filter, decide_eq_true_iff, ← find_eq_some_iff]
  split_ifs with hx
  · exact iff_of_false (fun h => h.2 hx) fun h => (by cases h)
  · exact and_iff_left hx

theorem mem_assign_iff {m : OrderedMap K V} {k : K} {v : V} {e : K × V} :
    e ∈ (m.assign k v).entries ↔ e = (k, v) ∨ e.1 ≠ k ∧ e ∈ m.entries := by
  obtain ⟨x, w⟩ := e
  rw [← find_eq_some_iff, ← find_eq_some_iff, find_assign]
  by_cases hx : x = k
  · simp [hx, eq_comm]
  · simp [hx]

theorem find_emplace (m : OrderedMap K V) {k : K} (v : V) (h : m.find k = none) (x : K) :
    (m.emplace k v).find x = if x = k then some v else m.find x := by
  rw [emplace, h, Option.isSome_none, if_neg Bool.false_ne_true, find_assign]

theorem mem_keys_of_find {m : OrderedMap K V} {k : K} (h : m.find k ≠ none) :
    k ∈ m.entries.map Prod.fst := by
  obtain ⟨v, hv⟩ := Option.ne_none_iff_exists'.mp h
  obtain ⟨l₁, l₂, he, -⟩ := List.lookup_eq_some_iff.mp hv
  rw [he, List.map_append, List.map_cons]
  exact List.mem_append_right _ List.mem_cons_self

theorem length_le_size {m : OrderedMap K V} {keys : List K} (hn : keys.Nodup)
    (hk : ∀ k ∈ keys, m.find k ≠ none) : keys.length ≤ m.size := by
  have hsub : keys ⊆ m.entries.map Prod.fst := fun k h => mem_keys_of_find (hk k h)
  have hle : keys.length ≤ (m.entries.map Prod.fst).length := (hn.subperm hsub).length_le
  rwa [List.length_map] at hle

/-- A map is at least as large as any run of numbers among its keys. -/
theorem run_le_size {m : OrderedMap Nat V} {start k : Nat}
    (h : ∀ j, j < k → m.find (start + j) ≠ none) : k ≤ m.size := by
  have hle : (List.range' start k).length ≤ m.size := by
    refine length_le_size List.nodup_range' fun i hi => ?_
    obtain ⟨j, hj, rfl⟩ := List.mem_range'.mp hi
    rw [Nat.one_mul]
    exact h j hj
  rwa [List.length_range'] at hle

/-- Nothing is found in an empty map. -/
theorem find_of_front_none {m : OrderedMap K V} (h : m.front = none) (k : K) : m.find k = none := by
  unfold find
  rw [List.head?_eq_none_iff.mp h]
  rfl

section Front

variable {m : OrderedMap K V} {k : K} {v : V} (h : m.front = some (k, v))
include h

theorem entries_of_front : ∃ es, m.entries = (k, v) :: es := List.head?_eq_some_iff.mp h

theorem find_front : m.find k = some v := by
  obtain ⟨es, he⟩ := entries_of_front h
  rw [find, he, List.lookup_cons, beq_self_eq_true]

theorem front_le {x : K} (hx : m.find x ≠ none) : k ≤ x := by
  obtain ⟨es, he⟩ := entries_of_front h
  have hmem := mem_keys_of_find hx
  have hasc := m.ascending
  rw [he, List.map_cons] at hmem hasc
  rcases List.mem_cons.mp hmem with rfl | hmem
  · exact le_rfl
  · exact ((List.pairwise_cons.mp hasc).1 x hmem).le

theorem find_eraseFront (x : K) : m.eraseFront.find x = if x = k then none else m.find x := by
  obtain ⟨es, he⟩ := entries_of_front h
  have hasc := m.ascending
  rw [he, List.map_cons] at hasc
  change m.entries.tail.lookup x = if x = k then none else m.entries.lookup x
  rw [he, List.tail_cons, List.lookup_cons]
  by_cases hx : x = k
  · subst hx
    rw [if_pos rfl]
    by_contra hne
    obtain ⟨w, hw⟩ := Option.ne_none_iff_exists'.mp hne
    obtain ⟨l₁, l₂, hes, -⟩ := List.lookup_eq_some_iff.mp hw
    refine lt_irrefl x ((List.pairwise_cons.mp hasc).1 x ?_)
    rw [hes, List.map_append, List.map_cons]
    exact List.mem_append_right _ List.mem_cons_self
  · rw [if_neg hx, beq_false_of_ne hx]

theorem size_eraseFront : m.eraseFront.size + 1 = m.size := by
  obtain ⟨es, he⟩ := entries_of_front h
  change m.entries.tail.length + 1 = m.entries.length
  rw [he, List.tail_cons, List.length_cons]

end Front

/-! ### Two maps with the same entries -/

theorem lookup_of_lt {k : K} {es : List (K × V)} (h : ∀ x ∈ es.map Prod.fst, k < x) : es.lookup k = none := by
  rw [List.lookup_eq_none_iff]
  intro e he
  exact bne_iff_ne.mpr (h e.1 (List.mem_map_of_mem he)).ne

theorem entries_eq_of_lookup {es es' : List (K × V)} (ha : (es.map Prod.fst).Pairwise (· < ·))
    (ha' : (es'.map Prod.fst).Pairwise (· < ·)) (h : ∀ k, es.lookup k = es'.lookup k) : es = es' := by
  induction es generalizing es' with
  | nil =>
    cases es' with
    | nil => rfl
    | cons e es' =>
      have hk := h e.1
      rw [List.lookup_cons, beq_self_eq_true] at hk
      cases hk
  | cons e es ih =>
    cases es' with
    | nil =>
      have hk := h e.1
      rw [List.lookup_cons, beq_self_eq_true] at hk
      cases hk
    | cons e' es' =>
      rw [List.map_cons, List.pairwise_cons] at ha ha'
      obtain ⟨k, v⟩ := e
      obtain ⟨k', v'⟩ := e'
      rcases lt_trichotomy k k' with hlt | rfl | hgt
      · have hk := h k
        rw [List.lookup_cons, beq_self_eq_true, List.lookup_cons, beq_false_of_ne hlt.ne,
          lookup_of_lt fun x hx => hlt.trans (ha'.1 x hx)] at hk
        cases hk
      · have hk := h k
        rw [List.lookup_cons, beq_self_eq_true, List.lookup_cons, beq_self_eq_true] at hk
        rw [Option.some_inj.mp hk, ih ha.2 ha'.2]
        intro x
        by_cases hx : x = k
        · rw [hx, lookup_of_lt ha.1, lookup_of_lt ha'.1]
        · have hx' := h x
          rwa [List.lookup_cons, List.lookup_cons, beq_false_of_ne hx] at hx'
      · have hk := h k'
        rw [List.lookup_cons, List.lookup_cons, beq_self_eq_true, beq_false_of_ne hgt.ne,
          lookup_of_lt fun x hx => hgt.trans (ha.1 x hx)] at hk
        cases hk

theorem ext_find {m m' : OrderedMap K V} (h : ∀ k, m.find k = m'.find k) : m = m' := by
  obtain ⟨es, ha⟩ := m
  obtain ⟨es', ha'⟩ := m'
  obtain rfl : es = es' := entries_eq_of_lookup ha ha' h
  rfl

/-- A new entry that stands in front is gone when the front is erased. -/
theorem eraseFront_assign {m : OrderedMap K V} {k : K} {v : V} (h : m.find k = none)
    (hf : (m.assign k v).front = some (k, v)) : (m.assign k v).eraseFront = m := by
  refine ext_find fun x => ?_
  rw [find_eraseFront hf, find_assign]
  split_ifs with hx
  · rw [hx, h]
  · rfl

theorem front_assign {m : OrderedMap K V} {k k' : K} {v v' : V} (hf : m.front = some (k', v')) (h : k < k') :
    (m.assign k v).front = some (k, v) := by
  obtain ⟨es, he⟩ := entries_of_front hf
  change (assignEntry k v m.entries).head? = _
  rw [he, assignEntry, if_pos h, List.head?_cons]

end OrderedMap
end Vds
