import Vds.LogParser.FilterParser

/-! The table is a subset construction: its rows are the closed sets of positions that `generate_states`
comes to, and each is there once. -/

namespace Vds.LogParser

open FilterState

/-! ### The list of states -/

theorem sameItems_iff {items state : List FilterState} :
    sameItems items state = true ↔ ∀ p, p ∈ items ↔ p ∈ state := by
  unfold sameItems
  simp only [Bool.and_eq_true, List.all_eq_true, List.any_eq_true, decide_eq_true_eq, exists_eq_right]
  exact ⟨fun h p => ⟨h.1 p, h.2 p⟩, fun h => ⟨fun p => (h p).1, fun p => (h p).2⟩⟩

theorem accepts_of_sameItems {items state : List FilterState} (h : sameItems items state = true)
    {text : StdString} : Accepts items text ↔ Accepts state text := by
  have hmem := sameItems_iff.1 h
  constructor
  · rintro ⟨p, hp, hmatches⟩
    exact ⟨p, (hmem p).1 hp, hmatches⟩
  · rintro ⟨p, hp, hmatches⟩
    exact ⟨p, (hmem p).2 hp, hmatches⟩

/-- Either the state is in the list already or it comes to the end of it. -/
theorem addState_cases (state : List FilterState) (states : States) :
    (∃ (i : Nat) (items : List FilterState), states[i]? = some items ∧ sameItems items state = true ∧
      addState state states = (states, (i : Int))) ∨
    ((∀ items ∈ states, sameItems items state = false) ∧
      addState state states = (states ++ [state], (states.length : Int))) := by
  induction states with
  | nil => exact .inr ⟨fun _ h => (by cases h), rfl⟩
  | cons items states ih =>
    unfold addState
    split_ifs with h
    · exact .inl ⟨0, items, rfl, h, rfl⟩
    · rcases ih with ⟨i, p, hi, hp, heq⟩ | ⟨hne, heq⟩
      · refine .inl ⟨i + 1, p, hi, hp, ?_⟩
        rw [heq]
        rfl
      · refine .inr ⟨fun p hp => ?_, ?_⟩
        · rcases List.mem_cons.1 hp with rfl | hp
          · exact eq_false_of_ne_true h
          · exact hne p hp
        · rw [heq]
          rfl

/-- What holds of the list of states all along. -/
structure Numbered (filter : StdString) (states : States) : Prop where
  closed : ∀ items ∈ states, Closed items
  suffix : ∀ items ∈ states, ∀ p ∈ items, p <:+ filter
  distinct : states.Pairwise fun items state => sameItems items state = false

/-- No two states have the same positions, so there are no more of them than sets of positions. -/
theorem Numbered.length_le {filter : StdString} {states : States} (h : Numbered filter states) :
    states.length ≤ 2 ^ (filter.length + 1) := by
  have hnodup : (states.map List.toFinset).Nodup := by
    refine List.Pairwise.map _ (fun items state hne heq => ?_) h.distinct
    have hsame : sameItems items state = true := sameItems_iff.2 fun p => by
      rw [← List.mem_toFinset, heq, List.mem_toFinset]
    rw [hne] at hsame
    cases hsame
  have hsubset : (states.map List.toFinset).toFinset ⊆ filter.tails.toFinset.powerset := by
    intro set hset
    obtain ⟨items, hitems, rfl⟩ := List.mem_map.1 (List.mem_toFinset.1 hset)
    refine Finset.mem_powerset.2 fun p hp => ?_
    rw [List.mem_toFinset, List.mem_tails]
    exact h.suffix items hitems p (List.mem_toFinset.1 hp)
  have htails : filter.tails.toFinset.card ≤ filter.length + 1 := by
    rw [← List.length_tails filter]
    exact List.toFinset_card_le _
  calc states.length = (states.map List.toFinset).toFinset.card := by
        rw [List.toFinset_card_of_nodup hnodup, List.length_map]
    _ ≤ 2 ^ filter.tails.toFinset.card := by
        rw [← Finset.card_powerset]
        exact Finset.card_le_card hsubset
    _ ≤ 2 ^ (filter.length + 1) := Nat.pow_le_pow_right (by decide) htails

theorem Numbered.concat {filter : StdString} {states : States} {state : List FilterState}
    (h : Numbered filter states) (hclosed : Closed state) (hsuffix : ∀ p ∈ state, p <:+ filter)
    (hne : ∀ items ∈ states, sameItems items state = false) : Numbered filter (states ++ [state]) where
  closed items hitems := by
    rcases List.mem_append.1 hitems with hold | hnew
    · exact h.closed items hold
    · exact List.mem_singleton.1 hnew ▸ hclosed
  suffix items hitems := by
    rcases List.mem_append.1 hitems with hold | hnew
    · exact h.suffix items hold
    · exact List.mem_singleton.1 hnew ▸ hsuffix
  distinct := by
    refine List.pairwise_append.2 ⟨h.distinct, List.pairwise_singleton _ _, fun items hitems q hq => ?_⟩
    exact List.mem_singleton.1 hq ▸ hne items hitems

/-! ### A transition -/

/-- The value in a row for a character after which the positions are `state`. -/
inductive Leads (states : States) (state : List FilterState) : Int → Prop
  | invalid (h : state = []) : Leads states state invalidState
  | row (i : Nat) {items : List FilterState} (h₁ : state ≠ []) (h₂ : states[i]? = some items)
    (h₃ : sameItems items state = true) : Leads states state i

theorem getElem?_of_grown {states states' : States} {i : Nat} {items : List FilterState}
    (h : states <+: states') (hi : states[i]? = some items) : states'[i]? = some items := by
  obtain ⟨rest, rfl⟩ := h
  obtain ⟨hlt, -⟩ := List.getElem?_eq_some_iff.1 hi
  rwa [List.getElem?_append_left hlt]

theorem Leads.mono {states states' : States} {state : List FilterState} {value : Int}
    (h : Leads states state value) (hgrown : states <+: states') : Leads states' state value := by
  cases h with
  | invalid h => exact .invalid h
  | row i h₁ h₂ h₃ => exact .row i h₁ (getElem?_of_grown hgrown h₂) h₃

theorem Leads.ne_invalid {states : States} {state : List FilterState} {value : Int}
    (h : Leads states state value) (hne : state ≠ []) : value ≠ invalidState := by
  cases h with
  | invalid h => exact absurd h hne
  | row i => exact fun heq => absurd heq (by unfold invalidState; omega)

theorem nextState_spec {filter : StdString} {states : States} {items : List FilterState} (next : Nat)
    (h : Numbered filter states) (hsuffix : ∀ p ∈ items, p <:+ filter) :
    ∃ states' value, nextState items next invalidState states = (states', value) ∧ states <+: states' ∧
      Numbered filter states' ∧ Leads states' (nextItems items next) value := by
  unfold nextState
  split_ifs with hempty
  · exact ⟨states, invalidState, rfl, List.prefix_refl _, h, .invalid hempty⟩
  · rcases addState_cases (nextItems items next) states with ⟨i, p, hi, hp, heq⟩ | ⟨hne, heq⟩
    · exact ⟨states, i, heq, List.prefix_refl _, h, .row i hempty hi hp⟩
    · refine ⟨_, _, heq, List.prefix_append _ _,
        h.concat (closed_nextItems _ _) (suffix_of_mem_nextItems hsuffix) hne, ?_⟩
      exact .row states.length hempty List.getElem?_concat_length (sameItems_iff.2 fun _ => Iff.rfl)

/-! ### A row -/

/-- A row while the symbols are gone through: what is set in it is right. -/
def Partial (states : States) (items : List FilterState) (transactions : Transactions) : Prop :=
  ∀ ch ≠ 0, transactions ch = invalidState ∨ Leads states (nextItems items ch.toNat) (transactions ch)

/-- The row of a state. -/
def IsRow (states : States) (items : List FilterState) (transactions : Transactions) : Prop :=
  transactions 0 = (if canFinal items then finalState else invalidState) ∧
    ∀ ch ≠ 0, Leads states (nextItems items ch.toNat) (transactions ch)

theorem Partial.mono {states states' : States} {items : List FilterState} {transactions : Transactions}
    (h : Partial states items transactions) (hgrown : states <+: states') :
    Partial states' items transactions :=
  fun ch hch => (h ch hch).imp_right fun h => h.mono hgrown

theorem IsRow.mono {states states' : States} {items : List FilterState} {transactions : Transactions}
    (h : IsRow states items transactions) (hgrown : states <+: states') :
    IsRow states' items transactions :=
  ⟨h.1, fun ch hch => (h.2 ch hch).mono hgrown⟩

/-- A character that a position asks for leads somewhere. -/
theorem nextItems_ne_nil {items : List FilterState} {p : FilterState} {ch : UInt8} (hp : p ∈ items)
    (hch : ch ≠ 0) (h : nextChar p = ch.toNat) : nextItems items ch.toNat ≠ [] := by
  have hlt : ch.toNat < 256 := ch.toNat_lt
  have hpos : ch.toNat ≠ 0 := fun h => hch (UInt8.toNat_inj.1 h)
  intro hempty
  cases p with
  | nil => exact hpos h.symm
  | cons a filter =>
    obtain ⟨text, hmatches⟩ := exists_matches filter
    have hderived : Derived ch.toNat (a :: filter) text := by
      simp only [nextChar, anyChar, anyCharMultiple] at h
      simp only [Derived]
      split_ifs at h ⊢ with h₁ h₂
      · omega
      · omega
      · exact ⟨h.symm, hmatches⟩
    obtain ⟨q, hq, -⟩ := (accepts_nextItems (by unfold anyChar; omega)).2 ⟨_, hp, hderived⟩
    rw [hempty] at hq
    cases hq

theorem symbolLoop_spec {filter : StdString} {items : List FilterState} (hsuffix : ∀ p ∈ items, p <:+ filter)
    (symbols : List FilterState) (transactions : Transactions) (states : States)
    (hsymbols : ∀ p ∈ symbols, p ∈ items) (h : Numbered filter states)
    (hright : Partial states items transactions) :
    ∃ states' transactions', symbolLoop items symbols transactions states = (states', transactions') ∧
      states <+: states' ∧ Numbered filter states' ∧ Partial states' items transactions' ∧
      transactions' 0 = transactions 0 ∧
      (∀ ch, transactions ch ≠ invalidState → transactions' ch ≠ invalidState) ∧
      ∀ p ∈ symbols, ∀ ch ≠ 0, nextChar p = ch.toNat → transactions' ch ≠ invalidState := by
  induction symbols generalizing transactions states with
  | nil =>
    exact ⟨states, transactions, rfl, List.prefix_refl _, h, hright, rfl, fun _ h => h,
      fun _ hp => by cases hp⟩
  | cons p rest ih =>
    have hrest : ∀ q ∈ rest, q ∈ items := fun q hq => hsymbols q (List.mem_cons_of_mem p hq)
    unfold symbolLoop
    by_cases hreal : nextChar p = 0 ∨ 255 < nextChar p
    · rw [if_pos hreal]
      obtain ⟨states', transactions', heq, hgrown, h', hright', hzero, hkept, hdone⟩ :=
        ih transactions states hrest h hright
      refine ⟨states', transactions', heq, hgrown, h', hright', hzero, hkept, fun q hq ch hch hchar => ?_⟩
      rcases List.mem_cons.1 hq with rfl | hq
      · have hlt : ch.toNat < 256 := ch.toNat_lt
        have hpos : ch.toNat ≠ 0 := fun h => hch (UInt8.toNat_inj.1 h)
        omega
      · exact hdone q hq ch hch hchar
    · rw [if_neg hreal]
      have hnat : (UInt8.ofNat (nextChar p)).toNat = nextChar p := UInt8.toNat_ofNat_of_lt' (by
        change nextChar p < 256
        omega)
      generalize UInt8.ofNat (nextChar p) = symbol at hnat ⊢
      have hsymbol : symbol ≠ 0 := fun heq => hreal (.inl (by rw [← hnat, heq]; rfl))
      simp only
      by_cases hset : invalidState ≠ transactions symbol
      · rw [if_pos hset]
        obtain ⟨states', transactions', heq, hgrown, h', hright', hzero, hkept, hdone⟩ :=
          ih transactions states hrest h hright
        refine ⟨states', transactions', heq, hgrown, h', hright', hzero, hkept,
          fun q hq ch hch hchar => ?_⟩
        rcases List.mem_cons.1 hq with rfl | hq
        · obtain rfl : symbol = ch := UInt8.toNat_inj.1 (hnat.trans hchar)
          exact hkept symbol hset.symm
        · exact hdone q hq ch hch hchar
      · rw [if_neg hset, ← not_ne_iff.1 hset]
        obtain ⟨states₁, value, hnext, hgrown₁, h₁, hleads⟩ := nextState_spec (nextChar p) h hsuffix
        rw [hnext]
        have hne : value ≠ invalidState := by
          refine hleads.ne_invalid ?_
          rw [← hnat]
          exact nextItems_ne_nil (hsymbols p List.mem_cons_self) hsymbol hnat.symm
        have hright₁ : Partial states₁ items (Function.update transactions symbol value) := by
          intro ch hch
          by_cases heq : ch = symbol
          · subst heq
            rw [Function.update_self, hnat]
            exact .inr hleads
          · rw [Function.update_of_ne heq]
            exact hright.mono hgrown₁ ch hch
        obtain ⟨states', transactions', heq, hgrown, h', hright', hzero, hkept, hdone⟩ :=
          ih _ states₁ hrest h₁ hright₁
        refine ⟨states', transactions', heq, hgrown₁.trans hgrown, h', hright', ?_, fun ch hch => ?_,
          fun q hq ch hch hchar => ?_⟩
        · rw [hzero, Function.update_of_ne hsymbol.symm]
        · refine hkept ch ?_
          by_cases heq : ch = symbol
          · rwa [heq, Function.update_self]
          · rwa [Function.update_of_ne heq]
        · rcases List.mem_cons.1 hq with rfl | hq
          · obtain rfl : symbol = ch := UInt8.toNat_inj.1 (hnat.trans hchar)
            refine hkept symbol ?_
            rwa [Function.update_self]
          · exact hdone q hq ch hch hchar

theorem buildTransactions_spec {filter : StdString} {items : List FilterState} {states : States}
    (h : Numbered filter states) (hsuffix : ∀ p ∈ items, p <:+ filter) :
    ∃ states' transactions, buildTransactions items states = (states', transactions) ∧
      states <+: states' ∧ Numbered filter states' ∧ IsRow states' items transactions := by
  unfold buildTransactions
  simp only
  obtain ⟨states₁, symbols, hloop, hgrown₁, h₁, hright, hzero, -, hdone⟩ :=
    symbolLoop_spec hsuffix items
      (fun ch => if ch = 0 ∧ canFinal items = true then finalState else invalidState) states (fun _ hp => hp) h
      (fun ch hch => .inl (if_neg fun h => hch h.1))
  rw [hloop]
  obtain ⟨states₂, value, hnext, hgrown₂, h₂, hleads⟩ := nextState_spec anyChar h₁ hsuffix
  simp only [hnext]
  have hzero₂ : symbols 0 = if canFinal items = true then finalState else invalidState := by
    rw [hzero]
    simp only [true_and]
  -- what is still not set has no position that asks for it
  have hother (ch : UInt8) (hch : ch ≠ 0) (hunset : symbols ch = invalidState) :
      Leads states₂ (nextItems items ch.toNat) value := by
    rw [nextItems_eq_anyChar fun p hp hchar => hdone p hp ch hch hchar hunset]
    exact hleads
  have hset := hright.mono hgrown₂
  split_ifs with hdefault
  · refine ⟨states₂, _, rfl, hgrown₁.trans hgrown₂, h₂, ?_, fun ch hch => ?_⟩
    · exact (if_neg fun h => h.1 rfl).trans hzero₂
    · simp only
      by_cases hunset : invalidState = symbols ch
      · rw [if_pos ⟨hch, hunset⟩]
        exact hother ch hch hunset.symm
      · rw [if_neg fun h => hunset h.2]
        exact (hset ch hch).resolve_left fun h => hunset h.symm
  · refine ⟨states₂, symbols, rfl, hgrown₁.trans hgrown₂, h₂, hzero₂, fun ch hch => ?_⟩
    rcases hset ch hch with hunset | hleads
    · rw [hunset, not_ne_iff.1 hdefault]
      exact hother ch hch hunset
    · exact hleads

/-! ### The table -/

/-- The rows of the first states are there. -/
structure Filled (filter : StdString) (states : States) (table : List Transactions) : Prop where
  numbered : Numbered filter states
  rows : ∀ (i : Nat) (row : Transactions), table[i]? = some row → ∃ items, states[i]? = some items ∧ IsRow states items row
  length_le : table.length ≤ states.length

theorem Filled.concat {filter : StdString} {states states' : States} {table : List Transactions}
    {items : List FilterState} {transactions : Transactions} (h : Filled filter states table)
    (hitems : states[table.length]? = some items) (hgrown : states <+: states')
    (h' : Numbered filter states') (hrow : IsRow states' items transactions) :
    Filled filter states' (table ++ [transactions]) where
  numbered := h'
  rows i row hi := by
    by_cases hlast : i = table.length
    · subst hlast
      rw [List.getElem?_concat_length] at hi
      cases hi
      exact ⟨items, getElem?_of_grown hgrown hitems, hrow⟩
    · have hold : table[i]? = some row := by
        obtain ⟨hlt, -⟩ := List.getElem?_eq_some_iff.1 hi
        rw [List.length_append, List.length_singleton] at hlt
        rwa [List.getElem?_append_left (by omega)] at hi
      obtain ⟨p, hp, hrow⟩ := h.rows i row hold
      exact ⟨p, getElem?_of_grown hgrown hp, hrow.mono hgrown⟩
  length_le := by
    obtain ⟨hlt, -⟩ := List.getElem?_eq_some_iff.1 hitems
    have hle := hgrown.length_le
    rw [List.length_append, List.length_singleton]
    omega

theorem generateStates_spec {filter : StdString} (fuel : Nat) {states : States} {table : List Transactions}
    (h : Filled filter states table) (hfuel : 2 ^ (filter.length + 1) ≤ fuel + table.length) :
    ∃ states' table', generateStates fuel table.length states table = some table' ∧ states <+: states' ∧
      Filled filter states' table' ∧ table'.length = states'.length := by
  induction fuel generalizing states table with
  | zero =>
    have hle : states.length ≤ table.length := h.numbered.length_le.trans (by omega)
    exact ⟨states, table, if_pos hle, List.prefix_refl _, h, Nat.le_antisymm h.length_le hle⟩
  | succ fuel ih =>
    unfold generateStates
    cases hitems : states[table.length]? with
    | none =>
      have hle : states.length ≤ table.length := List.getElem?_eq_none_iff.1 hitems
      exact ⟨states, table, rfl, List.prefix_refl _, h, Nat.le_antisymm h.length_le hle⟩
    | some items =>
      obtain ⟨states₁, transactions, hbuild, hgrown₁, h₁, hrow⟩ :=
        buildTransactions_spec h.numbered (h.numbered.suffix items (List.mem_of_getElem? hitems))
      have hfilled : Filled filter states₁ (table ++ [transactions]) := h.concat hitems hgrown₁ h₁ hrow
      have hlength : (table ++ [transactions]).length = table.length + 1 := List.length_append
      obtain ⟨states', table', heq, hgrown, h', hlast⟩ := ih hfilled (by rw [hlength]; omega)
      refine ⟨states', table', ?_, hgrown₁.trans hgrown, h', hlast⟩
      rw [hlength] at heq
      simp only [hbuild]
      exact heq

theorem generateStates_mono {fuel fuel' index : Nat} {states : States} {table table' : List Transactions}
    (h : generateStates fuel index states table = some table') (hle : fuel ≤ fuel') :
    generateStates fuel' index states table = some table' := by
  induction fuel generalizing fuel' index states table with
  | zero =>
    unfold generateStates at h
    split_ifs at h with hend
    cases fuel' with
    | zero => rwa [generateStates, if_pos hend]
    | succ fuel' =>
      unfold generateStates
      rw [List.getElem?_eq_none_iff.2 hend]
      exact h
  | succ fuel ih =>
    obtain ⟨fuel', rfl⟩ : ∃ more, fuel' = more + 1 := ⟨fuel' - 1, by omega⟩
    unfold generateStates at h ⊢
    cases hitems : states[index]? with
    | none => rwa [hitems] at h
    | some items =>
      rw [hitems] at h
      exact ih h (by omega)

/-! ### The walk over a text -/

theorem matchLoop_spec {filter : StdString} {states : States} {table : List Transactions}
    (h : Filled filter states table) (hlength : table.length = states.length) (text : StdString)
    (hnoNul : 0 ∉ text) (i : Nat) (items : List FilterState) (hitems : states[i]? = some items) :
    ∃ matched, matchLoop table i text = some matched ∧ (matched = true ↔ Accepts items text) := by
  have hrow (i : Nat) (items : List FilterState) (hitems : states[i]? = some items) :
      ∃ row, IsRow states items row ∧ ∀ ch, statemachineNext table i ch = some (row ch) := by
    obtain ⟨hlt, -⟩ := List.getElem?_eq_some_iff.1 hitems
    have hi : table[i]? = some (table.get ⟨i, by omega⟩) := List.getElem?_eq_getElem _
    obtain ⟨p, hp, hrow⟩ := h.rows i _ hi
    rw [hitems] at hp
    cases hp
    refine ⟨_, hrow, fun ch => ?_⟩
    unfold statemachineNext
    rw [if_pos (Int.natCast_nonneg i), Int.toNat_natCast, hi]
    rfl
  induction text generalizing i items with
  | nil =>
    obtain ⟨row, ⟨hzero, -⟩, hnext⟩ := hrow i items hitems
    have hclosed := h.numbered.closed items (List.mem_of_getElem? hitems)
    unfold matchLoop
    rw [hnext, hzero, accepts_nil hclosed]
    cases canFinal items with
    | true => exact ⟨true, rfl, Iff.rfl⟩
    | false => exact ⟨false, rfl, Iff.rfl⟩
  | cons ch text ih =>
    obtain ⟨row, ⟨-, hleads⟩, hnext⟩ := hrow i items hitems
    have hch : ch ≠ 0 := fun heq => hnoNul (heq ▸ List.mem_cons_self)
    have hclosed := h.numbered.closed items (List.mem_of_getElem? hitems)
    unfold matchLoop
    rw [hnext, accepts_cons hclosed]
    have hvalue := hleads ch hch
    generalize row ch = value at hvalue
    cases hvalue with
    | invalid hempty =>
      refine ⟨false, rfl, fun h => (by cases h), fun haccepts => ?_⟩
      obtain ⟨p, hp, -⟩ := haccepts
      rw [hempty] at hp
      cases hp
    | row j hne hj hsame =>
      obtain ⟨matched, hloop, hmatched⟩ := ih (fun h => hnoNul (List.mem_cons_of_mem ch h)) j _ hj
      refine ⟨matched, ?_, hmatched.trans (accepts_of_sameItems hsame)⟩
      have hinvalid : (j : Int) ≠ invalidState := by unfold invalidState; omega
      have hfinal : (j : Int) ≠ finalState := by unfold finalState; omega
      change (if (j : Int) = invalidState then some false else
        if (j : Int) = finalState then some false else matchLoop table j text) = some matched
      rw [if_neg hinvalid, if_neg hfinal]
      exact hloop

/-! ### The first state -/

theorem initStates_spec (filter : CString) : ∃ items, initStates filter = [items] ∧
    Numbered filter.chars [items] ∧ ∀ text, Accepts items text ↔ Matches filter.chars text := by
  have hempty (text : StdString) : ¬ Accepts [] text := by
    rintro ⟨p, hp, -⟩
    cases hp
  refine ⟨ParserStateBuilder.addState [] filter.chars, rfl, ⟨?_, ?_, List.pairwise_singleton _ _⟩,
    fun text => ?_⟩
  · intro items hitems
    rw [List.mem_singleton.1 hitems]
    exact closed_addState (fun _ h => by cases h) _
  · intro items hitems p hp
    obtain ⟨-, hsuffix, -⟩ := trimLeft_spec filter.chars
    rw [List.mem_singleton.1 hitems] at hp
    rcases mem_addState.1 hp with hold | rfl | heq
    · cases hold
    · exact hsuffix
    · exact (List.suffix_cons _ _).trans (heq ▸ hsuffix)
  · rw [accepts_addState]
    exact ⟨fun h => h.resolve_left (hempty text), .inr⟩

end Vds.LogParser
