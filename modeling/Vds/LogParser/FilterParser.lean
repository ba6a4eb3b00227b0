import Vds.Kernel.Core

/-! `filter_parser` and `filter_statemachine` of the log parser: a filter with `*` and `?` becomes a table
whose rows are the sets of positions in the filter that a text can have come to. Memory is enough: no
allocation fails. -/

namespace Vds.LogParser

/-- The characters in front of the terminator. -/
structure CString where
  chars : StdString
  noNul : 0 ∉ chars

/-- `'*'` -/
def asterisk : UInt8 := 0x2A

/-- `'?'` -/
def question : UInt8 := 0x3F

/-- A pointer into the filter, as what it has in front of it: two pointers into one filter are equal if
these are. -/
abbrev FilterState := StdString

namespace FilterState

/-- `ANY_CHAR` -/
def anyChar : Nat := 256

/-- `ANY_CHAR_MULTIPLE` -/
def anyCharMultiple : Nat := 257

def nextChar : FilterState → Nat
  | [] => 0
  | ch :: _ =>
    if ch = asterisk then anyCharMultiple else if ch = question then anyChar else ch.toNat

end FilterState

open FilterState

/-! ### Sets of positions -/

namespace ParserStateBuilder

/-- `trim_left` -/
def trimLeft : FilterState → FilterState
  | a :: b :: filter => if a = asterisk ∧ b = asterisk then trimLeft (b :: filter) else a :: b :: filter
  | filter => filter

def add (items : List FilterState) (filterState : FilterState) : List FilterState :=
  if filterState ∈ items then items else items ++ [filterState]

/-- `add_state` of the builder. -/
def addState (items : List FilterState) (filterState : FilterState) : List FilterState :=
  match trimLeft filterState with
  | [] => add items []
  | ch :: filter =>
    if ch = asterisk then add (add items (ch :: filter)) filter else add items (ch :: filter)

/-- `apply_char`; no caller has the terminator for `next_char`. -/
def applyChar (next : Nat) (items : List FilterState) : FilterState → List FilterState
  | [] => items
  | ch :: filter =>
    if nextChar (ch :: filter) = anyChar then addState items filter
    else if nextChar (ch :: filter) = anyCharMultiple then
      addState (addState items (ch :: filter)) filter
    else if next = nextChar (ch :: filter) then addState items filter
    else items

end ParserStateBuilder

open ParserStateBuilder

/-- The list of `parser_state_t`, each with its items. -/
abbrev States := List (List FilterState)

/-- `operator ==` of `parser_state_t`. -/
def sameItems (items state : List FilterState) : Bool :=
  items.all (fun p => state.any fun q => q = p) && state.all fun p => items.any fun q => q = p

/-- `add_state` of `filter_parser`: the number of the state in the list. -/
def addState (state : List FilterState) : States → States × Int
  | [] => ([state], 0)
  | p :: states =>
    if sameItems p state then (p :: states, 0)
    else
      let (states, result) := addState state states
      (p :: states, result + 1)

/-! ### The table -/

/-- `transactions_t` -/
abbrev Transactions := UInt8 → Int

def startState : Int := 0

def invalidState : Int := -1

def finalState : Int := -2

/-- The positions after a character. -/
def nextItems (items : List FilterState) (next : Nat) : List FilterState :=
  items.foldl (applyChar next) []

def nextState (items : List FilterState) (next : Nat) (newState : Int) (states : States) :
    States × Int :=
  if nextItems items next = [] then (states, newState) else addState (nextItems items next) states

def canFinal (items : List FilterState) : Bool := items.any fun p => p = []

/-- The loop of `build_transactions` over the symbols in the filter. -/
def symbolLoop (items : List FilterState) :
    List FilterState → Transactions → States → States × Transactions
  | [], transactions, states => (states, transactions)
  | p :: rest, transactions, states =>
    if nextChar p = 0 ∨ 255 < nextChar p then symbolLoop items rest transactions states
    else
      let ch := UInt8.ofNat (nextChar p)
      if invalidState ≠ transactions ch then symbolLoop items rest transactions states
      else
        let (states, newState) := nextState items (nextChar p) (transactions ch) states
        symbolLoop items rest (Function.update transactions ch newState) states

def buildTransactions (items : List FilterState) (states : States) : States × Transactions :=
  let cleared : Transactions := fun ch => if ch = 0 ∧ canFinal items then finalState else invalidState
  let (states, transactions) := symbolLoop items items cleared states
  let (states, defaultState) := nextState items anyChar invalidState states
  if invalidState ≠ defaultState then
    (states, fun ch => if ch ≠ 0 ∧ invalidState = transactions ch then defaultState else transactions ch)
  else (states, transactions)

/-- `generate_states` from the state `index` on; `table` has the rows of the states before it. The list
grows while the loop goes through it. -/
def generateStates : Nat → Nat → States → List Transactions → Option (List Transactions)
  | 0, index, states, table => if states.length ≤ index then some table else none
  | fuel + 1, index, states, table =>
    match states[index]? with
    | none => some table
    | some items =>
      let (states, transactions) := buildTransactions items states
      generateStates fuel (index + 1) states (table ++ [transactions])

def initStates (filter : CString) : States :=
  (addState (ParserStateBuilder.addState [] filter.chars) []).1

/-- `parse_filter`, with the table that it packs. -/
def parseFilter (fuel : Nat) (filter : CString) : Option (List Transactions) :=
  generateStates fuel 0 (initStates filter) []

/-- `filter_statemachine::next_state`: without a result where there is no such row. -/
def statemachineNext (table : List Transactions) (state : Int) (ch : UInt8) : Option Int :=
  if 0 ≤ state then table[state.toNat]?.map (· ch) else none

/-- The loop of `is_match`; it has no result where it would read past the terminator. -/
def matchLoop (table : List Transactions) : Int → StdString → Option Bool
  | state, [] => do
    let state ← statemachineNext table state 0
    if state = invalidState then some false
    else if state = finalState then some true
    else none
  | state, ch :: data => do
    let state ← statemachineNext table state ch
    if state = invalidState then some false
    else if state = finalState then some false
    else matchLoop table state data

def isMatch (table : List Transactions) (data : CString) : Option Bool :=
  matchLoop table startState data.chars

/-! ### What a filter means -/

/-- `*` stands for any characters, `?` for one, and every other character for itself. -/
inductive Matches : StdString → StdString → Prop
  | nil : Matches [] []
  | asterisk {filter text} (skipped : StdString) (h : Matches filter text) :
    Matches (asterisk :: filter) (skipped ++ text)
  | question {filter text} (ch : UInt8) (h : Matches filter text) :
    Matches (question :: filter) (ch :: text)
  | char {filter text ch} (h₁ : ch ≠ LogParser.asterisk) (h₂ : ch ≠ LogParser.question)
    (h : Matches filter text) : Matches (ch :: filter) (ch :: text)

/-- One of the positions goes on with the text. -/
def Accepts (items : List FilterState) (text : StdString) : Prop := ∃ filter ∈ items, Matches filter text

/-! ### The meaning of one position -/

theorem matches_asterisk {filter text : StdString} : Matches (asterisk :: filter) text ↔
    Matches filter text ∨ ∃ ch rest, text = ch :: rest ∧ Matches (asterisk :: filter) rest := by
  constructor
  · intro h
    cases h with
    | asterisk skipped h =>
      cases skipped with
      | nil => exact .inl h
      | cons ch skipped => exact .inr ⟨ch, _, rfl, .asterisk skipped h⟩
    | char h₁ => exact absurd rfl h₁
  · rintro (h | ⟨ch, rest, rfl, h⟩)
    · exact .asterisk [] h
    · cases h with
      | asterisk skipped h => exact .asterisk (ch :: skipped) h
      | char h₁ => exact absurd rfl h₁

theorem matches_question {filter text : StdString} : Matches (question :: filter) text ↔
    ∃ ch rest, text = ch :: rest ∧ Matches filter rest := by
  constructor
  · intro h
    cases h with
    | question ch h => exact ⟨ch, _, rfl, h⟩
    | char _ h₂ => exact absurd rfl h₂
  · rintro ⟨ch, rest, rfl, h⟩
    exact .question ch h

theorem matches_char {ch : UInt8} {filter text : StdString} (h₁ : ch ≠ asterisk) (h₂ : ch ≠ question) :
    Matches (ch :: filter) text ↔ ∃ rest, text = ch :: rest ∧ Matches filter rest := by
  constructor
  · intro h
    cases h with
    | asterisk skipped h => exact absurd rfl h₁
    | question ch h => exact absurd rfl h₂
    | char _ _ h => exact ⟨_, rfl, h⟩
  · rintro ⟨rest, rfl, h⟩
    exact .char h₁ h₂ h

theorem matches_nil {text : StdString} : Matches [] text ↔ text = [] := by
  constructor
  · intro h
    cases h
    rfl
  · rintro rfl
    exact .nil

theorem matches_asterisk_twice {filter text : StdString} :
    Matches (asterisk :: asterisk :: filter) text ↔ Matches (asterisk :: filter) text := by
  constructor
  · intro h
    induction text with
    | nil =>
      rcases matches_asterisk.1 h with h | ⟨ch, rest, heq, -⟩
      · exact h
      · cases heq
    | cons ch text ih =>
      rcases matches_asterisk.1 h with h | ⟨ch', rest, heq, h⟩
      · exact h
      · cases heq
        exact matches_asterisk.2 (.inr ⟨ch, text, rfl, ih h⟩)
  · exact fun h => matches_asterisk.2 (.inl h)

/-- The text can be read on after a character: what `apply_char` adds for a position. -/
def Derived (next : Nat) : FilterState → StdString → Prop
  | [], _ => False
  | ch :: filter, text =>
    if ch = asterisk then Matches (ch :: filter) text ∨ Matches filter text
    else if ch = question then Matches filter text
    else next = ch.toNat ∧ Matches filter text

/-! ### Closed sets -/

/-- A position in front of `*` comes with the one behind it, which is not in front of another `*`. -/
def Closed (items : List FilterState) : Prop :=
  ∀ filter, asterisk :: filter ∈ items → filter ∈ items ∧ filter.head? ≠ some asterisk

theorem mem_add {items : List FilterState} {p q : FilterState} : q ∈ add items p ↔ q ∈ items ∨ q = p := by
  unfold add
  split_ifs with h
  · exact ⟨.inl, fun hq => hq.elim id fun heq => heq ▸ h⟩
  · rw [List.mem_append, List.mem_singleton]

theorem trimLeft_spec (filter : FilterState) : (∀ text, Matches (trimLeft filter) text ↔ Matches filter text) ∧
    trimLeft filter <:+ filter ∧ ∀ rest, trimLeft filter = asterisk :: rest → rest.head? ≠ some asterisk := by
  induction filter using trimLeft.induct with
  | case1 a b filter h ih =>
    obtain ⟨hmatches, hsuffix, hhead⟩ := ih
    obtain ⟨rfl, rfl⟩ := h
    have htrim : trimLeft (asterisk :: asterisk :: filter) = trimLeft (asterisk :: filter) :=
      if_pos ⟨rfl, rfl⟩
    rw [htrim]
    exact ⟨fun text => (hmatches text).trans matches_asterisk_twice.symm,
      hsuffix.trans (List.suffix_cons _ _), hhead⟩
  | case2 a b filter h =>
    have htrim : trimLeft (a :: b :: filter) = a :: b :: filter := if_neg h
    rw [htrim]
    refine ⟨fun _ => Iff.rfl, List.suffix_refl _, fun rest heq hhead => h ?_⟩
    obtain ⟨ha, hrest⟩ := List.cons.inj heq
    rw [← hrest] at hhead
    exact ⟨ha, Option.some.inj hhead⟩
  | case3 filter h =>
    have htrim : trimLeft filter = filter := by
      obtain _ | ⟨a, _ | ⟨b, rest⟩⟩ := filter
      · rfl
      · rfl
      · exact absurd rfl (h a b rest)
    rw [htrim]
    refine ⟨fun _ => Iff.rfl, List.suffix_refl _, fun rest heq hhead => ?_⟩
    obtain _ | ⟨b, rest⟩ := rest
    · cases hhead
    · exact h asterisk b rest heq

theorem mem_addState {items : List FilterState} {p q : FilterState} :
    q ∈ ParserStateBuilder.addState items p ↔
      q ∈ items ∨ q = trimLeft p ∨ trimLeft p = asterisk :: q := by
  unfold ParserStateBuilder.addState
  cases htrim : trimLeft p with
  | nil =>
    rw [mem_add]
    exact or_congr_right ⟨.inl, fun h => h.elim id fun h => by cases h⟩
  | cons ch filter =>
    simp only
    split_ifs with hch
    · rw [mem_add, mem_add, or_assoc, hch]
      refine or_congr_right (or_congr_right ⟨fun h => by rw [h], fun h => ?_⟩)
      exact (List.cons.inj h).2.symm
    · rw [mem_add]
      refine or_congr_right ⟨.inl, fun h => h.elim id fun h => ?_⟩
      exact absurd (List.cons.inj h).1 hch

theorem closed_addState {items : List FilterState} (h : Closed items) (p : FilterState) :
    Closed (ParserStateBuilder.addState items p) := by
  obtain ⟨-, -, hhead⟩ := trimLeft_spec p
  intro filter hmem
  rcases mem_addState.1 hmem with hold | htrim | htrim
  · obtain ⟨hin, hne⟩ := h filter hold
    exact ⟨mem_addState.2 (.inl hin), hne⟩
  · exact ⟨mem_addState.2 (.inr (.inr htrim.symm)), hhead filter htrim.symm⟩
  · exact absurd rfl (hhead _ htrim)

theorem accepts_addState {items : List FilterState} {p : FilterState} {text : StdString} :
    Accepts (ParserStateBuilder.addState items p) text ↔ Accepts items text ∨ Matches p text := by
  obtain ⟨hmatches, -, -⟩ := trimLeft_spec p
  constructor
  · rintro ⟨filter, hmem, h⟩
    rcases mem_addState.1 hmem with hold | rfl | htrim
    · exact .inl ⟨filter, hold, h⟩
    · exact .inr ((hmatches text).1 h)
    · right
      rw [← hmatches, htrim]
      exact matches_asterisk.2 (.inl h)
  · rintro (⟨filter, hmem, h⟩ | h)
    · exact ⟨filter, mem_addState.2 (.inl hmem), h⟩
    · exact ⟨trimLeft p, mem_addState.2 (.inr (.inl rfl)), (hmatches text).2 h⟩

/-! ### One character -/

theorem exists_matches (filter : StdString) : ∃ text, Matches filter text := by
  induction filter with
  | nil => exact ⟨[], .nil⟩
  | cons ch filter ih =>
    obtain ⟨text, h⟩ := ih
    by_cases h₁ : ch = asterisk
    · exact ⟨text, h₁ ▸ .asterisk [] h⟩
    · by_cases h₂ : ch = question
      · exact ⟨0 :: text, h₂ ▸ .question 0 h⟩
      · exact ⟨ch :: text, .char h₁ h₂ h⟩

theorem nextChar_cons {ch : UInt8} {filter : StdString} (h₁ : ch ≠ asterisk) (h₂ : ch ≠ question) :
    nextChar (ch :: filter) = ch.toNat :=
  (if_neg h₁).trans (if_neg h₂)

/-- All that `apply_char` does is to add positions further on. -/
theorem applyChar_induct {motive : List FilterState → Prop} {next : Nat} {items : List FilterState}
    {p : FilterState} (h : motive items)
    (hadd : ∀ items q, q <:+ p → motive items → motive (ParserStateBuilder.addState items q)) :
    motive (applyChar next items p) := by
  unfold applyChar
  split
  · exact h
  · split_ifs
    · exact hadd _ _ (List.suffix_cons _ _) h
    · exact hadd _ _ (List.suffix_cons _ _) (hadd _ _ (List.suffix_refl _) h)
    · exact hadd _ _ (List.suffix_cons _ _) h
    · exact h

theorem accepts_applyChar {next : Nat} {items : List FilterState} {p : FilterState} {text : StdString}
    (hnext : next ≤ anyChar) :
    Accepts (applyChar next items p) text ↔ Accepts items text ∨ Derived next p text := by
  cases p with
  | nil => exact ⟨.inl, fun h => h.elim id False.elim⟩
  | cons ch filter =>
    simp only [applyChar, Derived]
    by_cases h₁ : ch = asterisk
    · have hchar : nextChar (ch :: filter) = anyCharMultiple := if_pos h₁
      rw [if_neg (by rw [hchar]; decide), if_pos hchar, if_pos h₁, accepts_addState, accepts_addState,
        or_assoc]
    · by_cases h₂ : ch = question
      · have hchar : nextChar (ch :: filter) = anyChar := (if_neg h₁).trans (if_pos h₂)
        rw [if_pos hchar, if_neg h₁, if_pos h₂, accepts_addState]
      · have hlt : ch.toNat < 256 := ch.toNat_lt
        have hany : ch.toNat ≠ anyChar := by unfold anyChar; omega
        have hmultiple : ch.toNat ≠ anyCharMultiple := by unfold anyCharMultiple; omega
        rw [nextChar_cons h₁ h₂, if_neg hany, if_neg hmultiple, if_neg h₁, if_neg h₂]
        split_ifs with heq
        · rw [accepts_addState]
          exact or_congr_right ⟨fun h => ⟨heq, h⟩, And.right⟩
        · exact ⟨.inl, fun h => h.elim id fun h => absurd h.1 heq⟩

theorem nextItems_induct {motive : List FilterState → Prop} {next : Nat} {items : List FilterState}
    (h : motive [])
    (hadd : ∀ p ∈ items, ∀ state q, q <:+ p → motive state → motive (ParserStateBuilder.addState state q)) :
    motive (nextItems items next) := by
  unfold nextItems
  generalize ([] : List FilterState) = state at h
  induction items generalizing state with
  | nil => exact h
  | cons p items ih =>
    exact ih (fun q hq => hadd q (List.mem_cons_of_mem p hq)) _
      (applyChar_induct h (hadd p List.mem_cons_self))

theorem closed_nextItems (items : List FilterState) (next : Nat) : Closed (nextItems items next) :=
  nextItems_induct (motive := Closed) (fun _ h => by cases h) fun _ _ _ q _ h => closed_addState h q

theorem suffix_of_mem_nextItems {items : List FilterState} {next : Nat} {filter : StdString}
    (h : ∀ p ∈ items, p <:+ filter) : ∀ q ∈ nextItems items next, q <:+ filter := by
  refine nextItems_induct (motive := fun state => ∀ q ∈ state, q <:+ filter) (fun _ h => by cases h)
    fun p hp state q hq hstate r hr => ?_
  obtain ⟨-, htrim, -⟩ := trimLeft_spec q
  have hfilter : q <:+ filter := hq.trans (h p hp)
  rcases mem_addState.1 hr with hold | rfl | heq
  · exact hstate r hold
  · exact htrim.trans hfilter
  · exact (List.suffix_cons _ _).trans (heq ▸ htrim.trans hfilter)

theorem accepts_nextItems {items : List FilterState} {next : Nat} {text : StdString} (hnext : next ≤ anyChar) :
    Accepts (nextItems items next) text ↔ ∃ p ∈ items, Derived next p text := by
  have hfold (state : List FilterState) : Accepts (items.foldl (applyChar next) state) text ↔
      Accepts state text ∨ ∃ p ∈ items, Derived next p text := by
    induction items generalizing state with
    | nil => exact ⟨.inl, fun h => h.elim id fun h => by obtain ⟨p, hp, -⟩ := h; cases hp⟩
    | cons p items ih =>
      rw [List.foldl_cons, ih, accepts_applyChar hnext, or_assoc]
      refine or_congr_right ?_
      simp only [List.mem_cons, exists_eq_or_imp]
  refine (hfold []).trans ⟨fun h => h.elim (fun h => ?_) id, .inr⟩
  obtain ⟨p, hp, -⟩ := h
  cases hp

/-- A character that no position asks for goes where `ANY_CHAR` goes. -/
theorem nextItems_eq_anyChar {items : List FilterState} {next : Nat} (h : ∀ p ∈ items, nextChar p ≠ next) :
    nextItems items next = nextItems items anyChar := by
  unfold nextItems
  refine List.foldl_ext _ _ _ fun state p hp => ?_
  cases p with
  | nil => rfl
  | cons ch filter =>
    simp only [applyChar]
    split_ifs with h₁ h₂ h₃ h₄ h₅
    · rfl
    · rfl
    · exact absurd h₃.symm (h _ hp)
    · exact absurd h₃.symm (h _ hp)
    · exact absurd h₅.symm h₁
    · rfl

theorem matches_of_derived {ch : UInt8} {p : FilterState} {text : StdString} (h : Derived ch.toNat p text) :
    Matches p (ch :: text) := by
  cases p with
  | nil => exact h.elim
  | cons a filter =>
    simp only [Derived] at h
    split_ifs at h with h₁ h₂
    · subst h₁
      rcases h with h | h
      · exact matches_asterisk.2 (.inr ⟨ch, text, rfl, h⟩)
      · exact .asterisk [ch] h
    · subst h₂
      exact .question ch h
    · obtain ⟨heq, h⟩ := h
      obtain rfl := UInt8.toNat_inj.1 heq
      exact .char h₁ h₂ h

theorem derived_of_matches {ch : UInt8} {p : FilterState} {text : StdString} (hhead : p.head? ≠ some asterisk)
    (h : Matches p (ch :: text)) : Derived ch.toNat p text := by
  cases p with
  | nil => cases matches_nil.1 h
  | cons a filter =>
    have h₁ : a ≠ asterisk := fun heq => hhead (by rw [heq]; rfl)
    simp only [Derived]
    rw [if_neg h₁]
    by_cases h₂ : a = question
    · subst h₂
      rw [if_pos rfl]
      obtain ⟨b, rest, heq, h⟩ := matches_question.1 h
      cases heq
      exact h
    · rw [if_neg h₂]
      obtain ⟨rest, heq, h⟩ := (matches_char h₁ h₂).1 h
      cases heq
      exact ⟨rfl, h⟩

/-- A position that nothing is left of the text for. -/
theorem eq_nil_of_matches {p : FilterState} (hhead : p.head? ≠ some asterisk) (h : Matches p []) : p = [] := by
  cases p with
  | nil => rfl
  | cons a filter =>
    have h₁ : a ≠ asterisk := fun heq => hhead (by rw [heq]; rfl)
    by_cases h₂ : a = question
    · subst h₂
      obtain ⟨b, rest, heq, -⟩ := matches_question.1 h
      cases heq
    · obtain ⟨rest, heq, -⟩ := (matches_char h₁ h₂).1 h
      cases heq

/-- `apply_char` over all positions takes the character off the text. -/
theorem accepts_cons {items : List FilterState} (hclosed : Closed items) {ch : UInt8} {text : StdString} :
    Accepts items (ch :: text) ↔ Accepts (nextItems items ch.toNat) text := by
  have hlt : ch.toNat < 256 := ch.toNat_lt
  rw [accepts_nextItems (by unfold anyChar; omega)]
  constructor
  · rintro ⟨p, hp, h⟩
    by_cases hhead : p.head? = some asterisk
    · obtain ⟨filter, rfl⟩ := List.head?_eq_some_iff.1 hhead
      obtain ⟨hin, hne⟩ := hclosed filter hp
      rcases matches_asterisk.1 h with h | ⟨ch', rest, heq, h⟩
      · exact ⟨filter, hin, derived_of_matches hne h⟩
      · cases heq
        exact ⟨asterisk :: filter, hp, .inl h⟩
    · exact ⟨p, hp, derived_of_matches hhead h⟩
  · rintro ⟨p, hp, h⟩
    exact ⟨p, hp, matches_of_derived h⟩

theorem accepts_nil {items : List FilterState} (hclosed : Closed items) :
    Accepts items [] ↔ canFinal items = true := by
  have hfinal : canFinal items = true ↔ [] ∈ items := by
    unfold canFinal
    rw [List.any_eq_true]
    constructor
    · rintro ⟨p, hp, h⟩
      rwa [← of_decide_eq_true h]
    · exact fun h => ⟨[], h, rfl⟩
  rw [hfinal]
  constructor
  · rintro ⟨p, hp, h⟩
    by_cases hhead : p.head? = some asterisk
    · obtain ⟨filter, rfl⟩ := List.head?_eq_some_iff.1 hhead
      obtain ⟨hin, hne⟩ := hclosed filter hp
      rcases matches_asterisk.1 h with h | ⟨ch, rest, heq, -⟩
      · exact eq_nil_of_matches hne h ▸ hin
      · cases heq
    · exact eq_nil_of_matches hhead h ▸ hp
  · exact fun h => ⟨[], h, .nil⟩

example : ((parseFilter 8 ⟨[0x2A, 0x61, 0x3F], by decide⟩).bind fun table =>
    isMatch table ⟨[0x61, 0x61, 0x62], by decide⟩) = some true := by decide

end Vds.LogParser
