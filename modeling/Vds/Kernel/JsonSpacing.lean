import Vds.Kernel.Json
import Vds.Library.Fallible

/-! White space between the tokens of a JSON text, and what it does to `json_parser`. -/

namespace Vds

open Library.Fallible

namespace JsonParser

/-! ### Positions decide nothing but the texts of errors -/

def placed (p : JsonParser) (line column : Int) : JsonParser :=
  { p with line := line, column := column }

section Placed

variable {p q : JsonParser} {line column : Int}

@[simp] theorem placed_state : (p.placed line column).state = p.state := rfl

@[simp] theorem placed_savedStates : (p.placed line column).savedStates = p.savedStates := rfl

@[simp] theorem placed_nodes : (p.placed line column).nodes = p.nodes := rfl

@[simp] theorem placed_buffer : (p.placed line column).buffer = p.buffer := rfl

@[simp] theorem placed_numBuffer : (p.placed line column).numBuffer = p.numBuffer := rfl

theorem placed_placed (line' column' : Int) :
    (p.placed line column).placed line' column' = p.placed line' column' := rfl

theorem popState_placed (h : p.popState = .ok q) :
    (p.placed line column).popState = .ok (q.placed line column) := by
  rw [popState] at h ⊢
  rw [placed_savedStates]
  cases hsaved : p.savedStates with
  | nil =>
    rw [hsaved] at h
    cases h
  | cons state states =>
    rw [hsaved] at h
    cases h
    rfl

theorem startContainer_placed {node : Node} {state : State}
    (h : p.startContainer node state = .ok q) :
    (p.placed line column).startContainer node state = .ok (q.placed line column) := by
  rw [startContainer] at h ⊢
  rw [placed_state]
  cases hstate : p.state with
  | objectPropertyValue =>
    rw [hstate] at h
    cases h
    rfl
  | bof =>
    rw [hstate] at h
    cases h
    rfl
  | array =>
    rw [hstate] at h
    cases h
    rfl
  | _ =>
    rw [hstate] at h
    cases h

theorem finalContainer_placed (h : p.finalContainer = .ok q) :
    (p.placed line column).finalContainer = .ok (q.placed line column) := by
  rw [finalContainer, bind_eq_ok] at h ⊢
  obtain ⟨r, hpop, h⟩ := h
  refine ⟨_, popState_placed hpop, ?_⟩
  rw [placed_state, placed_nodes]
  cases hnodes : r.nodes with
  | nil =>
    rw [hnodes] at h
    cases h
  | cons node nodes =>
    rw [hnodes] at h
    dsimp only at h ⊢
    by_cases hbof : r.state = .bof
    · rw [if_pos hbof] at h ⊢
      cases h
      rfl
    · rw [if_neg hbof, bind_eq_ok] at h ⊢
      obtain ⟨attached, hattach, h⟩ := h
      cases h
      exact ⟨attached, hattach, rfl⟩

theorem finalPrimitive_placed {type : PrimitiveType} (h : p.finalPrimitive type = .ok q) :
    (p.placed line column).finalPrimitive type = .ok (q.placed line column) := by
  rw [finalPrimitive, bind_eq_ok] at h ⊢
  obtain ⟨attached, hattach, h⟩ := h
  cases h
  exact ⟨attached, hattach, rfl⟩

theorem not_fail {message : String} {symbol : Option UInt8} : p.fail message symbol ≠ .ok q :=
  fun h => (by cases h)

theorem skipSpace_ok {symbol : UInt8} (h : p.skipSpace symbol = .ok q) :
    isSpace symbol = true ∧ q = p := by
  rw [skipSpace] at h
  split at h
  · cases h
    exact ⟨‹_›, rfl⟩
  · exact absurd h not_fail

theorem skipSpace_of {symbol : UInt8} (h : isSpace symbol = true) : p.skipSpace symbol = .ok p :=
  if_pos h

theorem skipSpace_placed {symbol : UInt8} (h : p.skipSpace symbol = .ok q) :
    (p.placed line column).skipSpace symbol = .ok (q.placed line column) := by
  obtain ⟨hspace, rfl⟩ := skipSpace_ok h
  exact skipSpace_of hspace

theorem afterSlesh_placed (h : p.afterSlesh = .ok q) :
    (p.placed line column).afterSlesh = .ok (q.placed line column) := by
  rw [afterSlesh] at h ⊢
  change (if p.options.enableInlineComments then _ else _) = _
  split at h
  · rw [if_pos ‹_›]
    cases h
    rfl
  · exact absurd h not_fail

/-- A branch that both parsers take. -/
theorem ite_placed {c : Prop} [Decidable c] {x y x' y' : Result}
    (h : (if c then x else y) = .ok q) (hx : x = .ok q → x' = .ok (q.placed line column))
    (hy : y = .ok q → y' = .ok (q.placed line column)) :
    (if c then x' else y') = .ok (q.placed line column) := by
  by_cases hc : c
  · rw [if_pos hc] at h ⊢
    exact hx h
  · rw [if_neg hc] at h ⊢
    exact hy h

theorem bofSymbol_placed {symbol : UInt8} (h : p.bofSymbol symbol = .ok q) :
    (p.placed line column).bofSymbol symbol = .ok (q.placed line column) := by
  refine ite_placed h afterSlesh_placed fun h => ?_
  refine ite_placed h startContainer_placed fun h => ?_
  exact ite_placed h startContainer_placed skipSpace_placed

theorem ok_placed {r : JsonParser} (h : (.ok r : Result) = .ok q) :
    (.ok (r.placed line column) : Result) = .ok (q.placed line column) := by
  cases h
  rfl

theorem arraySymbol_placed {symbol : UInt8} (h : p.arraySymbol symbol = .ok q) :
    (p.placed line column).arraySymbol symbol = .ok (q.placed line column) := by
  refine ite_placed h finalContainer_placed fun h => ?_
  refine ite_placed h startContainer_placed fun h => ?_
  refine ite_placed h startContainer_placed fun h => ?_
  refine ite_placed h afterSlesh_placed fun h => ?_
  refine ite_placed h ok_placed fun h => ?_
  exact ite_placed h ok_placed skipSpace_placed

theorem arrayItemSymbol_placed {symbol : UInt8} (h : p.arrayItemSymbol symbol = .ok q) :
    (p.placed line column).arrayItemSymbol symbol = .ok (q.placed line column) := by
  refine ite_placed h finalContainer_placed fun h => ?_
  exact ite_placed h ok_placed skipSpace_placed

theorem objectSymbol_placed {symbol : UInt8} (h : p.objectSymbol symbol = .ok q) :
    (p.placed line column).objectSymbol symbol = .ok (q.placed line column) := by
  refine ite_placed h ok_placed fun h => ?_
  exact ite_placed h finalContainer_placed skipSpace_placed

theorem objectItemSymbol_placed {symbol : UInt8} (h : p.objectItemSymbol symbol = .ok q) :
    (p.placed line column).objectItemSymbol symbol = .ok (q.placed line column) := by
  refine ite_placed h finalContainer_placed fun h => ?_
  exact ite_placed h ok_placed skipSpace_placed

/-- The value that a closing quotation mark ends. -/
def closeString (p : JsonParser) (symbol : UInt8) : Result :=
  match p.state with
  | .objectPropertyName => .ok p.startProperty
  | .objectItem => p.finalPrimitive .string
  | .arrayItem => p.finalPrimitive .string
  | _ => p.unexpectedChar symbol

theorem closeString_placed {symbol : UInt8} (h : p.closeString symbol = .ok q) :
    (p.placed line column).closeString symbol = .ok (q.placed line column) := by
  rw [closeString] at h ⊢
  rw [placed_state]
  cases hstate : p.state with
  | objectPropertyName =>
    rw [hstate] at h
    cases h
    rfl
  | objectItem =>
    rw [hstate] at h
    exact finalPrimitive_placed h
  | arrayItem =>
    rw [hstate] at h
    exact finalPrimitive_placed h
  | _ =>
    rw [hstate] at h
    exact absurd h not_fail

theorem stringSymbol_placed {symbol : UInt8} (h : p.stringSymbol symbol = .ok q) :
    (p.placed line column).stringSymbol symbol = .ok (q.placed line column) := by
  refine ite_placed h ok_placed fun h => ?_
  refine ite_placed h (fun h => ?_) ok_placed
  rw [bind_eq_ok] at h ⊢
  obtain ⟨r, hpop, h⟩ := h
  exact ⟨_, popState_placed hpop, closeString_placed h⟩

theorem stringBacksleshSymbol_placed {symbol : UInt8}
    (h : p.stringBacksleshSymbol symbol = .ok q) :
    (p.placed line column).stringBacksleshSymbol symbol = .ok (q.placed line column) := by
  refine ite_placed h ok_placed fun h => ?_
  refine ite_placed h ok_placed fun h => ?_
  refine ite_placed h ok_placed fun h => ?_
  refine ite_placed h ok_placed fun h => ?_
  refine ite_placed h ok_placed fun h => ?_
  refine ite_placed h ok_placed fun h => ?_
  refine ite_placed h ok_placed fun h => ?_
  exact ite_placed h ok_placed fun h => absurd h not_fail

theorem hexSymbol_placed {index : Fin 4} {symbol : UInt8} (h : p.hexSymbol index symbol = .ok q) :
    (p.placed line column).hexSymbol index symbol = .ok (q.placed line column) := by
  rw [hexSymbol] at h ⊢
  cases hdigit : hexValue symbol with
  | none =>
    rw [hdigit] at h
    exact absurd h not_fail
  | some digit =>
    rw [hdigit] at h
    refine ite_placed h ok_placed fun h => ?_
    refine ite_placed h (fun h => ?_) ok_placed
    rw [placed_buffer, placed_numBuffer]
    cases hadd : Utf8.add p.buffer (p.numBuffer <<< 4 ||| digit) with
    | error e =>
      rw [hadd] at h
      cases h
    | ok buffer =>
      rw [hadd] at h
      cases h
      rfl

theorem symbolIn_placed {symbol : UInt8} (h : p.symbolIn symbol = .ok q) :
    (p.placed line column).symbolIn symbol = .ok (q.placed line column) := by
  rw [symbolIn] at h ⊢
  rw [placed_state]
  cases hstate : p.state with
  | bof =>
    rw [hstate] at h
    exact bofSymbol_placed h
  | afterSlesh =>
    rw [hstate] at h
    exact ite_placed h ok_placed fun h => absurd h not_fail
  | inlineComment =>
    rw [hstate] at h
    exact ite_placed h popState_placed ok_placed
  | array =>
    rw [hstate] at h
    exact arraySymbol_placed h
  | arrayItem =>
    rw [hstate] at h
    exact arrayItemSymbol_placed h
  | object =>
    rw [hstate] at h
    exact objectSymbol_placed h
  | objectItem =>
    rw [hstate] at h
    exact objectItemSymbol_placed h
  | string =>
    rw [hstate] at h
    exact stringSymbol_placed h
  | stringBackslesh =>
    rw [hstate] at h
    exact stringBacksleshSymbol_placed h
  | stringSymbol index =>
    rw [hstate] at h
    exact hexSymbol_placed h
  | objectPropertyName =>
    rw [hstate] at h
    exact ite_placed h ok_placed skipSpace_placed
  | objectPropertyValue =>
    rw [hstate] at h
    refine ite_placed h ok_placed fun h => ?_
    refine ite_placed h startContainer_placed fun h => ?_
    refine ite_placed h startContainer_placed fun h => ?_
    exact ite_placed h ok_placed skipSpace_placed
  | number =>
    rw [hstate] at h
    exact absurd h not_fail
  | eof =>
    rw [hstate] at h
    exact absurd h not_fail

end Placed

/-! ### Parsers at different positions -/

/-- The parsers differ in their positions at most. -/
def Same (p p' : JsonParser) : Prop := ∃ line column, p' = p.placed line column

namespace Same

variable {p p' p'' q : JsonParser}

theorem refl (p : JsonParser) : Same p p := ⟨p.line, p.column, rfl⟩

theorem symm (h : Same p p') : Same p' p := by
  obtain ⟨line, column, rfl⟩ := h
  exact ⟨p.line, p.column, rfl⟩

theorem trans (h : Same p p') (h' : Same p' p'') : Same p p'' := by
  obtain ⟨line, column, rfl⟩ := h
  obtain ⟨line', column', rfl⟩ := h'
  exact ⟨line', column', rfl⟩

theorem state_eq (h : Same p p') : p'.state = p.state := by
  obtain ⟨line, column, rfl⟩ := h
  rfl

theorem results_eq (h : Same p p') : p'.results = p.results := by
  obtain ⟨line, column, rfl⟩ := h
  rfl

theorem options_eq (h : Same p p') : p'.options = p.options := by
  obtain ⟨line, column, rfl⟩ := h
  rfl

theorem advance_same (p : JsonParser) (symbol : UInt8) : Same p (p.advance symbol) := by
  rw [advance]
  split
  · exact ⟨_, _, rfl⟩
  · split
    · exact ⟨_, _, rfl⟩
    · exact ⟨_, _, rfl⟩

theorem symbolIn_run {symbol : UInt8} (h : Same p p') (hrun : p.symbolIn symbol = .ok q) :
    ∃ q', p'.symbolIn symbol = .ok q' ∧ Same q q' := by
  obtain ⟨line, column, rfl⟩ := h
  exact ⟨_, symbolIn_placed hrun, line, column, rfl⟩

/-- The end of a number does not depend on the symbol that shows it. -/
theorem numberEnd_run {symbol : UInt8} (h : Same p p') (symbol' : UInt8)
    (hrun : p.numberEnd symbol = .ok q) : ∃ q', p'.numberEnd symbol' = .ok q' ∧ Same q q' := by
  obtain ⟨line, column, rfl⟩ := h
  rw [numberEnd, bind_eq_ok] at hrun
  obtain ⟨r, hpop, hrun⟩ := hrun
  rw [bind_eq_ok] at hrun
  obtain ⟨t, hfinal, hrun⟩ := hrun
  have hq : Same t q := by
    split at hrun
    · cases hrun
      exact ⟨_, _, rfl⟩
    · cases hrun
      exact ⟨_, _, rfl⟩
  have hback : ∃ q', (if symbol' = ascii '\n' then
        return { t.placed line column with line := (t.placed line column).line - 1 }
      else return { t.placed line column with column := (t.placed line column).column - 1 } :
      Result) = .ok q' ∧ Same t q' := by
    split
    · exact ⟨_, rfl, _, _, rfl⟩
    · exact ⟨_, rfl, _, _, rfl⟩
  obtain ⟨q', hq', hsame⟩ := hback
  refine ⟨q', ?_, hq.symm.trans hsame⟩
  rw [numberEnd, bind_eq_ok]
  refine ⟨_, popState_placed hpop, ?_⟩
  rw [bind_eq_ok]
  refine ⟨t.placed line column, ?_, hq'⟩
  rw [placed_state]
  cases hstate : r.state with
  | objectItem =>
    rw [hstate] at hfinal
    exact finalPrimitive_placed hfinal
  | arrayItem =>
    rw [hstate] at hfinal
    exact finalPrimitive_placed hfinal
  | _ =>
    rw [hstate] at hfinal
    exact absurd hfinal not_fail

end Same

/-- One symbol in a state other than `ST_NUMBER`. -/
theorem symbol_of_ne {p : JsonParser} {symbol : UInt8} (h : p.state ≠ .number) :
    p.symbol symbol = (p.advance symbol).symbolIn symbol := by
  have hstate : (p.advance symbol).state ≠ .number := by
    rw [(Same.advance_same p symbol).state_eq]
    exact h
  rw [JsonParser.symbol]
  exact if_neg hstate

/-- A symbol that goes on with a number. -/
def continues (symbol : UInt8) : Bool := isDigit symbol || symbol == ascii '.'

theorem continues_iff {symbol : UInt8} :
    (isDigit symbol = true ∨ symbol = ascii '.') ↔ continues symbol = true := by
  simp [continues]

theorem symbol_of_continues {p : JsonParser} {symbol : UInt8} (h : p.state = .number)
    (hsymbol : continues symbol = true) :
    p.symbol symbol
      = .ok { p.advance symbol with buffer := (p.advance symbol).buffer ++ [symbol] } := by
  have hstate : (p.advance symbol).state = .number := by
    rw [(Same.advance_same p symbol).state_eq]
    exact h
  rw [JsonParser.symbol]
  rw [if_pos hstate, if_pos (continues_iff.mpr hsymbol)]

theorem symbol_of_ends {p q : JsonParser} {symbol : UInt8} (h : p.state = .number)
    (hsymbol : continues symbol = false) :
    p.symbol symbol = .ok q ↔ ∃ r, (p.advance symbol).numberEnd symbol = .ok r ∧
      (r.advance symbol).symbolIn symbol = .ok q := by
  have hstate : (p.advance symbol).state = .number := by
    rw [(Same.advance_same p symbol).state_eq]
    exact h
  have hends : ¬(isDigit symbol = true ∨ symbol = ascii '.') := by
    rw [continues_iff, hsymbol]
    exact Bool.false_ne_true
  rw [JsonParser.symbol]
  rw [if_pos hstate, if_neg hends, bind_eq_ok]

/-- Positions do not matter for what a symbol does. -/
theorem Same.symbol_run {p p' q : JsonParser} {symbol : UInt8} (h : Same p p')
    (hrun : p.symbol symbol = .ok q) : ∃ q', p'.symbol symbol = .ok q' ∧ Same q q' := by
  have hadvance : Same (p.advance symbol) (p'.advance symbol) :=
    (advance_same p symbol).symm.trans (h.trans (advance_same p' symbol))
  by_cases hnumber : p.state = .number
  · have hnumber' : p'.state = .number := h.state_eq.trans hnumber
    cases hsymbol : continues symbol with
    | true =>
      rw [symbol_of_continues hnumber hsymbol] at hrun
      cases hrun
      refine ⟨_, symbol_of_continues hnumber' hsymbol, ?_⟩
      obtain ⟨line, column, heq⟩ := hadvance
      rw [heq]
      exact ⟨line, column, rfl⟩
    | false =>
      obtain ⟨r, hend, hin⟩ := (symbol_of_ends hnumber hsymbol).mp hrun
      obtain ⟨r', hend', hsame⟩ := hadvance.numberEnd_run symbol hend
      have hsame' : Same (r.advance symbol) (r'.advance symbol) :=
        (advance_same r symbol).symm.trans (hsame.trans (advance_same r' symbol))
      obtain ⟨q', hin', hq⟩ := hsame'.symbolIn_run hin
      exact ⟨q', (symbol_of_ends hnumber' hsymbol).mpr ⟨r', hend', hin'⟩, hq⟩
  · have hnumber' : p'.state ≠ .number := by
      rw [h.state_eq]
      exact hnumber
    rw [symbol_of_ne hnumber] at hrun
    rw [symbol_of_ne hnumber']
    exact hadvance.symbolIn_run hrun

theorem run_cons (p : JsonParser) (symbol : UInt8) (text : StdString) :
    p.run (symbol :: text) = p.symbol symbol >>= fun p => p.run text := rfl

theorem Same.run_run {p p' q : JsonParser} {text : StdString} (h : Same p p')
    (hrun : p.run text = .ok q) : ∃ q', p'.run text = .ok q' ∧ Same q q' := by
  induction text generalizing p p' with
  | nil =>
    cases hrun
    exact ⟨p', rfl, h⟩
  | cons symbol text ih =>
    rw [run_cons, bind_eq_ok] at hrun
    obtain ⟨r, hsymbol, hrun⟩ := hrun
    obtain ⟨r', hsymbol', hsame⟩ := h.symbol_run hsymbol
    obtain ⟨q', hrun', hq⟩ := ih hsame hrun
    refine ⟨q', ?_, hq⟩
    rw [run_cons, bind_eq_ok]
    exact ⟨r', hsymbol', hrun'⟩

/-! ### Tokens -/

/-- Where a text stands with respect to its tokens. -/
inductive Lex
  | between
  | string
  | escape
  | number
  | slash
  | comment
  deriving DecidableEq, Repr

def startsNumber (symbol : UInt8) : Bool :=
  symbol == ascii '+' || symbol == ascii '-' || isDigit symbol

/-- A symbol that is no part of a token begun before. -/
def Lex.first (symbol : UInt8) : Lex :=
  if symbol = quote then .string
  else if symbol = ascii '/' then .slash
  else if startsNumber symbol then .number
  else .between

def Lex.next : Lex → UInt8 → Lex
  | .between, symbol => first symbol
  | .string, symbol =>
    if symbol = backslash then .escape else if symbol = quote then .between else .string
  | .escape, _ => .string
  | .number, symbol => if continues symbol then .number else first symbol
  | .slash, symbol => if symbol = ascii '/' then .comment else .between
  | .comment, symbol => if symbol = ascii '\n' then .between else .comment

/-- Space, tab, CR and LF. -/
def spaces : List UInt8 := [ascii ' ', ascii '\t', ascii '\r', ascii '\n']

/-- The second text is the first one with white space put before its tokens. -/
inductive Spaced : Lex → StdString → StdString → Prop
  | nil (lex) : Spaced lex [] []
  | keep {lex text text'} (symbol) : Spaced (lex.next symbol) text text' →
      Spaced lex (symbol :: text) (symbol :: text')
  | space {symbol text text'} (white) : white ∈ spaces → Spaced .between (symbol :: text) text' →
      Spaced .between (symbol :: text) (white :: text')
  | behindNumber {symbol text text'} (white) : white ∈ spaces → continues symbol = false →
      Spaced .between (symbol :: text) text' →
      Spaced .number (symbol :: text) (white :: text')

/-- The token that a state is in. -/
def lexOf : State → Lex
  | .string => .string
  | .stringSymbol _ => .string
  | .stringBackslesh => .escape
  | .number => .number
  | .afterSlesh => .slash
  | .inlineComment => .comment
  | _ => .between

/-- The parser has the options, and the states that are saved lie between tokens and before the
end. -/
def SavedBetween (o : Options) (p : JsonParser) : Prop :=
  p.options = o ∧ ∀ state ∈ p.savedStates, lexOf state = .between ∧ state ≠ .eof

section Lexical

variable {o : Options} {p q : JsonParser} {symbol : UInt8}

theorem popState_between (hp : SavedBetween o p) (h : p.popState = .ok q) :
    SavedBetween o q ∧ lexOf q.state = .between ∧ q.state ≠ .eof := by
  rw [popState] at h
  cases hsaved : p.savedStates with
  | nil =>
    rw [hsaved] at h
    cases h
  | cons state states =>
    rw [hsaved] at h
    cases h
    rw [SavedBetween, hsaved] at hp
    exact ⟨⟨hp.1, fun s hs => hp.2 s (List.mem_cons_of_mem _ hs)⟩,
      hp.2 state (List.mem_cons_self ..)⟩

theorem pushState_between {state : State} (hp : SavedBetween o p) (h : lexOf state = .between)
    (hne : state ≠ .eof) : SavedBetween o (p.pushState state) := by
  refine ⟨hp.1, fun s hs => ?_⟩
  rcases List.mem_cons.mp hs with rfl | hs
  · exact ⟨h, hne⟩
  · exact hp.2 s hs

/-- What holds after a symbol that leaves the parser in a token, or between two: the end has been
reached only where one root is allowed. -/
def Follows (o : Options) (lex : Lex) (q : JsonParser) : Prop :=
  SavedBetween o q ∧ lexOf q.state = lex ∧
    (q.state = .eof → o.enableMultiRootObjects = false)

theorem follows_of_ne {lex : Lex} (hq : SavedBetween o q) (hlex : lexOf q.state = lex)
    (hne : q.state ≠ .eof) : Follows o lex q :=
  ⟨hq, hlex, fun h => absurd h hne⟩

theorem startContainer_follows {node : Node} {state : State} (hp : SavedBetween o p)
    (hstate : lexOf state = .between) (hne : state ≠ .eof)
    (h : p.startContainer node state = .ok q) : Follows o .between q := by
  rw [startContainer] at h
  cases hat : p.state with
  | objectPropertyValue =>
    rw [hat] at h
    cases h
    exact follows_of_ne hp hstate hne
  | bof =>
    rw [hat] at h
    cases h
    exact follows_of_ne (pushState_between hp rfl (by decide)) hstate hne
  | array =>
    rw [hat] at h
    cases h
    exact follows_of_ne (pushState_between hp rfl (by decide)) hstate hne
  | _ =>
    rw [hat] at h
    cases h

theorem finalContainer_follows (hp : SavedBetween o p) (h : p.finalContainer = .ok q) :
    Follows o .between q := by
  rw [finalContainer, bind_eq_ok] at h
  obtain ⟨r, hpop, h⟩ := h
  obtain ⟨hr, hlex, hne⟩ := popState_between hp hpop
  cases hnodes : r.nodes with
  | nil =>
    rw [hnodes] at h
    cases h
  | cons node nodes =>
    rw [hnodes] at h
    dsimp only at h
    by_cases hbof : r.state = .bof
    · rw [if_pos hbof] at h
      cases h
      cases hmulti : r.options.enableMultiRootObjects with
      | true => exact follows_of_ne hr hlex hne
      | false =>
        rw [hr.1] at hmulti
        exact ⟨hr, rfl, fun _ => hmulti⟩
    · rw [if_neg hbof, bind_eq_ok] at h
      obtain ⟨attached, -, h⟩ := h
      cases h
      exact follows_of_ne hr hlex hne

theorem finalPrimitive_eq {type : PrimitiveType} (h : p.finalPrimitive type = .ok q) :
    q.state = p.state ∧ q.savedStates = p.savedStates ∧ q.options = p.options := by
  rw [finalPrimitive, bind_eq_ok] at h
  obtain ⟨attached, -, h⟩ := h
  cases h
  exact ⟨rfl, rfl, rfl⟩

theorem afterSlesh_follows (hp : SavedBetween o p) (hat : lexOf p.state = .between)
    (hne : p.state ≠ .eof) (h : p.afterSlesh = .ok q) : Follows o .slash q := by
  rw [afterSlesh] at h
  split at h
  · cases h
    exact follows_of_ne (pushState_between hp hat hne) rfl fun h => (by cases h)
  · exact absurd h not_fail

/-- The symbols that a state reads by name begin no string, number or comment. -/
theorem first_of_mem (h : symbol ∈ [ascii '[', ascii ']', ascii '{', ascii '}', ascii ',', ascii ':']) :
    Lex.first symbol = .between := by
  simp only [List.mem_cons, List.not_mem_nil, or_false] at h
  rcases h with rfl | rfl | rfl | rfl | rfl | rfl <;> decide

theorem first_space (h : isSpace symbol = true) : Lex.first symbol = .between := by
  have hne : ∀ other, isSpace other = false → symbol ≠ other := by
    rintro other hother rfl
    rw [h] at hother
    cases hother
  have hnumber : startsNumber symbol = false := by
    have hdigit : isDigit symbol = false := by
      simp only [isSpace, isDigit, Bool.or_eq_true, Bool.and_eq_true, beq_iff_eq,
        decide_eq_true_eq, Bool.and_eq_false_iff, decide_eq_false_iff_not] at h ⊢
      rcases h with rfl | ⟨hlow, hhigh⟩
      · left
        decide
      · left
        intro hzero
        exact absurd (UInt8.le_trans hzero hhigh) (by decide)
    simp only [startsNumber, hdigit, Bool.or_false, Bool.or_eq_false_iff, beq_eq_false_iff_ne]
    exact ⟨hne _ (by decide), hne _ (by decide)⟩
  rw [Lex.first, if_neg (hne _ (by decide)), if_neg (hne _ (by decide)), hnumber]
  rfl

theorem skipSpace_follows (hp : SavedBetween o p) (hat : lexOf p.state = .between)
    (hne : p.state ≠ .eof) (h : p.skipSpace symbol = .ok q) : Follows o (Lex.first symbol) q := by
  obtain ⟨hspace, rfl⟩ := skipSpace_ok h
  rw [first_space hspace]
  exact follows_of_ne hp hat hne

/-- A branch for a symbol that is read by name. -/
theorem ite_follows {c : Prop} [Decidable c] {x y : Result} {lex : Lex}
    (h : (if c then x else y) = .ok q) (hx : c → x = .ok q → Follows o lex q)
    (hy : ¬c → y = .ok q → Follows o lex q) : Follows o lex q := by
  by_cases hc : c
  · rw [if_pos hc] at h
    exact hx hc h
  · rw [if_neg hc] at h
    exact hy hc h

theorem ok_follows {r : JsonParser} {lex : Lex} (hr : SavedBetween o r) (hat : lexOf r.state = lex)
    (hne : r.state ≠ .eof) (h : (.ok r : Result) = .ok q) : Follows o lex q := by
  cases h
  exact follows_of_ne hr hat hne

theorem container_follows {node : Node} {state : State} (hp : SavedBetween o p)
    (hstate : lexOf state = .between) (hne : state ≠ .eof)
    (hsymbol : symbol ∈ [ascii '[', ascii ']', ascii '{', ascii '}', ascii ',', ascii ':'])
    (h : p.startContainer node state = .ok q) : Follows o (Lex.first symbol) q := by
  rw [first_of_mem hsymbol]
  exact startContainer_follows hp hstate hne h

theorem closed_follows (hp : SavedBetween o p)
    (hsymbol : symbol ∈ [ascii '[', ascii ']', ascii '{', ascii '}', ascii ',', ascii ':'])
    (h : p.finalContainer = .ok q) : Follows o (Lex.first symbol) q := by
  rw [first_of_mem hsymbol]
  exact finalContainer_follows hp h

theorem bofSymbol_follows (hp : SavedBetween o p) (hat : lexOf p.state = .between)
    (hne : p.state ≠ .eof) (h : p.bofSymbol symbol = .ok q) : Follows o (Lex.first symbol) q := by
  refine ite_follows h (fun hc h => ?_) fun _ h => ?_
  · rw [hc]
    exact afterSlesh_follows hp hat hne h
  refine ite_follows h (fun hc => container_follows hp rfl (by decide) (by simp [hc])) fun _ h => ?_
  exact ite_follows h (fun hc => container_follows hp rfl (by decide) (by simp [hc]))
    fun _ => skipSpace_follows hp hat hne

theorem first_quote (h : symbol = quote) : Lex.first symbol = .string := by
  rw [h]
  decide

theorem first_number (h : startsNumber symbol = true) : Lex.first symbol = .number := by
  have hquote : symbol ≠ quote := by
    rintro rfl
    revert h
    decide
  have hslash : symbol ≠ ascii '/' := by
    rintro rfl
    revert h
    decide
  rw [Lex.first, if_neg hquote, if_neg hslash, if_pos h]

theorem arraySymbol_follows (hp : SavedBetween o p) (hat : lexOf p.state = .between)
    (hne : p.state ≠ .eof) (h : p.arraySymbol symbol = .ok q) : Follows o (Lex.first symbol) q := by
  refine ite_follows h (fun hc => closed_follows hp (by simp [hc])) fun _ h => ?_
  refine ite_follows h (fun hc => container_follows hp rfl (by decide) (by simp [hc])) fun _ h => ?_
  refine ite_follows h (fun hc => container_follows hp rfl (by decide) (by simp [hc])) fun _ h => ?_
  refine ite_follows h (fun hc h => ?_) fun _ h => ?_
  · rw [hc]
    exact afterSlesh_follows hp hat hne h
  refine ite_follows h
    (fun hc => ok_follows (pushState_between hp rfl (by decide)) (first_quote hc).symm fun h => (by cases h)) fun _ h => ?_
  refine ite_follows h (fun hc => ?_) fun _ => skipSpace_follows hp hat hne
  have hnumber : startsNumber symbol = true := by simp [startsNumber, hc]
  exact ok_follows (pushState_between hp rfl (by decide)) (first_number hnumber).symm fun h => (by cases h)

theorem arrayItemSymbol_follows (hp : SavedBetween o p) (hat : lexOf p.state = .between)
    (hne : p.state ≠ .eof) (h : p.arrayItemSymbol symbol = .ok q) : Follows o (Lex.first symbol) q := by
  refine ite_follows h (fun hc => closed_follows hp (by simp [hc])) fun _ h => ?_
  refine ite_follows h (fun hc => ?_) fun _ => skipSpace_follows hp hat hne
  have hfirst : Lex.first symbol = .between := first_of_mem (by simp [hc])
  exact ok_follows hp hfirst.symm fun h => (by cases h)

theorem objectSymbol_follows (hp : SavedBetween o p) (hat : lexOf p.state = .between)
    (hne : p.state ≠ .eof) (h : p.objectSymbol symbol = .ok q) : Follows o (Lex.first symbol) q := by
  refine ite_follows h (fun hc => ?_) fun _ h => ?_
  · exact ok_follows (pushState_between (pushState_between hp rfl (by decide)) rfl (by decide)) (first_quote hc).symm fun h => (by cases h)
  exact ite_follows h (fun hc => closed_follows hp (by simp [hc]))
    fun _ => skipSpace_follows hp hat hne

theorem objectItemSymbol_follows (hp : SavedBetween o p) (hat : lexOf p.state = .between)
    (hne : p.state ≠ .eof) (h : p.objectItemSymbol symbol = .ok q) : Follows o (Lex.first symbol) q := by
  refine ite_follows h (fun hc => closed_follows hp (by simp [hc])) fun _ h => ?_
  refine ite_follows h (fun hc => ?_) fun _ => skipSpace_follows hp hat hne
  have hfirst : Lex.first symbol = .between := first_of_mem (by simp [hc])
  exact ok_follows hp hfirst.symm fun h => (by cases h)

theorem propertyNameSymbol_follows (hp : SavedBetween o p) (hat : lexOf p.state = .between)
    (hne : p.state ≠ .eof) (h : p.propertyNameSymbol symbol = .ok q) : Follows o (Lex.first symbol) q := by
  refine ite_follows h (fun hc => ?_) fun _ => skipSpace_follows hp hat hne
  have hfirst : Lex.first symbol = .between := first_of_mem (by simp [hc])
  exact ok_follows hp hfirst.symm fun h => (by cases h)

theorem propertyValueSymbol_follows (hp : SavedBetween o p) (hat : lexOf p.state = .between)
    (hne : p.state ≠ .eof) (h : p.propertyValueSymbol symbol = .ok q) : Follows o (Lex.first symbol) q := by
  refine ite_follows h (fun hc => ok_follows hp (first_quote hc).symm fun h => (by cases h)) fun _ h => ?_
  refine ite_follows h (fun hc => container_follows hp rfl (by decide) (by simp [hc])) fun _ h => ?_
  refine ite_follows h (fun hc => container_follows hp rfl (by decide) (by simp [hc])) fun _ h => ?_
  refine ite_follows h (fun hc => ?_) fun _ => skipSpace_follows hp hat hne
  have hnumber : startsNumber symbol = true := by simpa [startsNumber, or_assoc] using hc
  exact ok_follows hp (first_number hnumber).symm fun h => (by cases h)

theorem closeString_follows (hp : SavedBetween o p) (h : p.closeString symbol = .ok q) :
    Follows o .between q := by
  rw [closeString] at h
  cases hstate : p.state with
  | objectPropertyName =>
    rw [hstate] at h
    cases h
    have hq : p.startProperty.state = .objectPropertyName := hstate
    refine follows_of_ne hp ?_ ?_
    · rw [hq]
      rfl
    · rw [hq]
      exact fun h => (by cases h)
  | objectItem =>
    rw [hstate] at h
    obtain ⟨hq, hsaved, hoptions⟩ := finalPrimitive_eq h
    rw [Follows, SavedBetween, hoptions, hsaved, hq, hstate]
    exact ⟨hp, rfl, fun h => (by cases h)⟩
  | arrayItem =>
    rw [hstate] at h
    obtain ⟨hq, hsaved, hoptions⟩ := finalPrimitive_eq h
    rw [Follows, SavedBetween, hoptions, hsaved, hq, hstate]
    exact ⟨hp, rfl, fun h => (by cases h)⟩
  | _ =>
    rw [hstate] at h
    exact absurd h not_fail

theorem stringSymbol_follows (hp : SavedBetween o p) (hstate : lexOf p.state = .string)
    (h : p.stringSymbol symbol = .ok q) : Follows o (Lex.next .string symbol) q := by
  rw [Lex.next]
  by_cases hback : symbol = backslash
  · rw [if_pos hback]
    rw [stringSymbol, if_pos hback] at h
    cases h
    exact ⟨hp, rfl, fun h => (by cases h)⟩
  · rw [if_neg hback]
    rw [stringSymbol, if_neg hback] at h
    by_cases hquote : symbol = quote
    · rw [if_pos hquote]
      rw [if_pos hquote, bind_eq_ok] at h
      obtain ⟨r, hpop, h⟩ := h
      exact closeString_follows (popState_between hp hpop).1 h
    · rw [if_neg hquote]
      rw [if_neg hquote] at h
      cases h
      refine follows_of_ne hp hstate fun heof => ?_
      have hend : p.state = .eof := heof
      rw [hend] at hstate
      cases hstate

theorem stringBacksleshSymbol_follows (hp : SavedBetween o p)
    (h : p.stringBacksleshSymbol symbol = .ok q) : Follows o .string q := by
  refine ite_follows h (fun _ => ok_follows hp rfl fun h => (by cases h)) fun _ h => ?_
  refine ite_follows h (fun _ => ok_follows hp rfl fun h => (by cases h)) fun _ h => ?_
  refine ite_follows h (fun _ => ok_follows hp rfl fun h => (by cases h)) fun _ h => ?_
  refine ite_follows h (fun _ => ok_follows hp rfl fun h => (by cases h)) fun _ h => ?_
  refine ite_follows h (fun _ => ok_follows hp rfl fun h => (by cases h)) fun _ h => ?_
  refine ite_follows h (fun _ => ok_follows hp rfl fun h => (by cases h)) fun _ h => ?_
  refine ite_follows h (fun _ => ok_follows hp rfl fun h => (by cases h)) fun _ h => ?_
  exact ite_follows h (fun _ => ok_follows hp rfl fun h => (by cases h)) fun _ h => absurd h not_fail

/-- A hexadecimal digit is neither a quotation mark nor a backslash. -/
theorem next_hex {digit : UInt32} (h : hexValue symbol = some digit) :
    Lex.next .string symbol = .string := by
  have hback : symbol ≠ backslash := by
    rintro rfl
    have hnone : hexValue backslash = none := by decide
    rw [hnone] at h
    cases h
  have hquote : symbol ≠ quote := by
    rintro rfl
    have hnone : hexValue quote = none := by decide
    rw [hnone] at h
    cases h
  rw [Lex.next, if_neg hback, if_neg hquote]

theorem hexSymbol_follows {index : Fin 4} (hp : SavedBetween o p)
    (h : p.hexSymbol index symbol = .ok q) : Follows o (Lex.next .string symbol) q := by
  rw [hexSymbol] at h
  cases hdigit : hexValue symbol with
  | none =>
    rw [hdigit] at h
    exact absurd h not_fail
  | some digit =>
    rw [hdigit] at h
    rw [next_hex hdigit]
    refine ite_follows h (fun _ => ok_follows hp rfl fun h => (by cases h)) fun _ h => ?_
    refine ite_follows h (fun _ h => ?_) fun _ => ok_follows hp rfl fun h => (by cases h)
    cases hadd : Utf8.add p.buffer (p.numBuffer <<< 4 ||| digit) with
    | error e =>
      rw [hadd] at h
      cases h
    | ok buffer =>
      rw [hadd] at h
      cases h
      exact ⟨hp, rfl, fun h => (by cases h)⟩

/-- What the switch reads keeps step with the tokens. -/
theorem symbolIn_follows (hp : SavedBetween o p) (hstate : p.state ≠ .number)
    (h : p.symbolIn symbol = .ok q) : Follows o ((lexOf p.state).next symbol) q := by
  rw [symbolIn] at h
  cases hat : p.state with
  | bof =>
    rw [hat] at h
    exact bofSymbol_follows hp (by rw [hat]; rfl) (by rw [hat]; decide) h
  | afterSlesh =>
    rw [hat] at h
    refine ite_follows h (fun hc => ok_follows hp ?_ fun h => (by cases h))
      fun _ h => absurd h not_fail
    exact (if_pos hc).symm
  | inlineComment =>
    rw [hat] at h
    refine ite_follows h (fun hc h => ?_) fun hc => ok_follows hp ?_ ?_
    · change Follows o (if symbol = ascii '\n' then .between else .comment) q
      rw [if_pos hc]
      obtain ⟨hq, hlex, hne⟩ := popState_between hp h
      exact follows_of_ne hq hlex hne
    · rw [hat]
      exact (if_neg hc).symm
    · rw [hat]
      exact fun h => (by cases h)
  | array =>
    rw [hat] at h
    exact arraySymbol_follows hp (by rw [hat]; rfl) (by rw [hat]; decide) h
  | arrayItem =>
    rw [hat] at h
    exact arrayItemSymbol_follows hp (by rw [hat]; rfl) (by rw [hat]; decide) h
  | object =>
    rw [hat] at h
    exact objectSymbol_follows hp (by rw [hat]; rfl) (by rw [hat]; decide) h
  | objectItem =>
    rw [hat] at h
    exact objectItemSymbol_follows hp (by rw [hat]; rfl) (by rw [hat]; decide) h
  | string =>
    rw [hat] at h
    exact stringSymbol_follows hp (by rw [hat]; rfl) h
  | stringBackslesh =>
    rw [hat] at h
    exact stringBacksleshSymbol_follows hp h
  | stringSymbol index =>
    rw [hat] at h
    exact hexSymbol_follows hp h
  | objectPropertyName =>
    rw [hat] at h
    exact propertyNameSymbol_follows hp (by rw [hat]; rfl) (by rw [hat]; decide) h
  | objectPropertyValue =>
    rw [hat] at h
    exact propertyValueSymbol_follows hp (by rw [hat]; rfl) (by rw [hat]; decide) h
  | number => exact absurd hat hstate
  | eof =>
    rw [hat] at h
    exact absurd h not_fail

theorem Same.savedBetween {p' : JsonParser} (h : Same p p') (hp : SavedBetween o p) :
    SavedBetween o p' := by
  obtain ⟨line, column, rfl⟩ := h
  exact hp

/-- Behind a number stands an item of an array or a property. -/
theorem numberEnd_follows (hp : SavedBetween o p) (h : p.numberEnd symbol = .ok q) :
    Follows o .between q ∧ (q.state = .arrayItem ∨ q.state = .objectItem) := by
  rw [numberEnd, bind_eq_ok] at h
  obtain ⟨r, hpop, h⟩ := h
  obtain ⟨hr, -⟩ := popState_between hp hpop
  rw [bind_eq_ok] at h
  obtain ⟨t, hfinal, h⟩ := h
  have hq : Same t q := by
    split at h
    · cases h
      exact ⟨_, _, rfl⟩
    · cases h
      exact ⟨_, _, rfl⟩
  have ht : SavedBetween o t ∧ (t.state = .arrayItem ∨ t.state = .objectItem) := by
    cases hstate : r.state with
    | objectItem =>
      rw [hstate] at hfinal
      obtain ⟨hs, hsaved, hoptions⟩ := finalPrimitive_eq hfinal
      rw [SavedBetween, hoptions, hsaved, hs]
      exact ⟨hr, Or.inr hstate⟩
    | arrayItem =>
      rw [hstate] at hfinal
      obtain ⟨hs, hsaved, hoptions⟩ := finalPrimitive_eq hfinal
      rw [SavedBetween, hoptions, hsaved, hs]
      exact ⟨hr, Or.inl hstate⟩
    | _ =>
      rw [hstate] at hfinal
      exact absurd hfinal not_fail
  rw [Follows, hq.state_eq]
  refine ⟨⟨hq.savedBetween ht.1, ?_, ?_⟩, ht.2⟩
  · rcases ht.2 with hitem | hitem
    · rw [hitem]
      rfl
    · rw [hitem]
      rfl
  · rcases ht.2 with hitem | hitem
    · rw [hitem]
      exact fun h => (by cases h)
    · rw [hitem]
      exact fun h => (by cases h)

/-- One symbol keeps step with the tokens. -/
theorem symbol_follows (hp : SavedBetween o p) (h : p.symbol symbol = .ok q) :
    Follows o ((lexOf p.state).next symbol) q := by
  have hadvance := Same.advance_same p symbol
  by_cases hnumber : p.state = .number
  · rw [hnumber]
    change Follows o (if continues symbol then .number else Lex.first symbol) q
    cases hsymbol : continues symbol with
    | true =>
      rw [symbol_of_continues hnumber hsymbol] at h
      cases h
      have hstate : (p.advance symbol).state = .number := hadvance.state_eq.trans hnumber
      refine follows_of_ne (hadvance.savedBetween hp) ?_ ?_
      · change lexOf (p.advance symbol).state = .number
        rw [hstate]
        rfl
      · change (p.advance symbol).state ≠ .eof
        rw [hstate]
        exact fun h => (by cases h)
    | false =>
      obtain ⟨r, hend, hin⟩ := (symbol_of_ends hnumber hsymbol).mp h
      obtain ⟨⟨hr, hlex, -⟩, hitem⟩ := numberEnd_follows (hadvance.savedBetween hp) hend
      have hr' := Same.advance_same r symbol
      have hstate : (r.advance symbol).state ≠ .number := by
        rw [hr'.state_eq]
        rcases hitem with h | h
        · rw [h]
          exact fun h => (by cases h)
        · rw [h]
          exact fun h => (by cases h)
      have hfollows := symbolIn_follows (hr'.savedBetween hr) hstate hin
      rw [hr'.state_eq, hlex] at hfollows
      exact hfollows
  · rw [symbol_of_ne hnumber] at h
    have hstate : (p.advance symbol).state ≠ .number := by
      rw [hadvance.state_eq]
      exact hnumber
    have hfollows := symbolIn_follows (hadvance.savedBetween hp) hstate h
    rw [hadvance.state_eq] at hfollows
    exact hfollows

end Lexical

/-! ### White space between tokens -/

theorem isSpace_of_mem {white : UInt8} (h : white ∈ spaces) : isSpace white = true := by
  simp only [spaces, List.mem_cons, List.not_mem_nil, or_false] at h
  rcases h with rfl | rfl | rfl | rfl <;> decide

theorem continues_of_mem {white : UInt8} (h : white ∈ spaces) : continues white = false := by
  simp only [spaces, List.mem_cons, List.not_mem_nil, or_false] at h
  rcases h with rfl | rfl | rfl | rfl <;> decide

/-- Every state between tokens skips white space, but the one behind the only root. -/
theorem symbolIn_space {p : JsonParser} {white : UInt8} (hwhite : white ∈ spaces)
    (hlex : lexOf p.state = .between) (heof : p.state ≠ .eof) : p.symbolIn white = .ok p := by
  have hspace := isSpace_of_mem hwhite
  have hne : ∀ other, isSpace other = false → white ≠ other := by
    rintro other hother rfl
    rw [hspace] at hother
    cases hother
  have hskip : p.skipSpace white = .ok p := skipSpace_of hspace
  have hopen := hne (ascii '{') (by decide)
  have hclose := hne (ascii '}') (by decide)
  have hopenArray := hne (ascii '[') (by decide)
  have hcloseArray := hne (ascii ']') (by decide)
  have hcomma := hne (ascii ',') (by decide)
  have hcolon := hne (ascii ':') (by decide)
  have hslash := hne (ascii '/') (by decide)
  have hquote := hne quote (by decide)
  have hplus := hne (ascii '+') (by decide)
  have hminus := hne (ascii '-') (by decide)
  have hdigit : isDigit white = false := by
    have hnumber := continues_of_mem hwhite
    simp only [continues, Bool.or_eq_false_iff] at hnumber
    exact hnumber.1
  rw [symbolIn]
  cases hstate : p.state with
  | bof => simp [bofSymbol, hslash, hopenArray, hopen, hskip]
  | array => simp [arraySymbol, hcloseArray, hopenArray, hopen, hslash, hquote, hdigit, hskip]
  | arrayItem => simp [arrayItemSymbol, hcloseArray, hcomma, hskip]
  | object => simp [objectSymbol, hquote, hclose, hskip]
  | objectItem => simp [objectItemSymbol, hclose, hcomma, hskip]
  | objectPropertyName => simp [propertyNameSymbol, hcolon, hskip]
  | objectPropertyValue =>
    simp [propertyValueSymbol, hquote, hopen, hopenArray, hplus, hminus, hdigit, hskip]
  | eof => exact absurd hstate heof
  | _ =>
    rw [hstate] at hlex
    cases hlex

theorem number_of_lexOf {state : State} (h : lexOf state = .number) : state = .number := by
  cases state <;> first | rfl | cases h

theorem symbol_space {p : JsonParser} {white : UInt8} (hwhite : white ∈ spaces)
    (hlex : lexOf p.state = .between) (heof : p.state ≠ .eof) :
    ∃ q, p.symbol white = .ok q ∧ Same p q := by
  have hadvance := Same.advance_same p white
  have hnumber : p.state ≠ .number := by
    intro h
    rw [h] at hlex
    cases hlex
  rw [symbol_of_ne hnumber]
  refine ⟨_, symbolIn_space hwhite ?_ ?_, hadvance⟩
  · rw [hadvance.state_eq]
    exact hlex
  · rw [hadvance.state_eq]
    exact heof

theorem symbol_eof {p : JsonParser} (h : p.state = .eof) (symbol : UInt8) (q : JsonParser) :
    p.symbol symbol ≠ .ok q := by
  have hnumber : p.state ≠ .number := by
    rw [h]
    exact fun h => (by cases h)
  rw [symbol_of_ne hnumber, symbolIn, (Same.advance_same p symbol).state_eq, h]
  exact not_fail

/-- White space between tokens leaves the run of the parser as it is, positions apart. -/
theorem Spaced.run_same {lex : Lex} {text text' : StdString} (h : Spaced lex text text')
    {p p' z : JsonParser} (hsame : Same p p') (hp : SavedBetween o p) (hlex : lexOf p.state = lex)
    (hrun : p.run text = .ok z) : ∃ z', p'.run text' = .ok z' ∧ Same z z' := by
  induction h generalizing p p' with
  | nil lex =>
    cases hrun
    exact ⟨p', rfl, hsame⟩
  | keep symbol _ ih =>
    rw [run_cons, bind_eq_ok] at hrun
    obtain ⟨r, hsymbol, hrun⟩ := hrun
    obtain ⟨r', hsymbol', hsame'⟩ := hsame.symbol_run hsymbol
    obtain ⟨hr, hlex', -⟩ := symbol_follows hp hsymbol
    obtain ⟨z', hrun', hz⟩ := ih hsame' hr (by rw [hlex', hlex]) hrun
    refine ⟨z', ?_, hz⟩
    rw [run_cons, bind_eq_ok]
    exact ⟨r', hsymbol', hrun'⟩
  | space white hwhite _ ih =>
    have heof : p.state ≠ .eof := by
      intro heof
      rw [run_cons, bind_eq_ok] at hrun
      obtain ⟨r, hsymbol, -⟩ := hrun
      exact symbol_eof heof _ r hsymbol
    obtain ⟨q', hsymbol', hq⟩ := symbol_space hwhite
      (by rw [hsame.state_eq]; exact hlex) (by rw [hsame.state_eq]; exact heof)
    obtain ⟨z', hrun', hz⟩ := ih (hsame.trans hq) hp hlex hrun
    refine ⟨z', ?_, hz⟩
    rw [run_cons, bind_eq_ok]
    exact ⟨q', hsymbol', hrun'⟩
  | @behindNumber symbol text text' white hwhite hends _ ih =>
    -- both runs end the number, one at the white space and one at the symbol behind it
    have hnumber := number_of_lexOf hlex
    have hrun₀ := hrun
    rw [run_cons, bind_eq_ok] at hrun
    obtain ⟨q, hsymbol, hrun⟩ := hrun
    obtain ⟨r, hend, hin⟩ := (symbol_of_ends hnumber hends).mp hsymbol
    have hadvance := Same.advance_same p symbol
    have hadvance' := Same.advance_same p' white
    obtain ⟨r', hend', hr'⟩ :=
      (hadvance.symm.trans (hsame.trans hadvance')).numberEnd_run white hend
    obtain ⟨⟨hr, hlexr, -⟩, hitem⟩ := numberEnd_follows (hadvance.savedBetween hp) hend
    have hne : r.state ≠ .eof ∧ r.state ≠ .number := by
      rcases hitem with h | h
      · rw [h]
        exact ⟨fun h => (by cases h), fun h => (by cases h)⟩
      · rw [h]
        exact ⟨fun h => (by cases h), fun h => (by cases h)⟩
    have hspace : (r'.advance white).symbolIn white = .ok (r'.advance white) := by
      have hboth := hr'.trans (Same.advance_same r' white)
      apply symbolIn_space hwhite
      · rw [hboth.state_eq]
        exact hlexr
      · rw [hboth.state_eq]
        exact hne.1
    have hwhole : r.run (symbol :: text) = .ok z := by
      rw [run_cons, bind_eq_ok]
      exact ⟨q, by rw [symbol_of_ne hne.2]; exact hin, hrun⟩
    obtain ⟨z', hrun', hz⟩ := ih (hr'.trans (Same.advance_same r' white)) hr hlexr hwhole
    refine ⟨z', ?_, hz⟩
    rw [run_cons, bind_eq_ok]
    exact ⟨_, (symbol_of_ends (hsame.state_eq.trans hnumber) (continues_of_mem hwhite)).mpr
      ⟨r', hend', hspace⟩, hrun'⟩

theorem run_append (p : JsonParser) (text more : StdString) :
    p.run (text ++ more) = p.run text >>= fun p => p.run more := by
  simp [run]

/-- White space behind the roots is skipped where more roots are allowed. -/
theorem run_trailing {p : JsonParser} {trailing : StdString}
    (h : ∀ white ∈ trailing, white ∈ spaces) (hbof : p.state = .bof) :
    ∃ z, p.run trailing = .ok z ∧ Same p z := by
  induction trailing generalizing p with
  | nil => exact ⟨p, rfl, Same.refl p⟩
  | cons white trailing ih =>
    obtain ⟨q, hsymbol, hq⟩ := @symbol_space p white (h white (List.mem_cons_self ..))
      (by rw [hbof]; rfl) (by rw [hbof]; exact fun h => (by cases h))
    obtain ⟨z, hrun, hz⟩ := ih (fun w hw => h w (List.mem_cons_of_mem _ hw))
      (hq.state_eq.trans hbof)
    refine ⟨z, ?_, hq.trans hz⟩
    rw [run_cons, bind_eq_ok]
    exact ⟨q, hsymbol, hrun⟩

theorem run_follows {p z : JsonParser} {text : StdString} {lex : Lex} (hp : Follows o lex p)
    (hrun : p.run text = .ok z) : ∃ lex', Follows o lex' z := by
  induction text generalizing p lex with
  | nil =>
    cases hrun
    exact ⟨lex, hp⟩
  | cons symbol text ih =>
    rw [run_cons, bind_eq_ok] at hrun
    obtain ⟨q, hsymbol, hrun⟩ := hrun
    exact ih (symbol_follows hp.1 hsymbol) hrun

/-- The text is written at once and then ended; the result is what `result_` has been called
with. -/
def readRoots (streamName : StdString) (options : Options) (text : StdString) :
    Except JsonError (List JsonValue) := do
  let p ← (create streamName options).write text
  let p ← p.write []
  return p.results

theorem finalData_ok_iff {p q : JsonParser} : p.finalData = .ok q ↔
    q = p ∧ (p.state = .eof ∨ p.state = .bof ∧ p.options.enableMultiRootObjects = true) := by
  rw [finalData]
  cases hstate : p.state with
  | eof =>
    constructor
    · intro h
      cases h
      exact ⟨rfl, Or.inl rfl⟩
    · rintro ⟨rfl, -⟩
      rfl
  | bof =>
    cases hmulti : p.options.enableMultiRootObjects with
    | true =>
      constructor
      · intro h
        cases h
        exact ⟨rfl, Or.inr ⟨rfl, rfl⟩⟩
      · rintro ⟨rfl, -⟩
        rfl
    | false => simp [fail]
  | _ => simp [fail]

/-- A text is accepted by the run over it and the state behind it. -/
theorem readRoots_eq_ok_iff {streamName : StdString} {options : Options} {text : StdString}
    {results : List JsonValue} : readRoots streamName options text = .ok results ↔
      ∃ z, (create streamName options).run text = .ok z ∧ z.results = results ∧
        (z.state = .eof ∨ z.state = .bof ∧ z.options.enableMultiRootObjects = true) := by
  have hends : ∀ p : JsonParser, (do
      let p ← p.write []
      return p.results) = .ok results ↔ p.results = results ∧
        (p.state = .eof ∨ p.state = .bof ∧ p.options.enableMultiRootObjects = true) := by
    intro p
    have hwrite : p.write [] = p.finalData := rfl
    rw [hwrite, bind_eq_ok]
    constructor
    · rintro ⟨q, hfinal, hresults⟩
      obtain ⟨rfl, hstate⟩ := finalData_ok_iff.mp hfinal
      exact ⟨pure_eq_ok.mp hresults, hstate⟩
    · rintro ⟨hresults, hstate⟩
      exact ⟨p, finalData_ok_iff.mpr ⟨rfl, hstate⟩, pure_eq_ok.mpr hresults⟩
  rw [readRoots, bind_eq_ok]
  cases text with
  | nil =>
    have hwrite : (create streamName options).write [] = (create streamName options).finalData := rfl
    rw [hwrite]
    constructor
    · rintro ⟨p, hfinal, hend⟩
      obtain ⟨rfl, -⟩ := finalData_ok_iff.mp hfinal
      exact ⟨_, rfl, (hends _).mp hend⟩
    · rintro ⟨z, hrun, hend⟩
      cases hrun
      exact ⟨_, finalData_ok_iff.mpr ⟨rfl, hend.2⟩, (hends _).mpr hend⟩
  | cons symbol text =>
    have hwrite : (create streamName options).write (symbol :: text)
        = (create streamName options).run (symbol :: text) := rfl
    rw [hwrite]
    constructor
    · rintro ⟨p, hrun, hend⟩
      exact ⟨p, hrun, (hends p).mp hend⟩
    · rintro ⟨z, hrun, hend⟩
      exact ⟨z, hrun, (hends z).mpr hend⟩

theorem create_follows (streamName : StdString) (options : Options) :
    Follows options .between (create streamName options) :=
  ⟨⟨rfl, fun s hs => (by cases hs)⟩, rfl, fun h => (by cases h)⟩

/-- White space before the root and between tokens changes nothing; white space behind the root
is accepted exactly where more roots may follow. -/
theorem readRoots_spaced_iff {streamName : StdString} {options : Options}
    {text text' trailing : StdString} {results : List JsonValue}
    (haccepted : readRoots streamName options text = .ok results)
    (hspaced : Spaced .between text text') (htrailing : ∀ white ∈ trailing, white ∈ spaces) :
    readRoots streamName options (text' ++ trailing) = .ok results ↔
      options.enableMultiRootObjects = true ∨ trailing = [] := by
  rw [readRoots_eq_ok_iff] at haccepted
  obtain ⟨z, hrun, hresults, hstate⟩ := haccepted
  have hcreate := create_follows streamName options
  obtain ⟨z', hrun', hz⟩ := hspaced.run_same (Same.refl _) hcreate.1 rfl hrun
  have hwhole : (create streamName options).run (text' ++ trailing) = z'.run trailing := by
    rw [run_append, hrun']
    rfl
  obtain ⟨lex, hfollows⟩ := run_follows hcreate hrun
  have hoptions : z.options = options := hfollows.1.1
  have hoptions' : z'.options = options := hz.options_eq.trans hoptions
  rw [readRoots_eq_ok_iff, hwhole]
  cases hmulti : options.enableMultiRootObjects with
  | true =>
    have hbof : z.state = .bof := by
      rcases hstate with heof | ⟨hbof, -⟩
      · have hsingle := hfollows.2.2 heof
        rw [hmulti] at hsingle
        cases hsingle
      · exact hbof
    obtain ⟨y, hy, hsame⟩ := run_trailing htrailing (hz.state_eq.trans hbof)
    simp only [true_or, iff_true]
    refine ⟨y, hy, ?_, Or.inr ⟨?_, ?_⟩⟩
    · rw [hsame.results_eq, hz.results_eq, hresults]
    · rw [hsame.state_eq, hz.state_eq, hbof]
    · rw [hsame.options_eq, hoptions', hmulti]
  | false =>
    have heof : z.state = .eof := by
      rcases hstate with heof | ⟨-, hopen⟩
      · exact heof
      · rw [hoptions, hmulti] at hopen
        cases hopen
    simp only [Bool.false_eq_true, false_or]
    constructor
    · rintro ⟨y, hy, -⟩
      cases trailing with
      | nil => rfl
      | cons white trailing =>
        rw [run_cons, bind_eq_ok] at hy
        obtain ⟨x, hsymbol, -⟩ := hy
        exact absurd hsymbol (symbol_eof (hz.state_eq.trans heof) white x)
    · rintro rfl
      refine ⟨z', rfl, ?_, Or.inl ?_⟩
      · rw [hz.results_eq, hresults]
      · rw [hz.state_eq, heof]

/-- `{}` and ` {}`. -/
theorem readRoots_spaced_object :
    readRoots [] ⟨false, false⟩ ([ascii ' ', ascii '{', ascii '}'] ++ []) = .ok [.object []] := by
  have hspaced : Spaced .between [ascii '{', ascii '}'] [ascii ' ', ascii '{', ascii '}'] :=
    .space _ (by decide) (.keep _ (.keep _ (.nil _)))
  have haccepted : readRoots [] ⟨false, false⟩ [ascii '{', ascii '}'] = .ok [.object []] := rfl
  exact (readRoots_spaced_iff haccepted hspaced (by simp)).mpr (Or.inr rfl)

/-- A line end behind the root stops the parser. -/
theorem not_readRoots_lineEnd :
    ¬∀ (streamName : StdString) (options : Options) (text text' trailing : StdString)
      (results : List JsonValue), readRoots streamName options text = .ok results →
      Spaced .between text text' → (∀ white ∈ trailing, white ∈ spaces) →
        readRoots streamName options (text' ++ trailing) = .ok results := by
  intro h
  have hspaced : Spaced .between [ascii '{', ascii '}'] [ascii '{', ascii '}'] :=
    .keep _ (.keep _ (.nil _))
  have haccepted : readRoots [] ⟨false, false⟩ [ascii '{', ascii '}'] = .ok [.object []] := rfl
  have hwhite : ∀ white ∈ [ascii '\n'], white ∈ spaces := by simp [spaces]
  have hend := h [] ⟨false, false⟩ _ _ _ _ haccepted hspaced hwhite
  have hstops : (readRoots [] ⟨false, false⟩
      ([ascii '{', ascii '}'] ++ [ascii '\n'])).toOption = none := rfl
  rw [hend] at hstops
  cases hstops

end JsonParser

end Vds
