import Vds.Library.Munch

/-! A fragment of SQL: its tokens, its syntax, and a reader that keeps to the precedence of the
operators. -/

namespace Vds.Library.Sql

abbrev Text := List UInt8

/-- The bytes of a word of the language. -/
def word (s : String) : Text := s.toList.map fun c => c.toNat.toUInt8

/-! ### Tokens -/

inductive Operator
  | or
  | and
  | equal
  | notEqual
  | less
  | lessOrEqual
  | greater
  | greaterOrEqual
  deriving DecidableEq, Repr

/-- The tighter an operator binds, the greater. -/
def Operator.precedence : Operator → Nat
  | .or => 1
  | .and => 2
  | .equal | .notEqual => 3
  | .less | .lessOrEqual | .greater | .greaterOrEqual => 4

inductive Keyword
  | select | from | where | not | in | is | null | inner | left | right | outer | join | on
  | order | group | by | desc | insert | ignore | replace | into | values | update | set | delete
  deriving DecidableEq, Repr

def keywords : List (Text × Keyword) :=
  [(word "SELECT", .select), (word "FROM", .from), (word "WHERE", .where), (word "NOT", .not),
    (word "IN", .in), (word "IS", .is), (word "NULL", .null), (word "INNER", .inner),
    (word "LEFT", .left), (word "RIGHT", .right), (word "OUTER", .outer), (word "JOIN", .join),
    (word "ON", .on), (word "ORDER", .order), (word "GROUP", .group), (word "BY", .by),
    (word "DESC", .desc), (word "INSERT", .insert), (word "IGNORE", .ignore),
    (word "REPLACE", .replace), (word "INTO", .into), (word "VALUES", .values),
    (word "UPDATE", .update), (word "SET", .set), (word "DELETE", .delete)]

inductive Lexeme
  | word (w : Text)
  | parameter (n : Nat)
  | symbol (s : Text)
  deriving DecidableEq, Repr

inductive Token
  | name (w : Text)
  | keyword (k : Keyword)
  | parameter (n : Nat)
  | operator (op : Operator)
  | opening
  | closing
  | comma
  | dot
  | unknown (s : Text)
  deriving DecidableEq, Repr

def isDigit (c : UInt8) : Bool := 0x30 ≤ c && c ≤ 0x39

def isLetter (c : UInt8) : Bool := (0x41 ≤ c && c ≤ 0x5A) || (0x61 ≤ c && c ≤ 0x7A) || c == 0x5F

def isWord (c : UInt8) : Bool := isLetter c || isDigit c

def upper (c : UInt8) : UInt8 := if 0x61 ≤ c && c ≤ 0x7A then c - 0x20 else c

def lexer : Munch UInt8 Lexeme where
  start c :=
    if c = 0x20 then none
    else if c = 0x3F then some (.parameter 0)
    else if isWord c then some (.word [c])
    else some (.symbol [c])
  grow
    | .word w, c => if isWord c then some (.word (w ++ [c])) else none
    | .parameter n, c => if isDigit c then some (.parameter (n * 10 + (c.toNat - 0x30))) else none
    | .symbol s, c =>
      if s = [0x3C] ∧ (c = 0x3D ∨ c = 0x3E) ∨ s = [0x3E] ∧ c = 0x3D then some (.symbol (s ++ [c]))
      else none

def symbols : List (Text × Token) :=
  [(word "(", .opening), (word ")", .closing), (word ",", .comma), (word ".", .dot),
    (word "=", .operator .equal), (word "<>", .operator .notEqual), (word "<", .operator .less),
    (word "<=", .operator .lessOrEqual), (word ">", .operator .greater),
    (word ">=", .operator .greaterOrEqual)]

/-- A word of the language is no name, whatever its case. -/
def Lexeme.token : Lexeme → Token
  | .word w =>
    if w.map upper = Sql.word "AND" then .operator .and
    else if w.map upper = Sql.word "OR" then .operator .or
    else match keywords.lookup (w.map upper) with
      | some k => .keyword k
      | none => .name w
  | .parameter n => .parameter n
  | .symbol s => (symbols.lookup s).getD (.unknown s)

def tokens (text : Text) : List Token := (lexer.tokens text).map Lexeme.token

/-! ### Syntax -/

/-- A column without a qualifier has the empty one. -/
inductive Term
  | column (qualifier name : Text)
  | call (function : Text) (t : Term)
  deriving DecidableEq, Repr

structure OrderTerm where
  term : Term
  descending : Bool
  deriving DecidableEq, Repr

/-- What stands behind the condition of a query. -/
inductive Tail
  | none
  | orderBy (terms : List OrderTerm)
  | groupBy (terms : List OrderTerm)
  deriving DecidableEq, Repr

inductive JoinKind
  | inner
  | left
  | right
  deriving DecidableEq, Repr

mutual

inductive Expr
  | column (qualifier name : Text)
  | parameter (n : Nat)
  | binary (op : Operator) (left right : Expr)
  | isNull (e : Expr)
  | inList (negated : Bool) (e : Expr) (parameters : List Nat)
  | notInQuery (e : Expr) (q : Query)

inductive Sources
  | table (name label : Text)
  | join (s : Sources) (kind : JoinKind) (name label : Text) (on : Expr)

inductive Query
  | all (columns : List Term) (s : Sources) (tail : Tail)
  | filtered (columns : List Term) (s : Sources) (condition : Expr) (tail : Tail)

end

inductive InsertVerb
  | insert
  | insertOrIgnore
  | replace
  deriving DecidableEq, Repr

inductive Statement
  | query (q : Query)
  | insert (verb : InsertVerb) (table : Text) (columns : List Text) (parameters : List Nat)
  | insertFrom (table : Text) (columns : List Text) (q : Query)
  | update (table : Text) (setters : List (Text × Nat)) (condition : Option Expr)
  | delete (table : Text) (condition : Expr)

/-! ### The reader -/

/-- A reader of a part of the text, which has steps to spend, and what it leaves. -/
abbrev Reader (A : Type) := Nat → List Token → Option (A × List Token)

/-- One or more parts with commas between them. -/
def separated {A : Type} (p : Reader A) : Reader (List A)
  | 0, _ => none
  | n + 1, ts =>
    match p n ts with
    | some (a, .comma :: rest) =>
      match separated p n rest with
      | some (as, rest) => some (a :: as, rest)
      | none => none
    | some (a, rest) => some ([a], rest)
    | none => none

def name : Reader Text
  | _, .name w :: rest => some (w, rest)
  | _, _ => none

def parameter : Reader Nat
  | _, .parameter n :: rest => some (n, rest)
  | _, _ => none

def setter : Reader (Text × Nat)
  | _, .name w :: .operator .equal :: .parameter n :: rest => some ((w, n), rest)
  | _, _ => none

def term : Reader Term
  | 0, _ => none
  | n + 1, .name f :: .opening :: ts =>
    match term n ts with
    | some (t, .closing :: rest) => some (.call f t, rest)
    | _ => none
  | _ + 1, .name q :: .dot :: .name c :: rest => some (.column q c, rest)
  | _ + 1, .name c :: rest => some (.column [] c, rest)
  | _ + 1, _ => none

def orderTerm : Reader OrderTerm := fun n ts =>
  match term n ts with
  | some (t, .keyword .desc :: rest) => some (⟨t, true⟩, rest)
  | some (t, rest) => some (⟨t, false⟩, rest)
  | none => none

def tail : Reader Tail
  | n, .keyword .order :: .keyword .by :: ts =>
    match separated orderTerm n ts with
    | some (terms, rest) => some (.orderBy terms, rest)
    | none => none
  | n, .keyword .group :: .keyword .by :: ts =>
    match separated orderTerm n ts with
    | some (terms, rest) => some (.groupBy terms, rest)
    | none => none
  | _, rest => some (.none, rest)

/-- The parameters of a list and the end of the list, which may be empty. -/
def list : Reader (List Nat)
  | _, .closing :: rest => some ([], rest)
  | n, ts =>
    match separated parameter n ts with
    | some (ps, .closing :: rest) => some (ps, rest)
    | _ => none

/-- An outer join has a side. -/
def joinKind : List Token → Option (JoinKind × List Token)
  | .keyword .inner :: .keyword .join :: rest => some (.inner, rest)
  | .keyword .left :: .keyword .outer :: .keyword .join :: rest => some (.left, rest)
  | .keyword .right :: .keyword .outer :: .keyword .join :: rest => some (.right, rest)
  | _ => none

mutual

/-- The longest expression whose operators bind at least as tight as `p`. -/
def expr : Nat → Nat → List Token → Option (Expr × List Token)
  | 0, _, _ => none
  | n + 1, p, ts =>
    match operand n ts with
    | some (e, rest) => operators n p e rest
    | none => none

def operand : Reader Expr
  | 0, _ => none
  | n + 1, .opening :: ts =>
    match expr n 1 ts with
    | some (e, .closing :: rest) => some (e, rest)
    | _ => none
  | _ + 1, .name q :: .dot :: .name c :: rest => some (.column q c, rest)
  | _ + 1, .name c :: rest => some (.column [] c, rest)
  | _ + 1, .parameter i :: rest => some (.parameter i, rest)
  | _ + 1, _ => none

/-- The operators behind an expression; those of one precedence are taken from the left. -/
def operators : Nat → Nat → Expr → List Token → Option (Expr × List Token)
  | 0, _, _, _ => none
  | n + 1, p, e, .operator op :: ts =>
    if p ≤ op.precedence then
      match expr n (op.precedence + 1) ts with
      | some (right, rest) => operators n p (.binary op e right) rest
      | none => none
    else some (e, .operator op :: ts)
  | n + 1, p, e, .keyword .is :: .keyword .null :: rest =>
    if p ≤ 3 then operators n p (.isNull e) rest else some (e, .keyword .is :: .keyword .null :: rest)
  | n + 1, p, e, .keyword .in :: .opening :: ts =>
    if p ≤ 3 then
      match list n ts with
      | some (ps, rest) => operators n p (.inList false e ps) rest
      | none => none
    else some (e, .keyword .in :: .opening :: ts)
  | n + 1, p, e, .keyword .not :: .keyword .in :: .opening :: .keyword .select :: ts =>
    if p ≤ 3 then
      match query n (.keyword .select :: ts) with
      | some (q, .closing :: rest) => operators n p (.notInQuery e q) rest
      | _ => none
    else some (e, .keyword .not :: .keyword .in :: .opening :: .keyword .select :: ts)
  | n + 1, p, e, .keyword .not :: .keyword .in :: .opening :: ts =>
    if p ≤ 3 then
      match list n ts with
      | some (ps, rest) => operators n p (.inList true e ps) rest
      | none => none
    else some (e, .keyword .not :: .keyword .in :: .opening :: ts)
  | _ + 1, _, e, rest => some (e, rest)

def joins : Nat → Sources → List Token → Option (Sources × List Token)
  | 0, _, _ => none
  | n + 1, s, ts =>
    match joinKind ts with
    | some (kind, .name t :: .name a :: .keyword .on :: ts) =>
      match expr n 1 ts with
      | some (e, rest) => joins n (.join s kind t a e) rest
      | none => none
    | _ => some (s, ts)

def query : Reader Query
  | 0, _ => none
  | n + 1, .keyword .select :: ts =>
    match separated term n ts with
    | some (columns, .keyword .from :: .name t :: .name a :: ts) =>
      match joins n (.table t a) ts with
      | some (s, .keyword .where :: ts) =>
        match expr n 1 ts with
        | some (e, ts) =>
          match tail n ts with
          | some (l, rest) => some (.filtered columns s e l, rest)
          | none => none
        | none => none
      | some (s, ts) =>
        match tail n ts with
        | some (l, rest) => some (.all columns s l, rest)
        | none => none
      | none => none
    | _ => none
  | _ + 1, _ => none

end

def verb : List Token → Option (InsertVerb × List Token)
  | .keyword .insert :: .operator .or :: .keyword .ignore :: rest => some (.insertOrIgnore, rest)
  | .keyword .insert :: rest => some (.insert, rest)
  | .keyword .replace :: rest => some (.replace, rest)
  | _ => none

def insertion (n : Nat) (v : InsertVerb) (t : Text) (ts : List Token) : Option Statement :=
  match separated name n ts with
  | some (columns, .closing :: .keyword .values :: .opening :: ts) =>
    match separated parameter n ts with
    | some (ps, [.closing]) => some (.insert v t columns ps)
    | _ => none
  | some (columns, .closing :: ts) =>
    match v, query n ts with
    | .insert, some (q, []) => some (.insertFrom t columns q)
    | _, _ => none
  | _ => none

def statementFrom (n : Nat) : List Token → Option Statement
  | .keyword .update :: .name t :: .keyword .set :: ts =>
    match separated setter n ts with
    | some (setters, []) => some (.update t setters none)
    | some (setters, .keyword .where :: ts) =>
      match expr n 1 ts with
      | some (e, []) => some (.update t setters (some e))
      | _ => none
    | _ => none
  | .keyword .delete :: .keyword .from :: .name t :: .keyword .where :: ts =>
    match expr n 1 ts with
    | some (e, []) => some (.delete t e)
    | _ => none
  | .keyword .select :: ts =>
    match query n (.keyword .select :: ts) with
    | some (q, []) => some (.query q)
    | _ => none
  | ts =>
    match verb ts with
    | some (v, .keyword .into :: .name t :: .opening :: ts) => insertion n v t ts
    | _ => none

/-- A step is spent on a token at most twice. -/
def statement (ts : List Token) : Option Statement := statementFrom (2 * ts.length + 1) ts

def read (text : Text) : Option Statement := statement (tokens text)

end Vds.Library.Sql
