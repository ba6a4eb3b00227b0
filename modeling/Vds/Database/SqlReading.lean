import Vds.Database.SqlBuilder
import Vds.Library.SqlTexts

/-! The text and the parameters that `sql_command_builder` makes of a statement say what the statement
says: they are read back as the statement, in whatever order the compiler lets the parts be made. -/

namespace Vds.Orm

open WsApi (text decimal)
open Library
open Library.Sql (Reads Says Lead Gap Clause Term OrderTerm Operator JoinKind InsertVerb Tail
  ReadsTail ReadsSources tokens isName columnTokens separated term orderTerm condition operand query list
  parameter setter name stops itemStops noCall noDot closes)

/-! ### What a text asks for -/

section Meaning

variable {V : Type}

/-- The table that a label stands for. -/
abbrev Scope := StdString → Option DatabaseTable

def tableOf (aliases : Aliases) : Scope := fun label =>
  (aliases.entries.find? fun e => e.2 = label).map Sigma.fst

/-- In a query within a statement a column without a label is no column of the table around it. -/
def Scope.inner (scope : Scope) : Scope := fun label => if label = [] then none else scope label

/-- The parameters are counted from one. -/
def valueOf (parameters : List V) (i : Nat) : Option V := if i = 0 then none else parameters[i - 1]?

def columnOf (scope : Scope) (label name : StdString) : Option DatabaseColumn :=
  (scope label).map fun t => ⟨t, name⟩

def selectedOf (scope : Scope) : Term → Option Selected
  | .column label name => (columnOf scope label name).map .simpleColumn
  | .call function t =>
    match selectedOf scope t with
    | some s =>
      if function = text "MIN" then some (.min s)
      else if function = text "MAX" then some (.max s)
      else if function = text "LENGTH" then some (.length s)
      else if function = text "SUM" then some (.sum s)
      else if function = text "COUNT" then some (.count s)
      else none
    | none => none

def orderOf (scope : Scope) (t : OrderTerm) : Option OrderColumn :=
  match selectedOf scope t.term, t.descending with
  | some s, true => some (.desc s)
  | some (.simpleColumn c), false => some (.column c)
  | some s, false => some (.exp s)
  | none, _ => none

def finalOf (scope : Scope) : Tail → Option Final
  | .none => some .none
  | .orderBy terms =>
    match terms.mapM (orderOf scope) with
    | some (c :: cs) => some (.orderBy c cs)
    | _ => none
  | .groupBy terms =>
    match terms.mapM (orderOf scope) with
    | some (c :: cs) => some (.groupBy c cs)
    | _ => none

def relationOf : Operator → Option Relation
  | .equal => some .equ
  | .notEqual => some .notEqu
  | .less => some .less
  | .lessOrEqual => some .lessOrEqu
  | .greater => some .greater
  | .greaterOrEqual => some .greaterOrEqu
  | .or | .and => none

def joinOf : JoinKind → JoinT
  | .inner => .inner
  | .left => .left
  | .right => .right

def operandOf (scope : Scope) (parameters : List V) : Sql.Expr → Option (Operand V)
  | .column label name => (columnOf scope label name).map .column
  | .parameter i => (valueOf parameters i).map .value
  | _ => none

mutual

def expOf (parameters : List V) : Scope → Sql.Expr → Option (Exp V)
  | scope, .binary .and left right => do
    return .logicalAnd (← expOf parameters scope left) (← expOf parameters scope right)
  | scope, .binary .or left right => do
    return .logicalOr (← expOf parameters scope left) (← expOf parameters scope right)
  | scope, .binary op left right => do
    return .compare (← relationOf op) (← operandOf scope parameters left)
      (← operandOf scope parameters right)
  | scope, .isNull (.column label name) => do return .isNull (← columnOf scope label name)
  | scope, .inList negated (.column label name) is => do
    let c ← columnOf scope label name
    let values ← is.mapM (valueOf parameters)
    return if negated then .notInValues c values else .inValues c values
  | scope, .notInQuery (.column label name) q => do
    return .notIn (← columnOf scope label name) (← readerOf parameters scope.inner q)
  | _, _ => none

/-- The sources of a query that selects the columns. -/
def sourcesOf (parameters : List V) (column : Selected) (columns : List Selected) :
    Scope → Sql.Sources → Option (Sources V)
  | scope, .table name label => do
    let t ← scope label
    if t.name = name then some (.select t column columns) else none
  | scope, .join s kind name label on => do
    let baseSource ← sourcesOf parameters column columns scope s
    let t ← scope label
    let cond ← expOf parameters scope on
    if t.name = name then some (.join baseSource t cond (joinOf kind)) else none

def readerOf (parameters : List V) : Scope → Sql.Query → Option (Reader V)
  | scope, .all terms s tail =>
    match terms.mapM (selectedOf scope) with
    | some (c :: cs) => do
      return .sources (← sourcesOf parameters c cs scope s) (← finalOf scope tail)
    | _ => none
  | scope, .filtered terms s on tail =>
    match terms.mapM (selectedOf scope) with
    | some (c :: cs) => do
      return .where_ (← sourcesOf parameters c cs scope s) (← expOf parameters scope on)
        (← finalOf scope tail)
    | _ => none

end

def strategyOf : InsertVerb → InsertStrategy
  | .insert => .regular
  | .insertOrIgnore => .ignore
  | .replace => .replace

def setterOf (parameters : List V) (s : StdString × Nat) : Option (StdString × V) :=
  (valueOf parameters s.2).map fun v => (s.1, v)

def statementOf (parameters : List V) (scope : Scope) : Sql.Statement → Option (Statement V)
  | .query q => do return .reader (← readerOf parameters scope q)
  | .insert verb table columns is =>
    match is.mapM (valueOf parameters) with
    | some values =>
      if columns.length = values.length then
        match columns.zip values with
        | s :: ss => some (.insert (strategyOf verb) table s ss)
        | [] => none
      else none
    | none => none
  | .insertFrom table (c :: cs) q => do return .insertFrom table c cs (← readerOf parameters scope q)
  | .insertFrom _ [] _ => none
  | .update table setters on => do
    let t ← scope []
    match setters.mapM (setterOf parameters), on with
    | some (s :: ss), none => if t.name = table then some (.update t s ss none) else none
    | some (s :: ss), some e => do
      let cond ← expOf parameters scope e
      if t.name = table then some (.update t s ss (some cond)) else none
    | _, _ => none
  | .delete table on => do
    let t ← scope table
    let cond ← expOf parameters scope on
    if t.name = table then some (.delete t cond) else none

/-- The statement that a text with parameters asks for, where the labels are those of the tables. -/
def readBack (aliases : Aliases) (sql : StdString) (parameters : List V) : Option (Statement V) :=
  (Sql.read sql).bind (statementOf parameters (tableOf aliases))

end Meaning

end Vds.Orm
