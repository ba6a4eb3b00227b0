import Vds.Library.Table
import Vds.WsApi.Requests

/-! `database_orm.h`: the statements that the program composes of tables and columns, and the text
and the parameters that `sql_command_builder` makes of them. -/

namespace Vds.Orm

open WsApi (text decimal)

/-! ### Tables and columns -/

/-- A `database_table` object. Two objects may stand for one table of the database. -/
structure DatabaseTable where
  address : Nat
  name : StdString
  deriving DecidableEq, Repr

structure DatabaseColumn where
  owner : DatabaseTable
  name : StdString
  deriving DecidableEq, Repr

/-- `std::map<const database_table *, std::string>`. -/
abbrev Aliases := Table DatabaseTable StdString

/-- What the language leaves to the compiler: whether `aliases[t]` is made before the size of the
map is taken, and which operand of each `+` is evaluated first. -/
structure Order where
  insertFirst : Bool
  leftFirst : Nat → Bool

/-- `aliases[t] = "t" + std::to_string(aliases.size())`. -/
def assignAlias (insertFirst : Bool) (t : DatabaseTable) (aliases : Aliases) : Aliases :=
  let size := if insertFirst then (aliases.insert t []).keys.length else aliases.keys.length
  aliases.insert t (text "t" ++ decimal size)

/-! ### The builder -/

/-- `_database_sql_builder`, where a parameter is the value that its function sets, and the choices
that the compiler still has to make. -/
structure SqlBuilder (V : Type) where
  aliases : Aliases
  setParameters : List V
  leftFirst : Nat → Bool

/-- An expression of type `std::string` that uses the builder. -/
abbrev Emit (V : Type) := SqlBuilder V → Except StdString (StdString × SqlBuilder V)

section Builder

variable {V : Type}

def literal (s : StdString) : Emit V := fun builder => .ok (s, builder)

/-- `operator +` of two strings. -/
def plus (left right : Emit V) : Emit V := fun builder =>
  let first := builder.leftFirst 0
  let builder := { builder with leftFirst := fun n => builder.leftFirst (n + 1) }
  if first then do
    let (s, builder) ← left builder
    let (u, builder) ← right builder
    return (s ++ u, builder)
  else do
    let (u, builder) ← right builder
    let (s, builder) ← left builder
    return (s ++ u, builder)

/-- The sum of several strings, which the language groups from the left. -/
def sum (first : Emit V) (others : List (Emit V)) : Emit V := others.foldl plus first

def getAlias (t : DatabaseTable) : Emit V := fun builder =>
  match builder.aliases.lookup t with
  | some label => .ok (label, builder)
  | none => .error (text "Table " ++ t.name ++ text " not found")

def addParameter (value : V) : Emit V := fun builder =>
  let values := builder.setParameters ++ [value]
  .ok (text "?" ++ decimal values.length, { builder with setParameters := values })

/-- The parameters of a container, with commas between them. -/
def addParameters : StdString → List V → Emit V
  | list, [] => literal list
  | list, value :: values => fun builder => do
    let (s, builder) ← addParameter value builder
    addParameters ((if list.isEmpty then list else list ++ text ",") ++ s) values builder

/-! ### Columns -/

/-- `visit` of `_database_column_exp` and of `_db_simple_column`. -/
def DatabaseColumn.visit (column : DatabaseColumn) : Emit V := fun builder => do
  let (label, builder) ← getAlias column.owner builder
  return (if label.isEmpty then column.name else label ++ text "." ++ column.name, builder)

/-- What a query selects. -/
inductive Selected
  | simpleColumn (column : DatabaseColumn)
  | min (column : Selected)
  | max (column : Selected)
  | length (column : Selected)
  | sum (column : Selected)
  | count (column : Selected)
  deriving DecidableEq

def Selected.visit : Selected → Emit V
  | .simpleColumn column => column.visit
  | .min column => Orm.sum (literal (text "MIN(")) [column.visit, literal (text ")")]
  | .max column => Orm.sum (literal (text "MAX(")) [column.visit, literal (text ")")]
  | .length column => Orm.sum (literal (text "LENGTH(")) [column.visit, literal (text ")")]
  | .sum column => Orm.sum (literal (text "SUM(")) [column.visit, literal (text ")")]
  | .count column => Orm.sum (literal (text "COUNT(")) [column.visit, literal (text ")")]

/-- A column of `order_by` or `group_by`. -/
inductive OrderColumn
  | column (column : DatabaseColumn)
  | exp (column : Selected)
  | desc (column : Selected)
  deriving DecidableEq

def OrderColumn.visit : OrderColumn → Emit V
  | .column c => fun builder => do
    let (label, builder) ← getAlias c.owner builder
    return (label ++ text "." ++ c.name, builder)
  | .exp c => c.visit
  | .desc c => plus c.visit (literal (text " DESC"))

/-- `generate_columns`, and `generate_select` but for the index of a column in the result. -/
def generateColumns {C : Type} (visit : C → Emit V) : C → List C → Emit V
  | column, [] => visit column
  | column, next :: columns =>
    Orm.sum (visit column) [literal (text ","), generateColumns visit next columns]

end Builder

/-! ### Expressions and queries -/

inductive Relation
  | equ
  | notEqu
  | less
  | lessOrEqu
  | greaterOrEqu
  | greater
  deriving DecidableEq, Repr

def Relation.sign : Relation → StdString
  | .equ => text "="
  | .notEqu => text "<>"
  | .less => text "<"
  | .lessOrEqu => text "<="
  | .greaterOrEqu => text ">="
  | .greater => text ">"

/-- `_database_column_exp` and `_database_value_exp`. -/
inductive Operand (V : Type)
  | column (column : DatabaseColumn)
  | value (value : V)

def Operand.visit {V : Type} : Operand V → Emit V
  | .column c => c.visit
  | .value v => addParameter v

inductive JoinT
  | inner
  | left
  | right
  | outer
  deriving DecidableEq, Repr

def JoinT.joinStr : JoinT → StdString
  | .inner => text " INNER JOIN "
  | .left => text " LEFT OUTER JOIN "
  | .right => text " RIGHT OUTER JOIN "
  | .outer => text " OUTER JOIN "

/-- `_database_order_builder` and `_database_group_by_builder`, or none of them. -/
inductive Final
  | none
  | orderBy (column : OrderColumn) (columns : List OrderColumn)
  | groupBy (column : OrderColumn) (columns : List OrderColumn)
  deriving DecidableEq

mutual

inductive Exp (V : Type)
  | compare (relation : Relation) (left right : Operand V)
  | logicalAnd (left right : Exp V)
  | logicalOr (left right : Exp V)
  | notIn (left : DatabaseColumn) (right : Reader V)
  | notInValues (left : DatabaseColumn) (right : List V)
  | inValues (left : DatabaseColumn) (right : List V)
  | isNull (left : DatabaseColumn)

/-- `_database_select_builder`, and `_database_reader_builder_with_join` over it. -/
inductive Sources (V : Type)
  | select (t : DatabaseTable) (column : Selected) (columns : List Selected)
  | join (baseSource : Sources V) (table : DatabaseTable) (cond : Exp V) (joinType : JoinT)

/-- A query without a condition, and `_database_reader_builder_with_where`. -/
inductive Reader (V : Type)
  | sources (baseSource : Sources V) (final : Final)
  | where_ (baseSource : Sources V) (cond : Exp V) (final : Final)

end

section Visits

variable {V : Type}

/-- `generate_select`. -/
def Sources.generateSelect : Sources V → Emit V
  | .select _ column columns => generateColumns Selected.visit column columns
  | .join baseSource .. => baseSource.generateSelect

def Final.finalSql : Final → Emit V
  | .none => literal []
  | .orderBy column columns =>
    plus (literal (text " ORDER BY ")) (generateColumns OrderColumn.visit column columns)
  | .groupBy column columns =>
    plus (literal (text " GROUP BY ")) (generateColumns OrderColumn.visit column columns)

def Reader.generateSelect : Reader V → Emit V
  | .sources baseSource _ => baseSource.generateSelect
  | .where_ baseSource _ _ => baseSource.generateSelect

def Reader.finalSql : Reader V → Emit V
  | .sources _ final => final.finalSql
  | .where_ _ _ final => final.finalSql

/-- `start_sql` of a query over `base`. -/
def startSelect (base : Emit V) : Emit V := plus base (literal (text "SELECT "))

mutual

def Exp.collectAliases (insertFirst : Bool) : Exp V → Aliases → Aliases
  | .compare .., aliases => aliases
  | .logicalAnd left right, aliases =>
    right.collectAliases insertFirst (left.collectAliases insertFirst aliases)
  | .logicalOr left right, aliases =>
    right.collectAliases insertFirst (left.collectAliases insertFirst aliases)
  | .notIn _ right, aliases => right.collectAliases insertFirst aliases
  | .notInValues .., aliases => aliases
  | .inValues .., aliases => aliases
  | .isNull _, aliases => aliases

/-- The condition of a join is not asked for its tables. -/
def Sources.collectAliases (insertFirst : Bool) : Sources V → Aliases → Aliases
  | .select t .., aliases => assignAlias insertFirst t aliases
  | .join baseSource table _ _, aliases =>
    assignAlias insertFirst table (baseSource.collectAliases insertFirst aliases)

def Reader.collectAliases (insertFirst : Bool) : Reader V → Aliases → Aliases
  | .sources baseSource _, aliases => baseSource.collectAliases insertFirst aliases
  | .where_ baseSource cond _, aliases =>
    cond.collectAliases insertFirst (baseSource.collectAliases insertFirst aliases)

end

mutual

def Exp.visit : Exp V → Emit V
  | .compare relation left right => Orm.sum left.visit [literal relation.sign, right.visit]
  | .logicalAnd left right =>
    Orm.sum (literal (text "(")) [left.visit, literal (text ") AND ("), right.visit, literal (text ")")]
  | .logicalOr left right =>
    Orm.sum (literal (text "(")) [left.visit, literal (text ") OR ("), right.visit, literal (text ")")]
  | .notIn left right =>
    Orm.sum left.visit [literal (text " NOT IN ("), startSelect (literal []), right.generateSelect,
      right.collectSources, right.collectCondition, right.finalSql, literal (text ")")]
  | .notInValues left right => fun builder => do
    let (list, builder) ← addParameters [] right builder
    Orm.sum left.visit [literal (text " NOT IN ("), literal list, literal (text ")")] builder
  | .inValues left right => fun builder => do
    let (list, builder) ← addParameters [] right builder
    Orm.sum left.visit [literal (text " IN ("), literal list, literal (text ")")] builder
  | .isNull left => Orm.sum (literal (text "(")) [left.visit, literal (text " IS NULL )")]

def Sources.collectSources : Sources V → Emit V
  | .select t .. => Orm.sum (literal (text " FROM ")) [literal t.name, literal (text " "), getAlias t]
  | .join baseSource table cond joinType =>
    Orm.sum baseSource.collectSources [literal joinType.joinStr, literal table.name, literal (text " "),
      getAlias table, literal (text " ON "), cond.visit]

def Reader.collectSources : Reader V → Emit V
  | .sources baseSource _ => baseSource.collectSources
  | .where_ baseSource _ _ => baseSource.collectSources

def Reader.collectCondition : Reader V → Emit V
  | .sources .. => literal []
  | .where_ _ cond _ => plus (literal (text " WHERE ")) cond.visit

end

/-! ### Statements -/

inductive InsertStrategy
  | regular
  | replace
  | ignore
  deriving DecidableEq, Repr

/-- Of the table and the columns that are written only the names are used. -/
inductive Statement (V : Type)
  | reader (r : Reader V)
  | insert (strategy : InsertStrategy) (table : StdString) (setter : StdString × V)
    (setters : List (StdString × V))
  | insertFrom (table : StdString) (column : StdString) (columns : List StdString) (r : Reader V)
  | update (table : DatabaseTable) (setter : StdString × V) (setters : List (StdString × V))
    (cond : Option (Exp V))
  | delete (table : DatabaseTable) (cond : Exp V)

/-- Texts with commas between them. -/
def commas : StdString → List StdString → StdString
  | s, [] => s
  | s, u :: us => s ++ text "," ++ commas u us

def InsertStrategy.sql : InsertStrategy → StdString
  | .replace => text "REPLACE"
  | .ignore => text "INSERT OR IGNORE"
  | .regular => text "INSERT"

/-- `add_parameter` in a loop, each with the text before it. -/
def addSetters (sql : StdString) : List (StdString × V) → Emit V
  | [] => literal sql
  | (before, value) :: setters => fun builder => do
    let (s, builder) ← addParameter value builder
    addSetters (sql ++ before ++ s) setters builder

def Statement.startSql : Statement V → Emit V
  | .reader _ => startSelect (literal [])
  | .insert strategy table setter setters => fun builder => do
    let sql := strategy.sql ++ text " INTO " ++ table ++ text "(" ++
      commas setter.1 (setters.map Prod.fst) ++ text ") VALUES ("
    let (sql, builder) ← addSetters sql
      (([], setter.2) :: setters.map fun s => (text ",", s.2)) builder
    return (sql ++ text ")", builder)
  | .insertFrom table column columns _ =>
    startSelect (literal (text "INSERT INTO " ++ table ++ text "(" ++ commas column columns ++ text ") "))
  | .update table setter setters _ =>
    addSetters (text "UPDATE " ++ table.name ++ text " SET ")
      ((setter.1 ++ text "=", setter.2) :: setters.map fun s => (text "," ++ s.1 ++ text "=", s.2))
  | .delete table _ => literal (text "DELETE FROM " ++ table.name)

def Statement.generateSelect : Statement V → Emit V
  | .reader r => r.generateSelect
  | .insertFrom _ _ _ r => r.generateSelect
  | _ => literal []

def Statement.collectSources : Statement V → Emit V
  | .reader r => r.collectSources
  | .insertFrom _ _ _ r => r.collectSources
  | _ => literal []

def Statement.collectCondition : Statement V → Emit V
  | .reader r => r.collectCondition
  | .insertFrom _ _ _ r => r.collectCondition
  | .update _ _ _ (some cond) => plus (literal (text " WHERE ")) cond.visit
  | .delete _ cond => plus (literal (text " WHERE ")) cond.visit
  | _ => literal []

def Statement.finalSql : Statement V → Emit V
  | .reader r => r.finalSql
  | .insertFrom _ _ _ r => r.finalSql
  | _ => literal []

def Statement.collectAliases (insertFirst : Bool) : Statement V → Aliases
  | .reader r => r.collectAliases insertFirst ∅
  | .insert .. => ∅
  | .insertFrom _ _ _ r => r.collectAliases insertFirst ∅
  | .update table _ _ none => (∅ : Aliases).insert table []
  | .update table _ _ (some cond) => cond.collectAliases insertFirst ((∅ : Aliases).insert table [])
  | .delete table cond => cond.collectAliases insertFirst ((∅ : Aliases).insert table table.name)

/-- `sql_command_builder::build`: the text for `parse`, and the value of each parameter of it. -/
def Statement.build (order : Order) (source : Statement V) : Except StdString (StdString × List V) := do
  let builder : SqlBuilder V := ⟨source.collectAliases order.insertFirst, [], order.leftFirst⟩
  let (sql, builder) ← Orm.sum source.startSql [source.generateSelect, source.collectSources,
    source.collectCondition, source.finalSql] builder
  return (sql, builder.setParameters)

end Visits
end Vds.Orm
