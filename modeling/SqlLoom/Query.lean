/-
  Queries as they are put together: the syntax tree.

  A tree may be incomplete.  An operand of NOT, a condition or result of a CASE branch and the query
  of a subquery may be missing, names may be empty and a written operator may be any text; telling
  the good trees from the bad ones is the job of `SqlLoom.Query.Findings`.

  * `Column`     — a column, with the table it is qualified by;
  * `Expr`       — what may stand in a select list;
  * `Predicate`  — conditions, with AND groups marked when they were grouped on purpose;
  * `Select`, `Insert`, `Update`, `Delete` — the four kinds of query, summed up in `Query`.
-/
import SqlLoom.Value

namespace SqlLoom

/-! ## Columns -/

/-- A reference to a column, perhaps qualified by a table and perhaps renamed. -/
structure Column where
  name : String
  table : Option String := none
  label : Option String := none
  deriving DecidableEq, Repr

namespace Column

/-- Reads `table.column`, split at the first dot; without a dot all of it is the column. -/
def ofText (s : String) : Column :=
  match s.toList.dropWhile (· ≠ '.') with
  | [] => { name := s }
  | _ :: rest =>
    { name := String.ofList rest, table := some (String.ofList (s.toList.takeWhile (· ≠ '.'))) }

/-- No column at all: the left side of EXISTS. -/
def absent : Column :=
  { name := "" }

/-- `table.column`, or the bare column. -/
def joined (c : Column) : String :=
  match c.table with
  | some table => table ++ "." ++ c.name
  | none => c.name

/-- A name that is read as a column is joined to the same name again. -/
@[simp] theorem joined_ofText (s : String) : (ofText s).joined = s := by
  have hsplit : s.toList.takeWhile (· ≠ '.') ++ s.toList.dropWhile (· ≠ '.') = s.toList :=
    List.takeWhile_append_dropWhile
  have hhead := List.head?_dropWhile_not (· ≠ '.') s.toList
  unfold ofText
  split
  · rfl
  · rename_i c rest hdrop
    rw [hdrop] at hsplit hhead
    obtain rfl : c = '.' := by simpa using hhead
    have hchars : (String.ofList (s.toList.takeWhile (· ≠ '.')) ++ "."
        ++ String.ofList rest).toList = s.toList := by
      simpa using hsplit
    exact String.toList_inj.mp hchars

end Column

/-! ## Words of the query language -/

/-- The direction of one sort key. -/
inductive Direction where
  | asc
  | desc
  deriving DecidableEq, Repr

/-- The keyword of a direction. -/
def Direction.keyword : Direction → String
  | asc => "ASC"
  | desc => "DESC"

/-- Both directions. -/
def Direction.all : List Direction :=
  [asc, desc]

/-- The kinds of joins. -/
inductive JoinKind where
  | inner
  | left
  | right
  | full
  deriving DecidableEq, Repr

/-- The keyword of a kind of join. -/
def JoinKind.keyword : JoinKind → String
  | inner => "INNER"
  | left => "LEFT"
  | right => "RIGHT"
  | full => "FULL"

/-- Every kind of join. -/
def JoinKind.all : List JoinKind :=
  [inner, left, right, full]

/-- The operators that combine whole queries. -/
inductive SetOperator where
  | union
  | unionAll
  deriving DecidableEq, Repr

/-- The keywords of a set operator. -/
def SetOperator.keyword : SetOperator → String
  | union => "UNION"
  | unionAll => "UNION ALL"

/-- Both set operators. -/
def SetOperator.all : List SetOperator :=
  [union, unionAll]

/-- One sort key. -/
structure OrderItem where
  column : Column
  direction : Direction := .asc
  deriving DecidableEq, Repr

/-! ## The tree -/

mutual

/-- An expression.  Every form but a column and a subquery carries its own alias; those two hold it
    inside. -/
inductive Expr where
  | column (c : Column)
  | value (v : Value) (label : Option String)
  | array (items : List Value) (label : Option String)
  | tuple (items : List Value) (label : Option String)
  | subquery (s : Subquery)
  | raw (sql : String) (label : Option String)
  | call (function : String) (args : List Expr) (label : Option String)
  | cases (branches : List Branch) (otherwise : Option Expr) (label : Option String)

/-- `WHEN condition THEN result`. -/
structure Branch where
  condition : Option Predicate
  result : Option Expr

/-- A condition.  `grouped` tells an AND that was asked for from one that collects repeated
    conditions. -/
inductive Predicate where
  | compare (left : Expr) (operator : String) (right : Expr)
  | and (children : List Predicate) (grouped : Bool)
  | or (children : List Predicate)
  | not (child : Option Predicate)
  | raw (sql : String)

/-- A query inside another one. -/
structure Subquery where
  select : Option Select
  label : Option String

/-- Where rows come from. -/
inductive Source where
  | table (name : String)
  | subquery (s : Subquery)

/-- `FROM source AS label`. -/
structure FromClause where
  source : Source
  label : Option String

/-- `… JOIN source AS label ON condition`. -/
structure JoinClause where
  kind : JoinKind
  source : Source
  label : Option String
  condition : Predicate

/-- `WITH name AS query`. -/
structure WithClause where
  name : String
  query : Subquery

/-- `UNION query`. -/
structure UnionMember where
  operator : SetOperator
  query : Subquery

/-- A SELECT.  `filter` is its WHERE condition; `recorded` holds the problems that were met while
    it was put together. -/
structure Select where
  columns : List Expr
  source : Option FromClause
  joins : List JoinClause
  withs : List WithClause
  prewhere : Option Predicate
  filter : Option Predicate
  groupBy : List Column
  having : Option Predicate
  orderBy : List OrderItem
  limit : Option Int64
  offset : Option Int64
  final : Bool
  settings : Record
  format : Option String
  unions : List UnionMember
  recorded : List String

end

/-- The query `SELECT *`, which all others start from. -/
def Select.empty : Select where
  columns := []
  source := none
  joins := []
  withs := []
  prewhere := none
  filter := none
  groupBy := []
  having := none
  orderBy := []
  limit := none
  offset := none
  final := false
  settings := []
  format := none
  unions := []
  recorded := []

instance : Inhabited Select := ⟨.empty⟩

/-- An INSERT of literal rows. -/
structure Insert where
  table : String
  columns : List String := []
  rows : List Row := []
  format : Option String := none

/-- An UPDATE. -/
structure Update where
  table : String
  assignments : Record := []
  filter : Option Predicate := none
  settings : Record := []
  recorded : List String := []

/-- A DELETE. -/
structure Delete where
  table : String
  filter : Option Predicate := none
  settings : Record := []
  recorded : List String := []

/-- A query of any kind. -/
inductive Query where
  | select (q : Select)
  | insert (q : Insert)
  | update (q : Update)
  | delete (q : Delete)

/-! ## Expressions -/

namespace Expr

/-- The column that a text names. -/
def named (s : String) : Expr :=
  .column (Column.ofText s)

/-- A value without an alias. -/
def lit (v : Value) : Expr :=
  .value v none

/-- The alias of an expression, wherever it is held. -/
def label : Expr → Option String
  | .column c => c.label
  | .value _ label => label
  | .array _ label => label
  | .tuple _ label => label
  | .subquery s => s.label
  | .raw _ label => label
  | .call _ _ label => label
  | .cases _ _ label => label

/-- The same expression under an alias. -/
def withLabel (label : String) : Expr → Expr
  | .column c => .column { c with label := some label }
  | .value v _ => .value v (some label)
  | .array items _ => .array items (some label)
  | .tuple items _ => .tuple items (some label)
  | .subquery s => .subquery { s with label := some label }
  | .raw sql _ => .raw sql (some label)
  | .call function args _ => .call function args (some label)
  | .cases branches otherwise _ => .cases branches otherwise (some label)

@[simp] theorem label_withLabel (s : String) (e : Expr) : (e.withLabel s).label = some s := by
  cases e <;> rfl

/-- Whether the expression is a CASE. -/
def isCases : Expr → Bool
  | .cases _ _ _ => true
  | _ => false

mutual

/-- How deep CASE expressions nest through their results and ELSE parts; zero for any other
    expression. -/
def caseDepth : Expr → Nat
  | .cases branches otherwise _ => max (branchDepth branches) (otherwiseDepth otherwise) + 1
  | .column _ => 0
  | .value _ _ => 0
  | .array _ _ => 0
  | .tuple _ _ => 0
  | .subquery _ => 0
  | .raw _ _ => 0
  | .call _ _ _ => 0

/-- The deepest result of the branches. -/
def branchDepth : List Branch → Nat
  | [] => 0
  | ⟨_, result⟩ :: rest => max (otherwiseDepth result) (branchDepth rest)

/-- The depth of an expression that may be missing. -/
def otherwiseDepth : Option Expr → Nat
  | none => 0
  | some e => caseDepth e

end

/-- An alias does not change how deep a CASE nests. -/
@[simp] theorem caseDepth_withLabel (s : String) (e : Expr) :
    (e.withLabel s).caseDepth = e.caseDepth := by
  cases e <;> simp [withLabel, caseDepth]

end Expr

end SqlLoom
