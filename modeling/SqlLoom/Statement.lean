/-
  Statements: queries that are complete and ready to be written.

  A statement differs from a query in what it no longer has to ask.  A column is one text, already
  joined with its table; the right side of a test is one of four operands; PREWHERE and WHERE
  conditions stand in one list, told apart by a mark on each condition.  One structure serves all
  four kinds of statement, and each kind reads the fields that it has.

  Statements can also be given directly.  Then the operand of a NOT, the statement of a subquery and
  the parts of a CASE branch may still be missing, and such a statement cannot be written.
-/
import SqlLoom.Query

namespace SqlLoom

/-- The four kinds of statement. -/
inductive StatementKind where
  | select
  | insert
  | update
  | delete
  deriving DecidableEq, Repr

/-- The name of a kind in messages. -/
def StatementKind.label : StatementKind → String
  | select => "select"
  | insert => "insert"
  | update => "update"
  | delete => "delete"

/-- Every kind of statement. -/
def StatementKind.all : List StatementKind :=
  [select, insert, update, delete]

/-- One sort key of a statement. -/
structure Statement.OrderItem where
  column : String
  direction : Direction
  deriving DecidableEq, Repr

mutual

/-- An expression of a statement, with its alias. -/
inductive Statement.Expr where
  | column (name : String) (label : Option String)
  | value (v : Value) (label : Option String)
  | array (items : List Value) (label : Option String)
  | tuple (items : List Value) (label : Option String)
  | subquery (query : Option Statement) (label : Option String)
  | raw (sql : String) (label : Option String)
  | call (function : String) (args : List Statement.Expr) (label : Option String)
  | cases (branches : List Statement.Branch) (otherwise : Option Statement.Expr)
      (label : Option String)

/-- `WHEN condition THEN result`. -/
inductive Statement.Branch where
  | mk (condition : Option Statement.Predicate) (result : Option Statement.Expr)

/-- A condition of a statement.  The last field of each form marks a PREWHERE condition. -/
inductive Statement.Predicate where
  | compare (left : String) (operator : String) (right : Statement.Operand) (early : Bool)
  | and (children : List Statement.Predicate) (grouped : Bool) (early : Bool)
  | or (children : List Statement.Predicate) (early : Bool)
  | not (child : Option Statement.Predicate) (early : Bool)
  | raw (sql : String) (early : Bool)

/-- The right side of a test. -/
inductive Statement.Operand where
  | value (v : Value)
  | list (items : List Value)
  | column (name : String)
  | subquery (query : Option Statement)

/-- Where rows come from, or the target of a change. -/
inductive Statement.Source where
  | table (name : String)
  | subquery (query : Option Statement)

/-- `… JOIN source AS label ON condition`. -/
inductive Statement.JoinClause where
  | mk (kind : JoinKind) (source : Statement.Source) (label : Option String)
      (condition : Statement.Predicate)

/-- `WITH name AS query`. -/
inductive Statement.WithClause where
  | mk (name : String) (query : Option Statement)

/-- `UNION query`. -/
inductive Statement.UnionMember where
  | mk (operator : SetOperator) (query : Option Statement)

/-- A statement of any kind. -/
structure Statement where
  kind : StatementKind
  table : Option Statement.Source
  tableLabel : Option String
  columns : List Statement.Expr
  predicates : List Statement.Predicate
  joins : List Statement.JoinClause
  withs : List Statement.WithClause
  groupBy : List String
  having : List Statement.Predicate
  orderBy : List Statement.OrderItem
  limit : Option Int64
  offset : Option Int64
  final : Bool
  settings : Record
  unions : List Statement.UnionMember
  insertColumns : List String
  rows : List Row
  assignments : Record

end

namespace Statement

/-- The statement of a kind with every field empty. -/
def empty (kind : StatementKind) : Statement where
  kind := kind
  table := none
  tableLabel := none
  columns := []
  predicates := []
  joins := []
  withs := []
  groupBy := []
  having := []
  orderBy := []
  limit := none
  offset := none
  final := false
  settings := []
  unions := []
  insertColumns := []
  rows := []
  assignments := []

instance : Inhabited Statement := ⟨empty .select⟩

/-- The alias of an expression. -/
def Expr.label : Statement.Expr → Option String
  | .column _ label => label
  | .value _ label => label
  | .array _ label => label
  | .tuple _ label => label
  | .subquery _ label => label
  | .raw _ label => label
  | .call _ _ label => label
  | .cases _ _ label => label

/-- Whether a condition belongs to PREWHERE. -/
def Predicate.early : Statement.Predicate → Bool
  | .compare _ _ _ early => early
  | .and _ _ early => early
  | .or _ early => early
  | .not _ early => early
  | .raw _ early => early

/-- The same condition, marked for PREWHERE. -/
def Predicate.markEarly : Statement.Predicate → Statement.Predicate
  | .compare left operator right _ => .compare left operator right true
  | .and children grouped _ => .and children grouped true
  | .or children _ => .or children true
  | .not child _ => .not child true
  | .raw sql _ => .raw sql true

@[simp] theorem Predicate.early_markEarly (p : Statement.Predicate) : p.markEarly.early = true := by
  cases p <;> rfl

end Statement

end SqlLoom
