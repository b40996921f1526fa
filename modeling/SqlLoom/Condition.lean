/-
  Conditions as callers write them.

  An `Operator` is the test of a column without the column: `= 5`, `IN (1, 2)`, `LIKE 'a%'`.  A
  `Condition` combines operators, names the columns they are about and may hold raw SQL:

      {age: = 5, name: LIKE 'a%'}          a record: each column with its test
      and [{age: > 1}, or [{b: = 2}, …]]   a combinator of conditions
      {age: or [= 1, = 2]}                 a column paired with a combinator of bare operators

  Operators keep whatever operand they were built with; whether an operand suits its operator is
  decided when the condition is lowered (`SqlLoom.Condition.Lowering`).
-/
import SqlLoom.Query

namespace SqlLoom

/-- The tests of a column. -/
inductive OperatorKind where
  | eq
  | ne
  | gt
  | gte
  | lt
  | lte
  | eqColumn
  | isIn
  | notIn
  | between
  | like
  | ilike
  | isNull
  | isNotNull
  | hasAny
  | hasAll
  | inTuple
  | hasRows
  | hasNoRows
  deriving DecidableEq, Repr

/-- The name of a test in messages. -/
def OperatorKind.label : OperatorKind → String
  | eq => "eq"
  | ne => "ne"
  | gt => "gt"
  | gte => "gte"
  | lt => "lt"
  | lte => "lte"
  | eqColumn => "eq_col"
  | isIn => "in"
  | notIn => "not_in"
  | between => "between"
  | like => "like"
  | ilike => "ilike"
  | isNull => "is_null"
  | isNotNull => "is_not_null"
  | hasAny => "has_any"
  | hasAll => "has_all"
  | inTuple => "in_tuple"
  | hasRows => "exists"
  | hasNoRows => "not_exists"

/-- Every test. -/
def OperatorKind.all : List OperatorKind :=
  [eq, ne, gt, gte, lt, lte, eqColumn, isIn, notIn, between, like, ilike, isNull, isNotNull, hasAny,
    hasAll, inTuple, hasRows, hasNoRows]

theorem OperatorKind.mem_all (k : OperatorKind) : k ∈ all := by
  cases k <;> decide

/-- The right side of a test. -/
inductive Operand where
  | nothing
  | value (v : Value)
  | list (items : List Value)
  | column (name : String)
  | subquery (s : Subquery)

/-- A test and its right side. -/
structure Operator where
  kind : OperatorKind
  operand : Operand

/-- How conditions are combined. -/
inductive Connective where
  | and
  | or
  | not
  deriving DecidableEq, Repr

/-- The name of a connective in messages. -/
def Connective.label : Connective → String
  | and => "and"
  | or => "or"
  | not => "not"

/-- Every connective. -/
def Connective.all : List Connective :=
  [and, or, not]

mutual

/-- A condition. -/
inductive Condition where
  | operator (op : Operator)
  | combined (c : Combinator)
  | record (entries : List (String × ColumnTest))
  | raw (sql : String)

/-- Conditions under a connective.  Any number is allowed here; NOT wants exactly one. -/
inductive Combinator where
  | mk (connective : Connective) (conditions : List Condition)

/-- What a column may be paired with. -/
inductive ColumnTest where
  | operator (op : Operator)
  | combined (c : Combinator)

end

/-- Columns with their tests. -/
abbrev ConditionRecord := List (String × ColumnTest)

namespace Combinator

/-- The connective. -/
def connective : Combinator → Connective
  | ⟨connective, _⟩ => connective

/-- The combined conditions. -/
def conditions : Combinator → List Condition
  | ⟨_, conditions⟩ => conditions

/-- All of the conditions. -/
def and (conditions : List Condition) : Combinator := ⟨.and, conditions⟩

/-- One of the conditions. -/
def or (conditions : List Condition) : Combinator := ⟨.or, conditions⟩

/-- The opposite of a condition. -/
def not (condition : Condition) : Combinator := ⟨.not, [condition]⟩

end Combinator

namespace Condition

/-- One column with its test. -/
def pair (column : String) (test : ColumnTest) : Condition :=
  .record [(column, test)]

end Condition

/-! ## Building operators -/

namespace Operator

/-- A comparison with a value or a subquery. -/
inductive Comparand where
  | value (v : Value)
  | subquery (s : Subquery)

/-- The comparand as an operand. -/
def Comparand.toOperand : Comparand → Operand
  | value v => .value v
  | subquery s => .subquery s

/-- A test against a value or a subquery. -/
def compare (kind : OperatorKind) (x : Comparand) : Operator :=
  ⟨kind, x.toOperand⟩

/-- A test against a list. -/
def withList (kind : OperatorKind) (items : List Value) : Operator :=
  ⟨kind, .list items⟩

/-- Equality with another column. -/
def eqColumn (name : String) : Operator :=
  ⟨.eqColumn, .column name⟩

/-- Between two bounds, both included. -/
def between (low high : Value) : Operator :=
  withList .between [low, high]

/-- A match with a pattern. -/
def like (pattern : String) : Operator :=
  ⟨.like, .value (.text pattern)⟩

/-- A match with a pattern, upper and lower case alike. -/
def ilike (pattern : String) : Operator :=
  ⟨.ilike, .value (.text pattern)⟩

def isNull : Operator := ⟨.isNull, .nothing⟩

def isNotNull : Operator := ⟨.isNotNull, .nothing⟩

/-- Membership in a list of rows. -/
def inTuple (rows : List Row) : Operator :=
  withList .inTuple (rows.map .array)

end Operator

end SqlLoom
