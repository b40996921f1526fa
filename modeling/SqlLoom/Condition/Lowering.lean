/-
  From conditions to predicates.

  Lowering gives each bare operator the column it is about, and there are two ways down.

  * A record names columns.  A combinator that a record pairs with a column hands the column down to
    the bare operators in it, at any depth of combinators (`applyColumn`); a record on the way names
    its own columns again.
  * Anywhere else there is no column (`combinatorToPredicate`, `conditionToPredicate`), and a bare
    operator is a fault.

  Both go through the conditions of a combinator in the same manner, but they are two recursions, each
  with its own handling of every kind of condition.  What can be said of both at once is said of
  `lower scope`, which takes one or the other; there `scope` is the column that is handed down.

  Faults are met in reading order: an empty combinator or record before its parts, the parts from
  left to right, and the number of operands of NOT last.

  `conjoin` collects the predicates of repeated conditions in one flat AND; groups that were asked
  for stay together.
-/
import SqlLoom.Condition
import SqlLoom.Error

namespace SqlLoom

namespace Lowering

/-- What an operator wanted as its operand. -/
inductive Expected where
  | singleValue
  | listOfValues
  deriving DecidableEq, Repr

/-- What was wanted, in words. -/
def Expected.text : Expected → String
  | singleValue => "a single value"
  | listOfValues => "a list of values"

/-- Why a condition is not a predicate. -/
inductive Fault where
  | operandMismatch (kind : OperatorKind) (expected : Expected)
  | columnExpected
  | twoBoundsExpected
  | subqueryExpected (kind : OperatorKind)
  | noColumnInScope (kind : OperatorKind)
  | emptyCombinator (connective : Connective)
  | notTakesOne
  | emptyRecord
  deriving DecidableEq, Repr

/-- The keyword of the two tests that take a subquery and no column. -/
def existsKeyword : OperatorKind → String
  | .hasNoRows => "NOT EXISTS"
  | _ => "EXISTS"

/-- The fault as an error. -/
def Fault.toError : Fault → Error
  | operandMismatch kind expected =>
    .invalid ("Operator " ++ kind.label ++ " expects " ++ expected.text) "operator"
      (some kind.label)
  | columnExpected =>
    .invalid "EqCol expects a column name" "operator" (some OperatorKind.eqColumn.label)
  | twoBoundsExpected =>
    .invalid "BETWEEN requires exactly two values" "operator" (some OperatorKind.between.label)
  | subqueryExpected kind =>
    .invalid (existsKeyword kind ++ " operator requires a subquery") "operator" (some kind.label)
  | noColumnInScope kind =>
    .invalid "Cannot use a bare Operator without a column, pair it with a column name" "operator"
      (some kind.label)
  | emptyCombinator connective =>
    .invalid "Combinator requires at least one condition" "combinator" (some connective.label)
  | notTakesOne =>
    .invalid "Not() takes exactly one condition" "combinator" (some "not")
  | emptyRecord =>
    .invalid "Empty condition record" "where" (some "\x7b\x7d")

end Lowering

open Lowering (Fault)

/-! ## Operators -/

namespace Operator

/-- The operand of a comparison: a value or a subquery. -/
def scalarOperand (op : Operator) : Except Fault Expr :=
  match op.operand with
  | .value v => .ok (.lit v)
  | .subquery s => .ok (.subquery s)
  | _ => .error (.operandMismatch op.kind .singleValue)

/-- The operand of a membership test: a list or a subquery. -/
def memberOperand (op : Operator) : Except Fault Expr :=
  match op.operand with
  | .list items => .ok (.array items none)
  | .subquery s => .ok (.subquery s)
  | _ => .error (.operandMismatch op.kind .listOfValues)

/-- The operand of a test on arrays: a list. -/
def listOperand (op : Operator) : Except Fault Expr :=
  match op.operand with
  | .list items => .ok (.array items none)
  | _ => .error (.operandMismatch op.kind .listOfValues)

/-- The operand of EXISTS: a subquery. -/
def existsOperand (op : Operator) : Except Fault Expr :=
  match op.operand with
  | .subquery s => .ok (.subquery s)
  | _ => .error (.subqueryExpected op.kind)

/-- The operand of an equality of columns. -/
def columnOperand (op : Operator) : Except Fault Expr :=
  match op.operand with
  | .column name => .ok (.named name)
  | _ => .error .columnExpected

/-- The two bounds of BETWEEN. -/
def boundsOperand (op : Operator) : Except Fault Expr :=
  match op.operand with
  | .list [low, high] => .ok (.tuple [low, high] none)
  | _ => .error .twoBoundsExpected

/-- The predicate that tests a column.  EXISTS tests no column and drops it; IS NULL has no
    operand and drops the one it may hold. -/
def toPredicate (column : String) (op : Operator) : Except Fault Predicate :=
  let test (written : String) (operand : Except Fault Expr) : Except Fault Predicate :=
    operand.map (.compare (.named column) written)
  let testNothing (written : String) : Except Fault Predicate :=
    op.existsOperand.map (.compare (.column .absent) written)
  match op.kind with
  | .eq => test "=" op.scalarOperand
  | .ne => test "!=" op.scalarOperand
  | .gt => test ">" op.scalarOperand
  | .gte => test ">=" op.scalarOperand
  | .lt => test "<" op.scalarOperand
  | .lte => test "<=" op.scalarOperand
  | .eqColumn => test "=" op.columnOperand
  | .isIn => test "IN" op.memberOperand
  | .notIn => test "NOT IN" op.memberOperand
  | .between => test "BETWEEN" op.boundsOperand
  | .like => test "LIKE" op.scalarOperand
  | .ilike => test "ILIKE" op.scalarOperand
  | .isNull => test "IS NULL" (.ok (.lit .null))
  | .isNotNull => test "IS NOT NULL" (.ok (.lit .null))
  | .hasAny => test "HAS ANY" op.listOperand
  | .hasAll => test "HAS ALL" op.listOperand
  | .inTuple => test "IN TUPLE" op.listOperand
  | .hasRows => testNothing "EXISTS"
  | .hasNoRows => testNothing "NOT EXISTS"

end Operator

/-! ## Combinators and records -/

namespace Lowering

/-- The predicate of a connective over lowered operands. -/
def combine (connective : Connective) (children : List Predicate) : Except Fault Predicate :=
  match connective with
  | .and => .ok (.and children true)
  | .or => .ok (.or children)
  | .not =>
    match children with
    | [child] => .ok (.not (some child))
    | _ => .error .notTakesOne

/-- The entries of a record hold together; a single entry stands for itself. -/
def combineRecord : List Predicate → Predicate
  | [only] => only
  | children => .and children false

/-- A combinator has to have a condition. -/
def requireConditions (c : Combinator) : Except Fault Unit :=
  if c.conditions.isEmpty then .error (.emptyCombinator c.connective) else .ok ()

/-! ### With a column -/

mutual

/-- The predicate of a record. -/
def lowerRecord : ConditionRecord → Except Fault Predicate
  | [] => .error .emptyRecord
  -- the first entry is taken off here, as the recursion has to go down (see `lowerRecord_cons`)
  | (column, test) :: rest => do
    let p ← lowerTest column test
    let ps ← lowerEntries rest
    return combineRecord (p :: ps)

/-- The predicates of the entries of a record, each about its own column. -/
def lowerEntries : List (String × ColumnTest) → Except Fault (List Predicate)
  | [] => .ok []
  | (column, test) :: rest => do
    let p ← lowerTest column test
    let ps ← lowerEntries rest
    return p :: ps

/-- The predicate of one column's test. -/
def lowerTest (column : String) : ColumnTest → Except Fault Predicate
  | .operator op => op.toPredicate column
  | .combined c => applyColumn column c

/-- The predicate of a combinator that is about a column. -/
def applyColumn (column : String) : Combinator → Except Fault Predicate
  | ⟨connective, conditions⟩ => do
    requireConditions ⟨connective, conditions⟩
    combine connective (← applyColumnEach column conditions)

/-- The predicates of the conditions of such a combinator, in order. -/
def applyColumnEach (column : String) : List Condition → Except Fault (List Predicate)
  | [] => .ok []
  | c :: rest => do
    let p ← applyColumnTo column c
    let ps ← applyColumnEach column rest
    return p :: ps

/-- The predicate of one of them. -/
def applyColumnTo (column : String) : Condition → Except Fault Predicate
  | .operator op => op.toPredicate column
  | .combined nested => applyColumn column nested
  | .record entries => lowerRecord entries
  | .raw sql => .ok (.raw sql)

end

/-! ### Without a column -/

mutual

/-- The predicate of a combinator that is about no column. -/
def combinatorToPredicate : Combinator → Except Fault Predicate
  | ⟨connective, conditions⟩ => do
    requireConditions ⟨connective, conditions⟩
    combine connective (← conditionsToPredicates conditions)

/-- The predicates of its conditions, in order. -/
def conditionsToPredicates : List Condition → Except Fault (List Predicate)
  | [] => .ok []
  | c :: rest => do
    let p ← conditionToPredicate c
    let ps ← conditionsToPredicates rest
    return p :: ps

/-- The predicate of a condition that is about no column. -/
def conditionToPredicate : Condition → Except Fault Predicate
  | .operator op => .error (.noColumnInScope op.kind)
  | .combined c => combinatorToPredicate c
  | .record entries => lowerRecord entries
  | .raw sql => .ok (.raw sql)

end

/-- A record that is not empty holds with all of its entries. -/
theorem lowerRecord_cons (entry : String × ColumnTest) (rest : ConditionRecord) :
    lowerRecord (entry :: rest) = (lowerEntries (entry :: rest)).map combineRecord := by
  obtain ⟨column, test⟩ := entry
  rw [lowerRecord, lowerEntries]
  cases lowerTest column test with
  | error f => rfl
  | ok p => cases lowerEntries rest <;> rfl

/-! ### Either way

  The equations that both recursions share, with the column that is handed down as a parameter. -/

/-- The predicate of an operator. -/
def operatorIn (scope : Option String) (op : Operator) : Except Fault Predicate :=
  match scope with
  | some column => op.toPredicate column
  | none => .error (.noColumnInScope op.kind)

/-- The predicate of a condition. -/
def lower (scope : Option String) (c : Condition) : Except Fault Predicate :=
  match scope with
  | some column => applyColumnTo column c
  | none => conditionToPredicate c

/-- The predicate of a combinator. -/
def lowerCombinator (scope : Option String) (c : Combinator) : Except Fault Predicate :=
  match scope with
  | some column => applyColumn column c
  | none => combinatorToPredicate c

/-- The predicates of several conditions, in order. -/
def lowerAll (scope : Option String) (cs : List Condition) : Except Fault (List Predicate) :=
  match scope with
  | some column => applyColumnEach column cs
  | none => conditionsToPredicates cs

section Equations

variable (scope : Option String)

theorem lower_operator (op : Operator) : lower scope (.operator op) = operatorIn scope op := by
  cases scope <;> rfl

theorem lower_combined (c : Combinator) : lower scope (.combined c) = lowerCombinator scope c := by
  cases scope <;> rfl

theorem lower_record (entries : ConditionRecord) :
    lower scope (.record entries) = lowerRecord entries := by
  cases scope <;> rfl

theorem lower_raw (sql : String) : lower scope (.raw sql) = .ok (.raw sql) := by
  cases scope <;> rfl

theorem lowerCombinator_nil (connective : Connective) :
    lowerCombinator scope ⟨connective, []⟩ = .error (.emptyCombinator connective) := by
  cases scope <;> rfl

theorem lowerCombinator_cons (connective : Connective) (c : Condition) (cs : List Condition) :
    lowerCombinator scope ⟨connective, c :: cs⟩
      = (do combine connective (← lowerAll scope (c :: cs))) := by
  cases scope <;> rfl

theorem lowerAll_nil : lowerAll scope [] = .ok [] := by
  cases scope <;> rfl

theorem lowerAll_cons (c : Condition) (cs : List Condition) :
    lowerAll scope (c :: cs)
      = (do
          let p ← lower scope c
          let ps ← lowerAll scope cs
          return p :: ps) := by
  cases scope <;> rfl

end Equations

end Lowering

/-- The predicate of a condition that is given on its own. -/
def Condition.toPredicate (c : Condition) : Except Fault Predicate :=
  Lowering.conditionToPredicate c

/-! ## Repeated conditions -/

namespace Predicate

/-- The operands of an AND that only collects; any other predicate is its own operand. -/
def conjuncts : Predicate → List Predicate
  | .and children false => children
  | p => [p]

/-- Adds a predicate to those collected so far. -/
def conjoin : Option Predicate → Predicate → Predicate
  | none, p => p
  | some current, p => .and (current.conjuncts ++ p.conjuncts) false

end Predicate

end SqlLoom
