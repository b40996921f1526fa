/-
  From statements to SQL.

  Each form of the tree has one way to be written, as pieces of SQL.  Writing stops at the first
  part that cannot be written.  Clauses, items of a list and operands are taken in the order in
  which they stand in the text; where two parts belong to one phrase — name and query of a WITH,
  condition and result of a CASE branch, the two arguments of CAST and of quantile — the second one
  is taken first.

  PARENTHESES.  A condition is written either at the TOP of its clause or below another condition.
  OR always stands in brackets and NOT always brackets its operand, which is again at the top.  AND
  stands in brackets only when it was grouped on purpose, has at least two operands and is not at
  the top; an AND that collects repeated conditions never does.

  ALIASES are written in the select list and behind sources of rows, and nowhere else.
-/
import SqlLoom.Identifier
import SqlLoom.Statement
import SqlLoom.Value.Literal

namespace SqlLoom

namespace Statement

open Sql (code)

/-- Why a statement cannot be written. -/
inductive Unwritable where
  | identifier (f : Identifier.Fault)
  | twoBoundsExpected
  | unknownOperator (operator : String)
  | missingNegand
  | emptySubquery
  | emptyUnion
  /-- The parts of a CASE branch are read without being looked for.  What happens when one is not
      there is left undefined; this fault stands for it. -/
  | missingBranchPart
  deriving DecidableEq, Repr

/-- The fault as an error. -/
def Unwritable.toError : Unwritable → Error
  | identifier f => f.toError
  | twoBoundsExpected =>
    .invalid "BETWEEN requires exactly two values" "operator" (some "BETWEEN")
  | unknownOperator operator =>
    .invalid ("Unsupported operator: " ++ operator) "operator" (some operator)
  | missingNegand => .invalid "NOT predicate has no operand" "predicateType" none
  | emptySubquery => .invalid "Subquery is empty" "subquery" none
  | emptyUnion => .invalid "Set operation without a query" "union" none
  | missingBranchPart => { kind := .unknown, message := "CASE branch has a missing part" }

/-! ## Names and lists -/

/-- A quoted name. -/
def nameSql (context : Identifier.Context) (s : String) : Except Unwritable Sql :=
  (Identifier.quote context s).mapError .identifier

/-- The names of a list, in order. -/
def namesSql : List String → Except Unwritable (List Sql)
  | [] => .ok []
  | s :: rest => do
    let sql ← nameSql .selection s
    let rest ← namesSql rest
    return sql :: rest

/-- ` AS label`, if there is a label. -/
def labelSql : Option String → Except Unwritable Sql
  | none => .ok []
  | some label => do return code " AS " ++ (← nameSql .selection label)

/-- What stands for an empty list of values: a query without rows. -/
def emptyListSql : Sql :=
  code "(SELECT 1 WHERE 0=1)"

/-- A list of values as the right side of a test. -/
def listSql (items : List Value) : Sql :=
  if items.isEmpty then emptyListSql else Value.tupleLiteral items

/-- A clause that is left out when it has no parts. -/
def clause (keyword separator : String) (parts : List Sql) : Sql :=
  if parts.isEmpty then [] else code keyword ++ Sql.joined separator parts

/-- `key = value`. -/
def assignmentSql (key : Sql) (v : Value) : Sql :=
  key ++ code " = " ++ v.literal

/-- The SETTINGS clause.  Names of settings are plain words. -/
def settingsSql (settings : Record) : Sql :=
  clause " SETTINGS " ", " (settings.map fun (key, v) => assignmentSql (code key) v)

/-- LIMIT and OFFSET.  A limit of zero means no limit, and an offset needs a limit. -/
def limitSql (limit offset : Option Int64) : Sql :=
  let number (keyword : String) (n : Option Int64) : Sql :=
    match n with
    | some n => if n = 0 then [] else code (keyword ++ decimalInt n.toInt)
    | none => []
  let limitPart := number " LIMIT " limit
  if limitPart.isEmpty then [] else limitPart ++ number " OFFSET " offset

/-! ## Tests -/

/-- The shapes in which tests are written. -/
inductive TestForm where
  /-- `left IS NULL` -/
  | suffix
  /-- `left BETWEEN low AND high` -/
  | bounds
  /-- `left = right` -/
  | middle
  /-- `EXISTS right` -/
  | leading
  /-- some element of `left` is in `right` -/
  | someElement
  /-- every element of `left` is in `right` -/
  | everyElement
  | unknown
  deriving DecidableEq, Repr

/-- The shape of the test that an operator stands for. -/
def TestForm.ofOperator (operator : String) : TestForm :=
  if operator ∈ ["IS NULL", "IS NOT NULL"] then .suffix
  else if operator = "BETWEEN" then .bounds
  else if operator ∈ ["=", "!=", ">", ">=", "<", "<=", "IN", "NOT IN", "LIKE", "ILIKE"] then .middle
  else if operator ∈ ["EXISTS", "NOT EXISTS"] then .leading
  else if operator = "HAS ANY" then .someElement
  else if operator ∈ ["HAS ALL", "IN TUPLE"] then .everyElement
  else .unknown

/-- The left side of a test; a test without one has an empty text there. -/
def leftSql (left : String) : Except Unwritable Sql :=
  if left.isEmpty then .ok [] else nameSql .condition left

/-- The bounds of BETWEEN. -/
def boundsSql : Operand → Except Unwritable Sql
  | .list [low, high] => .ok (low.literal ++ code " AND " ++ high.literal)
  | _ => .error .twoBoundsExpected

/-- A test of the elements of an array, by a function that takes a lambda. -/
def elementTestSql (function : String) (left right : Sql) : Sql :=
  code (function ++ "(") ++ [.name "i"] ++ code " -> (" ++ [.name "i"] ++ code " IN " ++ right
    ++ code "), " ++ left ++ code ")"

/-- A test whose right side is written. -/
def testSql (operator : String) (left right : Sql) : Except Unwritable Sql :=
  match TestForm.ofOperator operator with
  | .middle => .ok (left ++ code (" " ++ operator ++ " ") ++ right)
  | .leading => .ok (code (operator ++ " ") ++ right)
  | .someElement => .ok (elementTestSql "arrayExists" left right)
  | .everyElement => .ok (elementTestSql "arrayAll" left right)
  | _ => .error (.unknownOperator operator)

/-- Whether an AND with this many operands stands in brackets. -/
def bracketsAnd (grouped top : Bool) (operands : Nat) : Bool :=
  grouped && !top && decide (1 < operands)

/-- Conditions joined by AND, in brackets where they are needed. -/
def andSql (grouped top : Bool) (operands : List Sql) : Sql :=
  let body := Sql.joined " AND " operands
  if bracketsAnd grouped top operands.length then body.inParens else body

/-- Conditions joined by OR, always in brackets. -/
def orSql (operands : List Sql) : Sql :=
  (Sql.joined " OR " operands).inParens

/-- The ways in which calls are written. -/
inductive CallForm where
  /-- `CAST(arg AS type)` -/
  | cast
  /-- `quantile(level)(arg)` -/
  | quantile
  /-- `function(arg, …)` -/
  | plain
  deriving DecidableEq, Repr

/-- The way in which a call is written.  CAST and quantile have forms of their own for two
    arguments. -/
def CallForm.ofCall (function : String) (args : List Expr) : CallForm :=
  if args.length = 2 ∧ function = "cast" then .cast
  else if args.length = 2 ∧ function = "quantile" then .quantile
  else .plain

/-- The call of a function with its arguments written. -/
def callSql (form : CallForm) (function : String) (args : List Sql) : Sql :=
  match form, args with
  | .cast, [arg, type] => code "CAST(" ++ arg ++ code " AS " ++ type ++ code ")"
  | .quantile, [level, arg] => code "quantile(" ++ level ++ code ")(" ++ arg ++ code ")"
  | _, _ => code function ++ (Sql.joined ", " args).inParens

/-! ## The tree -/

mutual

/-- An expression, without its alias. -/
def exprSql : Expr → Except Unwritable Sql
  | .column name _ => nameSql .selection name
  | .value v _ => .ok v.literal
  | .array items _ => .ok (Value.array items).literal
  | .tuple items _ => .ok (Value.tupleLiteral items)
  | .subquery q _ => subquerySql q
  | .raw sql _ => .ok [.verbatim sql]
  | .call function args _ => do
    let form := CallForm.ofCall function args
    return callSql form function (← argsSql (decide (form ≠ .plain)) args)
  | .cases branches otherwise _ => do
    let branches ← branchesSql branches
    let otherwise ← otherwiseSql otherwise
    return code "CASE" ++ branches.flatten ++ otherwise ++ code " END"

/-- The arguments of a call, taken from the first or from the last one. -/
def argsSql (lastFirst : Bool) : List Expr → Except Unwritable (List Sql)
  | [] => .ok []
  | e :: rest =>
    if lastFirst then do
      let rest ← argsSql lastFirst rest
      let sql ← exprSql e
      return sql :: rest
    else do
      let sql ← exprSql e
      let rest ← argsSql lastFirst rest
      return sql :: rest

/-- The entries of a select list, with aliases. -/
def columnsSql : List Expr → Except Unwritable (List Sql)
  | [] => .ok []
  | e :: rest => do
    let sql ← exprSql e
    let label ← labelSql e.label
    let rest ← columnsSql rest
    return (sql ++ label) :: rest

/-- ` ELSE e`, if there is one. -/
def otherwiseSql : Option Expr → Except Unwritable Sql
  | none => .ok []
  | some e => do return code " ELSE " ++ (← exprSql e)

/-- The result of a branch. -/
def resultSql : Option Expr → Except Unwritable Sql
  | some e => exprSql e
  | none => .error .missingBranchPart

/-- The condition of a branch. -/
def conditionSql : Option Predicate → Except Unwritable Sql
  | some p => predicateSql true p
  | none => .error .missingBranchPart

/-- The branches of a CASE. -/
def branchesSql : List Branch → Except Unwritable (List Sql)
  | [] => .ok []
  | ⟨condition, result⟩ :: rest => do
    let result ← resultSql result
    let condition ← conditionSql condition
    let rest ← branchesSql rest
    return (code " WHEN " ++ condition ++ code " THEN " ++ result) :: rest

/-- A condition, at the top of its clause or below another one. -/
def predicateSql (top : Bool) : Predicate → Except Unwritable Sql
  | .compare left operator right _ => do
    let leftPart ← leftSql left
    match TestForm.ofOperator operator with
    | .suffix => return leftPart ++ code (" " ++ operator)
    | .bounds => return leftPart ++ code " BETWEEN " ++ (← boundsSql right)
    | _ =>
      let rightPart ← operandSql right
      testSql operator leftPart rightPart
  | .and children grouped _ => do
    return andSql grouped top (← predicatesSql (fun _ => true) false children)
  | .or children _ => do
    return orSql (← predicatesSql (fun _ => true) false children)
  | .not (some child) _ => do
    return code "NOT " ++ (← predicateSql true child).inParens
  | .not none _ => .error .missingNegand
  | .raw sql _ => .ok [.verbatim sql]

/-- Those of the conditions that `keep` selects, in order. -/
def predicatesSql (keep : Predicate → Bool) (top : Bool) :
    List Predicate → Except Unwritable (List Sql)
  | [] => .ok []
  | p :: rest =>
    if keep p then do
      let sql ← predicateSql top p
      let rest ← predicatesSql keep top rest
      return sql :: rest
    else predicatesSql keep top rest

/-- The right side of a test. -/
def operandSql : Operand → Except Unwritable Sql
  | .value v => .ok v.literal
  | .list items => .ok (listSql items)
  | .column name => nameSql .condition name
  | .subquery q => subquerySql q

/-- A statement in brackets. -/
def subquerySql : Option Statement → Except Unwritable Sql
  | some q => do return (← selectSql q).inParens
  | none => .error .emptySubquery

/-- A source of rows. -/
def sourceSql : Source → Except Unwritable Sql
  | .table name => nameSql .selection name
  | .subquery q => subquerySql q

/-- ` FROM source AS label`, if there is a source. -/
def fromSql (label : Option String) : Option Source → Except Unwritable Sql
  | none => .ok []
  | some source => do
    let source ← sourceSql source
    let label ← labelSql label
    return code " FROM " ++ source ++ label

/-- The JOIN clauses. -/
def joinsSql : List JoinClause → Except Unwritable Sql
  | [] => .ok []
  | ⟨kind, source, label, condition⟩ :: rest => do
    let source ← sourceSql source
    let label ← labelSql label
    let condition ← predicateSql true condition
    let rest ← joinsSql rest
    return code (" " ++ kind.keyword ++ " JOIN ") ++ source ++ label ++ code " ON " ++ condition
      ++ rest

/-- The entries of a WITH clause. -/
def withsSql : List WithClause → Except Unwritable (List Sql)
  | [] => .ok []
  | ⟨name, query⟩ :: rest => do
    let query ← subquerySql query
    let name ← nameSql .selection name
    let rest ← withsSql rest
    return (name ++ code " AS " ++ query) :: rest

/-- The members of a UNION, without brackets. -/
def unionsSql : List UnionMember → Except Unwritable Sql
  | [] => .ok []
  | ⟨operator, some query⟩ :: rest => do
    let query ← selectSql query
    let rest ← unionsSql rest
    return code (" " ++ operator.keyword ++ " ") ++ query ++ rest
  | ⟨_, none⟩ :: _ => .error .emptyUnion

/-- A SELECT. -/
def selectSql : Statement → Except Unwritable Sql
  | ⟨_, table, tableLabel, columns, predicates, joins, withs, groupBy, having, orderBy, limit,
      offset, final, settings, unions, _, _, _⟩ => do
    let withs ← withsSql withs
    let columns ← columnsSql columns
    let table ← fromSql tableLabel table
    let joins ← joinsSql joins
    let early := predicates.filter (·.early)
    let prewhere ← predicatesSql (·.early) (early.length = 1) predicates
    let late := predicates.filter (!·.early)
    let filter ← predicatesSql (!·.early) (late.length = 1) predicates
    let groupBy ← namesSql groupBy
    let having ← predicatesSql (fun _ => true) (having.length = 1) having
    let orderNames ← namesSql (orderBy.map (·.column))
    let unions ← unionsSql unions
    let orderItems := orderNames.zipWith (fun name item => name ++ code (" " ++ item)) <|
      orderBy.map (·.direction.keyword)
    return (if withs.isEmpty then [] else code "WITH " ++ Sql.joined ", " withs ++ code " ")
      ++ code "SELECT "
      ++ (if columns.isEmpty then code "*" else Sql.joined ", " columns)
      ++ table
      ++ joins
      ++ clause " PREWHERE " " AND " prewhere
      ++ clause " WHERE " " AND " filter
      ++ clause " GROUP BY " ", " groupBy
      ++ clause " HAVING " " AND " having
      ++ clause " ORDER BY " ", " orderItems
      ++ limitSql limit offset
      ++ (if final then code " FINAL" else [])
      ++ settingsSql settings
      ++ unions

end

/-- The mark does not show in the SQL. -/
theorem predicateSql_markEarly (top : Bool) (x : Predicate) :
    predicateSql top x.markEarly = predicateSql top x := by
  cases x with
  | compare left operator right early => simp only [Predicate.markEarly, predicateSql]
  | and children grouped early => simp only [Predicate.markEarly, predicateSql]
  | or children early => simp only [Predicate.markEarly, predicateSql]
  | not child early => cases child <;> simp only [Predicate.markEarly, predicateSql]
  | raw sql early => simp only [Predicate.markEarly, predicateSql]

/-- The table that a statement changes; without one the name is empty. -/
def targetSql (table : Option Source) : Except Unwritable Sql :=
  sourceSql (table.getD (.table ""))

/-- The WHERE clause of a change.  There is no PREWHERE, and its mark means nothing. -/
def filterSql (predicates : List Predicate) : Except Unwritable Sql := do
  let parts ← predicatesSql (fun _ => true) (predicates.length = 1) predicates
  return clause " WHERE " " AND " parts

/-- An INSERT of literal rows. -/
def insertSql (q : Statement) : Except Unwritable Sql := do
  let table ← targetSql q.table
  let columns ← namesSql q.insertColumns
  return code "INSERT INTO " ++ table
    ++ (if columns.isEmpty then [] else code " " ++ (Sql.joined ", " columns).inParens)
    ++ code " VALUES"
    ++ clause " " ", " (q.rows.map Value.tupleLiteral)

/-- The assignments of an UPDATE. -/
def assignmentsSql : Record → Except Unwritable (List Sql)
  | [] => .ok []
  | (key, v) :: rest => do
    let name ← nameSql .selection key
    let rest ← assignmentsSql rest
    return assignmentSql name v :: rest

/-- An UPDATE. -/
def updateSql (q : Statement) : Except Unwritable Sql := do
  let table ← targetSql q.table
  let assignments ← assignmentsSql q.assignments
  let filter ← filterSql q.predicates
  return code "ALTER TABLE " ++ table ++ code " UPDATE" ++ clause " " ", " assignments ++ filter
    ++ settingsSql q.settings

/-- A DELETE. -/
def deleteSql (q : Statement) : Except Unwritable Sql := do
  let table ← targetSql q.table
  let filter ← filterSql q.predicates
  return code "ALTER TABLE " ++ table ++ code " DELETE" ++ filter ++ settingsSql q.settings

/-- The SQL of a statement. -/
def toSql (q : Statement) : Except Unwritable Sql :=
  match q.kind with
  | .select => selectSql q
  | .insert => insertSql q
  | .update => updateSql q
  | .delete => deleteSql q

end Statement

end SqlLoom
