/-
  From queries to statements.

  The tree is walked once, clause by clause in the order WITH, select list, FROM, JOIN, PREWHERE,
  WHERE, HAVING, UNION, and the first thing that has no counterpart in a statement ends the walk:
  a missing part, a condition whose left side is no column, or one whose right side is neither a
  value, a list, a column nor a subquery.
-/
import SqlLoom.Error
import SqlLoom.Statement

namespace SqlLoom

namespace Statement

/-- Forms of expression that are no operand of a test. -/
inductive Computed where
  | raw
  | function
  | cases
  deriving DecidableEq, Repr

/-- The name of such a form in messages. -/
def Computed.label : Computed → String
  | raw => "raw"
  | function => "function"
  | cases => "case"

/-- Why a query has no statement. -/
inductive Unsupported where
  | incompleteBranch
  | columnExpected
  | missingNegand
  | computedOperand (form : Computed)
  | emptySubquery
  deriving DecidableEq, Repr

/-- The fault as an error. -/
def Unsupported.toError : Unsupported → Error
  | incompleteBranch => .invalid "CASE branch is incomplete" "expression" (some "case")
  | columnExpected => .invalid "Expected column reference" "expression" (some "predicate")
  | missingNegand => .invalid "NOT predicate has no operand" "expression" (some "not")
  | computedOperand form =>
    .invalid ("Cannot extract value from " ++ form.label) "expression" (some form.label)
  | emptySubquery => .invalid "Subquery is empty" "expression" (some "subquery")

mutual

/-- The statement form of an expression. -/
def ofExpr : SqlLoom.Expr → Except Unsupported Statement.Expr
  | .column c => .ok (.column c.joined c.label)
  | .value v label => .ok (.value v label)
  | .array items label => .ok (.array items label)
  | .tuple items label => .ok (.tuple items label)
  | .subquery s => do return .subquery (some (← ofSubquery s)) s.label
  | .raw sql label => .ok (.raw sql label)
  | .call function args label => do return .call function (← ofExprs args) label
  | .cases branches otherwise label => do
    let branches ← ofBranches branches
    let otherwise ← ofOtherwise otherwise
    return .cases branches otherwise label

/-- The statement forms of several expressions. -/
def ofExprs : List SqlLoom.Expr → Except Unsupported (List Statement.Expr)
  | [] => .ok []
  | e :: rest => do
    let e ← ofExpr e
    let rest ← ofExprs rest
    return e :: rest

/-- The statement form of an ELSE part. -/
def ofOtherwise : Option SqlLoom.Expr → Except Unsupported (Option Statement.Expr)
  | none => .ok none
  | some e => do return some (← ofExpr e)

/-- A branch needs both of its parts. -/
def ofBranch : SqlLoom.Branch → Except Unsupported Statement.Branch
  | ⟨some condition, some result⟩ => do
    let condition ← ofPredicate condition
    let result ← ofExpr result
    return ⟨some condition, some result⟩
  | ⟨none, _⟩ => .error .incompleteBranch
  | ⟨_, none⟩ => .error .incompleteBranch

/-- The statement forms of several branches. -/
def ofBranches : List SqlLoom.Branch → Except Unsupported (List Statement.Branch)
  | [] => .ok []
  | b :: rest => do
    let b ← ofBranch b
    let rest ← ofBranches rest
    return b :: rest

/-- The statement form of a condition. -/
def ofPredicate : SqlLoom.Predicate → Except Unsupported Statement.Predicate
  | .compare (.column c) operator right => do
    return .compare c.joined operator (← ofOperand right) false
  | .compare _ _ _ => .error .columnExpected
  | .and children grouped => do return .and (← ofPredicates children) grouped false
  | .or children => do return .or (← ofPredicates children) false
  | .not (some child) => do return .not (some (← ofPredicate child)) false
  | .not none => .error .missingNegand
  | .raw sql => .ok (.raw sql false)

/-- The statement forms of several conditions. -/
def ofPredicates : List SqlLoom.Predicate → Except Unsupported (List Statement.Predicate)
  | [] => .ok []
  | p :: rest => do
    let p ← ofPredicate p
    let rest ← ofPredicates rest
    return p :: rest

/-- The conditions of a clause that may be missing. -/
def ofClause : Option SqlLoom.Predicate → Except Unsupported (List Statement.Predicate)
  | none => .ok []
  | some p => do return [← ofPredicate p]

/-- The operand that an expression stands for. -/
def ofOperand : SqlLoom.Expr → Except Unsupported Statement.Operand
  | .value v _ => .ok (.value v)
  | .array items _ => .ok (.list items)
  | .tuple items _ => .ok (.list items)
  | .column c => .ok (.column c.joined)
  | .subquery s => do return .subquery (some (← ofSubquery s))
  | .raw _ _ => .error (.computedOperand .raw)
  | .call _ _ _ => .error (.computedOperand .function)
  | .cases _ _ _ => .error (.computedOperand .cases)

/-- The statement of a subquery, which must be there. -/
def ofSubquery : Subquery → Except Unsupported Statement
  | ⟨some q, _⟩ => ofSelect q
  | ⟨none, _⟩ => .error .emptySubquery

/-- The statement form of a source of rows. -/
def ofSource : SqlLoom.Source → Except Unsupported Statement.Source
  | .table name => .ok (.table name)
  | .subquery s => do return .subquery (some (← ofSubquery s))

/-- The source of a FROM clause, if there is one. -/
def ofFrom : Option FromClause → Except Unsupported (Option Statement.Source)
  | none => .ok none
  | some ⟨source, _⟩ => do return some (← ofSource source)

/-- The statement forms of JOIN clauses. -/
def ofJoins : List SqlLoom.JoinClause → Except Unsupported (List Statement.JoinClause)
  | [] => .ok []
  | ⟨kind, source, label, condition⟩ :: rest => do
    let source ← ofSource source
    let condition ← ofPredicate condition
    let rest ← ofJoins rest
    return ⟨kind, source, label, condition⟩ :: rest

/-- The statement forms of WITH clauses. -/
def ofWiths : List SqlLoom.WithClause → Except Unsupported (List Statement.WithClause)
  | [] => .ok []
  | ⟨name, query⟩ :: rest => do
    let query ← ofSubquery query
    let rest ← ofWiths rest
    return ⟨name, some query⟩ :: rest

/-- The statement forms of the members of a UNION. -/
def ofUnions : List SqlLoom.UnionMember → Except Unsupported (List Statement.UnionMember)
  | [] => .ok []
  | ⟨operator, query⟩ :: rest => do
    let query ← ofSubquery query
    let rest ← ofUnions rest
    return ⟨operator, some query⟩ :: rest

/-- The statement of a SELECT. -/
def ofSelect : Select → Except Unsupported Statement
  | ⟨columns, source, joins, withs, prewhere, filter, groupBy, having, orderBy, limit, offset,
      final, settings, _, unions, _⟩ => do
    let withs ← ofWiths withs
    let columns ← ofExprs columns
    let table ← ofFrom source
    let joins ← ofJoins joins
    let prewhere ← ofClause prewhere
    let filter ← ofClause filter
    let having ← ofClause having
    let unions ← ofUnions unions
    return { empty .select with
      table
      tableLabel := source.bind (·.label)
      columns
      predicates := prewhere.map Predicate.markEarly ++ filter
      joins
      withs
      groupBy := groupBy.map (·.joined)
      having
      orderBy := orderBy.map fun item => ⟨item.column.joined, item.direction⟩
      limit
      offset
      final
      settings
      unions }

end

/-- The statement of an INSERT.  It always exists. -/
def ofInsert (q : Insert) : Statement :=
  { empty .insert with table := some (.table q.table), insertColumns := q.columns, rows := q.rows }

/-- The statement of an UPDATE. -/
def ofUpdate (q : Update) : Except Unsupported Statement := do
  let predicates ← ofClause q.filter
  return { empty .update with
    table := some (.table q.table)
    predicates
    settings := q.settings
    assignments := q.assignments }

/-- The statement of a DELETE. -/
def ofDelete (q : Delete) : Except Unsupported Statement := do
  let predicates ← ofClause q.filter
  return { empty .delete with table := some (.table q.table), predicates, settings := q.settings }

/-- The statement of a query. -/
def ofQuery : Query → Except Unsupported Statement
  | .select q => ofSelect q
  | .insert q => .ok (ofInsert q)
  | .update q => ofUpdate q
  | .delete q => ofDelete q

end Statement

end SqlLoom
