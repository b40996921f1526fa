/-
  Building a SELECT, one call after the other.

  A call is a value (`Select.Call`), so that what a sequence of calls does is a fold over a list, and
  what is said about it a function of the list.

  Most clauses are replaced when they are given again.  WITH, JOIN and UNION collect, and repeated
  WHERE conditions all have to hold.  A condition that cannot be lowered is recorded; WHERE then
  keeps what it had, PREWHERE and HAVING are emptied, and a JOIN is left out.
-/
import SqlLoom.Builder.Clause

namespace SqlLoom.Select

/-- The SELECT of some columns. -/
def ofColumns (columns : List Expr) : Select :=
  { empty with columns }

/-- The SELECT as it is now, for use inside another query. -/
def asSubquery (q : Select) (label : Option String) : Subquery :=
  ⟨some q, label⟩

/-- The calls that change a SELECT. -/
inductive Call where
  | addWith (name : String) (query : Subquery)
  | setSource (source : Source) (label : Option String)
  | addJoin (kind : JoinKind) (source : Source) (condition : Condition) (label : Option String)
  | setPrewhere (condition : Condition)
  | addFilter (condition : Condition)
  | setGroupBy (columns : List String)
  | setHaving (condition : Condition)
  | setOrderBy (items : List (String × Direction))
  | setLimit (limit : Int64) (offset : Option Int64)
  | setFinal
  | setSettings (settings : Record)
  | setFormat (format : String)
  | addUnion (operator : SetOperator) (member : Select)

/-- The SELECT after a call. -/
def apply (q : Select) : Call → Select
  | .addWith name query => { q with withs := q.withs ++ [⟨name, query⟩] }
  | .setSource source label => { q with source := some ⟨source, label⟩ }
  | .addJoin kind source condition label =>
    let (joins, recorded) := Clause.join.take condition q.recorded
      (fun p => q.joins ++ [⟨kind, source, label, p⟩]) q.joins
    { q with joins, recorded }
  | .setPrewhere condition =>
    let (prewhere, recorded) := Clause.prewhere.take condition q.recorded some none
    { q with prewhere, recorded }
  | .addFilter condition =>
    let (filter, recorded) := Clause.filter.take condition q.recorded
      (fun p => some (Predicate.conjoin q.filter p)) q.filter
    { q with filter, recorded }
  | .setGroupBy columns => { q with groupBy := columns.map Column.ofText }
  | .setHaving condition =>
    let (having, recorded) := Clause.having.take condition q.recorded some none
    { q with having, recorded }
  | .setOrderBy items =>
    { q with orderBy := items.map fun (column, direction) => ⟨Column.ofText column, direction⟩ }
  | .setLimit limit offset => { q with limit := some limit, offset }
  | .setFinal => { q with final := true }
  | .setSettings settings => { q with settings }
  | .setFormat format => { q with format := some format }
  | .addUnion operator member =>
    { q with unions := q.unions ++ [⟨operator, member.asSubquery none⟩] }

/-- The SELECT after a sequence of calls. -/
def applyAll (q : Select) (calls : List Call) : Select :=
  calls.foldl apply q

/-! ## What is said -/

/-- The name of this builder in the log. -/
def component : String :=
  "SelectBuilder"

/-- What is said when a SELECT is started. -/
def startLog (columns : List Expr) : Log :=
  [⟨.debug, component,
    "creating SELECT query with " ++ decimalNat columns.length ++ " columns"⟩]

/-- What is said about a call. -/
def Call.log : Call → Log
  | setSource (.table name) _ => [⟨.debug, component, "adding FROM " ++ name⟩]
  | setSource (.subquery _) _ => [⟨.debug, component, "adding FROM subquery"⟩]
  | addJoin kind _ condition _ =>
    ⟨.debug, component, "adding " ++ kind.keyword ++ " JOIN"⟩
      :: Clause.join.loweringLog component condition
  | setPrewhere condition => Clause.prewhere.loweringLog component condition
  | addFilter condition => Clause.filterLog component condition
  | setHaving condition => Clause.having.loweringLog component condition
  | _ => []

end SqlLoom.Select
