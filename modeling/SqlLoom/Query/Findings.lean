/-
  Checking a query.

  Every part of the tree is visited, also below a part that is already in trouble, and every broken
  rule is found.  The rules are local:

  * names of tables, columns, assigned keys, aliases and WITH queries are not empty;
  * names of functions and settings are simple identifiers;
  * a CASE has a branch and each branch both of its parts; NOT has an operand; a subquery a query;
  * LIMIT and OFFSET are not negative;
  * rows of an INSERT with columns are as wide as there are columns; an UPDATE assigns something;
  * nothing was recorded while the query was put together.

  EXISTS has no left side, so an empty column is allowed there.  Aliases are looked at where
  expressions are checked, which leaves out the left side of a test, sort and group columns, and
  subqueries that are sources, WITH queries or members of a UNION.

  A check that has no rule of its own to begin with starts from `nothing` and takes over what is found
  about the parts; the flag of the outcome is then its own, and not that of a part.
-/
import SqlLoom.Identifier
import SqlLoom.Query
import SqlLoom.Query.Problem

namespace SqlLoom

open Findings

/-- A name must not be empty. -/
def nameFindings (what name : String) : Findings :=
  .require (!name.isEmpty) (.emptyIdentifier what)

/-- A name that is given must not be empty. -/
def labelFindings (what : String) : Option String → Findings
  | some name => nameFindings what name
  | none => .nothing

/-- Column and table of a reference must not be empty. -/
def Column.findings (c : Column) : Findings :=
  nameFindings "column" c.name ++ labelFindings "table" c.table

/-- Names of settings are simple identifiers. -/
def settingsFindings (settings : Record) : Findings :=
  concat (settings.map fun (name, _) => .require (Identifier.isSimple name) (.settingName name))

/-- What was recorded while a query was put together. -/
def recordedFindings (messages : List String) : Findings :=
  messages.foldl (fun f message => f.add (.recorded message)) nothing

/-- LIMIT and OFFSET must not be negative. -/
def countFindings (p : Problem) : Option Int64 → Findings
  | some n => .require (decide (0 ≤ n)) p
  | none => .nothing

/-- Whether an operator takes no left side. -/
def takesNoLeft (operator : String) : Bool :=
  operator == "EXISTS" || operator == "NOT EXISTS"

mutual

/-- Findings about an expression and its alias. -/
def Expr.findings : Expr → Findings
  | .column c => nothing ++ c.findings ++ labelFindings "alias" c.label
  | .value _ label => nothing ++ labelFindings "alias" label
  | .array _ label => nothing ++ labelFindings "alias" label
  | .tuple _ label => nothing ++ labelFindings "alias" label
  | .subquery s => nothing ++ s.findings ++ labelFindings "alias" s.label
  | .raw sql label => rawUse (.expression sql) ++ labelFindings "alias" label
  | .call function args label =>
    .require (Identifier.isSimple function) (.functionName function)
      ++ argumentFindings 0 args ++ labelFindings "alias" label
  | .cases branches otherwise label =>
    .require (!branches.isEmpty) .noBranch ++ branchFindings 0 branches
      ++ otherwiseFindings otherwise ++ labelFindings "alias" label

/-- Findings about the entries of a select list. -/
def columnFindings : List Expr → Findings
  | [] => .nothing
  | e :: rest => e.findings ++ columnFindings rest

/-- Findings about the arguments of a function, counted from `index`. -/
def argumentFindings (index : Nat) : List Expr → Findings
  | [] => .nothing
  | e :: rest => e.findings.within (.argument index) ++ argumentFindings (index + 1) rest

/-- Findings about the branches of a CASE, counted from `index`. -/
def branchFindings (index : Nat) : List Branch → Findings
  | [] => .nothing
  | b :: rest => b.findings index ++ branchFindings (index + 1) rest

/-- Findings about one branch of a CASE.  An incomplete branch is not looked into. -/
def Branch.findings (index : Nat) : Branch → Findings
  | ⟨some condition, some result⟩ =>
    condition.findings.within (.caseCondition index) ++ result.findings.within (.caseResult index)
  | ⟨none, _⟩ => problem (.incompleteBranch index)
  | ⟨_, none⟩ => problem (.incompleteBranch index)

/-- Findings about the ELSE part of a CASE. -/
def otherwiseFindings : Option Expr → Findings
  | none => .nothing
  | some e => e.findings.within .caseOtherwise

/-- Findings about a condition. -/
def Predicate.findings : Predicate → Findings
  | .compare (.column c) operator right =>
    nothing ++ (if c.name.isEmpty && takesNoLeft operator then .nothing else c.findings)
      ++ right.findings
  | .compare left _ right => nothing ++ left.findings ++ right.findings
  | .and children _ => nothing ++ predicateFindings children
  | .or children => nothing ++ predicateFindings children
  | .not child => negandFindings child
  | .raw sql => rawUse (.predicate sql)

/-- Findings about several conditions. -/
def predicateFindings : List Predicate → Findings
  | [] => .nothing
  | p :: rest => p.findings ++ predicateFindings rest

/-- Findings about the operand of NOT. -/
def negandFindings : Option Predicate → Findings
  | none => problem .missingNegand
  | some p => nothing ++ p.findings

/-- Findings about the condition of a clause that may be missing. -/
def clauseFindings : Option Predicate → Findings
  | none => .nothing
  | some p => p.findings

/-- Findings about a subquery, in one line. -/
def Subquery.findings : Subquery → Findings
  | ⟨some q, _⟩ => q.findings.within .subquery
  | ⟨none, _⟩ => problem .emptySubquery

/-- Findings about a source of rows. -/
def Source.findings : Source → Findings
  | .table name => nameFindings "table" name
  | .subquery s => s.findings

/-- Findings about a FROM clause that may be missing. -/
def fromFindings : Option FromClause → Findings
  | none => .nothing
  | some ⟨source, label⟩ => source.findings ++ labelFindings "table alias" label

/-- Findings about JOIN clauses. -/
def joinFindings : List JoinClause → Findings
  | [] => .nothing
  | ⟨_, source, label, condition⟩ :: rest =>
    source.findings ++ labelFindings "table alias" label ++ condition.findings ++ joinFindings rest

/-- Findings about WITH clauses. -/
def withFindings : List WithClause → Findings
  | [] => .nothing
  | ⟨name, query⟩ :: rest =>
    nameFindings "CTE alias" name ++ query.findings ++ withFindings rest

/-- Findings about the members of a UNION. -/
def unionFindings : List UnionMember → Findings
  | [] => .nothing
  | ⟨_, query⟩ :: rest => query.findings ++ unionFindings rest

/-- Findings about a SELECT. -/
def Select.findings : Select → Findings
  | ⟨columns, source, joins, withs, prewhere, filter, groupBy, having, orderBy, limit, offset, _,
      settings, _, unions, recorded⟩ =>
    recordedFindings recorded ++ withFindings withs ++ columnFindings columns
      ++ fromFindings source ++ joinFindings joins ++ clauseFindings prewhere
      ++ clauseFindings filter ++ concat (groupBy.map Column.findings) ++ clauseFindings having
      ++ concat (orderBy.map (·.column.findings)) ++ countFindings .negativeLimit limit
      ++ countFindings .negativeOffset offset ++ settingsFindings settings ++ unionFindings unions

end

/-- Findings about rows that should have `width` values, counted from `index`. -/
def rowFindings (width index : Nat) : List Row → Findings
  | [] => .nothing
  | row :: rest =>
    .require (row.length == width) (.rowWidth index row.length width)
      ++ rowFindings width (index + 1) rest

/-- Findings about an INSERT.  Without columns the rows may have any width. -/
def Insert.findings (q : Insert) : Findings :=
  nameFindings "table" q.table ++ concat (q.columns.map (nameFindings "column"))
    ++ (if q.columns.isEmpty then .nothing else rowFindings q.columns.length 0 q.rows)

/-- Findings about an UPDATE. -/
def Update.findings (q : Update) : Findings :=
  nameFindings "table" q.table ++ recordedFindings q.recorded
    ++ .require (!q.assignments.isEmpty) .noAssignment
    ++ concat (q.assignments.map fun (key, _) => nameFindings "column" key)
    ++ clauseFindings q.filter ++ settingsFindings q.settings

/-- Findings about a DELETE. -/
def Delete.findings (q : Delete) : Findings :=
  nameFindings "table" q.table ++ recordedFindings q.recorded ++ clauseFindings q.filter
    ++ settingsFindings q.settings

/-- Findings about a query of any kind. -/
def Query.findings : Query → Findings
  | .select q => q.findings
  | .insert q => q.findings
  | .update q => q.findings
  | .delete q => q.findings

end SqlLoom
