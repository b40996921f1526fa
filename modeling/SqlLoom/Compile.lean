/-
  Compiling a query: check it, turn it into a statement, write the statement.

  Both the check and the step to a statement can refuse a query, and a query is written only when
  neither does.  `Query.checked` does both once; the report, the SQL and what is said in the log
  are functions of its outcome.
-/
import SqlLoom.Log
import SqlLoom.Query.Findings
import SqlLoom.Statement.OfQuery
import SqlLoom.Statement.ToSql

namespace SqlLoom

/-! ## The step to a statement, reported -/

namespace Statement

/-- The report of the step from a query to a statement. -/
def stepReport : Except Unsupported Statement → Report
  | .ok _ => {}
  | .error f => Report.addError {} f.toError.text

/-- What is said about the step. -/
def stepLog : Except Unsupported Statement → Log
  | .ok _ => []
  | .error f => [⟨.debug, "QueryNormalizer", "normalization failed: " ++ f.toError.text⟩]

/-- The statement, or an empty SELECT where there is none. -/
def orEmpty : Except Unsupported Statement → Statement
  | .ok s => s
  | .error _ => empty .select

/-- What is said when a statement is written. -/
def writeLog (s : Statement) : Log :=
  match s.toSql with
  | .ok sql => [⟨.debug, "ClickHouseRenderer", "rendered " ++ s.kind.label ++ ": " ++ sql.text⟩]
  | .error f => [⟨.error, "ClickHouseRenderer", "render failed: " ++ f.toError.text⟩]

end Statement

/-! ## Checking -/

/-- What is said about a whole query: what was said on the way through it, then the problems. -/
def Findings.log (f : Findings) : Log :=
  f.rawLog ++ if f.valid then [] else
    [⟨.debug, "QueryValidator", "query validation failed: " ++ f.report.summary⟩]

/-- A query that was checked, with its statement if there is one. -/
structure Checked where
  findings : Findings
  statement : Except Statement.Unsupported Statement

namespace Checked

/-- The report of both steps. -/
def report (c : Checked) : Report :=
  c.findings.report.merge (Statement.stepReport c.statement)

/-- What is said in both steps. -/
def log (c : Checked) : Log :=
  c.findings.log ++ Statement.stepLog c.statement

end Checked

/-- Checks a query and takes the step to a statement. -/
def Query.checked (q : Query) : Checked :=
  ⟨q.findings, Statement.ofQuery q⟩

/-! ## Compiling -/

/-- Why a query has no SQL. -/
inductive CompileFault where
  | invalid (report : Report)
  | unwritable (f : Statement.Unwritable)
  deriving DecidableEq, Repr

namespace CompileFault

/-- What every such error starts with. -/
def lead : String :=
  "Query validation failed"

/-- The fault as an error. -/
def toError : CompileFault → Error
  | invalid report => .invalid (lead ++ ": " ++ report.summary) "query" none
  | unwritable f => f.toError.wrap .validation lead

end CompileFault

namespace Checked

/-- The statement that may be written: neither of the two steps has anything against it. -/
def accepted (c : Checked) : Except CompileFault Statement :=
  if c.report.valid then .ok (Statement.orEmpty c.statement) else .error (.invalid c.report)

/-- The SQL of a checked query. -/
def compile (c : Checked) : Except CompileFault Sql := do
  let s ← c.accepted
  s.toSql.mapError .unwritable

/-- What is said from the check to the SQL. -/
def compileLog (c : Checked) : Log :=
  c.log ++
    match c.accepted with
    | .error f => [⟨.error, "QueryCompiler", f.toError.text⟩]
    | .ok s =>
      s.writeLog ++
        match s.toSql with
        | .ok sql => [⟨.debug, "QueryCompiler", "compiled: " ++ sql.text⟩]
        | .error _ => []

end Checked

namespace Query

/-- The report about a query. -/
def report (q : Query) : Report :=
  q.checked.report

/-- What is said when a query is checked. -/
def reportLog (q : Query) : Log :=
  q.checked.log

/-- The SQL of a query. -/
def compile (q : Query) : Except CompileFault Sql :=
  q.checked.compile

/-- The text of the SQL of a query, with faults as errors. -/
def toSql (q : Query) : Except Error String :=
  (q.compile.map Sql.text).mapError CompileFault.toError

/-- What is said when a query is compiled. -/
def compileLog (q : Query) : Log :=
  q.checked.compileLog

end Query

end SqlLoom
