/-
  Running queries that were built.

  A query reaches the server only when it compiles; a refused query leaves the runner untouched.  An
  INSERT of literal rows is sent as SQL, one of records or of a stream beside the SQL, and then the
  query need only be free of errors.
-/
import SqlLoom.Builder.Change
import SqlLoom.Builder.Insert
import SqlLoom.Builder.Select
import SqlLoom.Compile
import SqlLoom.Runner

namespace SqlLoom

/-! ## SELECT -/

namespace Select

/-- Runs a SELECT for its rows. -/
def run (q : Select) (runner : Runner) : Except Error (List Record) × Runner :=
  match (Query.select q).toSql with
  | .ok sql => runner.execute ⟨sql, q.settings, q.format⟩
  | .error e => (.error e, runner)

/-- What is said when a SELECT is run. -/
def runLog (q : Select) : Log :=
  (Query.select q).compileLog

/-- The format of a streamed result. -/
def streamFormat (q : Select) : String :=
  q.format.getD defaultStreamFormat

/-- The error about a format that cannot be streamed. -/
def unsupportedFormat (format : String) : Error :=
  .invalid ("Unsupported stream format: " ++ format) "format" (some format)

/-- Runs a SELECT for chunks of text.  The format is looked at before the query. -/
def stream (q : Select) (runner : Runner) : Except Error (List String) × Runner :=
  if isStreamable q.streamFormat then
    match (Query.select q).toSql with
    | .ok sql => runner.stream ⟨sql, q.settings, some q.streamFormat⟩
    | .error e => (.error e, runner)
  else (.error (unsupportedFormat q.streamFormat), runner)

/-- What is said when a SELECT is streamed. -/
def streamLog (q : Select) : Log :=
  if isStreamable q.streamFormat then (Query.select q).compileLog
  else [⟨.error, component, "unsupported stream format " ++ q.streamFormat⟩]

end Select

/-! ## UPDATE and DELETE -/

/-- Gives a query as a command, if it compiles. -/
def Query.command (q : Query) (settings : Record) (format : Option String) (runner : Runner) :
    Except Error Unit × Runner :=
  match q.toSql with
  | .ok sql => runner.command ⟨sql, settings, format⟩
  | .error e => (.error e, runner)

/-- Runs an UPDATE. -/
def Update.run (q : Update) (runner : Runner) : Except Error Unit × Runner :=
  (Query.update q).command q.settings none runner

/-- What is said when an UPDATE is run. -/
def Update.runLog (q : Update) : Log :=
  (Query.update q).compileLog

/-- Runs a DELETE. -/
def Delete.run (q : Delete) (runner : Runner) : Except Error Unit × Runner :=
  (Query.delete q).command q.settings none runner

/-- What is said when a DELETE is run. -/
def Delete.runLog (q : Delete) : Log :=
  (Query.delete q).compileLog

/-! ## INSERT -/

namespace InsertDraft

/-- Why an INSERT is not sent, the compiler's reasons apart. -/
inductive Fault where
  | noRows
  | noObjects
  | noStream
  | invalid (report : Report)
  deriving DecidableEq, Repr

/-- The fault as an error. -/
def Fault.toError : Fault → Error
  | noRows => .invalid "Values are required for value-based inserts" "values" none
  | noObjects => .invalid "Object data is required for object-based inserts" "data" none
  | noStream => .invalid "Stream data is required for stream-based inserts" "data" none
  | invalid report => (CompileFault.invalid report).toError

/-- The data to be sent beside the SQL, and its format.  An empty list of records is no data. -/
def payload (d : InsertDraft) : Except Fault (Payload × String) :=
  match d.strategy, d.objects, d.stream with
  | .objects, some (record :: records), _ =>
    .ok (.records (record :: records), d.query.format.getD defaultObjectsFormat)
  | .objects, _, _ => .error .noObjects
  | _, _, some text => .ok (.stream text, d.query.format.getD defaultInsertStreamFormat)
  | _, _, none => .error .noStream

/-- The request that sends the data beside the SQL. -/
def insertRequest (d : InsertDraft) : Except Fault InsertRequest :=
  let report := (Query.insert d.query).report
  if report.valid then
    d.payload.map fun (payload, format) => ⟨d.query.table, payload, format, d.query.columns⟩
  else .error (.invalid report)

/-- Runs an INSERT by its strategy. -/
def run (d : InsertDraft) (runner : Runner) : Except Error Unit × Runner :=
  match d.strategy with
  | .values =>
    if d.query.rows.isEmpty then (.error Fault.noRows.toError, runner)
    else (Query.insert d.query).command [] d.query.format runner
  | _ =>
    match d.insertRequest with
    | .ok request => runner.insert request
    | .error f => (.error f.toError, runner)

/-- The name of this builder in the log. -/
def component : String :=
  "InsertBuilder"

/-- What is said when an INSERT is run. -/
def runLog (d : InsertDraft) : Log :=
  ⟨.debug, component,
    "running insert into " ++ d.query.table ++ " using " ++ d.strategy.label⟩ ::
    match d.strategy with
    | .values => if d.query.rows.isEmpty then [] else (Query.insert d.query).compileLog
    | _ =>
      (Query.insert d.query).reportLog ++
        match d.insertRequest with
        | .ok _ => []
        | .error f => [⟨.error, component, f.toError.text⟩]

end InsertDraft

end SqlLoom
