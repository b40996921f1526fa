/-
  Sending queries to a server, seen from the client.

  A `Runner` is the client's side of a connection that has its answers prepared: it keeps the calls
  that were made, and answers each from what it was given.  There are four calls — `execute` for
  rows, `command` for an acknowledgement, `stream` for chunks of text, and `insert` for data that is
  sent beside the SQL.
-/
import SqlLoom.Error
import SqlLoom.Value

namespace SqlLoom

/-! ## Requests -/

/-- SQL to be run, with settings and the wanted output format. -/
structure Request where
  sql : String
  settings : Record := []
  format : Option String := none

/-- Data that is sent beside the SQL. -/
inductive Payload where
  | records (records : List Record)
  | stream (text : String)

/-- Data for a table. -/
structure InsertRequest where
  table : String
  payload : Payload
  format : String
  columns : List String

/-- A call to the server. -/
inductive RunnerCall where
  | execute (request : Request)
  | command (request : Request)
  | stream (request : Request)
  | insert (request : InsertRequest)

namespace RunnerCall

/-- The name of a call. -/
def label : RunnerCall → String
  | execute _ => "execute"
  | command _ => "command"
  | stream _ => "stream"
  | insert _ => "insert"

/-- The SQL request of a call. -/
def request? : RunnerCall → Option Request
  | execute request => some request
  | command request => some request
  | stream request => some request
  | insert _ => none

/-- The data of a call. -/
def insert? : RunnerCall → Option InsertRequest
  | insert request => some request
  | _ => none

end RunnerCall

/-! ## Formats -/

/-- The formats in which a result can be read chunk by chunk. -/
def streamableFormats : List String :=
  ["JSONEachRow", "JSONStringsEachRow", "JSONCompactEachRow", "JSONCompactEachRowWithNames",
    "JSONCompactEachRowWithNamesAndTypes", "CSV", "CSVWithNames", "CSVWithNamesAndTypes",
    "TabSeparated", "TabSeparatedRaw", "TabSeparatedWithNames", "TabSeparatedWithNamesAndTypes",
    "TabSeparatedRawWithNames", "TabSeparatedRawWithNamesAndTypes"]

/-- Whether results in a format can be read chunk by chunk. -/
def isStreamable (format : String) : Bool :=
  streamableFormats.contains format

/-- The format of a streamed result when none is asked for. -/
def defaultStreamFormat : String := "JSONEachRow"

/-- The format of inserted records when none is asked for. -/
def defaultObjectsFormat : String := "JSONEachRow"

/-- The format of an inserted stream when none is asked for. -/
def defaultInsertStreamFormat : String := "JSONCompactEachRow"

/-! ## The runner -/

/-- A connection with prepared answers, and the calls made so far. -/
structure Runner where
  rows : List Record := []
  chunks : List String := []
  commandError : Option Error := none
  calls : List RunnerCall := []

namespace Runner

/-- Notes a call. -/
def note (r : Runner) (call : RunnerCall) : Runner :=
  { r with calls := r.calls ++ [call] }

/-- Asks for rows. -/
def execute (r : Runner) (request : Request) : Except Error (List Record) × Runner :=
  (.ok r.rows, r.note (.execute request))

/-- Gives a command. -/
def command (r : Runner) (request : Request) : Except Error Unit × Runner :=
  (match r.commandError with
    | some e => .error e
    | none => .ok (), r.note (.command request))

/-- Asks for chunks of text. -/
def stream (r : Runner) (request : Request) : Except Error (List String) × Runner :=
  (.ok r.chunks, r.note (.stream request))

/-- Sends data. -/
def insert (r : Runner) (request : InsertRequest) : Except Error Unit × Runner :=
  (.ok (), r.note (.insert request))

/-- The names of the calls, in order. -/
def callLabels (r : Runner) : List String :=
  r.calls.map (·.label)

/-- The SQL requests, in order. -/
def requests (r : Runner) : List Request :=
  r.calls.filterMap (·.request?)

/-- The data sent, in order. -/
def inserts (r : Runner) : List InsertRequest :=
  r.calls.filterMap (·.insert?)

end Runner

/-! ## Reading chunks -/

/-- Takes the next chunk off a stream.  Behind its end there is nothing, however often one asks. -/
def nextChunk : List String → Option String × List String
  | [] => (none, [])
  | chunk :: rest => (some chunk, rest)

/-- Asks for the given number of chunks. -/
def readChunks : Nat → List String → List (Option String)
  | 0, _ => []
  | count + 1, chunks =>
    let (chunk, rest) := nextChunk chunks
    chunk :: readChunks count rest

end SqlLoom
