/-
  Errors as the library reports them.

  Each stage of the library has its own type of faults; what leaves the library is an `Error`: what
  went wrong first, and the contexts it passed through on the way out.  Its text reads from the
  outside in, `outermost context: … : first message`.
-/

namespace SqlLoom

/-- What kind of failure an error reports. -/
inductive ErrorKind where
  | unknown
  | validation
  | query
  | connection
  | timeout
  | cancelled
  deriving DecidableEq, Repr

namespace ErrorKind

/-- The machine-readable code of a kind. -/
def code : ErrorKind → String
  | unknown => "UNKNOWN_ERROR"
  | validation => "VALIDATION_ERROR"
  | query => "QUERY_ERROR"
  | connection => "CONNECTION_ERROR"
  | timeout => "TIMEOUT_ERROR"
  | cancelled => "CANCELLED_ERROR"

/-- Every kind, in the order of their codes' table. -/
def all : List ErrorKind :=
  [unknown, validation, query, connection, timeout, cancelled]

theorem mem_all (k : ErrorKind) : k ∈ all := by
  cases k <;> decide

end ErrorKind

/-- What an error is about: the part of the input, the offending value, the query on the server. -/
structure ErrorDetails where
  field : Option String := none
  value : Option String := none
  queryId : Option String := none
  deriving DecidableEq, Repr

/-- A failure: its kind and message, and the contexts that were put around it, the latest first. -/
structure Error where
  kind : ErrorKind
  message : String
  details : ErrorDetails := {}
  contexts : List (ErrorKind × String) := []
  deriving DecidableEq, Repr

namespace Error

/-- The failure of a check, with what it is about. -/
def invalid (message : String) (field : String) (value : Option String) : Error :=
  { kind := .validation, message, details := { field := some field, value } }

/-- Puts a context around an error.  Kind and details stay those of the first failure. -/
def wrap (e : Error) (kind : ErrorKind) (message : String) : Error :=
  { e with contexts := (kind, message) :: e.contexts }

/-- Contexts from the outside in, then the message. -/
def text (e : Error) : String :=
  String.intercalate ": " (e.contexts.map (·.2) ++ [e.message])

/-- The text as a reader sees it who stops at the first NUL character. -/
def textToNul (e : Error) : String :=
  String.ofList (e.text.toList.takeWhile (· ≠ '\x00'))

/-- Whether the failure or one of its contexts is of this kind. -/
def wraps (e : Error) (kind : ErrorKind) : Bool :=
  e.kind = kind || e.contexts.any (·.1 = kind)

/-- The code of the first failure, whatever was put around it. -/
def code (e : Error) : String :=
  e.kind.code

end Error

end SqlLoom
