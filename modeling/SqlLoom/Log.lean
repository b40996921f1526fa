/-
  Log entries as data.

  Nothing in the library writes to a stream.  A step that has something to say yields a list of
  entries, each with its level and the component it comes from; a `Sink` turns a list of entries into
  the text that is written, one line for each entry that is severe enough.
-/
import SqlLoom.Error

namespace SqlLoom

/-- How severe an entry is.  `off` is the threshold above all entries. -/
inductive LogLevel where
  | debug
  | info
  | warn
  | error
  | off
  deriving DecidableEq, Repr

namespace LogLevel

/-- The name of a level in a log line. -/
def label : LogLevel → String
  | debug => "DEBUG"
  | info => "INFO"
  | warn => "WARN"
  | error => "ERROR"
  | off => "OFF"

/-- Levels from the least to the most severe. -/
def severity : LogLevel → Nat
  | debug => 0
  | info => 1
  | warn => 2
  | error => 3
  | off => 4

/-- Every level, from the least to the most severe. -/
def all : List LogLevel :=
  [debug, info, warn, error, off]

/-- A text that names no level. -/
structure Unknown where
  text : String
  deriving DecidableEq, Repr

/-- The fault as an error. -/
def Unknown.toError (u : Unknown) : Error :=
  .invalid ("unknown log level '" ++ u.text ++ "'") "log_level" (some u.text)

/-- The level that a text names, in upper or lower case. -/
def ofText (s : String) : Except Unknown LogLevel :=
  match String.ofList (s.toList.map Char.toLower) with
  | "debug" => .ok debug
  | "info" => .ok info
  | "warn" => .ok warn
  | "warning" => .ok warn
  | "error" => .ok error
  | "off" => .ok off
  | "none" => .ok off
  | _ => .error ⟨s⟩

end LogLevel

/-- One thing that was said. -/
structure LogEntry where
  level : LogLevel
  component : String
  message : String
  deriving DecidableEq, Repr

/-- The line of an entry. -/
def LogEntry.line (e : LogEntry) : String :=
  "[" ++ e.level.label ++ "] " ++ e.component ++ ": " ++ e.message ++ "\n"

/-- What was said, in order. -/
abbrev Log := List LogEntry

/-- Where entries go. -/
inductive Sink where
  /-- Nothing is written. -/
  | silent
  /-- Entries of at least this level are written. -/
  | atLeast (level : LogLevel)
  deriving DecidableEq, Repr

namespace Sink

/-- Whether entries of a level are written.  Nothing is ever written at `off`. -/
def enabled : Sink → LogLevel → Bool
  | silent, _ => false
  | atLeast least, level => decide (level ≠ .off) && decide (least.severity ≤ level.severity)

/-- The text that is written for a list of entries. -/
def write (sink : Sink) (log : Log) : String :=
  String.join ((log.filter fun e => sink.enabled e.level).map (·.line))

/-- The sink that an environment variable asks for: warnings and errors when it is unset or names no
    level.  The value of a variable ends at its first NUL character. -/
def ofEnvironment : Option String → Sink
  | none => .atLeast .warn
  | some s =>
    match LogLevel.ofText (String.ofList (s.toList.takeWhile (· ≠ '\x00'))) with
    | .ok level => .atLeast level
    | .error _ => .atLeast .warn

end Sink

end SqlLoom
