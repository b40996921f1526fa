/-
  The text of a value for people: log lines and failed expectations.

  It is not SQL.  Strings stand between double quotes with nothing escaped, map keys stand bare,
  numbers have six significant digits and instants are whole seconds.
-/
import SqlLoom.Number.Printed
import SqlLoom.Value

namespace SqlLoom.Value

mutual

/-- The text of a value for people. -/
def display : Value → String
  | .null => "null"
  | .bool b => if b then "true" else "false"
  | .int n => decimalInt n.toInt
  | .float x => x.display
  | .text s => "\"" ++ s ++ "\""
  | .instant t => t.display
  | .array items => "[" ++ String.intercalate ", " (displayItems items) ++ "]"
  | .map entries => "\x7b" ++ String.intercalate ", " (displayEntries entries) ++ "\x7d"

/-- The texts of several values. -/
def displayItems : List Value → List String
  | [] => []
  | v :: vs => display v :: displayItems vs

/-- The texts of the entries of a map. -/
def displayEntries : List (String × Value) → List String
  | [] => []
  | (key, v) :: rest => (key ++ ": " ++ display v) :: displayEntries rest

end

end SqlLoom.Value
