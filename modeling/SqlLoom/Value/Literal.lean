/-
  The SQL literal of a value.

  Strings become string literals, numbers their shortest digits, instants a quoted civil time in
  UTC, arrays `[…]` and maps braces around `'key': value`.  NaN has no literal and is written as NULL;
  the infinities are written as the texts 'inf' and '-inf'.
-/
import SqlLoom.Number.Printed
import SqlLoom.Sql
import SqlLoom.Value

namespace SqlLoom

/-- The literal of a number. -/
def Binary64.literal (x : Binary64) : Sql :=
  match x.reading with
  | .nan _ => Sql.code "NULL"
  | .infinite negative => [.text (if negative then "-inf" else "inf")]
  | .finite negative significand exponent =>
    Sql.code (String.ofList (literalDigits negative significand exponent))

namespace Value

mutual

/-- The literal of a value. -/
def literal : Value → Sql
  | .null => Sql.code "NULL"
  | .bool b => Sql.code (if b then "true" else "false")
  | .int n => Sql.code (decimalInt n.toInt)
  | .float x => x.literal
  | .text s => [.text s]
  | .instant t => [.text t.civilText]
  | .array items => Sql.code "[" ++ Sql.joined ", " (literals items) ++ Sql.code "]"
  | .map entries => Sql.code "\x7b" ++ Sql.joined ", " (entryLiterals entries) ++ Sql.code "\x7d"

/-- The literals of several values. -/
def literals : List Value → List Sql
  | [] => []
  | v :: vs => literal v :: literals vs

/-- The entries of a map, each as a quoted key, a colon and a value. -/
def entryLiterals : List (String × Value) → List Sql
  | [] => []
  | (key, v) :: rest => (.text key :: (Sql.code ": " ++ literal v)) :: entryLiterals rest

end

theorem literals_eq_map (vs : List Value) : literals vs = vs.map literal := by
  induction vs with
  | nil => rfl
  | cons v vs ih => simp [literals, ih]

/-- The text of a literal. -/
def literalText (v : Value) : String :=
  v.literal.text

/-- The literals of a list between round brackets. -/
def tupleLiteral (vs : List Value) : Sql :=
  (Sql.joined ", " (vs.map literal)).inParens

end Value

end SqlLoom
