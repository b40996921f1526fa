/-
  How names of tables and columns are written in SQL.

  A name is written between backticks.  Three forms of text pass unquoted, because they are not
  names: `*`, a number, and, outside conditions, anything with an opening bracket, which is taken to
  be an expression.  Otherwise a dot separates a table from a column; both parts must then be simple
  identifiers and each is quoted on its own.

      quote .selection  "a.b"    =  `a`.`b`
      quote .selection  "now()"  =  now()
      quote .condition  "now()"  =  `now()`
-/
import SqlLoom.Error
import SqlLoom.Sql

namespace SqlLoom.Identifier

/-- Where a name stands. -/
inductive Context where
  /-- Select lists, tables, aliases, grouping and ordering. -/
  | selection
  /-- The operands of a condition. -/
  | condition
  deriving DecidableEq, Repr

/-- Why a text with a dot is not a name. -/
inductive Fault where
  | tooManyParts (identifier : String)
  | partNotSimple (identifier : String)
  deriving DecidableEq, Repr

namespace Fault

/-- The text that is not a name. -/
def identifier : Fault → String
  | tooManyParts s => s
  | partNotSimple s => s

/-- What is wrong with it. -/
def reason : Fault → String
  | tooManyParts _ => " - table.column format expected"
  | partNotSimple _ => " contains invalid characters"

/-- The fault as an error. -/
def toError (f : Fault) : Error :=
  .invalid ("Invalid identifier: '" ++ f.identifier ++ "'" ++ f.reason) "identifier"
    (some f.identifier)

end Fault

/-! ## The shapes of names

  Only ASCII letters and digits count; the character tests of the library know no others. -/

/-- A letter or an underscore. -/
def isHead (c : Char) : Bool :=
  c.isAlpha || c == '_'

/-- A letter, a digit or an underscore. -/
def isTail (c : Char) : Bool :=
  c.isAlphanum || c == '_'

/-- A letter or underscore, then letters, digits and underscores. -/
def isSimpleChars : List Char → Bool
  | [] => false
  | c :: rest => isHead c && rest.all isTail

/-- Whether the text is a simple identifier. -/
def isSimple (s : String) : Bool :=
  isSimpleChars s.toList

/-- What stands before the first dot, and what stands behind it if there is one. -/
def splitAtDot (s : List Char) : List Char × Option (List Char) :=
  (s.takeWhile (· ≠ '.'), (s.dropWhile (· ≠ '.')).tail?)

/-- Without a dot, all of the text stands before it. -/
theorem eq_of_splitAtDot_none {s front : List Char} (h : splitAtDot s = (front, none)) :
    front = s := by
  obtain ⟨hfront, hback⟩ := Prod.mk.inj h
  have hnil : s.dropWhile (· ≠ '.') = [] := by
    cases hdrop : s.dropWhile (· ≠ '.') with
    | nil => rfl
    | cons c back =>
      rw [hdrop] at hback
      exact absurd hback (Option.some_ne_none back)
  have hsplit : s.takeWhile (· ≠ '.') ++ s.dropWhile (· ≠ '.') = s :=
    List.takeWhile_append_dropWhile
  rw [hnil, List.append_nil] at hsplit
  exact hfront.symm.trans hsplit

/-- The two parts have the dot between them. -/
theorem append_of_splitAtDot {s front back : List Char} (h : splitAtDot s = (front, some back)) :
    front ++ '.' :: back = s := by
  obtain ⟨hfront, hback⟩ := Prod.mk.inj h
  have hsplit : s.takeWhile (· ≠ '.') ++ s.dropWhile (· ≠ '.') = s :=
    List.takeWhile_append_dropWhile
  have hhead := List.head?_dropWhile_not (· ≠ '.') s
  cases hdrop : s.dropWhile (· ≠ '.') with
  | nil =>
    rw [hdrop] at hback
    exact absurd hback.symm (Option.some_ne_none back)
  | cons dot rest =>
    rw [hdrop] at hback hhead hsplit
    obtain rfl : rest = back := Option.some.inj hback
    obtain rfl : dot = '.' := by simpa using hhead
    rw [← hfront]
    exact hsplit

/-- At least one digit and nothing else. -/
def isDigits (s : List Char) : Bool :=
  !s.isEmpty && s.all Char.isDigit

/-- Digits, or digits with one point among them. -/
def isNumber (s : List Char) : Bool :=
  match splitAtDot s with
  | (front, none) => isDigits front
  | (front, some back) => isDigits front && isDigits back

/-! ## Quoting -/

/-- The SQL of a name in a context. -/
def quote (context : Context) (s : String) : Except Fault Sql :=
  let chars := s.toList
  if s = "*" then .ok (Sql.code s)
  else if isNumber chars then .ok (Sql.code s)
  else if '(' ∈ chars then
    match context with
    | .condition => .ok [.name s]
    | .selection => .ok [.verbatim s]
  else
    match splitAtDot chars with
    | (_, none) => .ok [.name s]
    | (table, some column) =>
      if '.' ∈ column then .error (.tooManyParts s)
      else if isSimpleChars table && isSimpleChars column then
        .ok [.name (String.ofList table), .code ".", .name (String.ofList column)]
      else .error (.partNotSimple s)

example : (quote .selection "a.b").map Sql.text = .ok "\x60a\x60.\x60b\x60" := rfl
example : (quote .selection "a.b.c").map Sql.text = .error (.tooManyParts "a.b.c") := rfl
example : (quote .condition "now()").map Sql.text = .ok "\x60now()\x60" := rfl

end SqlLoom.Identifier
