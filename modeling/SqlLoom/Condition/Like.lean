/-
  Patterns that match a fragment literally.

  In a pattern `%` stands for any text and `_` for any character; a backslash takes the meaning away
  from the character after it.  A fragment is therefore written with a backslash before each of the
  three, and `%` is added at the open ends.
-/
import SqlLoom.Condition

namespace SqlLoom

namespace Like

/-- Whether a character means something in a pattern. -/
def isSpecial (c : Char) : Bool :=
  c == '%' || c == '_' || c == '\\'

/-- The fragment with a backslash before each special character. -/
def escapeChars : List Char → List Char
  | [] => []
  | c :: rest => if isSpecial c then '\\' :: c :: escapeChars rest else c :: escapeChars rest

/-- The pattern that matches the fragment and nothing else. -/
def escape (fragment : String) : String :=
  String.ofList (escapeChars fragment.toList)

end Like

namespace Operator

/-- The column starts with the fragment. -/
def startsWith (fragment : String) : Operator :=
  like (Like.escape fragment ++ "%")

/-- The column ends with the fragment. -/
def endsWith (fragment : String) : Operator :=
  like ("%" ++ Like.escape fragment)

/-- The column contains the fragment. -/
def contains (fragment : String) : Operator :=
  like ("%" ++ Like.escape fragment ++ "%")

end Operator

end SqlLoom
