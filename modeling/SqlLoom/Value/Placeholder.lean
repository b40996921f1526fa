/-
  Question marks in hand-written SQL are replaced by literals, in one pass from left to right.

  The pass reads only the given text, so a question mark inside an inserted literal is never
  replaced.  With no values at all the text is left alone, question marks included; otherwise there
  must be exactly one value for each question mark.

  The pass counts the question marks that it has met and takes each value by that number.  It would
  have no result if it asked for a value that is not there; counting beforehand rules that out
  (`isSome_fillFrom`).
-/
import SqlLoom.Error
import SqlLoom.Value.Literal

namespace SqlLoom.Placeholder

/-- Question marks and values that do not pair up. -/
structure CountMismatch where
  placeholders : Nat
  values : Nat
  deriving DecidableEq, Repr

/-- The mismatch as an error. -/
def CountMismatch.toError (m : CountMismatch) : Error :=
  .invalid
    ("Parameter count mismatch. SQL has " ++ decimalNat m.placeholders
      ++ " placeholders, but " ++ decimalNat m.values ++ " values provided")
    "params" (some (decimalNat m.values))

/-- How many question marks stand in the text. -/
def count (sql : List Char) : Nat :=
  sql.count '?'

theorem count_mark (rest : List Char) : count ('?' :: rest) = count rest + 1 :=
  List.count_cons_self

theorem count_cons_of_ne {c : Char} (h : c ≠ '?') (rest : List Char) :
    count (c :: rest) = count rest :=
  List.count_cons_of_ne h

theorem count_append (a b : List Char) : count (a ++ b) = count a + count b :=
  List.count_append

/-- Replaces question marks by the literals of the values from `index` on. -/
def fillFrom (values : List Value) : Nat → List Char → Option (List Char)
  | _, [] => some []
  | index, c :: rest =>
    if c = '?' then do
      let v ← values[index]?
      let rest ← fillFrom values (index + 1) rest
      return v.literal.chars ++ rest
    else do
      let rest ← fillFrom values index rest
      return c :: rest

/-- The pass gets through when there are as many values from `index` on as question marks. -/
theorem isSome_fillFrom {values : List Value} {index : Nat} {sql : List Char}
    (h : index + count sql ≤ values.length) : (fillFrom values index sql).isSome := by
  induction sql generalizing index with
  | nil => rfl
  | cons c rest ih =>
    by_cases hc : c = '?'
    · subst hc
      rw [count_mark] at h
      have hindex : index < values.length := by omega
      have hleft : index + 1 + count rest ≤ values.length := by omega
      obtain ⟨filled, hfilled⟩ := Option.isSome_iff_exists.mp (ih hleft)
      simp [fillFrom, List.getElem?_eq_getElem hindex, hfilled]
    · rw [count_cons_of_ne hc] at h
      obtain ⟨filled, hfilled⟩ := Option.isSome_iff_exists.mp (ih h)
      simp [fillFrom, hc, hfilled]

/-- Replaces each question mark by the literal of its value. -/
def fill (sql : String) (values : List Value) : Except CountMismatch String :=
  if values.isEmpty then .ok sql
  else if h : count sql.toList = values.length then
    have hfits : 0 + count sql.toList ≤ values.length := by omega
    .ok (String.ofList ((fillFrom values 0 sql.toList).get (isSome_fillFrom hfits)))
  else .error ⟨count sql.toList, values.length⟩

end SqlLoom.Placeholder
