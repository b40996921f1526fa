/-
  The two printed forms of a double precision number.

  * `literalDigits` — for SQL: the fewest digits that read back, positional where that is not longer
    than scientific notation.  With `n` digits and exponent `e` that is `-(n + 3) ≤ e ≤ 5`, one less
    at both ends when the scientific form has no point (`n = 1`).  A whole number in positional
    notation is written out exactly.
  * `displayDigits` — for people: six significant digits, positional when the leading digit stands
    between `10 ^ -4` and `10 ^ 5`.
-/
import SqlLoom.Number.Binary64
import SqlLoom.Number.Shortest

namespace SqlLoom

/-- A sign in front of a negative number. -/
def signed (negative : Bool) (digits : List Char) : List Char :=
  if negative then '-' :: digits else digits

namespace Decimal

/-- Positional notation is chosen for a literal unless it is longer than the scientific one. -/
def literalIsPositional (d : Decimal) : Bool :=
  if d.width = 1 then decide (-3 ≤ d.exponent ∧ d.exponent ≤ 4)
  else decide (-(d.width + 3 : Int) ≤ d.exponent ∧ d.exponent ≤ 5)

/-- Positional notation is chosen for display in the range of six digits. -/
def displayIsPositional (d : Decimal) : Bool :=
  decide (-4 ≤ d.leading ∧ d.leading < 6)

end Decimal

namespace Binary64

/-- The digits of a finite number in SQL. -/
def literalDigits (negative : Bool) (significand : Nat) (exponent : Int) : List Char :=
  signed negative <|
    if significand = 0 then ['0']
    else
      let x : Dyadic := ⟨significand, exponent⟩
      let d := x.shortest
      if !d.literalIsPositional then d.scientific
      else if 0 ≤ d.exponent then decimalDigits x.whole
      else d.positional

/-- The digits of a finite number for display. -/
def displayDigits (negative : Bool) (significand : Nat) (exponent : Int) : List Char :=
  signed negative <|
    if significand = 0 then ['0']
    else
      let d := (⟨significand, exponent⟩ : Dyadic).rounded 6
      if d.displayIsPositional then d.positional else d.scientific

/-- A number for display; NaN and the infinities have words of their own, with their sign. -/
def display (x : Binary64) : String :=
  match x.reading with
  | .nan negative => if negative then "-nan" else "nan"
  | .infinite negative => if negative then "-inf" else "inf"
  | .finite negative significand exponent =>
    String.ofList (displayDigits negative significand exponent)

end Binary64

end SqlLoom
