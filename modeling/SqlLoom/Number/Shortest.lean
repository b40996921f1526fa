/-
  Decimal forms of a positive binary number `significand · 2 ^ exponent`, in exact arithmetic.

  Two questions are answered on a GRID, the multiples of a power of ten `10 ^ place`:

  * `shortest`  — the fewest digits that read back as the same number.  The reals that round to the
    number form an interval around it (its ends belong to it when the significand is even).  For one
    digit, two digits, and so on, the two neighbours of the number on that grid are tested; the
    first grid with a neighbour inside the interval wins, of two neighbours the nearer one.
  * `rounded n` — the number to `n` significant digits, on one grid.

  In both an exact tie goes to the even neighbour.
-/
import SqlLoom.Number.Decimal

namespace SqlLoom

/-- The positive number `significand · 2 ^ exponent`. -/
structure Dyadic where
  significand : Nat
  exponent : Int
  deriving DecidableEq, Repr

namespace Dyadic

/-! ## The number on a grid

  `quarters · 2 ^ (exponent - 2) / 10 ^ place` is the fraction `numerator / denominator`.  Counting in
  quarters of the last binary place makes the ends of the rounding interval whole. -/

/-- Numerator of `quarters · 2 ^ (exponent - 2)` in units of `10 ^ place`. -/
def numerator (x : Dyadic) (place : Int) (quarters : Nat) : Nat :=
  quarters * Nat.pow 2 (x.exponent - 2).toNat * Nat.pow 10 (-place).toNat

/-- Denominator of the same fraction; it does not depend on the number of quarters. -/
def denominator (x : Dyadic) (place : Int) : Nat :=
  Nat.pow 2 (2 - x.exponent).toNat * Nat.pow 10 place.toNat

/-- The largest point of the grid that is not above the number. -/
def below (x : Dyadic) (place : Int) : Nat :=
  x.numerator place (4 * x.significand) / x.denominator place

/-- The power of ten of the leading decimal digit.  No positive double is below `10 ^ -324`, so on
    that grid the number has at least one digit. -/
def leading (x : Dyadic) : Int :=
  (decimalDigits (x.below (-324))).length - 325

/-- The point of the grid nearest to the number, the even one of two equally near. -/
def nearest (x : Dyadic) (place : Int) : Nat :=
  let low := x.below place
  let twice := 2 * x.numerator place (4 * x.significand)
  let middle := (2 * low + 1) * x.denominator place
  if twice < middle then low
  else if middle < twice then low + 1
  else if low % 2 = 0 then low else low + 1

/-! ## Shortest digits -/

/-- The lower end of the interval that rounds to the number, in quarters.  Below a power of two the
    neighbour is only half as far away, except at the smallest exponent. -/
def lowerEnd (x : Dyadic) : Nat :=
  if x.significand = Nat.pow 2 52 ∧ x.exponent ≠ -1074 then 4 * x.significand - 1
  else 4 * x.significand - 2

/-- The upper end of the interval that rounds to the number, in quarters. -/
def upperEnd (x : Dyadic) : Nat :=
  4 * x.significand + 2

/-- Whether the grid point `point · 10 ^ place` reads back as the number. -/
def readsBack (x : Dyadic) (place : Int) (point : Nat) : Bool :=
  let scaled := point * x.denominator place
  let low := x.numerator place x.lowerEnd
  let high := x.numerator place x.upperEnd
  if x.significand % 2 = 0 then decide (low ≤ scaled ∧ scaled ≤ high)
  else decide (low < scaled ∧ scaled < high)

/-- A neighbour of the number on the grid that reads back as the number, the nearer one if both
    do. -/
def hit? (x : Dyadic) (place : Int) : Option Nat :=
  let low := x.below place
  match x.readsBack place low, x.readsBack place (low + 1) with
  | true, true => some (x.nearest place)
  | true, false => some low
  | false, true => some (low + 1)
  | false, false => none

/-- The fewest decimal digits that read back as the number.  Seventeen digits always suffice for a
    double, so the last grid is only a bound for the search. -/
def shortest (x : Dyadic) : Decimal :=
  let lead := x.leading
  let found := (List.range 17).findSome? fun (count : Nat) =>
    let place := lead - count
    (x.hit? place).map fun point => (⟨point, place⟩ : Decimal)
  (found.getD ⟨x.nearest (lead - 16), lead - 16⟩).trim

/-- The number rounded to `count` significant digits. -/
def rounded (x : Dyadic) (count : Nat) : Decimal :=
  let place := x.leading - (count - 1)
  Decimal.trim ⟨x.nearest place, place⟩

/-- The integer part of the number. -/
def whole (x : Dyadic) : Nat :=
  x.below 0

end Dyadic

end SqlLoom
