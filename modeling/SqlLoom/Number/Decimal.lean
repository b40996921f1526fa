/-
  Decimal numbers and the two ways to write them.

  A `Decimal` is `digits · 10 ^ exponent`.  It is written either POSITIONALLY (`0.001`, `1500`) or in
  SCIENTIFIC notation (`1.5e+03`); which of the two is used is a decision of the caller.
-/

namespace SqlLoom

/-- The decimal digits of a natural number, most significant first. -/
def decimalDigits (n : Nat) : List Char :=
  Nat.toDigits 10 n

/-- An integer in decimal, with a minus sign in front of a negative one. -/
def decimalInt (n : Int) : String :=
  if n < 0 then String.ofList ('-' :: decimalDigits n.natAbs)
  else String.ofList (decimalDigits n.natAbs)

/-- A natural number in decimal. -/
def decimalNat (n : Nat) : String :=
  String.ofList (decimalDigits n)

/-- The digits of `n`, with zeros in front up to the given width. -/
def paddedDigits (width n : Nat) : List Char :=
  List.replicate (width - (decimalDigits n).length) '0' ++ decimalDigits n

/-- The number `digits · 10 ^ exponent`. -/
structure Decimal where
  digits : Nat
  exponent : Int
  deriving DecidableEq, Repr

namespace Decimal

/-- Drops trailing zeros of `digits`, at most `fuel` of them. -/
def trimUpTo : Nat → Decimal → Decimal
  | 0, d => d
  | fuel + 1, d =>
    if d.digits ≠ 0 ∧ d.digits % 10 = 0 then trimUpTo fuel ⟨d.digits / 10, d.exponent + 1⟩ else d

/-- The same number with the fewest digits.  A number has fewer trailing zeros than digits, which
    bounds the loop. -/
def trim (d : Decimal) : Decimal :=
  trimUpTo (decimalDigits d.digits).length d

/-- How many digits the number is written with. -/
def width (d : Decimal) : Nat :=
  (decimalDigits d.digits).length

/-- The power of ten of the leading digit. -/
def leading (d : Decimal) : Int :=
  d.exponent + (d.width - 1)

/-- Positional notation: the digits with zeros behind them, or with a point between or before
    them. -/
def positional (d : Decimal) : List Char :=
  let ds := decimalDigits d.digits
  let places := (-d.exponent).toNat
  if places = 0 then ds ++ List.replicate d.exponent.toNat '0'
  else if places < ds.length then
    ds.take (ds.length - places) ++ '.' :: ds.drop (ds.length - places)
  else '0' :: '.' :: (List.replicate (places - ds.length) '0' ++ ds)

/-- Scientific notation: one digit before the point, a signed exponent of at least two digits. -/
def scientific (d : Decimal) : List Char :=
  let mantissa := match decimalDigits d.digits with
    | [] => []
    | [first] => [first]
    | first :: rest => first :: '.' :: rest
  mantissa ++ 'e' :: (if d.leading < 0 then '-' else '+') :: paddedDigits 2 d.leading.natAbs

example : positional ⟨15, 2⟩ = "1500".toList := by decide
example : positional ⟨15, -1⟩ = "1.5".toList := by decide
example : positional ⟨15, -4⟩ = "0.0015".toList := by decide
example : scientific ⟨15, 2⟩ = "1.5e+03".toList := by decide
example : trim ⟨1500, -3⟩ = ⟨15, -1⟩ := by decide

end Decimal

end SqlLoom
