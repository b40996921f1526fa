/-
  IEEE 754 double precision numbers, kept as their 64 bits.

  A number is stored by its bits and never by a machine float, so that every NaN keeps its payload
  and every printed digit is decided by exact integer arithmetic on the fields of the word:

      sign (1 bit)   exponent (11 bits)   fraction (52 bits)

  `reading` decodes the word; a finite number is `± significand · 2 ^ exponent`.  Powers are spelled
  `Nat.pow`: the sign `^` would stand for the power of a monoid once Mathlib is imported.
-/

namespace SqlLoom

/-- A double precision number, as its bits. -/
structure Binary64 where
  bits : UInt64
  deriving DecidableEq, Repr

namespace Binary64

/-- What the bits of a number stand for. -/
inductive Reading where
  | nan (negative : Bool)
  | infinite (negative : Bool)
  /-- The number `significand · 2 ^ exponent`, negated when `negative` holds. -/
  | finite (negative : Bool) (significand : Nat) (exponent : Int)
  deriving DecidableEq, Repr

/-- The sign bit. -/
def negative (x : Binary64) : Bool :=
  decide (Nat.pow 2 63 ≤ x.bits.toNat)

/-- The eleven bits of the biased exponent. -/
def exponentField (x : Binary64) : Nat :=
  x.bits.toNat / Nat.pow 2 52 % Nat.pow 2 11

/-- The fifty-two bits of the fraction. -/
def fractionField (x : Binary64) : Nat :=
  x.bits.toNat % Nat.pow 2 52

/-- Decodes the bits.  An exponent field of all ones is an infinity or a NaN, one of zero is a
    subnormal number without the hidden leading bit. -/
def reading (x : Binary64) : Reading :=
  if x.exponentField = 2047 then
    if x.fractionField = 0 then .infinite x.negative else .nan x.negative
  else if x.exponentField = 0 then .finite x.negative x.fractionField (-1074)
  else .finite x.negative (Nat.pow 2 52 + x.fractionField) (x.exponentField - 1075)

/-- Equality of numbers: a NaN equals nothing, the two zeros are equal, and any other number equals
    only itself. -/
def equal (x y : Binary64) : Bool :=
  match x.reading, y.reading with
  | .nan _, _ => false
  | _, .nan _ => false
  | .finite _ 0 _, .finite _ 0 _ => true
  | _, _ => x.bits == y.bits

instance : BEq Binary64 := ⟨equal⟩

/-! Zero, minus zero and a NaN. -/

example : equal ⟨0⟩ ⟨0x8000000000000000⟩ = true := by decide
example : equal ⟨0x7ff8000000000000⟩ ⟨0x7ff8000000000000⟩ = false := by decide
example : reading ⟨0x3ff8000000000000⟩ = .finite false (3 * 2 ^ 51) (-52) := by decide

end Binary64

end SqlLoom
