/-!
# Binary floating-point numbers of 64 bits

The finite numbers of the 64-bit binary format, as whole multiples of the smallest one, `2⁻¹⁰⁷⁴`.
Arithmetic is exact arithmetic on natural numbers followed by rounding to the nearest number of the
format, of two equally near ones to the one with an even significand.
-/

set_option autoImplicit false

namespace PrologTokens.Decimal

/-- The quotient rounded to the nearest natural number, a half to the even neighbour. -/
def roundDiv (num den : Nat) : Nat :=
  let whole := num / den
  let twice := 2 * (num % den)
  if twice < den then whole
  else if den < twice then whole + 1
  else whole + whole % 2

/-- The value `significand * 2 ^ shift / 2 ^ 1074`. -/
structure Magnitude where
  /-- The leading binary digits, at most 53 of them. -/
  significand : Nat
  /-- How many binary digits follow them, down to the smallest number of the format. -/
  shift : Nat
  deriving DecidableEq, Repr, Inhabited

namespace Magnitude

/-- How often the unit `2⁻¹⁰⁷⁴` goes into one. -/
def unitsInOne : Nat := Nat.pow 2 1074

/-- How often the unit `2⁻¹⁰⁷⁴` goes into a number. -/
def units (m : Magnitude) : Nat := m.significand * Nat.pow 2 m.shift

/-- The number nearest to a fraction, unless the fraction is too large for the format. -/
def round? (num den : Nat) : Option Magnitude :=
  let shift := (num * unitsInOne / den).log2 - 52
  let significand := roundDiv (num * unitsInOne) (den * Nat.pow 2 shift)
  let m : Magnitude :=
    if significand < Nat.pow 2 53 then ⟨significand, shift⟩ else ⟨significand / 2, shift + 1⟩
  if m.shift ≤ 2045 then some m else none

/-- The number nearest to a natural number. -/
def ofNat? (n : Nat) : Option Magnitude := round? n 1

/-- The product, rounded. -/
def mul? (a b : Magnitude) : Option Magnitude :=
  round? (a.units * b.units) (unitsInOne * unitsInOne)

/-- The quotient, rounded. -/
def div? (a b : Magnitude) : Option Magnitude := round? a.units b.units

/-- Whether the number is zero. -/
def isZero (m : Magnitude) : Bool := m.significand = 0

end Magnitude

/-- A finite number of the format. Zero comes with both signs. -/
structure Double where
  /-- Whether the sign is a minus. -/
  negative : Bool
  /-- The absolute value. -/
  magnitude : Magnitude
  deriving DecidableEq, Repr, Inhabited

end PrologTokens.Decimal
