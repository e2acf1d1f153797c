import PrologTokens.Decimal.Double

/-!
# Shortest decimals

The decimal with the fewest digits among those that round to a given binary number, of these the
nearest one, and of two equally near ones the one with the even last digit. Every decimal between
the midpoints to the two neighbouring numbers of the format rounds to it; the midpoints themselves
do so if the significand is even.
-/

set_option autoImplicit false

namespace PrologTokens.Decimal

/-- The value `digits * 10 ^ exponent`. -/
structure Numeral where
  /-- The digits as a natural number. -/
  digits : Nat
  /-- The power of ten of the last digit. -/
  exponent : Int
  deriving DecidableEq, Repr, Inhabited

namespace Magnitude

/-- The number in quarters of the unit, so that the midpoints are whole. -/
def quarters (m : Magnitude) : Nat := 4 * m.units

/-- The midpoint to the next smaller number, in quarters of the unit. Below a power of two the
numbers lie twice as close. -/
def lowQuarters (m : Magnitude) : Nat :=
  if m.significand = Nat.pow 2 52 ∧ 0 < m.shift then m.quarters - Nat.pow 2 m.shift
  else m.quarters - 2 * Nat.pow 2 m.shift

/-- The midpoint to the next larger number, in quarters of the unit. -/
def highQuarters (m : Magnitude) : Nat := m.quarters + 2 * Nat.pow 2 m.shift

/-- Whether the decimal rounds to the number. -/
def isReadFrom (m : Magnitude) (d : Numeral) : Bool :=
  let value := d.digits * Nat.pow 10 d.exponent.toNat * (4 * unitsInOne)
  let scale := Nat.pow 10 (-d.exponent).toNat
  if m.significand % 2 = 0 then
    m.lowQuarters * scale ≤ value && value ≤ m.highQuarters * scale
  else
    m.lowQuarters * scale < value && value < m.highQuarters * scale

/-- How far the decimal lies from the number, in parts that are the same for all decimals of one
exponent. -/
def distance (m : Magnitude) (d : Numeral) : Nat :=
  let value := d.digits * Nat.pow 10 d.exponent.toNat * (4 * unitsInOne)
  let own := m.quarters * Nat.pow 10 (-d.exponent).toNat
  (value - own) + (own - value)

/-- The largest decimal with the given exponent that is not above the number. -/
def floorAt (m : Magnitude) (exponent : Int) : Numeral :=
  let scale := Nat.pow 10 exponent.toNat * (4 * unitsInOne)
  ⟨m.quarters * Nat.pow 10 (-exponent).toNat / scale, exponent⟩

/-- The power of ten of the first digit of a number that is not zero. -/
def leadingExponent (m : Magnitude) : Int :=
  let rec down : (fuel : Nat) → Nat → Int
    | 0, k => -k
    | fuel + 1, k => if unitsInOne ≤ m.units * Nat.pow 10 k then -k else down fuel (k + 1)
  if unitsInOne ≤ m.units then ((Nat.toDigits 10 (m.units / unitsInOne)).length : Int) - 1
  else down 400 1

/-- The nearer one of two neighbouring decimals, of two equally near ones the one with the even last
digit. -/
def nearer (m : Magnitude) (below above : Numeral) : Numeral :=
  if m.distance below < m.distance above then below
  else if m.distance above < m.distance below then above
  else if below.digits % 2 = 0 then below
  else above

/-- The decimal with the given exponent that rounds to the number and is nearest to it. -/
def nearestAt? (m : Magnitude) (exponent : Int) : Option Numeral :=
  let below := m.floorAt exponent
  let above : Numeral := ⟨below.digits + 1, exponent⟩
  match m.isReadFrom below, m.isReadFrom above with
  | true, true => some (m.nearer below above)
  | true, false => some below
  | false, true => some above
  | false, false => none

/-- The shortest decimal of a number that is not zero: decimals with one digit are tried first, and
17 digits are always enough. -/
def shortest (m : Magnitude) : Numeral :=
  let lead := m.leadingExponent
  ((List.range 17).findSome? fun (n : Nat) => m.nearestAt? (lead - (n : Int))).getD
    (m.floorAt (lead - 16))

end Magnitude
end PrologTokens.Decimal
