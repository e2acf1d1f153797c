import PrologTokens.Decimal.Shortest

/-!
# Layout of decimals

Where the point stands, and when a power of ten is split off.
-/

set_option autoImplicit false

namespace PrologTokens.Decimal

/-- The decisions of a text format for floating-point numbers. -/
structure Layout where
  /-- The least power of ten of a first digit for which no power of ten is split off. -/
  least : Int
  /-- The greatest power of ten of a first digit for which no power of ten is split off. -/
  greatest : Int
  /-- What is written behind a whole number from which no power of ten is split off. -/
  wholeMark : String
  /-- What stands before a power of ten that is not negative. -/
  plusMark : String
  deriving DecidableEq, Repr, Inhabited

/-- The digits without the zeros at their end. -/
def significantDigits (d : Numeral) : List Char :=
  ((Nat.toDigits 10 d.digits).reverse.dropWhile (· = '0')).reverse

/-- The text of a decimal that is not zero, given by its digits and the power of ten of the first
of them. -/
def Layout.write (layout : Layout) (digits : List Char) (lead : Int) : List Char :=
  if layout.least ≤ lead ∧ lead ≤ layout.greatest then
    if lead < 0 then
      ['0', '.'] ++ List.replicate (-lead - 1).toNat '0' ++ digits
    else
      let width := lead.toNat + 1
      let whole := digits.take width ++ List.replicate (width - digits.length) '0'
      match digits.drop width with
      | [] => whole ++ layout.wholeMark.toList
      | fraction => whole ++ '.' :: fraction
  else
    let mantissa := match digits with
      | first :: second :: more => first :: '.' :: second :: more
      | short => short
    let sign := if lead < 0 then ['-'] else layout.plusMark.toList
    mantissa ++ 'e' :: sign ++ Nat.toDigits 10 lead.natAbs

/-- The text of a floating-point number, with as few digits as identify it. -/
def Double.text (layout : Layout) (x : Double) : String :=
  let sign := if x.negative then ['-'] else []
  let body :=
    if x.magnitude.isZero then '0' :: layout.wholeMark.toList
    else
      let d := x.magnitude.shortest
      let lead := d.exponent + ((Nat.toDigits 10 d.digits).length : Int) - 1
      layout.write (significantDigits d) lead
  String.ofList (sign ++ body)

end PrologTokens.Decimal
