/-!
# Tables of code points

A table holds closed ranges of code points in ascending order. It is searched by halves.
-/

set_option autoImplicit false

namespace PrologTokens.Text

/-- Closed ranges of code points, in ascending order. -/
abbrev RangeTable := Array (Nat × Nat)

namespace RangeTable

/-- Whether one of the ranges from index `low` up to `high` holds the code point. Every turn halves
the part of the table that is left, so `fuel` is enough when it is the number of ranges. -/
def holdsBetween (table : RangeTable) (code : Nat) : (fuel low high : Nat) → Bool
  | 0, _, _ => false
  | fuel + 1, low, high =>
    if high ≤ low then false
    else
      let middle := (low + high) / 2
      match table[middle]? with
      | none => false
      | some (first, last) =>
        if code < first then holdsBetween table code fuel low middle
        else if last < code then holdsBetween table code fuel (middle + 1) high
        else true

/-- Whether one of the ranges holds the code point. -/
def holds (table : RangeTable) (code : Nat) : Bool :=
  holdsBetween table code table.size 0 table.size

end RangeTable
end PrologTokens.Text
