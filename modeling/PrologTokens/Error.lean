import PrologTokens.Category
import PrologTokens.Pattern.Fault

/-!
# Errors

What can go wrong when rules are made and when a source is analysed, with the wording that users
see.
-/

set_option autoImplicit false

namespace PrologTokens

/-- A failure of the analysis or of the making of a rule. -/
inductive Error where
  /-- A source line holds an odd number of quotation marks. -/
  | unterminatedString (line : Nat)
  /-- The text given for the pattern of a rule is not a pattern. -/
  | invalidPattern (category : Category) (fault : Pattern.Fault)
  deriving DecidableEq, Repr, Inhabited

namespace Error

/-- The description of a failure. It names the category of a rule whose pattern is refused, and
leaves out the reason. -/
def message : Error → String
  | unterminatedString line => s!"Unterminated string literal on line {line}"
  | invalidPattern category _ => s!"Invalid pattern for {category.name} rule"

/-- The number of the source line that a failure points at. -/
def line? : Error → Option Nat
  | unterminatedString line => some line
  | invalidPattern _ _ => none

end Error
end PrologTokens
