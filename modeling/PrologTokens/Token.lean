import PrologTokens.Category

/-!
# Tokens
-/

set_option autoImplicit false

namespace PrologTokens

/-- A piece of a source line together with what it was recognised as. -/
structure Token where
  /-- The matched text, exactly as it stands in the line. -/
  lexeme : String
  /-- What the text was recognised as. -/
  category : Category
  /-- The number of the source line, counted from 1. -/
  line : Nat
  deriving DecidableEq, Repr, Inhabited

end PrologTokens
