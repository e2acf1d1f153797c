/-!
# Names that mean nothing

Categories and reserved words are looked up by their names. A text that is none of these names is
told apart from all other failures.
-/

set_option autoImplicit false

namespace PrologTokens

/-- A text that was looked up and names nothing. -/
structure UnknownName where
  /-- The text. -/
  text : String
  deriving DecidableEq, Repr, Inhabited

/-- The description of an unknown name. It does not cite the text, so it is the same for all of
them. -/
def UnknownName.message (_ : UnknownName) : String := "Matching variant not found"

end PrologTokens
