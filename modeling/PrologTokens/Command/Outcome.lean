import PrologTokens.Command.Arguments

/-!
# What a run of a program leaves behind
-/

set_option autoImplicit false

namespace PrologTokens.Command

/-- The exit code of a program and what it has written. -/
structure Outcome where
  /-- The exit code. -/
  exitCode : UInt8
  /-- The standard output. -/
  output : String
  /-- What was written about errors. -/
  errors : String
  deriving DecidableEq, Repr, Inhabited

namespace Outcome

/-- A run that does its work. -/
def success (output : String) : Outcome := ⟨0, output, ""⟩

/-- A run that fails after the given output. -/
def failure (output message : String) : Outcome := ⟨1, output, s!"Error: {message}\n"⟩

/-- A run that ends because its arguments are refused. -/
def usage (error : UsageError) : Outcome := ⟨2, "", error.text⟩

/-- A run that ends early, given the texts to show. -/
def ofStop (help version : String) : Stop → Outcome
  | .usage error => usage error
  | .help => success help
  | .version => success version

end Outcome
end PrologTokens.Command
