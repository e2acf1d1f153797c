import PrologTokens.Text.Terminal

/-!
# Refused arguments

Why the arguments of a command are refused, and the text about it. Whatever the text repeats from
the arguments is shown without commands for a terminal.
-/

set_option autoImplicit false

namespace PrologTokens.Command

/-- Why arguments are refused. -/
inductive UsageError where
  /-- An argument that means nothing. It may have been meant as an operand. -/
  | unexpectedArgument (argument : String) (maybeOperand : Bool)
  /-- A value attached to a flag. -/
  | unexpectedValue (value option : String)
  /-- A value that is missing or empty. -/
  | valueRequired (option : String)
  /-- An option given twice. -/
  | usedTwice (option : String)
  /-- A value of the wrong kind. -/
  | invalidValue (value option reason : String)
  /-- A subcommand that does not exist. -/
  | unknownSubcommand (name : String)
  /-- An option that is required and not given. -/
  | missingRequired
  deriving DecidableEq, Repr, Inhabited

namespace UsageError

open Text

/-- The description of refused arguments. -/
def message : UsageError → String
  | unexpectedArgument argument _ => s!"unexpected argument '{Terminal.visible argument}' found"
  | unexpectedValue value option =>
    s!"unexpected value '{Terminal.visible value}' for '{option}' found; no more were expected"
  | valueRequired option => s!"a value is required for '{option}' but none was supplied"
  | usedTwice option => s!"the argument '{option}' cannot be used multiple times"
  | invalidValue value option reason =>
    s!"invalid value '{Terminal.visible value}' for '{option}': {reason}"
  | unknownSubcommand name => s!"unrecognized subcommand '{Terminal.visible name}'"
  | missingRequired => "the following required arguments were not provided:"

/-- Advice that follows the description. -/
def advice? : UsageError → Option String
  | unexpectedArgument argument true =>
    let shown := Terminal.visible argument
    some s!"  tip: to pass '{shown}' as a value, use '-- {shown}'"
  | _ => none

/-- What is written about refused arguments. -/
def text (error : UsageError) : String :=
  let advice := match error.advice? with
    | some advice => s!"\n{advice}\n"
    | none => ""
  s!"error: {error.message}\n{advice}"

end UsageError
end PrologTokens.Command
