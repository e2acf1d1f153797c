import PrologTokens.Command.UsageError
import PrologTokens.Text.Similarity

/-!
# Command-line arguments

A command has options, which are flags or take a value, perhaps one operand, and perhaps
subcommands. Arguments are taken from left to right:

* `--name`, `--name=value` and `-n` name options; several short ones can be written together, and
  the last of them may be followed by its value, with or without an equals sign;
* an option that takes a value and has none attached takes the next argument, unless that one looks
  like an option;
* `--` ends the options;
* the name of a subcommand hands all further arguments over to it;
* anything else is the operand.

A value is judged when the next option, flag or operand comes, or when the arguments end. So an
unknown argument is reported before a wrong value right in front of it.
-/

set_option autoImplicit false

namespace PrologTokens.Command

/-- What a value has to be. -/
inductive ValueKind where
  /-- Any text. -/
  | text
  /-- A path, which is not empty. -/
  | path
  /-- A number from 0 to 65535. -/
  | port
  deriving DecidableEq, Repr, Inhabited

/-- What an option does. -/
inductive OptionAction where
  /-- Switches something on. -/
  | flag
  /-- Takes a value, which is called by the given label in messages. -/
  | value (label : String) (kind : ValueKind)
  /-- Asks for the help text. -/
  | help
  /-- Asks for the version. -/
  | version
  deriving DecidableEq, Repr, Inhabited

/-- An option. -/
structure OptionSpec where
  /-- The name behind two hyphens. -/
  long : String
  /-- The letter behind one hyphen. -/
  short : Option Char
  /-- What the option does. -/
  action : OptionAction
  deriving DecidableEq, Repr, Inhabited

/-- The option as messages show it. -/
def OptionSpec.display (option : OptionSpec) : String :=
  match option.action with
  | .value label _ => s!"--{option.long} <{label}>"
  | _ => s!"--{option.long}"

/-- What a command understands. -/
structure Grammar where
  /-- The options. -/
  options : List OptionSpec
  /-- The label of the operand, which is a path. -/
  operand : Option String
  /-- The names of the subcommands. -/
  subcommands : List String
  deriving DecidableEq, Repr, Inhabited

/-! ## Whole numbers -/

/-- Why a text is not a whole number of 64 bits. -/
inductive IntegerFault where
  /-- There is no text. -/
  | empty
  /-- Something in it is not a digit. -/
  | invalidDigit
  /-- The number is too large. -/
  | tooLarge
  /-- The number is too small. -/
  | tooSmall
  deriving DecidableEq, Repr, Inhabited

/-- The description of a text that is not a whole number. -/
def IntegerFault.message : IntegerFault → String
  | empty => "cannot parse integer from empty string"
  | invalidDigit => "invalid digit found in string"
  | tooLarge => "number too large to fit in target type"
  | tooSmall => "number too small to fit in target type"

/-- Reads digits into a number up to the given bound. The first character at fault decides. -/
def readDigits (bound : Nat) (overflow : IntegerFault) :
    (value : Nat) → List Char → Except IntegerFault Nat
  | value, [] => .ok value
  | value, c :: rest =>
    if !c.isDigit then .error .invalidDigit
    else
      let next := 10 * value + (c.toNat - '0'.toNat)
      if bound < next then .error overflow else readDigits bound overflow next rest

/-- Reads a whole number of 64 bits, with a sign allowed. -/
def readInteger : List Char → Except IntegerFault Int
  | [] => .error .empty
  | ['+'] => .error .invalidDigit
  | ['-'] => .error .invalidDigit
  | '+' :: text => (readDigits (Nat.pow 2 63 - 1) .tooLarge 0 text).map fun n => (n : Int)
  | '-' :: text => (readDigits (Nat.pow 2 63) .tooSmall 0 text).map fun n => -(n : Int)
  | text => (readDigits (Nat.pow 2 63 - 1) .tooLarge 0 text).map fun n => (n : Int)

/-- Reads a port, or says why the text is none. -/
def readPort (text : String) : Except String UInt16 :=
  match readInteger text.toList with
  | .error fault => .error fault.message
  | .ok n =>
    if 0 ≤ n ∧ n ≤ 65535 then .ok (UInt16.ofNat n.toNat)
    else .error s!"{n} is not in 0..=65535"

/-- Checks a value for the option or operand that is shown as given. -/
def ValueKind.check (kind : ValueKind) (shown value : String) : Except UsageError Unit :=
  match kind with
  | text => .ok ()
  | path => if value.isEmpty then .error (.valueRequired shown) else .ok ()
  | port =>
    match readPort value with
    | .ok _ => .ok ()
    | .error reason => .error (.invalidValue value shown reason)

/-! ## Taking arguments -/

/-- What ends the taking of arguments early. -/
inductive Stop where
  /-- The arguments are refused. -/
  | usage (error : UsageError)
  /-- The help text is asked for. -/
  | help
  /-- The version is asked for. -/
  | version
  deriving DecidableEq, Repr, Inhabited

/-- Something whose value is not judged yet. -/
structure Pending where
  /-- How the option or operand is shown. -/
  shown : String
  /-- What its value has to be. -/
  kind : ValueKind
  /-- The value, if it has come. -/
  value : Option String
  deriving DecidableEq, Repr, Inhabited

/-- The arguments taken so far. -/
structure Taken where
  /-- The options and operands that were judged, as they are shown, with their values. -/
  given : List (String × String)
  /-- The one that is not judged yet. -/
  pending : Option Pending
  deriving DecidableEq, Repr, Inhabited

namespace Taken

/-- Before any argument. -/
def start : Taken := ⟨[], none⟩

/-- Whether the option or operand was given. -/
def has (taken : Taken) (shown : String) : Bool := taken.given.any (·.1 = shown)

/-- The value of an option or operand. -/
def value? (taken : Taken) (shown : String) : Option String :=
  (taken.given.find? (·.1 = shown)).map (·.2)

/-- Adds a value. -/
def add (taken : Taken) (shown value : String) : Except UsageError Taken :=
  if taken.has shown then .error (.usedTwice shown)
  else .ok ⟨(shown, value) :: taken.given, none⟩

/-- Judges what is pending. A missing value is noticed first, then a repeated option, then a wrong
value. -/
def settle (taken : Taken) : Except UsageError Taken :=
  match taken.pending with
  | none => .ok taken
  | some ⟨shown, _, none⟩ => .error (.valueRequired shown)
  | some ⟨shown, kind, some value⟩ => do
    let settled ← add ⟨taken.given, none⟩ shown value
    kind.check shown value
    return settled

/-- Makes an option or operand the pending one, after judging the one before it. -/
def await (taken : Taken) (shown : String) (kind : ValueKind) (value : Option String) :
    Except UsageError Taken := do
  let taken ← taken.settle
  return ⟨taken.given, some ⟨shown, kind, value⟩⟩

/-- Adds a value that came attached to its option, after judging the option before it. -/
def attach (taken : Taken) (shown : String) (kind : ValueKind) (value : String) :
    Except UsageError Taken := do
  let taken ← taken.await shown kind (some value)
  taken.settle

/-- Follows an option that takes no value. -/
def follow (taken : Taken) (option : OptionSpec) : Except Stop Taken := do
  let taken ← taken.settle.mapError .usage
  match option.action with
  | .help => throw .help
  | .version => throw .version
  | _ => (taken.add option.display "true").mapError .usage

/-- Whether an option is still waiting for its value. -/
def isAwaiting (taken : Taken) : Bool :=
  match taken.pending with
  | some ⟨_, _, none⟩ => true
  | _ => false

/-- Gives the waiting option its value. -/
def supply (taken : Taken) (value : String) : Taken :=
  match taken.pending with
  | some ⟨shown, kind, none⟩ => ⟨taken.given, some ⟨shown, kind, some value⟩⟩
  | _ => taken

end Taken

namespace Grammar

/-- Whether an unknown long name may have been meant as an operand: it is not if it is like the name
of an option. -/
def maybeOperand (grammar : Grammar) (name : String) : Bool :=
  grammar.operand.isSome &&
    !grammar.options.any fun option => Text.areAlike name.toList option.long.toList

/-- Takes an option given by its long name, perhaps with a value attached. -/
def takeLong (grammar : Grammar) (taken : Taken) (name : String) (attached : Option String) :
    Except Stop Taken :=
  match grammar.options.find? (·.long = name) with
  | none => .error (.usage (.unexpectedArgument ("--" ++ name) (grammar.maybeOperand name)))
  | some option =>
    match option.action, attached with
    | .value _ kind, none => (taken.await option.display kind none).mapError .usage
    | .value _ kind, some value => (taken.attach option.display kind value).mapError .usage
    | _, some value => .error (.usage (.unexpectedValue value option.display))
    | _, none => taken.follow option

/-- Takes options given by their letters. -/
def takeShort (grammar : Grammar) (taken : Taken) : List Char → Except Stop Taken
  | [] => .ok taken
  | c :: rest =>
    match grammar.options.find? (·.short = some c) with
    | none =>
      .error (.usage (.unexpectedArgument (String.ofList ['-', c]) grammar.operand.isSome))
    | some option =>
      match option.action with
      | .value _ kind =>
        match rest with
        | [] => (taken.await option.display kind none).mapError .usage
        | '=' :: value =>
          (taken.attach option.display kind (String.ofList value)).mapError .usage
        | value => (taken.attach option.display kind (String.ofList value)).mapError .usage
      | _ => do
        let taken ← taken.follow option
        takeShort grammar taken rest

/-- Takes an argument that is no option. There is room for one operand at most. -/
def takeOperand (grammar : Grammar) (taken : Taken) (argument : String) (optionsEnded : Bool)
    (operandTaken : Bool) : Except Stop Taken :=
  match grammar.operand with
  | some label =>
    if operandTaken then .error (.usage (.unexpectedArgument argument false))
    else (taken.await label .path (some argument)).mapError .usage
  | none =>
    if grammar.subcommands.isEmpty || (optionsEnded && grammar.subcommands.contains argument) then
      .error (.usage (.unexpectedArgument argument false))
    else .error (.usage (.unknownSubcommand argument))

/-- Takes arguments up to their end or to the name of a subcommand, which is given together with
the arguments behind it. -/
def take (grammar : Grammar) :
    (taken : Taken) → (optionsEnded operandTaken : Bool) → (arguments : List String) →
      Except Stop (Taken × Option (String × List String))
  | taken, _, _, [] => .ok (taken, none)
  | taken, true, operandTaken, argument :: rest => do
    let taken ← grammar.takeOperand taken argument true operandTaken
    take grammar taken true true rest
  | taken, false, operandTaken, argument :: rest =>
    if !taken.isAwaiting && grammar.subcommands.contains argument then
      .ok (taken, some (argument, rest))
    else
      match argument.toList with
      | ['-', '-'] => take grammar taken true operandTaken rest
      | '-' :: '-' :: text => do
        let name := String.ofList (text.takeWhile (· ≠ '='))
        let attached := match text.dropWhile (· ≠ '=') with
          | _ :: value => some (String.ofList value)
          | [] => none
        let taken ← grammar.takeLong taken name attached
        take grammar taken false operandTaken rest
      | '-' :: c :: text => do
        let taken ← grammar.takeShort taken (c :: text)
        take grammar taken false operandTaken rest
      | _ =>
        if taken.isAwaiting then take grammar (taken.supply argument) false operandTaken rest
        else do
          let taken ← grammar.takeOperand taken argument false operandTaken
          take grammar taken false true rest

end Grammar
end PrologTokens.Command
