import PrologTokens.Analysis
import PrologTokens.Command.Outcome
import PrologTokens.File
import PrologTokens.Report
import PrologTokens.Text.Utf8

/-!
# The analysing program

Reads a source from a file or from the standard input and prints the report on its tokens.
-/

set_option autoImplicit false

namespace PrologTokens.Command.Analyze

/-- The option for a report in JSON. -/
def jsonOption : OptionSpec := ⟨"json", none, .flag⟩

/-- The option for a log of what the program does. -/
def verboseOption : OptionSpec := ⟨"verbose", some 'v', .flag⟩

/-- The operand as it is shown. -/
def fileLabel : String := "[FILE]"

/-- The arguments that the program understands. -/
def grammar : Grammar where
  options := [jsonOption, verboseOption, ⟨"help", some 'h', .help⟩, ⟨"version", some 'V', .version⟩]
  operand := some fileLabel
  subcommands := []

/-- The help text. -/
def helpText : String := String.join
  ["Classify Prolog source into lexical tokens\n",
    "\n",
    "Usage: prolex [OPTIONS] [FILE]\n",
    "\n",
    "Arguments:\n",
    "  [FILE]  Source file to analyze (reads stdin when omitted)\n",
    "\n",
    "Options:\n",
    "      --json     Print tokens as JSON\n",
    "  -v, --verbose  Enable debug logging\n",
    "  -h, --help     Print help\n",
    "  -V, --version  Print version\n"]

/-- The version text. -/
def versionText : String := "prolex-core 0.1.0\n"

/-- What the arguments ask for. -/
structure Settings where
  /-- The path of the source; the standard input if there is none. -/
  file : Option String
  /-- The form of the report. -/
  format : ReportFormat
  deriving DecidableEq, Repr, Inhabited

/-- Understands the arguments. -/
def settings (arguments : List String) : Except Stop Settings := do
  let (taken, _) ← grammar.take .start false false arguments
  let taken ← taken.settle.mapError .usage
  return ⟨taken.value? fileLabel, if taken.has jsonOption.display then .json else .text⟩

/-- The text of a source given by bytes. -/
def decodeSource (bytes : List UInt8) : Except String String :=
  match Text.Utf8.text? bytes with
  | some text => .ok text
  | none => .error "stream did not contain valid UTF-8"

/-- The text of a source that stands at a path. -/
def readSource : FileState → Except String String
  | .missing => .error notFoundMessage
  | .directory => .error isDirectoryMessage
  | .file bytes => decodeSource bytes

/-- The report that the settings ask for. -/
def report (settings : Settings) (input : List UInt8) (files : String → FileState) :
    Except String String := do
  let source ← match settings.file with
    | some path => readSource (files path)
    | none => decodeSource input
  let tokens ← (analyze source).mapError Error.message
  return Report.render settings.format tokens

/-- A run of the program with the given arguments, standard input and files. -/
def run (arguments : List String) (input : List UInt8) (files : String → FileState) : Outcome :=
  match settings arguments with
  | .error stop => .ofStop helpText versionText stop
  | .ok settings =>
    match report settings input files with
    | .ok output => .success output
    | .error message => .failure "" message

end PrologTokens.Command.Analyze
