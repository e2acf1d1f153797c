import PrologTokens.Rule.Prolog
import PrologTokens.Text.Blank
import PrologTokens.Text.Line

/-!
# Analysis of a source text

A source is cut into lines, the blanks around each line are removed, and every rule of a table goes
over every line. A line with an odd number of quotation marks holds a string that is not closed;
the first such line is the result of the whole analysis, and no tokens are given.
-/

set_option autoImplicit false

namespace PrologTokens

/-- Whether the quotation marks of a line come in pairs. -/
def quotesPaired (line : List Char) : Bool := line.count '"' % 2 = 0

/-- The tokens of consecutive lines, the first of which has the given number. -/
def RuleTable.analyzeLines (table : RuleTable) :
    (number : Nat) → (lines : List (List Char)) → Except Error (List Token)
  | _, [] => .ok []
  | number, line :: lines =>
    if quotesPaired (Text.trim line) then do
      let later ← RuleTable.analyzeLines table (number + 1) lines
      return table.scan (Text.trim line) number ++ later
    else
      .error (.unterminatedString number)

/-- The tokens of a source under a table of rules. Lines are numbered from 1, and blank lines
count. -/
def RuleTable.analyze (table : RuleTable) (source : String) : Except Error (List Token) :=
  table.analyzeLines 1 (Text.lines source.toList)

/-- The tokens of a Prolog source. -/
def analyze (source : String) : Except Error (List Token) := RuleTable.prolog.analyze source

end PrologTokens
