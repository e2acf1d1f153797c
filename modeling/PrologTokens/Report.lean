import PrologTokens.Token.Document

/-!
# Reports

A list of tokens is printed either as one row of text for each token or as a JSON array.
-/

set_option autoImplicit false

namespace PrologTokens

/-- A token as a row of text: line number, category and lexeme, with tabs between them. -/
def Token.row (token : Token) : List Char :=
  Nat.toDigits 10 token.line ++ '\t' :: token.category.name.toList ++ '\t' ::
    token.lexeme.toList

/-- The form of a report. -/
inductive ReportFormat where
  /-- One row for each token, each ended by a line feed. -/
  | text
  /-- A JSON array laid out in lines, ended by a line feed. -/
  | json
  deriving DecidableEq, Repr, Inhabited

namespace Report

/-- The rows of the tokens. -/
def rows (tokens : List Token) : List Char := tokens.flatMap fun token => token.row ++ ['\n']

/-- The JSON array of the tokens. -/
def document (tokens : List Token) : List Char :=
  (Token.listToJson tokens).pretty 0 ++ ['\n']

/-- The report on a list of tokens. -/
def render (format : ReportFormat) (tokens : List Token) : String :=
  match format with
  | .text => String.ofList (rows tokens)
  | .json => String.ofList (document tokens)

end Report
end PrologTokens
