import PrologTokens.Json.Record
import PrologTokens.Json.Value
import PrologTokens.Token

/-!
# Tokens in JSON documents

A token is a record with the fields `lexeme`, `category` and `line`. Line numbers are read up to
`2 ^ 64 - 1`.
-/

set_option autoImplicit false

namespace PrologTokens

/-- The numbers below this bound are accepted as line numbers and sizes. -/
def sizeBound : Nat := Nat.pow 2 64

/-- Reads a line number or a size. -/
def readSize : Json.Reader Nat := Json.Read.natural sizeBound "usize"

namespace Category

/-- A category as a JSON value: its name. -/
def toJson (category : Category) : Json := .text category.name

/-- Reads a category. -/
def read : Json.Reader Category := Json.Read.choice ofName? names

end Category

namespace Token

/-- A token as a JSON object. -/
def toJson (token : Token) : Json :=
  .object [("lexeme", .text token.lexeme), ("category", token.category.toJson),
    ("line", .number token.line)]

/-- How tokens are read. -/
def shape : Json.Shape Token where
  name := "Token"
  blank := ⟨"", .fact, 0⟩
  fields :=
    [.of "lexeme" [] true Json.Read.text fun lexeme token => { token with lexeme },
      .of "category" [] true Category.read fun category token => { token with category },
      .of "line" [] true readSize fun line token => { token with line }]

/-- Reads a token. -/
def read : Json.Reader Token := shape.read

/-- A list of tokens as a JSON array. -/
def listToJson (tokens : List Token) : Json := .array (tokens.map toJson)

/-- Reads a list of tokens. -/
def readList : Json.Reader (List Token) := Json.Read.list read

end Token
end PrologTokens
