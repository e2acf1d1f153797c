import PrologTokens.Token.Document

/-!
# What the server receives and sends

The JSON documents of the server's interface: the request for an analysis, the tokens in the answer
and the description of a failure.
-/

set_option autoImplicit false

namespace PrologTokens.Server

/-- A request for an analysis. -/
structure AnalyzeRequest where
  /-- The source text. -/
  code : String
  deriving DecidableEq, Repr, Inhabited

namespace AnalyzeRequest

/-- How requests are read. The source text may also be called `codigoProlog`. -/
def shape : Json.Shape AnalyzeRequest where
  name := "AnalyzeRequest"
  blank := ⟨""⟩
  fields := [.of "code" ["codigoProlog"] true Json.Read.text fun code _ => ⟨code⟩]

/-- Reads a request. -/
def read : Json.Reader AnalyzeRequest := shape.read

/-- A request as a JSON object. -/
def toJson (request : AnalyzeRequest) : Json := .object [("code", .text request.code)]

end AnalyzeRequest

/-- A token as clients see it: the category is any text. -/
structure TokenView where
  /-- The matched text. -/
  lexeme : String
  /-- The name of the category. -/
  category : String
  /-- The number of the source line. -/
  line : Nat
  deriving DecidableEq, Repr, Inhabited

namespace TokenView

/-- The view of a token. -/
def ofToken (token : Token) : TokenView := ⟨token.lexeme, token.category.name, token.line⟩

/-- How token views are read. -/
def shape : Json.Shape TokenView where
  name := "TokenView"
  blank := ⟨"", "", 0⟩
  fields :=
    [.of "lexeme" [] true Json.Read.text fun lexeme view => { view with lexeme },
      .of "category" [] true Json.Read.text fun category view => { view with category },
      .of "line" [] true readSize fun line view => { view with line }]

/-- Reads a token view. -/
def read : Json.Reader TokenView := shape.read

/-- A token view as a JSON object. -/
def toJson (view : TokenView) : Json :=
  .object [("lexeme", .text view.lexeme), ("category", .text view.category),
    ("line", .number view.line)]

/-- A list of token views as a JSON array. -/
def listToJson (views : List TokenView) : Json := .array (views.map toJson)

/-- Reads a list of token views. -/
def readList : Json.Reader (List TokenView) := Json.Read.list read

end TokenView

/-- The description of a failure. -/
structure ErrorResponse where
  /-- What went wrong. -/
  error : String
  /-- The number of the source line at fault, if there is one. -/
  line : Option Nat
  deriving DecidableEq, Repr, Inhabited

namespace ErrorResponse

/-- How descriptions of failures are read. -/
def shape : Json.Shape ErrorResponse where
  name := "ErrorResponse"
  blank := ⟨"", none⟩
  fields :=
    [.of "error" [] true Json.Read.text fun error response => { response with error },
      .of "line" [] false (Json.Read.optional readSize) fun line response =>
        { response with line }]

/-- Reads the description of a failure. -/
def read : Json.Reader ErrorResponse := shape.read

/-- The description of a failure as a JSON object. An absent line is left out. -/
def toJson (response : ErrorResponse) : Json :=
  .object (("error", .text response.error) :: match response.line with
    | none => []
    | some line => [("line", .number line)])

end ErrorResponse
end PrologTokens.Server
