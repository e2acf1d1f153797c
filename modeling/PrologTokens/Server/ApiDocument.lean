import PrologTokens.Json.Value

/-!
# The description of the interface

The document from which clients learn what the server offers: one operation, the documents that it
takes and gives, and its status codes.
-/

set_option autoImplicit false

namespace PrologTokens.Server.ApiDocument

/-- A field of a document: its name, its type and what it is for. -/
structure FieldInfo where
  /-- The name. -/
  name : String
  /-- The schema of the values, without the description. -/
  schema : List (String × Json)
  /-- What the field is for. -/
  description : String
  /-- Whether the field has to be given. -/
  required : Bool

/-- The schema of texts. -/
def textSchema : List (String × Json) := [("type", .text "string")]

/-- The schema of line numbers. -/
def lineSchema : List (String × Json) := [("type", .text "integer"), ("minimum", .number 0)]

/-- The schema of line numbers that may be absent. -/
def optionalLineSchema : List (String × Json) :=
  [("type", .array [.text "integer", .text "null"]), ("minimum", .number 0)]

/-- The schema of a kind of documents. -/
def recordSchema (description : String) (fields : List FieldInfo) : Json :=
  .object
    [("type", .text "object"),
      ("description", .text description),
      ("required", .array ((fields.filter (·.required)).map fun f => .text f.name)),
      ("properties", .object (fields.map fun f =>
        (f.name, .object (f.schema ++ [("description", .text f.description)]))))]

/-- The schema of requests for an analysis. -/
def analyzeRequest : Json :=
  recordSchema "Request for analyzing Prolog source"
    [⟨"code", textSchema, "Prolog source text, analyzed verbatim", true⟩]

/-- The schema of descriptions of failures. -/
def errorResponse : Json :=
  recordSchema "Error body returned for every failed request"
    [⟨"error", textSchema, "Human-readable description", true⟩,
      ⟨"line", optionalLineSchema, "Offending line (1-based), for structural errors", false⟩]

/-- The schema of tokens. -/
def tokenView : Json :=
  recordSchema
    "API schema mirror of [`prolex_core::Token`], carrying `ToSchema` for the OpenAPI document"
    [⟨"lexeme", textSchema, "Exact matched text", true⟩,
      ⟨"category", textSchema, "Category label, e.g. `Atom` or `Fact`", true⟩,
      ⟨"line", lineSchema, "Line number (1-based)", true⟩]

/-- A reference to one of the schemas. -/
def reference (name : String) : Json :=
  .object [("$ref", .text ("#/components/schemas/" ++ name))]

/-- The content of a body with the given schema. -/
def jsonContent (schema : Json) : Json :=
  .object [("application/json", .object [("schema", schema)])]

/-- A status code with its meaning and the schema of the body. -/
def answer (status description : String) (schema : Json) : String × Json :=
  (status, .object [("description", .text description), ("content", jsonContent schema)])

/-- The operation that analyses a source. -/
def analyzeOperation : Json :=
  .object
    [("tags", .array [.text "handlers::analysis"]),
      ("summary", .text "Analyze Prolog source into lexical tokens"),
      ("operationId", .text "analyze"),
      ("requestBody", .object
        [("content", jsonContent (reference "AnalyzeRequest")), ("required", .bool true)]),
      ("responses", .object
        [answer "200" "Source analyzed successfully"
            (.object [("type", .text "array"), ("items", reference "TokenView")]),
          answer "400" "Malformed request body" (reference "ErrorResponse"),
          answer "413" "Request body too large" (reference "ErrorResponse"),
          answer "422" "Unterminated string literal" (reference "ErrorResponse")])]

/-- The whole description. -/
def document : Json :=
  .object
    [("openapi", .text "3.1.0"),
      ("info", .object
        [("title", .text "prolex-http"), ("description", .text ""),
          ("license", .object [("name", .text "")]), ("version", .text "0.1.0")]),
      ("paths", .object [("/api/v1/analyze", .object [("post", analyzeOperation)])]),
      ("components", .object [("schemas", .object
        [("AnalyzeRequest", analyzeRequest), ("ErrorResponse", errorResponse),
          ("TokenView", tokenView)])])]

end PrologTokens.Server.ApiDocument
