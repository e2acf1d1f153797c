import PrologTokens.Analysis
import PrologTokens.Server.ApiDocument
import PrologTokens.Server.Config
import PrologTokens.Server.Failure
import PrologTokens.Server.FormPage
import PrologTokens.Server.MediaType

/-!
# The service

Which response a request gets. Four paths are known; each of them offers some resources, and a
request for another path or by another method is refused. Requests may come from pages of any
origin, and every response says so.
-/

set_option autoImplicit false

namespace PrologTokens.Server

/-- What a request can ask for. -/
inductive Resource where
  /-- The form page. -/
  | formPage
  /-- A sign of life. -/
  | health
  /-- The description of the interface. -/
  | apiDocument
  /-- An analysis. -/
  | analysis
  deriving DecidableEq, Repr, Inhabited

/-- What stands at a path: the resource to get and the resource to post to. -/
structure Route where
  /-- The resource that `GET` and `HEAD` give. -/
  get? : Option Resource
  /-- The resource that `POST` gives. -/
  post? : Option Resource
  deriving DecidableEq, Repr, Inhabited

namespace Route

/-- The route at a path. Paths are compared character by character. -/
def at? : (path : String) → Option Route
  | "/" => some ⟨some .formPage, some .analysis⟩
  | "/health" => some ⟨some .health, none⟩
  | "/api-docs/openapi.json" => some ⟨some .apiDocument, none⟩
  | "/api/v1/analyze" => some ⟨none, some .analysis⟩
  | _ => none

/-- The methods that a route offers. -/
def methods (route : Route) : List String :=
  (if route.get?.isSome then ["GET", "HEAD"] else []) ++
    (if route.post?.isSome then ["POST"] else [])

/-- The header that lists the methods. -/
def allow (route : Route) : Header := ("allow", String.intercalate "," route.methods)

end Route

/-- What is said about a body that cannot be understood as a request for an analysis. It leaves
out what only the reader of the text knows: why the text is not JSON, and the line and column of
a fault. -/
def faultMessage : Json.Fault → String
  | .malformed => "Failed to parse the request body as JSON"
  | .mismatch [] m =>
    s!"Failed to deserialize the JSON body into the target type: {m.message}"
  | .mismatch path m =>
    s!"Failed to deserialize the JSON body into the target type: {Json.pathText path}: {m.message}"

/-- The request for an analysis that a request carries. The announced type is checked first, then
the length of the body, then the body itself. -/
def readRequest (config : Config) (request : Request) : Except Failure AnalyzeRequest :=
  if !(request.header? "content-type").any announcesJson then
    .error (.badRequest "Expected request with `Content-Type: application/json`")
  else if config.maxBodyBytes < request.body.length then
    .error (.payloadTooLarge "Failed to buffer the request body: length limit exceeded")
  else
    (Json.decode AnalyzeRequest.read (.ofBytes request.body)).mapError fun fault =>
      .badRequest (faultMessage fault)

/-- The tokens that a request asks for. -/
def analyzeRequest (config : Config) (request : Request) : Except Failure (List TokenView) := do
  let body ← readRequest config request
  let tokens ← (analyze body.code).mapError .analysis
  return tokens.map TokenView.ofToken

/-- The response to a request for an analysis. -/
def respondAnalysis (config : Config) (request : Request) : Response :=
  match analyzeRequest config request with
  | .ok views => .json 200 (TokenView.listToJson views).compactString
  | .error failure => failure.respond

/-- The response that gives a resource. -/
def Resource.respond (config : Config) (request : Request) : Resource → Response
  | formPage => ⟨200, [("content-type", "text/html; charset=utf-8")], FormPage.html⟩
  | health => .empty 200
  | apiDocument => .json 200 ApiDocument.document.compactString
  | analysis => respondAnalysis config request

/-- The response of a route, apart from the headers that all responses have. -/
def Route.respond (config : Config) (request : Request) (route : Route) : Response :=
  let refused := (Response.empty 405).withHeader route.allow
  if request.method = "GET" then
    (route.get?.map (Resource.respond config request)).getD refused
  else if request.method = "HEAD" then
    (route.get?.map fun r => (r.respond config request).withoutBody).getD refused
  else if request.method = "POST" then
    (route.post?.map (Resource.respond config request)).getD refused
  else refused

/-- The headers by which every response allows requests from other origins. -/
def originHeaders : List Header :=
  [("access-control-allow-origin", "*"),
    ("vary", "origin, access-control-request-method, access-control-request-headers")]

/-- The headers by which a response to `OPTIONS` allows all methods and headers. -/
def permissionHeaders : List Header :=
  [("access-control-allow-headers", "*"), ("access-control-allow-methods", "*")]

/-- The response to a request, apart from the headers that all responses have. -/
def respondInner (config : Config) (request : Request) : Response :=
  let route? := Route.at? request.path
  if request.method = "OPTIONS" then
    ⟨200, permissionHeaders ++ (route?.map Route.allow).toList, ""⟩
  else
    match route? with
    | none => .empty 404
    | some route => route.respond config request

/-- The response to a request. -/
def respond (config : Config) (request : Request) : Response :=
  let response := respondInner config request
  { response with headers := originHeaders ++ response.headers }

end PrologTokens.Server
