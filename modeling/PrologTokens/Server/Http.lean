/-!
# Requests and responses
-/

set_option autoImplicit false

namespace PrologTokens.Server

/-- A header: its name and its value. -/
abbrev Header := String × String

/-- A request. -/
structure Request where
  /-- The method, such as `GET`. Methods in small letters are other methods. -/
  method : String
  /-- What the request is for: a path, or an address with a path, perhaps with a query. -/
  target : String
  /-- The headers, in the order in which they came. -/
  headers : List Header
  /-- The body. -/
  body : List UInt8
  deriving DecidableEq, Repr, Inhabited

/-- A response. -/
structure Response where
  /-- The status code. -/
  status : Nat
  /-- The headers; their order has no meaning. -/
  headers : List Header
  /-- The body. -/
  body : String
  deriving DecidableEq, Repr, Inhabited

namespace Request

/-- The characters behind a scheme and the two slashes after it, if there is a scheme. -/
def behindScheme? : List Char → Option (List Char)
  | ':' :: '/' :: '/' :: rest => some rest
  | c :: rest => if c = '/' || c = '?' || c = '#' then none else behindScheme? rest
  | [] => none

/-- The path of the target, without scheme, authority, query and fragment. A target with an
authority and no path has the path `/`. -/
def path (request : Request) : String :=
  let target := request.target.toList.takeWhile fun c => c ≠ '?' && c ≠ '#'
  match behindScheme? target with
  | none => String.ofList target
  | some rest =>
    match rest.dropWhile (· ≠ '/') with
    | [] => "/"
    | path => String.ofList path

/-- The value of the first header with the given name, which is in small letters. -/
def header? (request : Request) (name : String) : Option String :=
  (request.headers.find? fun h => h.1.toList.map Char.toLower = name.toList).map (·.2)

end Request

namespace Response

/-- A response without a body. -/
def empty (status : Nat) : Response := ⟨status, [], ""⟩

/-- A response with a JSON document as its body. -/
def json (status : Nat) (body : String) : Response :=
  ⟨status, [("content-type", "application/json")], body⟩

/-- The response with one header more. -/
def withHeader (response : Response) (header : Header) : Response :=
  { response with headers := header :: response.headers }

/-- The response with its body left out. -/
def withoutBody (response : Response) : Response := { response with body := "" }

end Response
end PrologTokens.Server
