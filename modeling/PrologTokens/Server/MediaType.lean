/-!
# Media types

The value of a `Content-Type` header: a type, a slash, a subtype and parameters, each behind a
semicolon. The subtype may be divided by a plus sign, as in `problem+json`; of several plus signs
the last one divides.
-/

set_option autoImplicit false

namespace PrologTokens.Server

/-- A media type. What its parameters say is not kept. -/
structure MediaType where
  /-- The type, in small letters. -/
  type : List Char
  /-- The subtype up to the dividing plus sign, in small letters. -/
  subtype : List Char
  /-- The subtype behind the dividing plus sign, in small letters. -/
  suffix : Option (List Char)
  deriving DecidableEq, Repr, Inhabited

namespace MediaType

/-- Whether types, subtypes and parameter names may hold the character. -/
def isToken (c : Char) : Bool :=
  c.isAlphanum || ['!', '#', '$', '%', '&', '\x27', '*', '+', '-', '.', '^', '_', '\x60',
    '|', '~'].contains c

/-- Whether the value of a parameter may hold the character inside quotation marks. -/
def isQuotable (c : Char) : Bool := 0x1f < c.toNat && c.toNat ≠ 0x7f

/-- Whether the characters are parameters. A parameter is a name, an equals sign and a value, and
may stand behind spaces. A value in quotation marks holds at least one character, which may itself
be a quotation mark. Every parameter takes a character, so `fuel` is enough when it is the number
of characters. -/
def areParameters : (fuel : Nat) → List Char → Bool
  | _, [] => true
  | 0, _ :: _ => false
  | fuel + 1, ' ' :: rest => areParameters fuel rest
  | fuel + 1, text =>
    match text.takeWhile isToken, text.dropWhile isToken with
    | _ :: _, '=' :: '"' :: c :: rest =>
      if isQuotable c then
        match rest.dropWhile fun c => isQuotable c && c ≠ '"' with
        | '"' :: rest =>
          match rest.dropWhile (· = ' ') with
          | [] => true
          | ';' :: rest => areParameters fuel rest
          | _ => false
        | _ => false
      else false
    | _ :: _, '=' :: rest =>
      match rest.takeWhile isToken, rest.dropWhile isToken with
      | _, [] => true
      | _ :: _, ';' :: rest => areParameters fuel rest
      | _, _ => false
    | _, _ => false

/-- Divides a subtype at its last plus sign. A plus sign at the very start does not divide. -/
def divide (subtype : List Char) : List Char × Option (List Char) :=
  let reversed := subtype.reverse
  match reversed.dropWhile (· ≠ '+') with
  | _ :: c :: before => ((c :: before).reverse, some (reversed.takeWhile (· ≠ '+')).reverse)
  | _ => (subtype, none)

/-- The media type that a text denotes. -/
def parse? (text : List Char) : Option MediaType :=
  match text.takeWhile isToken, text.dropWhile isToken with
  | c :: type, '/' :: rest =>
    let subtype := rest.takeWhile isToken
    let (main, suffix) := divide (subtype.map Char.toLower)
    let result : MediaType := ⟨(c :: type).map Char.toLower, main, suffix⟩
    match subtype, rest.dropWhile isToken with
    | _, [] => some result
    | _ :: _, ';' :: rest => if areParameters rest.length rest then some result else none
    | _, _ => none
  | _, _ => none

/-- Whether documents of this type are JSON. -/
def isJson (m : MediaType) : Bool :=
  m.type = "application".toList && (m.subtype = "json".toList || m.suffix = some "json".toList)

end MediaType

/-- Whether the value of a header can be taken as a text: printable ASCII and tabs. -/
def isHeaderText (value : List Char) : Bool :=
  value.all fun c => (0x20 ≤ c.toNat && c.toNat < 0x7f) || c = '\t'

/-- Whether the value of a `Content-Type` header announces JSON. -/
def announcesJson (value : String) : Bool :=
  isHeaderText value.toList && (MediaType.parse? value.toList).any MediaType.isJson

end PrologTokens.Server
