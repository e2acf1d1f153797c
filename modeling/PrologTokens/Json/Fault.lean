import PrologTokens.Decimal.Layout
import PrologTokens.Text.Quoted

/-!
# What can be wrong with a JSON document

A document either is not JSON at all, or it is JSON of the wrong shape. In the second case the
fault says what was found and what was expected, and where: the path leads from the whole document
to the value in question.
-/

set_option autoImplicit false

namespace PrologTokens.Json

/-- What kind of value stands in a document where another kind was expected. Arrays and objects are
named without looking inside. -/
inductive Found where
  /-- The absent value. -/
  | null
  /-- A truth value. -/
  | bool (value : Bool)
  /-- A whole number. -/
  | integer (value : Int)
  /-- A number with a fraction or an exponent, or too large to be kept whole. -/
  | floating (value : Decimal.Double)
  /-- A string. -/
  | text (value : String)
  /-- An array. -/
  | array
  /-- An object. -/
  | object
  deriving DecidableEq, Repr, Inhabited

/-- Floating-point numbers are written without a power of ten from `0.00001` to sixteen digits
before the point, with `.0` behind whole ones; otherwise the power of ten has its sign. -/
def floatLayout : Decimal.Layout := ⟨-5, 15, ".0", "+"⟩

/-- The description of what was found. -/
def Found.describe : Found → String
  | null => "null"
  | bool true => "boolean `true`"
  | bool false => "boolean `false`"
  | integer n => s!"integer `{n}`"
  | floating x => s!"floating point `{x.text floatLayout}`"
  | text s => s!"string {Text.quoted s}"
  | array => "sequence"
  | object => "map"

/-- How a document of the wrong shape differs from the expected shape. -/
inductive Mismatch where
  /-- A value of the wrong kind. -/
  | wrongKind (found : Found) (expected : String)
  /-- A value of the right kind that is out of range. -/
  | outOfRange (found : Found) (expected : String)
  /-- An array with too few elements for a record. -/
  | tooShort (count : Nat) (expected : String)
  /-- A name that is none of those allowed. -/
  | unknownName (name : String) (allowed : List String)
  /-- A record without one of its fields. -/
  | missingField (name : String)
  /-- A record with one of its fields twice. -/
  | duplicateField (name : String)
  deriving DecidableEq, Repr, Inhabited

/-- The description of a difference. -/
def Mismatch.message : Mismatch → String
  | wrongKind found expected => s!"invalid type: {found.describe}, expected {expected}"
  | outOfRange found expected => s!"invalid value: {found.describe}, expected {expected}"
  | tooShort count expected => s!"invalid length {count}, expected {expected}"
  | unknownName name allowed =>
    let choices := String.intercalate ", " (allowed.map fun choice => s!"`{choice}`")
    s!"unknown variant `{name}`, expected one of {choices}"
  | missingField name => s!"missing field `{name}`"
  | duplicateField name => s!"duplicate field `{name}`"

/-- A step into a document. -/
inductive Step where
  /-- To the member of an object with the given name. -/
  | member (name : String)
  /-- To an element of an array, counted from zero. -/
  | element (index : Nat)
  deriving DecidableEq, Repr, Inhabited

/-- The text of a path. -/
def pathText : List Step → String
  | [] => ""
  | .member name :: path => name ++ rest path
  | .element index :: path => s!"[{index}]" ++ rest path
where
  /-- The text of the steps behind the first one. -/
  rest : List Step → String
    | [] => ""
    | .member name :: path => "." ++ name ++ rest path
    | .element index :: path => s!"[{index}]" ++ rest path

/-- Why a document could not be read. -/
inductive Fault where
  /-- The text is not JSON, or stops being so before the document is understood. -/
  | malformed
  /-- The document has the wrong shape at the end of the path. -/
  | mismatch (path : List Step) (mismatch : Mismatch)
  deriving DecidableEq, Repr, Inhabited

/-- The fault as seen from one level further out. -/
def Fault.within (step : Step) : Fault → Fault
  | malformed => malformed
  | mismatch path m => mismatch (step :: path) m

end PrologTokens.Json
