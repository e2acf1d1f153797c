/-!
# JSON values and their texts

The values that the library writes. Members of an object keep their order. A value has two texts:
a compact one without blanks, and one laid out in lines, where every level is indented by two
spaces and empty arrays and objects stay on one line.
-/

set_option autoImplicit false

namespace PrologTokens

/-- A JSON value. Numbers are natural numbers: no other ones are written. -/
inductive Json where
  /-- The absent value. -/
  | null
  /-- A truth value. -/
  | bool (value : Bool)
  /-- A number. -/
  | number (value : Nat)
  /-- A string. -/
  | text (value : String)
  /-- A list of values. -/
  | array (items : List Json)
  /-- Named values, in order. -/
  | object (members : List (String × Json))
  deriving Inhabited

namespace Json

/-- The small hexadecimal digit of a value below 16. -/
def hexDigit (n : Nat) : Char := Nat.digitChar n

/-- The characters that stand for a character inside quotation marks. Control characters are
escaped, by a letter where there is one; of all others only the quotation mark and the backslash
are. -/
def escapeChar (c : Char) : List Char :=
  if c = '"' then ['\\', '"']
  else if c = '\\' then ['\\', '\\']
  else if c = '\x08' then ['\\', 'b']
  else if c = '\x0c' then ['\\', 'f']
  else if c = '\n' then ['\\', 'n']
  else if c = '\r' then ['\\', 'r']
  else if c = '\t' then ['\\', 't']
  else if c.toNat < 0x20 then
    ['\\', 'u', '0', '0', hexDigit (c.toNat / 16), hexDigit (c.toNat % 16)]
  else [c]

/-- The text of a string. -/
def quote (s : String) : List Char := '"' :: s.toList.flatMap escapeChar ++ ['"']

mutual

/-- The compact text of a value. -/
def compact : Json → List Char
  | null => ['n', 'u', 'l', 'l']
  | bool true => ['t', 'r', 'u', 'e']
  | bool false => ['f', 'a', 'l', 's', 'e']
  | number n => Nat.toDigits 10 n
  | text s => quote s
  | array [] => ['[', ']']
  | array (item :: items) => '[' :: compact item ++ compactItems items ++ [']']
  | object [] => ['\x7b', '\x7d']
  | object ((key, value) :: members) =>
    '\x7b' :: quote key ++ ':' :: compact value ++ compactMembers members ++ ['\x7d']

/-- The texts of the items behind the first one, each after a comma. -/
def compactItems : List Json → List Char
  | [] => []
  | item :: items => ',' :: compact item ++ compactItems items

/-- The texts of the members behind the first one, each after a comma. -/
def compactMembers : List (String × Json) → List Char
  | [] => []
  | (key, value) :: members => ',' :: quote key ++ ':' :: compact value ++ compactMembers members

end

/-- The start of a line at a level. -/
def newline (level : Nat) : List Char := '\n' :: List.replicate (2 * level) ' '

mutual

/-- The text of a value laid out in lines, for a value that stands at the given level. -/
def pretty (level : Nat) : Json → List Char
  | null => ['n', 'u', 'l', 'l']
  | bool true => ['t', 'r', 'u', 'e']
  | bool false => ['f', 'a', 'l', 's', 'e']
  | number n => Nat.toDigits 10 n
  | text s => quote s
  | array [] => ['[', ']']
  | array (item :: items) =>
    '[' :: newline (level + 1) ++ pretty (level + 1) item ++ prettyItems (level + 1) items ++
      newline level ++ [']']
  | object [] => ['\x7b', '\x7d']
  | object ((key, value) :: members) =>
    '\x7b' :: newline (level + 1) ++ quote key ++ ':' :: ' ' :: pretty (level + 1) value ++
      prettyMembers (level + 1) members ++ newline level ++ ['\x7d']

/-- The texts of the items behind the first one, each after a comma and on its own line. -/
def prettyItems (level : Nat) : List Json → List Char
  | [] => []
  | item :: items => ',' :: newline level ++ pretty level item ++ prettyItems level items

/-- The texts of the members behind the first one, each after a comma and on its own line. -/
def prettyMembers (level : Nat) : List (String × Json) → List Char
  | [] => []
  | (key, value) :: members =>
    ',' :: newline level ++ quote key ++ ':' :: ' ' :: pretty level value ++
      prettyMembers level members

end

/-- The compact text of a value as a string. -/
def compactString (value : Json) : String := String.ofList value.compact

end Json
end PrologTokens
