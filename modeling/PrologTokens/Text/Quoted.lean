import PrologTokens.Text.Shapeless

/-!
# Quoted texts in messages

A text that a message cites is put into quotation marks, and a character without a shape of its own
is written as an escape.
-/

set_option autoImplicit false

namespace PrologTokens.Text

/-- The characters that stand for a character of a cited text. -/
def citeChar (c : Char) : List Char :=
  if c = '\x00' then ['\\', '0']
  else if c = '\t' then ['\\', 't']
  else if c = '\n' then ['\\', 'n']
  else if c = '\r' then ['\\', 'r']
  else if c = '"' then ['\\', '"']
  else if c = '\\' then ['\\', '\\']
  else if isShapeless c then
    ['\\', 'u', '\x7b'] ++ Nat.toDigits 16 c.toNat ++ ['\x7d']
  else [c]

/-- The text in quotation marks. -/
def quoted (s : String) : String := String.ofList ('"' :: s.toList.flatMap citeChar ++ ['"'])

end PrologTokens.Text
