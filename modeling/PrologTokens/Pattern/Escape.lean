import PrologTokens.Pattern.Basic
import PrologTokens.Pattern.Fault
import PrologTokens.Text.Digit
import PrologTokens.Text.Number

/-!
# Escapes in written patterns

What a backslash and the characters behind it stand for: a character, a set of characters, or a
condition on a place. Classes with a Unicode property, `\p` and `\P`, are none of them, and
boundaries with a name in braces are refused where the brace is read.
-/

set_option autoImplicit false

namespace PrologTokens.Pattern

/-- What an escape stands for. -/
inductive Escape where
  /-- A character. -/
  | char (c : Char)
  /-- A set of characters. -/
  | set (set : CharSet)
  /-- A condition on a place. -/
  | anchor (anchor : Anchor)
  deriving DecidableEq, Repr, Inhabited

namespace Escape

/-- Whether a backslash makes the character stand for itself: an ASCII character that is neither a
letter nor a digit nor an angle bracket. -/
def isEscapable (c : Char) : Bool := c.toNat < 128 && !c.isAlphanum && c ≠ '<' && c ≠ '>'

/-- The character whose code has the given hexadecimal digits. -/
def ofHexDigits (digits : List Char) : Except Fault Escape :=
  match digits.mapM Text.hexValue? with
  | some (d :: ds) =>
    let code := Text.digitsValue 16 (d :: ds)
    if code.isValidChar then .ok (.char (Char.ofNat code)) else .error .invalidEscape
  | _ => .error .invalidEscape

/-- A character given by its code: in braces, or with the given number of digits. -/
def readCode (width : Nat) : List Char → Except Fault (Escape × List Char)
  | '\x7b' :: rest =>
    match rest.dropWhile (· ≠ '\x7d') with
    | _ :: others => (ofHexDigits (rest.takeWhile (· ≠ '\x7d'))).map fun e => (e, others)
    | [] => .error .invalidEscape
  | text =>
    if text.length < width then .error .invalidEscape
    else (ofHexDigits (text.take width)).map fun e => (e, text.drop width)

/-- The decimal digits of all scripts. -/
def digitSet : CharSet := .ofCodes Text.decimalRanges.toList

/-- The blanks. -/
def blankSet : CharSet :=
  .ofCodes [(0x9, 0xd), (0x20, 0x20), (0x85, 0x85), (0xa0, 0xa0), (0x1680, 0x1680),
    (0x2000, 0x200a), (0x2028, 0x2029), (0x202f, 0x202f), (0x205f, 0x205f), (0x3000, 0x3000)]

/-- The word characters of all scripts. -/
def wordSet : CharSet := .ofCodes (Text.letterRanges.toList ++ Text.wordMarkRanges.toList)

/-- Reads what stands behind a backslash. -/
def read : List Char → Except Fault (Escape × List Char)
  | 't' :: rest => .ok (.char '\t', rest)
  | 'n' :: rest => .ok (.char '\n', rest)
  | 'r' :: rest => .ok (.char '\r', rest)
  | 'f' :: rest => .ok (.char '\x0c', rest)
  | 'v' :: rest => .ok (.char '\x0b', rest)
  | 'a' :: rest => .ok (.char '\x07', rest)
  | 'x' :: rest => readCode 2 rest
  | 'u' :: rest => readCode 4 rest
  | 'U' :: rest => readCode 8 rest
  | 'd' :: rest => .ok (.set digitSet, rest)
  | 'D' :: rest => .ok (.set digitSet.complement, rest)
  | 's' :: rest => .ok (.set blankSet, rest)
  | 'S' :: rest => .ok (.set blankSet.complement, rest)
  | 'w' :: rest => .ok (.set wordSet, rest)
  | 'W' :: rest => .ok (.set wordSet.complement, rest)
  | 'A' :: rest => .ok (.anchor .lineStart, rest)
  | 'z' :: rest => .ok (.anchor .lineEnd, rest)
  | 'b' :: rest => .ok (.anchor .scriptBoundary, rest)
  | 'B' :: rest => .ok (.anchor .noScriptBoundary, rest)
  | '<' :: rest => .ok (.anchor .scriptWordStart, rest)
  | '>' :: rest => .ok (.anchor .scriptWordEnd, rest)
  | c :: rest => if isEscapable c then .ok (.char c, rest) else .error .invalidEscape
  | [] => .error .invalidEscape

end Escape
end PrologTokens.Pattern
