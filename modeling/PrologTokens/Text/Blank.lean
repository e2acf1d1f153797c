/-!
# Blank characters

The blanks that are cut off both ends of a line: the characters with the Unicode property
White_Space.
-/

set_option autoImplicit false

namespace PrologTokens.Text

/-- The Unicode property White_Space: tab to carriage return, the space, the next-line control and
the spaces and separators beyond ASCII. -/
def isBlank (c : Char) : Bool :=
  ('\t' ≤ c && c ≤ '\r') || c = ' ' || c = '\u0085' || c = '\u00a0' || c = '\u1680' ||
    ('\u2000' ≤ c && c ≤ '\u200a') || c = '\u2028' || c = '\u2029' || c = '\u202f' ||
    c = '\u205f' || c = '\u3000'

/-- The text without the blanks at its end. -/
def trimEnd (text : List Char) : List Char := (text.reverse.dropWhile isBlank).reverse

/-- The text without the blanks at both ends. -/
def trim (text : List Char) : List Char := trimEnd (text.dropWhile isBlank)

/-- A quotation mark is no blank, so trimming never removes one. -/
theorem isBlank_quote : isBlank '"' = false := by decide

end PrologTokens.Text
