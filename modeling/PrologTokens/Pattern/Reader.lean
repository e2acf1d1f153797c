import PrologTokens.Pattern.Bracket
import PrologTokens.Pattern.Footprint
import PrologTokens.Text.Blank

/-!
# Written patterns

How a pattern is written:

* a character stands for itself, `.` for any character but the line feed, `^` and `$` for the ends
  of the line, and `(?-u:\b)` for a word boundary;
* a backslash starts an escape, see `Escape.read`;
* `[...]` is a set of characters, `[^...]` its complement, see `Bracket.read`;
* `(...)`, `(?:...)`, `(?P<name>...)` and `(?<name>...)` group, `|` separates alternatives, which
  may be empty;
* `*`, `+`, `?`, `{n}`, `{n,}` and `{n,m}` repeat what stands before them; a further `?` makes
  the repetition prefer fewer turns.

This is a part of a wider syntax, and `Rule.make` accepts no more than this part. What else is
written there is refused, although it has a meaning: groups that set flags, such as `(?i)` and
`(?s:...)`, except for the one boundary `(?-u:\b)` as it stands; classes of characters with a
Unicode property, such as `\pL` and `\p{Greek}`; and boundaries with a name in braces, such as
`\b{start}`.

A text is read in three steps: it is cut into symbols (`Symbol.readAll`), the symbols are put
together to a normal form with a stack of open groups (`Frame.build`), and the normal form is turned
into a pattern unless it is nested too deep or needs too much memory.
-/

set_option autoImplicit false

namespace PrologTokens.Pattern

/-- A kind of group. -/
inductive GroupKind where
  /-- A group without a number. -/
  | plain
  /-- A numbered group, with its name if it has one. -/
  | numbered (name : Option (List Char))
  deriving DecidableEq, Repr, Inhabited

/-- A symbol of a written pattern. -/
inductive Symbol where
  /-- One character of a set, written in the given number of levels. -/
  | chars (set : CharSet) (depth : Nat)
  /-- A condition on a place, written in the given number of levels. -/
  | anchor (anchor : Anchor) (depth : Nat)
  /-- The start of a group. -/
  | openGroup (kind : GroupKind)
  /-- The end of a group. -/
  | closeGroup
  /-- The bar between two alternatives. -/
  | bar
  /-- A repetition of what stands before. -/
  | times (least : Nat) (most : Option Nat) (greedy : Bool)
  deriving DecidableEq, Repr, Inhabited

namespace Symbol

/-- The symbol of an escape. -/
def ofEscape : Escape → Symbol
  | .char c => chars (.singleton c) 0
  | .set set => chars set 0
  | .anchor a => anchor a 0

/-- A decimal number, with blanks around it allowed. Counts are below `2 ^ 32`. -/
def readCount (text : List Char) : Except Fault (Nat × List Char) :=
  let text := text.dropWhile Text.isBlank
  let digits := text.takeWhile Char.isDigit
  let value := Text.digitsValue 10 (digits.map fun d => d.toNat - '0'.toNat)
  if digits.isEmpty || Nat.pow 2 32 ≤ value then .error .malformedCount
  else .ok (value, (text.dropWhile Char.isDigit).dropWhile Text.isBlank)

/-- The bounds of a counted repetition behind its opening brace. -/
def readBounds (text : List Char) : Except Fault ((Nat × Option Nat) × List Char) := do
  let (least, rest) ← readCount text
  match rest with
  | '\x7d' :: rest => return ((least, some least), rest)
  | ',' :: '\x7d' :: rest => return ((least, none), rest)
  | ',' :: rest =>
    let (most, rest) ← readCount rest
    match rest with
    | '\x7d' :: rest =>
      if most < least then throw .reversedCount
      return ((least, some most), rest)
    | _ => throw .malformedCount
  | _ => throw .malformedCount

/-- A repetition sign with the mark behind it that makes it prefer fewer turns. -/
def withPreference (least : Nat) (most : Option Nat) : List Char → Symbol × List Char
  | '?' :: rest => (times least most false, rest)
  | rest => (times least most true, rest)

/-- Whether a group name may start with the character. -/
def isNameStart (c : Char) : Bool := Text.isLetter c || c = '_'

/-- Whether a group name may go on with the character. -/
def isNamePart (c : Char) : Bool :=
  Text.isLetter c || Text.isNumber c || c = '_' || c = '.' || c = '[' || c = ']'

/-- The name of a group behind its opening angle bracket, and the closing one. -/
def readName (text : List Char) : Except Fault (Symbol × List Char) :=
  match text.takeWhile isNamePart, text.dropWhile isNamePart with
  | c :: name, '>' :: rest =>
    if isNameStart c then .ok (openGroup (.numbered (some (c :: name))), rest)
    else .error .malformedGroup
  | _, _ => .error .malformedGroup

/-- The first symbol of a text that starts with the given character. -/
def read (c : Char) (rest : List Char) : Except Fault (Symbol × List Char) :=
  match c, rest with
  | '(', '?' :: '-' :: 'u' :: ':' :: '\\' :: 'b' :: ')' :: rest =>
    .ok (anchor .wordBoundary 1, rest)
  | '(', '?' :: ':' :: rest => .ok (openGroup .plain, rest)
  | '(', '?' :: 'P' :: '<' :: rest => readName rest
  | '(', '?' :: '<' :: rest => readName rest
  | '(', '?' :: _ => .error .malformedGroup
  | '(', rest => .ok (openGroup (.numbered none), rest)
  | ')', rest => .ok (closeGroup, rest)
  | '|', rest => .ok (bar, rest)
  | '^', rest => .ok (anchor .lineStart 0, rest)
  | '$', rest => .ok (anchor .lineEnd 0, rest)
  | '.', rest => .ok (chars .notNewline 0, rest)
  | '*', rest => .ok (withPreference 0 none rest)
  | '+', rest => .ok (withPreference 1 none rest)
  | '?', rest => .ok (withPreference 0 (some 1) rest)
  | '\x7b', rest => do
    let ((least, most), rest) ← readBounds rest
    return withPreference least most rest
  | '[', rest => do
    let (bracket, rest) ← Bracket.read rest
    return (chars bracket.set (bracket.depth + 1), rest)
  | '\\', rest => do
    let (escape, rest) ← Escape.read rest
    return (ofEscape escape, rest)
  | c, rest => .ok (chars (.singleton c) 0, rest)

/-- The symbols of a text. Every symbol takes a character, so `fuel` is enough when it is the
number of characters. -/
def readAll : (fuel : Nat) → List Char → Except Fault (List Symbol)
  | _, [] => .ok []
  | 0, _ :: _ => .ok []
  | fuel + 1, c :: rest => do
    let (symbol, rest) ← read c rest
    let symbols ← readAll fuel rest
    return symbol :: symbols

/-- The name that a symbol gives to a group. -/
def groupName? : Symbol → Option (List Char)
  | openGroup (.numbered name) => name
  | _ => none

end Symbol

/-- A part of a written pattern: its normal form, and the number of levels in which groups,
repetitions, sequences, alternatives and sets stand inside each other in it. -/
structure Part where
  /-- The normal form. -/
  form : Normal
  /-- The number of levels. -/
  depth : Nat
  deriving DecidableEq, Repr, Inhabited

namespace Part

/-- The largest depth of some parts, one more if there are several of them. -/
def jointDepth (parts : List Part) : Nat :=
  (parts.map depth).foldl max 0 + if 2 ≤ parts.length then 1 else 0

/-- Parts one after another. -/
def sequence (parts : List Part) : Part := ⟨.sequence (parts.map form), jointDepth parts⟩

/-- Parts as alternatives. -/
def oneOf (parts : List Part) : Part := ⟨.oneOf (parts.map form), jointDepth parts⟩

end Part

/-- A group that is still open: its number if it has one, its finished alternatives and the parts of
the one being read, each with the last one first. -/
structure Frame where
  /-- The number. -/
  number : Option Nat
  /-- The finished alternatives. -/
  alternatives : List Part
  /-- The parts of the alternative being read. -/
  parts : List Part
  deriving Repr, Inhabited

namespace Frame

/-- The start of a group. -/
def opened (number : Option Nat) : Frame := ⟨number, [], []⟩

/-- The group with one part more. -/
def push (f : Frame) (p : Part) : Frame := { f with parts := p :: f.parts }

/-- The group with its current alternative finished. -/
def endAlternative (f : Frame) : Frame :=
  { f with alternatives := Part.sequence f.parts.reverse :: f.alternatives, parts := [] }

/-- What stands in the group. -/
def content (f : Frame) : Part := Part.oneOf f.endAlternative.alternatives.reverse

/-- The whole group as a part of what stands around it. -/
def close (f : Frame) : Part :=
  let content := f.content
  match f.number with
  | none => ⟨content.form, content.depth + 1⟩
  | some n => ⟨.group n content.form, content.depth + 1⟩

/-- The group with its last part repeated. -/
def repeatLast (f : Frame) (least : Nat) (most : Option Nat) (greedy : Bool) :
    Except Fault Frame :=
  match f.parts with
  | [] => .error .nothingToRepeat
  | p :: parts =>
    .ok { f with parts := ⟨.repeated least most greedy p.form, p.depth + 1⟩ :: parts }

/-- Puts symbols together. `outer` holds the groups around the current one, the innermost first, and
`count` is the number of the last numbered group. -/
def build : (count : Nat) → (outer : List Frame) → (current : Frame) → List Symbol →
    Except Fault Part
  | _, [], f, [] => .ok f.content
  | _, _ :: _, _, [] => .error .unclosedGroup
  | n, outer, f, .chars set depth :: rest => build n outer (f.push ⟨.chars set, depth⟩) rest
  | n, outer, f, .anchor a depth :: rest => build n outer (f.push ⟨.anchor a, depth⟩) rest
  | n, outer, f, .openGroup .plain :: rest => build n (f :: outer) (opened none) rest
  | n, outer, f, .openGroup (.numbered _) :: rest =>
    build (n + 1) (f :: outer) (opened (some (n + 1))) rest
  | _, [], _, .closeGroup :: _ => .error .unopenedGroup
  | n, g :: outer, f, .closeGroup :: rest => build n outer (g.push f.close) rest
  | n, outer, f, .bar :: rest => build n outer f.endAlternative rest
  | n, outer, f, .times least most greedy :: rest =>
    match f.repeatLast least most greedy with
    | .error fault => .error fault
    | .ok f => build n outer f rest

end Frame

/-- The largest number of levels in a pattern. -/
def depthLimit : Nat := 250

/-- The normal form of a written pattern. -/
def readNormal (text : String) : Except Fault Normal := do
  let symbols ← Symbol.readAll text.toList.length text.toList
  if ¬ (symbols.filterMap Symbol.groupName?).Nodup then throw .duplicateName
  let part ← Frame.build 0 [] (.opened none) symbols
  if depthLimit < part.depth then throw .nestedTooDeep
  return part.form

/-- Reads a written pattern. -/
def read (text : String) : Except Fault Pattern := do
  let form ← readNormal text
  if form.isTooLarge then throw .tooLarge
  return form.toPattern

end PrologTokens.Pattern
