import PrologTokens.Pattern.Escape

/-!
# Sets of characters in brackets

A set is written as members between brackets: characters, ranges, escapes, named sets such as
`[:digit:]`, and sets in brackets of their own. A caret behind the opening bracket takes the
complement. `&&`, `--` and `~~` take what is in both operands, in the first only, or in one of
them; they are applied from left to right.
-/

set_option autoImplicit false

namespace PrologTokens.Pattern

/-- An operation on sets. -/
inductive SetOperation where
  /-- What is in both sets. -/
  | inter
  /-- What is in the first set only. -/
  | diff
  /-- What is in one of the sets only. -/
  | symmDiff
  deriving DecidableEq, Repr, Inhabited

/-- The result of an operation. -/
def SetOperation.apply : SetOperation → CharSet → CharSet → CharSet
  | inter => CharSet.inter
  | diff => CharSet.diff
  | symmDiff => CharSet.symmDiff

/-- A set in brackets, with the number of levels in which its members stand inside each other. -/
structure Bracket where
  /-- The characters. -/
  set : CharSet
  /-- The number of levels below the brackets. -/
  depth : Nat
  deriving DecidableEq, Repr, Inhabited

namespace Bracket

/-- A set that is being read. -/
structure Draft where
  /-- An operation that waits for its second operand, with the first one. -/
  waiting : Option (SetOperation × Bracket)
  /-- The members so far of the operand that is being read. -/
  members : CharSet
  /-- How many members there are. -/
  count : Nat
  /-- The largest depth of a member. -/
  depth : Nat
  deriving DecidableEq, Repr, Inhabited

namespace Draft

/-- Before any member. -/
def start : Draft := ⟨none, .empty, 0, 0⟩

/-- With one member more. -/
def add (draft : Draft) (set : CharSet) (depth : Nat) : Draft :=
  ⟨draft.waiting, draft.members.union set, draft.count + 1, max draft.depth depth⟩

/-- The set so far. Several members are a level of their own, and so is an operation. -/
def finish (draft : Draft) : Bracket :=
  let last : Bracket := ⟨draft.members, if 2 ≤ draft.count then draft.depth + 1 else draft.depth⟩
  match draft.waiting with
  | none => last
  | some (operation, first) =>
    ⟨operation.apply first.set last.set, max first.depth last.depth + 1⟩

/-- With the given operation waiting for its second operand. -/
def operate (draft : Draft) (operation : SetOperation) : Draft :=
  ⟨some (operation, draft.finish), .empty, 0, 0⟩

end Draft

/-- The named sets. -/
def named? : (name : String) → Option CharSet
  | "alnum" => some (.ofRanges [('0', '9'), ('A', 'Z'), ('a', 'z')])
  | "alpha" => some (.ofRanges [('A', 'Z'), ('a', 'z')])
  | "ascii" => some (.ofRanges [('\x00', '\x7f')])
  | "blank" => some (.ofRanges [('\t', '\t'), (' ', ' ')])
  | "cntrl" => some (.ofRanges [('\x00', '\x1f'), ('\x7f', '\x7f')])
  | "digit" => some (.ofRanges [('0', '9')])
  | "graph" => some (.ofRanges [('!', '~')])
  | "lower" => some (.ofRanges [('a', 'z')])
  | "print" => some (.ofRanges [(' ', '~')])
  | "punct" => some (.ofRanges [('!', '/'), (':', '@'), ('[', '\x60'), ('\x7b', '~')])
  | "space" => some (.ofRanges [('\t', '\r'), (' ', ' ')])
  | "upper" => some (.ofRanges [('A', 'Z')])
  | "word" => some (.ofRanges [('0', '9'), ('A', 'Z'), ('_', '_'), ('a', 'z')])
  | "xdigit" => some (.ofRanges [('0', '9'), ('A', 'F'), ('a', 'f')])
  | _ => none

/-- A named set behind its opening bracket and colon. -/
def readNamed? (text : List Char) : Option (CharSet × List Char) :=
  let (negated, text) := match text with
    | '^' :: rest => (true, rest)
    | _ => (false, text)
  match text.dropWhile (· ≠ ':') with
  | ':' :: ']' :: rest =>
    (named? (String.ofList (text.takeWhile (· ≠ ':')))).map fun set =>
      (if negated then set.complement else set, rest)
  | _ => none

/-- One member given by a character or by an escape. -/
def readMember : List Char → Except Fault (Escape × List Char)
  | [] => .error .unclosedSet
  | '\\' :: rest => Escape.read rest
  | c :: rest => .ok (.char c, rest)

/-- A member or a range of characters. A hyphen between two characters makes a range; before the
closing bracket and before another hyphen it does not. -/
def readRange (text : List Char) : Except Fault (CharSet × List Char) := do
  let (low, rest) ← readMember text
  let isRange := match rest with
    | '-' :: c :: _ => c ≠ ']' && c ≠ '-'
    | _ => false
  if isRange then
    let (high, rest) ← readMember (rest.drop 1)
    match low, high with
    | .char a, .char b =>
      if b < a then throw .reversedRange
      return (.ofRanges [(a, b)], rest)
    | _, _ => throw .invalidMember
  else
    match low with
    | .char c => return (.singleton c, rest)
    | .set set => return (set, rest)
    | .anchor _ => throw .invalidMember

/-- The members at the start of a set that stand for themselves: any number of hyphens, or else a
closing bracket. -/
def openingMembers : List Char → Draft × List Char
  | ']' :: rest => (Draft.start.add (.singleton ']') 0, rest)
  | text =>
    ((text.takeWhile (· = '-')).foldl (fun draft c => draft.add (.singleton c) 0) .start,
      text.dropWhile (· = '-'))

mutual

/-- The members of a set up to its closing bracket. Every turn takes a character, so `fuel` is
enough when it is twice the number of characters. -/
def readMembers : (fuel : Nat) → Draft → List Char → Except Fault (Bracket × List Char)
  | 0, _, _ => .error .unclosedSet
  | _ + 1, _, [] => .error .unclosedSet
  | _ + 1, draft, ']' :: rest => .ok (draft.finish, rest)
  | fuel + 1, draft, '[' :: rest =>
    match (if rest.head? = some ':' then readNamed? (rest.drop 1) else none) with
    | some (set, rest) => readMembers fuel (draft.add set 0) rest
    | none => do
      let (inner, rest) ← readBracket fuel rest
      readMembers fuel (draft.add inner.set (inner.depth + 1)) rest
  | fuel + 1, draft, '&' :: '&' :: rest => readMembers fuel (draft.operate .inter) rest
  | fuel + 1, draft, '-' :: '-' :: rest => readMembers fuel (draft.operate .diff) rest
  | fuel + 1, draft, '~' :: '~' :: rest => readMembers fuel (draft.operate .symmDiff) rest
  | fuel + 1, draft, text => do
    let (set, rest) ← readRange text
    readMembers fuel (draft.add set 0) rest

/-- A set behind its opening bracket. -/
def readBracket : (fuel : Nat) → List Char → Except Fault (Bracket × List Char)
  | 0, _ => .error .unclosedSet
  | fuel + 1, text =>
    let (negated, text) := match text with
      | '^' :: rest => (true, rest)
      | _ => (false, text)
    let (draft, text) := openingMembers text
    (readMembers fuel draft text).map fun (bracket, rest) =>
      (if negated then { bracket with set := bracket.set.complement } else bracket, rest)

end

/-- Reads a set behind its opening bracket. -/
def read (text : List Char) : Except Fault (Bracket × List Char) :=
  readBracket (2 * text.length + 2) text

end Bracket
end PrologTokens.Pattern
