import PrologTokens.Pattern.CharSet
import PrologTokens.Text.Word

/-!
# Patterns

A pattern describes stretches of a line. Groups have no constructor of their own: they decide only
how a written pattern is taken apart. Counted repetition has none either: it is written out in
copies of its body.

The main notions are `Pattern` itself, the `Cursor`, which is a place between two characters of a
line, and `Pattern.Matches`, which says that a pattern describes the characters between two places.
-/

set_option autoImplicit false

namespace PrologTokens

/-- A condition on a place in a line that takes up no character. -/
inductive Anchor where
  /-- The start of the line. -/
  | lineStart
  /-- The end of the line. -/
  | lineEnd
  /-- A place with an ASCII word character on exactly one side. -/
  | wordBoundary
  /-- A place with a word character of any script on exactly one side. -/
  | scriptBoundary
  /-- A place with word characters of any script on both sides or on none. -/
  | noScriptBoundary
  /-- A place with a word character of any script behind it and none before it. -/
  | scriptWordStart
  /-- A place with a word character of any script before it and none behind it. -/
  | scriptWordEnd
  deriving DecidableEq, Repr, Inhabited

/-- A pattern over the characters of a line. -/
inductive Pattern where
  /-- Nothing at all. -/
  | empty
  /-- One character of a set. -/
  | chars (set : CharSet)
  /-- A place that satisfies a condition. -/
  | anchor (anchor : Anchor)
  /-- One pattern after another. -/
  | seq (first second : Pattern)
  /-- Either pattern; the first is preferred. -/
  | alt (first second : Pattern)
  /-- Any number of repetitions; more are preferred if greedy, fewer otherwise. -/
  | star (body : Pattern) (greedy : Bool)
  /-- One or more repetitions; more are preferred if greedy, fewer otherwise. -/
  | plus (body : Pattern) (greedy : Bool)
  deriving DecidableEq, Repr, Inhabited

/-- A place in a line: what has been passed and what is ahead. -/
structure Cursor where
  /-- How many characters have been passed. -/
  position : Nat
  /-- The character passed last. -/
  previous : Option Char
  /-- The characters ahead. -/
  rest : List Char
  deriving DecidableEq, Repr, Inhabited

namespace Cursor

/-- The place before the first character of a line. -/
def start (line : List Char) : Cursor := ⟨0, none, line⟩

/-- The place of a line with the given number of characters before it. -/
def ofPosition (line : List Char) (position : Nat) : Cursor :=
  ⟨position, (line.take position).getLast?, line.drop position⟩

/-- The place behind the given character, which is the first one ahead. -/
def pass (c : Cursor) (x : Char) (rest : List Char) : Cursor := ⟨c.position + 1, some x, rest⟩

/-- The first place of a line. -/
theorem ofPosition_zero (line : List Char) : ofPosition line 0 = start line := by
  simp [ofPosition, start]

/-- Passing a character leads to the next place of the text. -/
theorem pass_ofPosition {text rest : List Char} {position : Nat} {x : Char}
    (h : text.drop position = x :: rest) :
    (ofPosition text position).pass x rest = ofPosition text (position + 1) := by
  have hx : text[position]? = some x := by
    rw [← List.head?_drop, h, List.head?_cons]
  have hrest : text.drop (position + 1) = rest := by
    rw [← List.tail_drop, h, List.tail_cons]
  simp [ofPosition, pass, hrest, List.take_add_one, hx]

end Cursor

/-- Whether the condition holds at a place. -/
def Anchor.holds : Anchor → Cursor → Bool
  | lineStart, c => c.previous.isNone
  | lineEnd, c => c.rest.isEmpty
  | wordBoundary, c => c.previous.any Text.isWord != c.rest.head?.any Text.isWord
  | scriptBoundary, c =>
    c.previous.any Text.isWordOfAnyScript != c.rest.head?.any Text.isWordOfAnyScript
  | noScriptBoundary, c =>
    c.previous.any Text.isWordOfAnyScript == c.rest.head?.any Text.isWordOfAnyScript
  | scriptWordStart, c =>
    !c.previous.any Text.isWordOfAnyScript && c.rest.head?.any Text.isWordOfAnyScript
  | scriptWordEnd, c =>
    c.previous.any Text.isWordOfAnyScript && !c.rest.head?.any Text.isWordOfAnyScript

namespace Pattern

/-- The pattern describes the characters between two places of a line. -/
inductive Matches : Pattern → Cursor → Cursor → Prop where
  /-- The empty pattern takes up nothing. -/
  | empty (c : Cursor) : Matches .empty c c
  /-- A set takes up one of its characters. -/
  | chars {set : CharSet} {c : Cursor} {x : Char} {rest : List Char}
      (ahead : c.rest = x :: rest) (mem : set.contains x = true) :
      Matches (.chars set) c (c.pass x rest)
  /-- An anchor takes up nothing where its condition holds. -/
  | anchor {a : Anchor} {c : Cursor} (holds : a.holds c = true) : Matches (.anchor a) c c
  /-- A sequence is cut at a place in between. -/
  | seq {p q : Pattern} {c d e : Cursor} (first : Matches p c d) (second : Matches q d e) :
      Matches (.seq p q) c e
  /-- The first branch of an alternative. -/
  | altLeft {p q : Pattern} {c d : Cursor} (left : Matches p c d) : Matches (.alt p q) c d
  /-- The second branch of an alternative. -/
  | altRight {p q : Pattern} {c d : Cursor} (right : Matches q c d) : Matches (.alt p q) c d
  /-- No repetition. -/
  | starNone {p : Pattern} {greedy : Bool} (c : Cursor) : Matches (.star p greedy) c c
  /-- A repetition, then any number of others. -/
  | starMore {p : Pattern} {greedy : Bool} {c d e : Cursor}
      (first : Matches p c d) (more : Matches (.star p greedy) d e) :
      Matches (.star p greedy) c e
  /-- A repetition, then any number of others. -/
  | plus {p : Pattern} {greedy : Bool} {c d e : Cursor}
      (first : Matches p c d) (more : Matches (.star p greedy) d e) :
      Matches (.plus p greedy) c e

/-- The pattern of one given character. -/
def literal (c : Char) : Pattern := .chars (.singleton c)

/-- The patterns one after another. -/
def sequence : List Pattern → Pattern
  | [] => empty
  | [p] => p
  | p :: q :: ps => seq p (sequence (q :: ps))

/-- Any of the patterns; earlier ones are preferred. Of no patterns, the empty pattern. -/
def oneOf : List Pattern → Pattern
  | [] => empty
  | [p] => p
  | p :: q :: ps => alt p (oneOf (q :: ps))

/-- The pattern or nothing; the pattern is preferred if greedy. -/
def optional (greedy : Bool) (p : Pattern) : Pattern := if greedy then alt p empty else alt empty p

/-- The given number of copies of a pattern, then another pattern. -/
def copies (p : Pattern) : (count : Nat) → (last : Pattern) → Pattern
  | 0, last => last
  | n + 1, last => copies p n (seq p last)

/-- A pattern that is optional, inside the given number of optional copies of `p`, each of which
holds the next one. -/
def nested (greedy : Bool) (p : Pattern) : (count : Nat) → (inner : Pattern) → Pattern
  | 0, inner => inner
  | n + 1, inner => nested greedy p n (optional greedy (seq p inner))

/-- The given number of repetitions. -/
def exactly (p : Pattern) : Nat → Pattern
  | 0 => empty
  | n + 1 => copies p n p

/-- At most the given number of repetitions. Each one more is optional and stands inside the one
before it. -/
def atMost (greedy : Bool) (p : Pattern) : Nat → Pattern
  | 0 => empty
  | n + 1 => nested greedy p n (optional greedy p)

/-- Whether the pattern can take up nothing. -/
def canBeEmpty : Pattern → Bool
  | empty => true
  | chars _ => false
  | anchor _ => true
  | seq p q => p.canBeEmpty && q.canBeEmpty
  | alt p q => p.canBeEmpty || q.canBeEmpty
  | star _ _ => true
  | plus p _ => p.canBeEmpty

/-- Any number of repetitions. Where the body can be empty, no repetition is a choice apart from
the one whether to go on. -/
def anyNumber (greedy : Bool) (p : Pattern) : Pattern :=
  if p.canBeEmpty then optional greedy (plus p greedy) else star p greedy

/-- At least the given number of repetitions. -/
def atLeast (greedy : Bool) (p : Pattern) : Nat → Pattern
  | 0 => anyNumber greedy p
  | n + 1 => copies p n (plus p greedy)

/-- At least `least` repetitions and, where a bound is given, at most `most` of them. -/
def repeated (p : Pattern) (least : Nat) (most : Option Nat) (greedy : Bool) : Pattern :=
  match most with
  | none => atLeast greedy p least
  | some most =>
    if most ≤ least then exactly p least
    else copies p least (atMost greedy p (most - least))

/-- The number of parts of a pattern, added to a given number. -/
def sizeFrom : Pattern → Nat → Nat
  | empty, n => n + 1
  | chars _, n => n + 1
  | anchor _, n => n + 1
  | seq p q, n => q.sizeFrom (p.sizeFrom (n + 1))
  | alt p q, n => q.sizeFrom (p.sizeFrom (n + 1))
  | star p _, n => p.sizeFrom (n + 1)
  | plus p _, n => p.sizeFrom (n + 1)

/-- The number of parts of a pattern. -/
def size (p : Pattern) : Nat := p.sizeFrom 0

end Pattern
end PrologTokens
