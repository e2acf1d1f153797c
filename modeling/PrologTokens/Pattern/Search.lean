import PrologTokens.Pattern.Basic
import Std.Data.HashSet

/-!
# Matching and searching

Matching prefers what the pattern prefers: the first branch of an alternative, more repetitions of
a greedy loop, fewer of a lazy one. `Pattern.run` tries the possible ends of a match in that order
and hands each to a continuation until one is accepted.

`Pattern.explore` does the same step by step and never goes on from the same choice at the same
place twice: what was not found from there the first time is not found the second time. So it takes
no more steps than there are choices and places, whatever the pattern is. Where something is
repeated that can take up nothing, this rule also decides which way to an end comes first.

Searching takes the leftmost place at which the pattern matches, and there the preferred match.
-/

set_option autoImplicit false

namespace PrologTokens
namespace Pattern

/-! ## One way after another -/

/-- Repeats a matcher any number of times and hands the ends of the repetitions to `accept`, in
order of preference. A repetition that takes up nothing leads nowhere new and is left out. Every
other one takes up a character, so `fuel` never runs out when it starts as the number of characters
ahead. -/
def iterate {α : Type} (body : (Cursor → Option α) → Cursor → Option α) (greedy : Bool)
    (accept : Cursor → Option α) : (fuel : Nat) → Cursor → Option α
  | 0, c => accept c
  | fuel + 1, c =>
    let again (d : Cursor) : Option α :=
      if c.position < d.position then iterate body greedy accept fuel d else none
    if greedy then
      match body again c with
      | some answer => some answer
      | none => accept c
    else
      match accept c with
      | some answer => some answer
      | none => body again c

/-- Hands the possible ends of a match that starts at a place to `accept`, in order of preference,
and gives the first answer. -/
def run {α : Type} : Pattern → (accept : Cursor → Option α) → Cursor → Option α
  | empty, accept, c => accept c
  | chars set, accept, c =>
    match c.rest with
    | [] => none
    | x :: rest => if set.contains x then accept (c.pass x rest) else none
  | anchor a, accept, c => if a.holds c then accept c else none
  | seq p q, accept, c => p.run (q.run accept) c
  | alt p q, accept, c =>
    match p.run accept c with
    | some answer => some answer
    | none => q.run accept c
  | star p greedy, accept, c => iterate p.run greedy accept c.rest.length c
  | plus p greedy, accept, c =>
    p.run (fun d => iterate p.run greedy accept d.rest.length d) c

/-! ## No choice twice -/

/-- The first free number when the choices of a pattern are numbered from `number` on. There is a
choice between alternatives, and one whether to repeat. -/
def nextNumber : Pattern → (number : Nat) → Nat
  | empty, n => n
  | chars _, n => n
  | anchor _, n => n
  | seq p q, n => q.nextNumber (p.nextNumber n)
  | alt p q, n => q.nextNumber (p.nextNumber (n + 1))
  | star p _, n => p.nextNumber (n + 1)
  | plus p _, n => p.nextNumber (n + 1)

/-- A pattern that is still to be matched, with the number of its first choice. -/
structure Item where
  /-- The pattern. -/
  pattern : Pattern
  /-- The number from which on its choices are numbered. -/
  number : Nat
  deriving DecidableEq, Repr, Inhabited

/-- What is still to be matched, from a place on. -/
structure Task where
  /-- What is to be matched, one after another. -/
  items : List Item
  /-- The place. -/
  cursor : Cursor
  deriving DecidableEq, Repr, Inhabited

/-- The choices that were made, each with the position at which it was made. -/
abbrev Visited := Std.HashSet (Nat × Nat)

/-- Works off tasks, the first one first. The result is the place at which the first task ends that
comes to an end, if one does, together with the choices that were made. There is no result if the
number of steps does not suffice. A branch that is empty has no choices, so it needs no number. -/
def explore : (steps : Nat) → List Task → Visited → Option (Option Cursor × Visited)
  | 0, _, _ => none
  | _ + 1, [], visited => some (none, visited)
  | _ + 1, ⟨[], c⟩ :: _, visited => some (some c, visited)
  | steps + 1, ⟨⟨p, n⟩ :: items, c⟩ :: tasks, visited =>
    match p with
    | empty => explore steps (⟨items, c⟩ :: tasks) visited
    | chars set =>
      match c.rest with
      | [] => explore steps tasks visited
      | x :: rest =>
        if set.contains x then explore steps (⟨items, c.pass x rest⟩ :: tasks) visited
        else explore steps tasks visited
    | anchor a =>
      if a.holds c then explore steps (⟨items, c⟩ :: tasks) visited
      else explore steps tasks visited
    | seq p q => explore steps (⟨⟨p, n⟩ :: ⟨q, p.nextNumber n⟩ :: items, c⟩ :: tasks) visited
    | alt p q =>
      if visited.contains (n, c.position) then explore steps tasks visited
      else
        let other := if q = empty then items else ⟨q, p.nextNumber (n + 1)⟩ :: items
        explore steps (⟨⟨p, n + 1⟩ :: items, c⟩ :: ⟨other, c⟩ :: tasks)
          (visited.insert (n, c.position))
    | star p greedy =>
      if visited.contains (n, c.position) then explore steps tasks visited
      else
        let more : Task := ⟨⟨p, n + 1⟩ :: ⟨star p greedy, n⟩ :: items, c⟩
        let done : Task := ⟨items, c⟩
        let both := if greedy then more :: done :: tasks else done :: more :: tasks
        explore steps both (visited.insert (n, c.position))
    | plus p greedy =>
      explore steps (⟨⟨p, n + 1⟩ :: ⟨star p greedy, n⟩ :: items, c⟩ :: tasks) visited

/-- A number of steps that suffices on a line of the given length: between two choices no part of
the pattern comes more than twice, and every choice is made at every place once at most. -/
def stepBound (p : Pattern) (length : Nat) : Nat :=
  (2 * p.size + 2) * (2 * p.size * (length + 1) + length + 2)

/-- The end of the preferred match that starts at a place, and the choices that were made. The steps
suffice when they are `stepBound`; whatever their number, the end is that of a match. -/
def matchEnd (p : Pattern) (steps : Nat) (c : Cursor) (visited : Visited) :
    Option Cursor × Visited :=
  match explore steps [⟨[⟨p, 0⟩], c⟩] visited with
  | some result => result
  | none => (p.run some c, ∅)

/-! ## Searching -/

/-- A match found in a line. -/
structure Match where
  /-- How many characters of the line stand before the match. -/
  start : Nat
  /-- The matched characters. -/
  lexeme : List Char
  deriving DecidableEq, Repr, Inhabited

/-- How many characters of the line stand before the end of the match. -/
def Match.stop (m : Match) : Nat := m.start + m.lexeme.length

/-- The first place, from a given one on, at which the pattern matches, with the end of the
preferred match there. Choices that led nowhere from one place lead nowhere from the next one
either. -/
def leftmost? (p : Pattern) (steps : Nat) (position : Nat) (previous : Option Char)
    (visited : Visited) : (rest : List Char) → Option (Cursor × Cursor)
  | [] =>
    ((p.matchEnd steps ⟨position, previous, []⟩ visited).1).map fun e =>
      (⟨position, previous, []⟩, e)
  | x :: rest =>
    match p.matchEnd steps ⟨position, previous, x :: rest⟩ visited with
    | (some e, _) => some (⟨position, previous, x :: rest⟩, e)
    | (none, visited) => leftmost? p steps (position + 1) (some x) visited rest

/-- The match between two places of a line. -/
def Match.between (s e : Cursor) : Match := ⟨s.position, s.rest.take (e.position - s.position)⟩

/-- The leftmost match of a line. It may be empty. -/
def first? (p : Pattern) (line : List Char) : Option Match :=
  (p.leftmost? (p.stepBound line.length) 0 none ∅ line).map fun (s, e) => .between s e

/-- The non-empty matches from a place on. The search goes on behind each match; behind an empty
match it goes on one character further, and the empty match is not reported. Each turn passes a
character, so `fuel` never runs out when it starts as the number of characters ahead. -/
def matchesFrom (p : Pattern) (steps : Nat) : (fuel : Nat) → Cursor → List Match
  | 0, _ => []
  | fuel + 1, c =>
    match p.leftmost? steps c.position c.previous ∅ c.rest with
    | none => []
    | some (s, e) =>
      if s.position < e.position then .between s e :: matchesFrom p steps fuel e
      else
        match s.rest with
        | [] => []
        | x :: rest => matchesFrom p steps fuel (s.pass x rest)

/-- The non-empty matches of a line, from left to right, none overlapping another. -/
def allMatches (p : Pattern) (line : List Char) : List Match :=
  p.matchesFrom (p.stepBound line.length) line.length (.start line)

end Pattern
end PrologTokens
