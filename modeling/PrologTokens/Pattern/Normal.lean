import PrologTokens.Pattern.Basic

/-!
# The normal form of written patterns

Between its text and the pattern that is searched for, a written pattern has a normal form, which
decides which of several possible matches is preferred.

* Sequences are flat, and alternatives are flat.
* Alternatives that are all single characters, or all sets of characters, are one set.
* What all alternatives start with is moved in front of them: `x*a|x*b` is `x*(?:a|b)`. So all
  alternatives are tried behind one way to match `x*` before another way to match it is tried.
* A repetition of what only matches nothing is at most one repetition.

Numbered groups are kept, since two of them are never the same start.
-/

set_option autoImplicit false

namespace PrologTokens.Pattern

/-- A normal form. Sequences and alternatives nest to the right. -/
inductive Normal where
  /-- Nothing at all. -/
  | empty
  /-- One character of a set. -/
  | chars (set : CharSet)
  /-- A place that satisfies a condition. -/
  | anchor (anchor : Anchor)
  /-- The numbered group with the given number. -/
  | group (number : Nat) (body : Normal)
  /-- A repetition, at least `least` times and, where a bound is given, at most `most` times. -/
  | times (least : Nat) (most : Option Nat) (greedy : Bool) (body : Normal)
  /-- One part, then the others. -/
  | seq (first others : Normal)
  /-- One alternative, or else one of the others. -/
  | alt (first others : Normal)
  deriving DecidableEq, Repr, Inhabited

namespace Normal

/-- Whether only nothing is matched. -/
def onlyEmpty : Normal → Bool
  | empty => true
  | chars _ => false
  | anchor _ => true
  | group _ p => p.onlyEmpty
  | times _ _ _ p => p.onlyEmpty
  | seq p q => p.onlyEmpty && q.onlyEmpty
  | alt p q => p.onlyEmpty && q.onlyEmpty

/-- Whether nothing may be matched. -/
def canBeEmpty : Normal → Bool
  | empty => true
  | chars _ => false
  | anchor _ => true
  | group _ p => p.canBeEmpty
  | times least _ _ p => least = 0 || p.canBeEmpty
  | seq p q => p.canBeEmpty && q.canBeEmpty
  | alt p q => p.canBeEmpty || q.canBeEmpty

/-- The parts of a sequence. -/
def parts : Normal → List Normal
  | empty => []
  | seq p q => p :: q.parts
  | p => [p]

/-- The sequence with the given parts. -/
def ofParts : List Normal → Normal
  | [] => empty
  | [p] => p
  | p :: q :: ps => seq p (ofParts (q :: ps))

/-- One normal form after another. -/
def sequence (ps : List Normal) : Normal := ofParts (ps.flatMap parts)

/-- The alternatives of a normal form. -/
def branches : Normal → List Normal
  | alt p q => p :: q.branches
  | p => [p]

/-- The normal form with the given alternatives. -/
def ofBranches : List Normal → Normal
  | [] => empty
  | [p] => p
  | p :: q :: ps => alt p (ofBranches (q :: ps))

/-- The character, if there is nothing but one given character. -/
def character? : Normal → Option Char
  | chars set => set.singleton?
  | _ => none

/-- The set, if there is nothing but a set of several characters. -/
def set? : Normal → Option CharSet
  | chars set => if set.singleton?.isNone then some set else none
  | _ => none

/-- Groups parts into units: characters that follow each other are one unit, and every other part
is one by itself. -/
def units : List Normal → List (List Normal)
  | [] => []
  | p :: ps =>
    match p.character?, units ps with
    | some _, (q :: qs) :: others =>
      if q.character?.isSome then (p :: q :: qs) :: others else [p] :: (q :: qs) :: others
    | _, others => [p] :: others

/-- The units that two lists of units both start with. -/
def commonStart : List (List Normal) → List (List Normal) → List (List Normal)
  | u :: us, v :: vs => if u = v then u :: commonStart us vs else []
  | _, _ => []

/-- The units that all alternatives start with, if all of them have two parts or more. -/
def sharedStart : List Normal → List (List Normal)
  | [] => []
  | p :: ps =>
    if (p :: ps).all fun q => 2 ≤ (units q.parts).length then
      ps.foldl (fun start q => commonStart start (units q.parts)) (units p.parts)
    else []

/-- The set of all alternatives, if they are all single characters or all sets. -/
def merged? (ps : List Normal) : Option CharSet :=
  match ps.mapM character?, ps.mapM set? with
  | some cs, _ => some (.ofRanges (cs.map fun c => (c, c)))
  | _, some sets => some (sets.foldl CharSet.union .empty)
  | _, _ => none

/-- The normal form of alternatives. What they all start with is moved in front of them, and the
remainders are alternatives again. These have fewer parts, so `fuel` is enough when it is the number
of all parts. -/
def oneOfWithin : (fuel : Nat) → List Normal → Normal
  | 0, ps => ofBranches (ps.flatMap branches)
  | fuel + 1, ps =>
    match ps.flatMap branches with
    | [p] => p
    | ps =>
      match merged? ps, sharedStart ps with
      | some set, _ => chars set
      | none, [] => ofBranches ps
      | none, start =>
        let remainders := ps.map fun p => ofParts ((units p.parts).drop start.length).flatten
        sequence (start.flatten ++ [oneOfWithin fuel remainders])

/-- The number of parts, groups, repetitions and alternatives. -/
def size : Normal → Nat
  | empty => 1
  | chars _ => 1
  | anchor _ => 1
  | group _ p => p.size + 1
  | times _ _ _ p => p.size + 1
  | seq p q => p.size + q.size
  | alt p q => p.size + q.size

/-- The normal form of alternatives. -/
def oneOf (ps : List Normal) : Normal := oneOfWithin ((ps.map size).foldr (· + ·) 0 + 1) ps

/-- The normal form of a repetition. -/
def repeated (least : Nat) (most : Option Nat) (greedy : Bool) (p : Normal) : Normal :=
  let (least, most) :=
    if p.onlyEmpty then (min least 1, some (min (most.getD 1) 1)) else (least, most)
  if most = some 0 then empty
  else if least = 1 ∧ most = some 1 then p
  else times least most greedy p

/-- The pattern of a normal form. -/
def toPattern : Normal → Pattern
  | empty => .empty
  | chars set => .chars set
  | anchor a => .anchor a
  | group _ p => p.toPattern
  | times least most greedy p => p.toPattern.repeated least most greedy
  | seq p q => .seq p.toPattern q.toPattern
  | alt p q => .alt p.toPattern q.toPattern

end Normal
end PrologTokens.Pattern
