import PrologTokens.Pattern.Normal

/-!
# The memory that a pattern needs

A pattern may need ten mebibytes of memory at most. Its need is that of the automaton over the
bytes of UTF-8 which accepts what the pattern matches: every state takes 32 bytes, every range of
bytes on which a state with several of them moves on takes eight more, and every way that a choice
leads takes four more. Counted repetition takes as many copies as it counts. The automaton that
reads backwards, from the end of a match to its start, must not need more either.
-/

set_option autoImplicit false

namespace PrologTokens.Pattern

namespace Footprint

/-- The direction in which an automaton reads. -/
inductive Direction where
  /-- From the start of a match to its end. -/
  | forwards
  /-- From the end of a match to its start. -/
  | backwards
  deriving DecidableEq, Repr, Inhabited

/-- The bytes of a state. -/
def state : Nat := 32

/-- The bytes of a choice that leads the given number of ways. -/
def choice (ways : Nat) : Nat := state + 4 * ways

/-- The bytes of a state that moves on with the given number of ranges of bytes. -/
def move (ranges : Nat) : Nat := state + 8 * ranges

/-! ## Byte sequences -/

/-- A closed range of bytes. -/
abbrev ByteRange := Nat × Nat

/-- The bytes of the character with a code. -/
def encode (code : Nat) : List Nat :=
  if code < 0x80 then [code]
  else if code < 0x800 then [0xc0 + code / 64, 0x80 + code % 64]
  else if code < 0x10000 then [0xe0 + code / 4096, 0x80 + code / 64 % 64, 0x80 + code % 64]
  else [0xf0 + code / 262144, 0x80 + code / 4096 % 64, 0x80 + code / 64 % 64, 0x80 + code % 64]

/-- The first place, of those given, at which a range of codes has to be cut in two: the last code
of the lower part. -/
def cut? (low high : Nat) : List Nat → Option Nat
  | [] => none
  | unit :: units =>
    if low / unit ≠ high / unit then
      if low % unit ≠ 0 then some (low / unit * unit + unit - 1)
      else if high % unit ≠ unit - 1 then some (high / unit * unit - 1)
      else cut? low high units
    else cut? low high units

/-- The first of the given codes that lies in a range without being its last one. -/
def split? (low high : Nat) (codes : List Nat) : Option Nat :=
  codes.find? fun code => low ≤ code && code < high

/-- The sequences of byte ranges that together make up the characters with a range of codes. A
range is cut until its characters have equally many bytes and every byte runs over a range of its
own. -/
def sequences : (fuel : Nat) → (low high : Nat) → List (List ByteRange)
  | 0, _, _ => []
  | fuel + 1, low, high =>
    if high < low ∨ (0xd800 ≤ low ∧ high ≤ 0xdfff) then []
    else
      match split? low high [0xd7ff, 0xdfff, 0x7f, 0x7ff, 0xffff] with
      | some last => sequences fuel low last ++ sequences fuel (last + 1) high
      | none =>
        if high < 0x80 then [[(low, high)]]
        else
          match cut? low high [64, 4096, 262144] with
          | some last => sequences fuel low last ++ sequences fuel (last + 1) high
          | none => [(encode low).zip (encode high)]

/-- The sequences of byte ranges of the characters of a set. -/
def setSequences (set : CharSet) : List (List ByteRange) :=
  set.ranges.flatMap fun r => sequences 20 r.1 r.2

/-- The list without repetitions. -/
def distinct {α : Type} [BEq α] (items : List α) : List α :=
  items.foldl (fun seen x => if seen.contains x then seen else x :: seen) []

/-- The remainders of some sequences behind each range that they start with. -/
def remainders (rows : List (List ByteRange)) : List (List (List ByteRange)) :=
  (distinct (rows.filterMap List.head?)).map fun first =>
    rows.filterMap fun row =>
      match row with
      | r :: rest => if r == first then some rest else none
      | [] => none

/-- The states of the smallest automaton for some sequences, each given by the sequences that it
accepts. A sequence has four ranges at most, so `depth` is enough when it is four. -/
def automatonStates : (depth : Nat) → List (List ByteRange) → List (List (List ByteRange))
  | 0, _ => []
  | depth + 1, rows =>
    if rows.all List.isEmpty then []
    else rows :: (remainders rows).flatMap (automatonStates depth)

/-- The bytes for a set of characters. Forwards, the automaton is the smallest one; backwards, the
sequences share what they start with and nothing else. -/
def ofSet (direction : Direction) (set : CharSet) : Nat :=
  if set.isAscii then state + move set.ranges.length
  else
    let rows := setSequences set
    match direction with
    | .forwards =>
      let states := distinct (automatonStates 4 rows)
      let moves := states.map fun rows => move (distinct (rows.filterMap List.head?)).length
      state + moves.foldr (· + ·) 0
    | .backwards =>
      let starts := distinct (rows.flatMap fun row =>
        (List.range row.length).map fun n => row.take (n + 1))
      state + choice rows.length + state * starts.length

/-! ## Words that are alternatives -/

/-- The parts between the empty words of a list of words. -/
def chunks : List (List Nat) → List (List (List Nat))
  | [] => [[]]
  | [] :: words => [] :: chunks words
  | (b :: bs) :: words =>
    match chunks words with
    | [] => [[b :: bs]]
    | chunk :: others => ((b :: bs) :: chunk) :: others

/-- The words of a chunk behind each byte that they start with. -/
def behindBytes (chunk : List (List Nat)) : List (List (List Nat)) :=
  (distinct (chunk.filterMap List.head?)).map fun first =>
    chunk.filterMap fun word =>
      match word with
      | b :: bs => if b = first then some bs else none
      | [] => none

/-- The bytes for a choice between words that are read byte by byte, as far as they start in the
same way together. A word is as long as `depth` at most. -/
def ofWords : (depth : Nat) → (words : List (List Nat)) → Nat
  | 0, _ => 0
  | depth + 1, words =>
    if words.all List.isEmpty then 0
    else
      let parts := chunks words
      let full := parts.filter fun chunk => !chunk.isEmpty
      let ways := full.length + (parts.length - 1)
      let moves := full.map fun chunk =>
        let bytes := (distinct (chunk.filterMap List.head?)).length
        let own := if bytes = 1 then state else move bytes
        own + ((behindBytes chunk).map (ofWords depth)).sum
      moves.sum + if ways = 1 then 0 else choice ways

end Footprint

namespace Normal

open Footprint

/-- The bytes of the characters, if there is nothing but given characters, and at least one. -/
def word? (p : Normal) : Option (List Nat) :=
  match p.parts.mapM character? with
  | some (c :: cs) => some ((c :: cs).flatMap fun c => encode c.toNat)
  | _ => none

/-- The bytes for alternatives that are words, if there are several of them and they all are. -/
def wordsFootprint? (direction : Direction) (p : Normal) : Option Nat :=
  match p.branches.mapM word? with
  | some words =>
    let words := if direction = .forwards then words else words.map List.reverse
    some (state + ofWords ((words.map List.length).foldr (· + ·) 0 + 1) words)
  | none => none

/-- The bytes for copies of a body that takes the given number of bytes. -/
def timesFootprint (least : Nat) (most : Option Nat) (bodyEmpty : Bool) (body : Nat) : Nat :=
  match most with
  | none =>
    if least = 0 then
      if bodyEmpty then body + choice 2 + choice 2 + state else body + choice 2
    else least * body + choice 2
  | some most =>
    if least = 0 ∧ most = 1 then choice 2 + body + state
    else if most ≤ least then least * body
    else (if least = 0 then state else least * body) + state + (most - least) * (choice 2 + body)

/-- The bytes for a normal form. An alternative behind the first one takes four bytes more, for the
way that leads to it. -/
def footprint (direction : Direction) (later : Bool) : Normal → Nat
  | empty => state + way later
  | chars set =>
    way later + match set.singleton? with
      | some c => state * (encode c.toNat).length
      | none => ofSet direction set
  | anchor _ => state + way later
  | group _ p =>
    p.footprint direction false + way later + if direction = .forwards then 2 * state else 0
  | times least most _ p =>
    timesFootprint least most p.canBeEmpty (p.footprint direction false) + way later
  | seq p q => p.footprint direction false + q.footprint direction false + way later
  | alt p q =>
    if later then p.footprint direction false + q.footprint direction true + way later
    else
      match (alt p q).wordsFootprint? direction with
      | some bytes => bytes
      | none => p.footprint direction false + q.footprint direction true + choice 1 + state
where
  /-- The bytes of a way that leads to a later alternative. -/
  way (later : Bool) : Nat := if later then 4 else 0

/-- Whether every match starts at the start of the line. -/
def startsLine : Normal → Bool
  | anchor .lineStart => true
  | group _ p => p.startsLine
  | times least _ _ p => 0 < least && p.startsLine
  | seq p q => p.startsLine || (p.onlyEmpty && q.startsLine)
  | alt p q => p.startsLine && q.startsLine
  | _ => false

/-- Whether every match ends at the end of the line. -/
def endsLine : Normal → Bool
  | anchor .lineEnd => true
  | group _ p => p.endsLine
  | times least _ _ p => 0 < least && p.endsLine
  | seq p q => q.endsLine || (q.onlyEmpty && p.endsLine)
  | alt p q => p.endsLine && q.endsLine
  | _ => false

/-- The bytes for skipping what stands before a match. -/
def skipFootprint (bound : Bool) : Nat := if bound then state else choice 2 + state + move 1

/-- The bytes for the whole automaton in a direction. -/
def totalFootprint (p : Normal) (direction : Direction) : Nat :=
  match direction with
  | .forwards => skipFootprint p.startsLine + 2 * state + p.footprint .forwards false + state
  | .backwards => skipFootprint p.endsLine + p.footprint .backwards false + state

/-- The largest number of bytes that a pattern may need. -/
def footprintLimit : Nat := 10 * Nat.pow 2 20

/-- Whether a pattern needs more memory than it may. -/
def isTooLarge (p : Normal) : Bool :=
  footprintLimit < p.totalFootprint .forwards || footprintLimit < p.totalFootprint .backwards

end Normal
end PrologTokens.Pattern
