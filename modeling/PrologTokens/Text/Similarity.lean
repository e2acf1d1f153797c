/-!
# Likeness of two texts

Two texts are alike when they share many characters at about the same places. The measure counts
three quotients: the share of the first text that has a counterpart in the second, the share of the
second, and the share of the counterparts that stand in the same order. Texts are alike when the
mean of the three is at least seven tenths.
-/

set_option autoImplicit false

namespace PrologTokens.Text

/-- A character of the second text, its place, and whether a counterpart was found for it. -/
structure Candidate where
  /-- The place of the character. -/
  place : Nat
  /-- The character. -/
  char : Char
  /-- Whether it is the counterpart of an earlier character. -/
  taken : Bool
  deriving DecidableEq, Repr, Inhabited

/-- Takes the first free candidate with the given character whose place is at most `reach` away. -/
def takeCandidate? (reach place : Nat) (c : Char) : List Candidate → Option (List Candidate)
  | [] => none
  | candidate :: others =>
    if !candidate.taken && candidate.char = c && place ≤ candidate.place + reach
        && candidate.place ≤ place + reach then
      some (⟨candidate.place, candidate.char, true⟩ :: others)
    else (takeCandidate? reach place c others).map (candidate :: ·)

/-- The characters from the given place on that find a counterpart, and the candidates after all
have looked for one. -/
def takeCandidates (reach : Nat) : (place : Nat) → List Char → List Candidate →
    List Char × List Candidate
  | _, [], candidates => ([], candidates)
  | place, c :: text, candidates =>
    match takeCandidate? reach place c candidates with
    | none => takeCandidates reach (place + 1) text candidates
    | some candidates =>
      let (matched, candidates) := takeCandidates reach (place + 1) text candidates
      (c :: matched, candidates)

/-- The characters of two texts that are counterparts of each other, each in its own order. They may
stand apart by less than half of the longer text. -/
def counterparts (first second : List Char) : List Char × List Char :=
  let reach := max first.length second.length / 2 - 1
  let candidates := second.zipIdx.map fun (c, place) => ⟨place, c, false⟩
  let (matched, candidates) := takeCandidates reach 0 first candidates
  (matched, (candidates.filter Candidate.taken).map Candidate.char)

/-- Whether two texts are alike. All quotients are compared as whole numbers. -/
def areAlike (first second : List Char) : Bool :=
  let (ofFirst, ofSecond) := counterparts first second
  let shared := ofFirst.length
  let disorder := (ofFirst.zip ofSecond).countP (fun (c, d) => c ≠ d) / 2
  let a := first.length
  let b := second.length
  if a = 0 && b = 0 then true
  else
    0 < shared &&
      21 * (a * b * shared) ≤
        10 * (shared * b * shared + shared * a * shared + (shared - disorder) * (a * b))

end PrologTokens.Text
