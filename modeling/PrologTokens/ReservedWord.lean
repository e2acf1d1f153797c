import PrologTokens.UnknownName

/-!
# Reserved words

The sixteen words that are reported as `ReservedWord` when they stand alone in a line. They are
written in small letters throughout.
-/

set_option autoImplicit false

namespace PrologTokens

/-- A reserved word. -/
inductive ReservedWord where
  /-- Adds a clause to the database. -/
  | assert
  /-- Loads a source file. -/
  | consult
  /-- Commits to the choices made so far. -/
  | cut
  /-- Opens the negative branch of a conditional. -/
  | else
  /-- The goal that always fails. -/
  | fail
  /-- The goal that is never true. -/
  | false
  /-- Opens a conditional. -/
  | if
  /-- Prints the clauses of a predicate. -/
  | listing
  /-- Writes a line end. -/
  | nl
  /-- Negation as failure. -/
  | not
  /-- Reads a term. -/
  | read
  /-- Removes a clause from the database. -/
  | retract
  /-- Opens the positive branch of a conditional. -/
  | then
  /-- The goal that always succeeds. -/
  | true
  /-- Writes a term. -/
  | write
  /-- Writes a formatted text. -/
  | writef
  deriving DecidableEq, Repr, Inhabited

namespace ReservedWord

/-- The text of a reserved word. -/
def spelling : ReservedWord → String
  | assert => "assert"
  | consult => "consult"
  | cut => "cut"
  | .else => "else"
  | fail => "fail"
  | false => "false"
  | .if => "if"
  | listing => "listing"
  | nl => "nl"
  | not => "not"
  | read => "read"
  | retract => "retract"
  | .then => "then"
  | true => "true"
  | write => "write"
  | writef => "writef"

/-- Every reserved word, as they are listed above. -/
def all : List ReservedWord :=
  [assert, consult, cut, .else, fail, false, .if, listing, nl, not, read, retract, .then, true,
    write, writef]

/-- Every reserved word, ordered by the spellings. -/
def sorted : List ReservedWord := all.mergeSort fun v w => v.spelling ≤ w.spelling

/-- The reserved word with the given spelling; capital letters make a difference. -/
def ofSpelling? (s : String) : Option ReservedWord := all.find? fun w => w.spelling = s

/-- The reserved word with the given spelling, or the fact that there is none. -/
def ofSpelling (s : String) : Except UnknownName ReservedWord :=
  match ofSpelling? s with
  | some w => .ok w
  | none => .error ⟨s⟩

/-- The listing leaves no word out. -/
theorem mem_all (w : ReservedWord) : w ∈ all := by cases w <;> decide

/-- The reserved words are listed in the order of their spellings, so sorting moves none. -/
theorem sorted_eq_all : sorted = all := List.mergeSort_of_pairwise (by decide)

/-- The sorted listing leaves no word out. -/
theorem mem_sorted (w : ReservedWord) : w ∈ sorted := List.mem_mergeSort.mpr (mem_all w)

/-- A reserved word is found again under its own spelling. -/
@[simp] theorem ofSpelling?_spelling (w : ReservedWord) : ofSpelling? w.spelling = some w := by
  cases w <;> decide

end ReservedWord
end PrologTokens
