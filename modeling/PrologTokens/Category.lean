import PrologTokens.UnknownName

/-!
# Lexical categories

Every token belongs to one of fourteen categories. A category is known outside the library by its
name: reports print it, and JSON documents carry it as a string.
-/

set_option autoImplicit false

namespace PrologTokens

/-- The lexical category of a token. -/
inductive Category where
  /-- A clause of the shape `name(arg,...).` -/
  | fact
  /-- A clause of the shape `head(args) :- body.` -/
  | rule
  /-- A goal of the shape `?- goal.` -/
  | query
  /-- An identifier that starts with a capital letter. -/
  | variable
  /-- A bracketed list `[item,...]` -/
  | list
  /-- One of `,` `;` `->` -/
  | logicalOperator
  /-- A run of digits. -/
  | number
  /-- One of `+` `-` `*` `/` -/
  | operator
  /-- The first `=` of a line. -/
  | assignment
  /-- A round bracket. -/
  | parenthesis
  /-- A full stop or a comma. -/
  | punctuation
  /-- An identifier that starts with a small letter. -/
  | atom
  /-- A reserved word standing alone. -/
  | reservedWord
  /-- A character outside the accepted alphabet. -/
  | unrecognized
  deriving DecidableEq, Repr, Inhabited

namespace Category

/-- Every category, in the order in which they are listed to users. -/
def all : List Category :=
  [fact, rule, query, .variable, list, logicalOperator, number, operator, assignment,
    parenthesis, punctuation, atom, reservedWord, unrecognized]

/-- The name under which a category is printed and read. -/
def name : Category → String
  | fact => "Fact"
  | rule => "Rule"
  | query => "Query"
  | .variable => "Variable"
  | list => "List"
  | logicalOperator => "LogicalOperator"
  | number => "Number"
  | operator => "Operator"
  | assignment => "Assignment"
  | parenthesis => "Parenthesis"
  | punctuation => "Punctuation"
  | atom => "Atom"
  | reservedWord => "ReservedWord"
  | unrecognized => "Unrecognized"

/-- The names of all categories, in listing order. -/
def names : List String := all.map name

/-- The category with the given name; names are compared exactly. -/
def ofName? (s : String) : Option Category := all.find? fun c => c.name = s

/-- The category with the given name, or the fact that there is none. -/
def ofName (s : String) : Except UnknownName Category :=
  match ofName? s with
  | some c => .ok c
  | none => .error ⟨s⟩

/-- The listing leaves no category out. -/
theorem mem_all (c : Category) : c ∈ all := by cases c <;> decide

/-- A category is found again under its own name. -/
@[simp] theorem ofName?_name (c : Category) : ofName? c.name = some c := by
  cases c <;> decide

/-- Only the category of that name is found. -/
theorem name_of_ofName? {s : String} {c : Category} (h : ofName? s = some c) : c.name = s := by
  have := List.find?_some h
  simpa using this

/-- Two categories never share a name. -/
theorem name_injective {c d : Category} (h : c.name = d.name) : c = d := by
  have := ofName?_name c
  rw [h, ofName?_name] at this
  exact (Option.some.inj this).symm

end Category
end PrologTokens
