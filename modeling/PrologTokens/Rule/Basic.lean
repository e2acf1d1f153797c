import PrologTokens.Error
import PrologTokens.Pattern.Reader
import PrologTokens.Pattern.Search
import PrologTokens.Token

/-!
# Rules and rule tables

A rule reports the matches of one pattern under one category. A table is a list of rules, each of
which goes over the whole line on its own: rules do not compete for characters, so a character can
be part of tokens of several categories.
-/

set_option autoImplicit false

namespace PrologTokens

/-- Which matches of a line a rule reports. -/
inductive Scope where
  /-- Only the leftmost one. -/
  | first
  /-- All of them, none overlapping another. -/
  | all
  deriving DecidableEq, Repr, Inhabited

/-- A category, a pattern and a scope. The pattern is kept both as it was written and as it was
read. -/
structure Rule where
  /-- The category of the tokens that the rule reports. -/
  category : Category
  /-- The pattern as written. -/
  source : String
  /-- Which matches are reported. -/
  scope : Scope
  /-- The pattern as read. -/
  pattern : Pattern
  /-- The pattern is what was written. -/
  reads : (Pattern.read source).toOption = some pattern

namespace Rule

/-- The rule with the given pattern, if that is one of those that `Pattern.read` accepts. -/
def make (category : Category) (source : String) (scope : Scope) : Except Error Rule :=
  match h : Pattern.read source with
  | .ok pattern => .ok ⟨category, source, scope, pattern, by rw [h]; rfl⟩
  | .error fault => .error (.invalidPattern category fault)

/-- The non-empty matches that the rule reports on a line, from left to right. If only the leftmost
match is asked for and that one is empty, nothing is reported. -/
def findAll (rule : Rule) (line : List Char) : List Pattern.Match :=
  match rule.scope with
  | .all => rule.pattern.allMatches line
  | .first => (rule.pattern.first? line).toList.filter fun m => !m.lexeme.isEmpty

/-- The texts that the rule reports on a line, from left to right. -/
def scan (rule : Rule) (line : List Char) : List String :=
  (rule.findAll line).map fun m => String.ofList m.lexeme

/-- The tokens that the rule reports on a line with the given number. -/
def tokens (rule : Rule) (line : List Char) (number : Nat) : List Token :=
  (rule.scan line).map fun lexeme => ⟨lexeme, rule.category, number⟩

end Rule

/-- Rules in the order in which they go over a line. -/
abbrev RuleTable := List Rule

/-- The tokens of a line with the given number: those of the first rule, then those of the second,
and so on. -/
def RuleTable.scan (table : RuleTable) (line : List Char) (number : Nat) : List Token :=
  table.flatMap fun rule => rule.tokens line number

end PrologTokens
