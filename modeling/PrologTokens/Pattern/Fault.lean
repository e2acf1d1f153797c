/-!
# What can be wrong with a written pattern
-/

set_option autoImplicit false

namespace PrologTokens.Pattern

/-- Why a text is not a pattern. -/
inductive Fault where
  /-- A set of characters has no closing bracket. -/
  | unclosedSet
  /-- A condition on a place, or a range that does not run between characters, in a set. -/
  | invalidMember
  /-- A range ends before it starts. -/
  | reversedRange
  /-- A backslash at the end, or before a character that it gives no meaning. -/
  | invalidEscape
  /-- A repetition with nothing before it. -/
  | nothingToRepeat
  /-- A repetition count that is not of the form `{n}`, `{n,}` or `{n,m}`. -/
  | malformedCount
  /-- A repetition count whose upper bound lies below the lower one. -/
  | reversedCount
  /-- A group of an unknown kind, or one whose name is not well formed. -/
  | malformedGroup
  /-- Two groups have the same name. -/
  | duplicateName
  /-- A group is not closed. -/
  | unclosedGroup
  /-- A closing parenthesis without an opening one. -/
  | unopenedGroup
  /-- Groups, repetitions, alternatives and sets stand too deep inside each other. -/
  | nestedTooDeep
  /-- The pattern needs too much memory. -/
  | tooLarge
  deriving DecidableEq, Repr, Inhabited

end PrologTokens.Pattern
