import PrologTokens.Analysis

/-!
# The analysis of joined sources

A line feed between two sources ends the last line of the first one and starts the first line of the
second one, whatever they begin or end with. So the analysis of the two together is the analysis of
the first, then that of the second with its lines counted on from there; what goes wrong first is
what goes wrong.

The analysis of consecutive lines satisfies two laws, one for lines put behind others and one for a
change of the first number; `RuleTable.analyze_join` puts them together for sources.
-/

set_option autoImplicit false

namespace PrologTokens

/-! ## Lines of joined texts -/

namespace Text

/-- A line feed between two texts separates the lines of one from the lines of the other. -/
theorem lines_append_newline (first second : List Char) :
    lines (first ++ '\n' :: second) = lines first ++ lines second := by
  induction first with
  | nil => simp [lines]
  | cons c first ih =>
    rw [List.cons_append, lines, lines, ih]
    by_cases hc : c = '\n'
    · rw [if_pos hc, if_pos hc, List.cons_append]
    · rw [if_neg hc, if_neg hc]
      -- The character belongs to the first line of `first`, and there is one.
      cases hlines : lines first with
      | nil => exact absurd hlines (lines_ne_nil first)
      | cons line others => rfl

/-- A text without line feeds is a line. -/
theorem lines_of_not_mem {text : List Char} (h : '\n' ∉ text) : lines text = [text] := by
  induction text with
  | nil => rfl
  | cons c text ih =>
    have hc : c ≠ '\n' := (List.ne_of_not_mem_cons h).symm
    rw [lines, if_neg hc, ih (List.not_mem_of_not_mem_cons h)]

/-- A text has one line more than it has line feeds. -/
theorem length_lines (text : List Char) : (lines text).length = text.count '\n' + 1 := by
  induction text with
  | nil => rfl
  | cons c text ih =>
    rw [lines]
    by_cases hc : c = '\n'
    · rw [if_pos hc, hc, List.length_cons, ih, List.count_cons_self]
    · rw [if_neg hc, List.count_cons_of_ne hc, ← ih]
      cases hlines : lines text with
      | nil => exact absurd hlines (lines_ne_nil text)
      | cons line others => rfl

end Text

/-! ## Lines counted on -/

/-- The token the given number of lines further down. -/
def Token.shift (count : Nat) (token : Token) : Token := { token with line := count + token.line }

/-- The failure the given number of lines further down. A pattern that is refused stands on no
line. -/
def Error.shift (count : Nat) : Error → Error
  | unterminatedString line => .unterminatedString (count + line)
  | invalidPattern category fault => .invalidPattern category fault

namespace RuleTable

/-- Only the line numbers of the tokens depend on the number of a line. -/
theorem scan_add (table : RuleTable) (line : List Char) (count number : Nat) :
    table.scan line (count + number) = (table.scan line number).map (Token.shift count) := by
  simp only [scan, Rule.tokens, List.map_flatMap, List.map_map, Function.comp_def, Token.shift]

/-- Lines that are counted from a later number on give the same tokens, or the same failure, that
many lines further down. -/
theorem analyzeLines_add (table : RuleTable) (count : Nat) (lines : List (List Char)) :
    ∀ number, table.analyzeLines (count + number) lines =
      ((table.analyzeLines number lines).mapError (Error.shift count)).map
        (List.map (Token.shift count)) := by
  induction lines with
  | nil =>
    intro number
    rfl
  | cons line lines ih =>
    intro number
    rw [analyzeLines, analyzeLines]
    cases quotesPaired (Text.trim line) with
    | false => rfl
    | true =>
      rw [if_pos rfl, if_pos rfl, Nat.add_assoc, ih, scan_add]
      cases table.analyzeLines (number + 1) lines with
      | error error => rfl
      | ok later => exact congrArg Except.ok List.map_append.symm

/-- Lines behind others are analysed after them and counted on from them. -/
theorem analyzeLines_append (table : RuleTable) (before behind : List (List Char)) :
    ∀ number, table.analyzeLines number (before ++ behind) = (do
      let earlier ← table.analyzeLines number before
      let later ← table.analyzeLines (number + before.length) behind
      return earlier ++ later) := by
  induction before with
  | nil =>
    intro number
    simp only [List.nil_append, analyzeLines, List.length_nil, Nat.add_zero, bind, Except.bind,
      pure, Except.pure]
    cases table.analyzeLines number behind <;> rfl
  | cons line before ih =>
    intro number
    have hnumber : number + (line :: before).length = number + 1 + before.length := by
      rw [List.length_cons]
      omega
    rw [List.cons_append, analyzeLines, analyzeLines, hnumber]
    cases quotesPaired (Text.trim line) with
    | false => rfl
    | true =>
      rw [if_pos rfl, if_pos rfl, ih]
      cases table.analyzeLines (number + 1) before with
      | error error => rfl
      | ok earlier =>
        cases table.analyzeLines (number + 1 + before.length) behind with
        | error error => rfl
        | ok later =>
          simp only [bind, Except.bind, pure, Except.pure, List.append_assoc]

/-- The analysis of two sources joined by a line feed: the failure of the first one if it has one,
then that of the second one, and otherwise the tokens of both, where the second source counts its
lines on from the lines of the first. -/
theorem analyze_join (table : RuleTable) (first second : String) :
    let count := first.toList.count '\n' + 1
    table.analyze (first ++ "\n" ++ second) = (do
      let earlier ← table.analyze first
      let later ← (table.analyze second).mapError (Error.shift count)
      return earlier ++ later.map (Token.shift count)) := by
  intro count
  have hlines : Text.lines (first ++ "\n" ++ second).toList =
      Text.lines first.toList ++ Text.lines second.toList := by
    rw [String.toList_append, String.toList_append, List.append_assoc]
    exact Text.lines_append_newline first.toList second.toList
  have hcount : 1 + (Text.lines first.toList).length = count + 1 := by
    rw [Text.length_lines, Nat.add_comm]
  rw [analyze, analyze, analyze, hlines, analyzeLines_append, hcount, analyzeLines_add]
  cases table.analyzeLines 1 (Text.lines first.toList) with
  | error error => rfl
  | ok earlier =>
    cases table.analyzeLines 1 (Text.lines second.toList) with
    | error error => rfl
    | ok later => rfl

end RuleTable
end PrologTokens
