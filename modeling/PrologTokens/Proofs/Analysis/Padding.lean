import Mathlib.Data.List.TakeWhile
import PrologTokens.Proofs.Analysis.Joining
import PrologTokens.Proofs.Pattern.Spans

/-!
# Blanks around lines

An analysis looks at trimmed lines only, so sources whose lines differ in nothing but blanks at
their ends give the same result: `RuleTable.analyzeLines_congr`. A carriage return is such a
blank, and a source of blanks has empty lines only, in which no rule finds anything.

The main statement is `RuleTable.analyze_padding`.
-/

set_option autoImplicit false

namespace PrologTokens

/-! ## Trimming -/

namespace Text

variable {before behind : List Char}

/-- Blanks in front of a text are cut off. -/
theorem trim_blank_append (h : ∀ c ∈ before, isBlank c = true) (text : List Char) :
    trim (before ++ text) = trim text := by
  unfold trim
  rw [List.dropWhile_append_of_pos h]

/-- Blanks behind a text are cut off at its end. -/
theorem trimEnd_append_blank (h : ∀ c ∈ behind, isBlank c = true) (text : List Char) :
    trimEnd (text ++ behind) = trimEnd text := by
  have hreverse : ∀ c ∈ behind.reverse, isBlank c = true := fun c hc =>
    h c (List.mem_reverse.mp hc)
  unfold trimEnd
  rw [List.reverse_append, List.dropWhile_append_of_pos hreverse]

/-- Blanks behind a text are cut off, also if there is nothing else in it. -/
theorem trim_append_blank (h : ∀ c ∈ behind, isBlank c = true) (text : List Char) :
    trim (text ++ behind) = trim text := by
  unfold trim
  rw [List.dropWhile_append]
  split
  · rename_i hempty
    rw [List.isEmpty_iff.mp hempty, List.dropWhile_eq_nil_iff.mpr h]
  · exact trimEnd_append_blank h _

/-- Of a text of blanks nothing is left. -/
theorem trim_of_blank {text : List Char} (h : ∀ c ∈ text, isBlank c = true) : trim text = [] := by
  rw [← List.append_nil text, trim_blank_append h]
  rfl

/-! ## Lines put together -/

/-- Lines that are put together with line feeds between them are the lines of the text. -/
theorem lines_intercalate {texts : List (List Char)} (hne : texts ≠ [])
    (h : ∀ text ∈ texts, '\n' ∉ text) : lines (['\n'].intercalate texts) = texts := by
  induction texts with
  | nil => exact absurd rfl hne
  | cons first others ih =>
    obtain ⟨hfirst, hothers⟩ := List.forall_mem_cons.mp h
    cases others with
    | nil => rw [List.intercalate_singleton, lines_of_not_mem hfirst]
    | cons second others =>
      have hjoin : ['\n'].intercalate (first :: second :: others) =
          first ++ '\n' :: ['\n'].intercalate (second :: others) := by
        rw [List.intercalate_cons_cons, List.append_assoc]
        rfl
      rw [hjoin, lines_append_newline, lines_of_not_mem hfirst, ih (by simp) hothers]
      rfl

/-- The characters of a line stand in the text. -/
theorem mem_of_mem_lines {text line : List Char} {c : Char} (hline : line ∈ lines text)
    (hc : c ∈ line) : c ∈ text := by
  induction text generalizing line with
  | nil =>
    rw [lines, List.mem_singleton] at hline
    exact absurd (hline ▸ hc) List.not_mem_nil
  | cons x text ih =>
    obtain ⟨first, others, hlines⟩ := List.exists_cons_of_ne_nil (lines_ne_nil text)
    rw [lines, hlines] at hline
    split at hline
    · rcases List.mem_cons.mp hline with rfl | hlater
      · exact absurd hc List.not_mem_nil
      · exact List.mem_cons_of_mem x (ih (hlines ▸ hlater) hc)
    · rcases List.mem_cons.mp hline with rfl | hlater
      · rcases List.mem_cons.mp hc with rfl | hc
        · exact List.mem_cons_self
        · exact List.mem_cons_of_mem x (ih (hlines ▸ List.mem_cons_self) hc)
      · exact List.mem_cons_of_mem x (ih (hlines ▸ List.mem_cons_of_mem first hlater) hc)

/-! ## Carriage returns -/

/-- The text with a carriage return in front of every line feed. -/
def withReturns (text : List Char) : List Char :=
  text.flatMap fun c => if c = '\n' then ['\r', '\n'] else [c]

/-- The lines with a carriage return at the end of each of them but the last. -/
def returnedLines : List (List Char) → List (List Char)
  | [] => []
  | [line] => [line]
  | line :: next :: others => (line ++ ['\r']) :: returnedLines (next :: others)

/-- A carriage return in front of a line feed is the end of the line that the line feed ends. -/
theorem lines_withReturns (text : List Char) :
    lines (withReturns text) = returnedLines (lines text) := by
  induction text with
  | nil => rfl
  | cons c text ih =>
    obtain ⟨line, others, hlines⟩ := List.exists_cons_of_ne_nil (lines_ne_nil text)
    have hsplit : withReturns (c :: text) =
        (if c = '\n' then ['\r', '\n'] else [c]) ++ withReturns text := List.flatMap_cons
    rw [hsplit]
    by_cases hc : c = '\n'
    · have hreturn :
          lines ('\r' :: '\n' :: withReturns text) = ['\r'] :: lines (withReturns text) :=
        lines_append_newline ['\r'] (withReturns text)
      rw [if_pos hc, lines, if_pos hc]
      refine hreturn.trans ?_
      rw [ih, hlines]
      rfl
    · rw [if_neg hc, List.singleton_append, lines, if_neg hc, ih, lines, if_neg hc, hlines]
      cases others with
      | nil => rfl
      | cons next others => rfl

/-- Carriage returns at the ends of lines are cut off. -/
theorem map_trim_returnedLines (texts : List (List Char)) :
    (returnedLines texts).map trim = texts.map trim := by
  fun_induction returnedLines texts with
  | case1 => rfl
  | case2 line => rfl
  | case3 line next others ih =>
    rw [List.map_cons, ih, trim_append_blank (List.all_eq_true.mp (by decide))]
    rfl

end Text

/-! ## Lines with blanks around them -/

/-- A line with blanks in front of it and behind it. -/
structure PaddedLine where
  /-- The line. -/
  line : List Char
  /-- What stands in front of it. -/
  before : List Char
  /-- What stands behind it. -/
  behind : List Char
  /-- The line is a single one. -/
  newline_not_mem : '\n' ∉ line
  /-- In front of it there are blanks, on the same line. -/
  before_blank : ∀ c ∈ before, Text.isBlank c = true ∧ c ≠ '\n'
  /-- Behind it there are blanks, on the same line. -/
  behind_blank : ∀ c ∈ behind, Text.isBlank c = true ∧ c ≠ '\n'

namespace PaddedLine

/-- The line together with its blanks. -/
def padded (p : PaddedLine) : List Char := p.before ++ p.line ++ p.behind

theorem newline_not_mem_padded (p : PaddedLine) : '\n' ∉ p.padded := by
  intro hmem
  rcases List.mem_append.mp hmem with hmem | hbehind
  · rcases List.mem_append.mp hmem with hbefore | hline
    · exact (p.before_blank _ hbefore).2 rfl
    · exact p.newline_not_mem hline
  · exact (p.behind_blank _ hbehind).2 rfl

theorem trim_padded (p : PaddedLine) : Text.trim p.padded = Text.trim p.line := by
  unfold padded
  rw [Text.trim_append_blank fun c hc => (p.behind_blank c hc).1,
    Text.trim_blank_append fun c hc => (p.before_blank c hc).1]

end PaddedLine

/-- The source with the given lines. -/
def joinLines (lines : List (List Char)) : String := String.ofList (['\n'].intercalate lines)

namespace RuleTable

/-! ## Analyses -/

/-- Lines that are the same up to blanks at their ends have the same analysis. -/
theorem analyzeLines_congr (table : RuleTable) {lines lines' : List (List Char)}
    (h : lines.map Text.trim = lines'.map Text.trim) (number : Nat) :
    table.analyzeLines number lines = table.analyzeLines number lines' := by
  induction lines generalizing lines' number with
  | nil => rw [List.map_eq_nil_iff.mp h.symm]
  | cons line lines ih =>
    cases lines' with
    | nil => exact absurd h (by simp)
    | cons line' lines' =>
      rw [List.map_cons, List.map_cons, List.cons.injEq] at h
      rw [analyzeLines, analyzeLines, h.1, ih h.2]

/-- On an empty line no rule finds anything, since it reports no empty matches. -/
theorem scan_nil (table : RuleTable) (number : Nat) : table.scan [] number = [] := by
  have hfind (rule : Rule) : rule.findAll [] = [] := by
    refine List.eq_nil_iff_forall_not_mem.mpr fun m hm => ?_
    obtain ⟨start, stop, hreports, -⟩ := Rule.mem_findAll_iff.mp hm
    obtain ⟨hlt, hstop⟩ := hreports.bounds
    exact Nat.not_lt_zero start (Nat.lt_of_lt_of_le hlt hstop)
  simp [scan, Rule.tokens, Rule.scan, hfind]

theorem analyzeLines_of_blank (table : RuleTable) {lines : List (List Char)}
    (h : ∀ line ∈ lines, Text.trim line = []) (number : Nat) :
    table.analyzeLines number lines = .ok [] := by
  induction lines generalizing number with
  | nil => rfl
  | cons line lines ih =>
    obtain ⟨hline, hlines⟩ := List.forall_mem_cons.mp h
    rw [analyzeLines, hline, ih hlines, scan_nil]
    rfl

theorem analyze_padded (table : RuleTable) (lines : List PaddedLine) :
    table.analyze (joinLines (lines.map PaddedLine.padded)) =
      table.analyze (joinLines (lines.map PaddedLine.line)) := by
  unfold analyze joinLines
  rw [String.toList_ofList, String.toList_ofList]
  cases lines with
  | nil => rfl
  | cons first others =>
    -- Both sources have a line for each of the given ones.
    rw [Text.lines_intercalate (by simp), Text.lines_intercalate (by simp)]
    · refine analyzeLines_congr table ?_ 1
      rw [List.map_map, List.map_map]
      exact List.map_congr_left fun p _ => p.trim_padded
    · intro text htext
      obtain ⟨p, -, rfl⟩ := List.mem_map.mp htext
      exact p.newline_not_mem
    · intro text htext
      obtain ⟨p, -, rfl⟩ := List.mem_map.mp htext
      exact p.newline_not_mem_padded

theorem analyze_withReturns (table : RuleTable) (source : String) :
    table.analyze (String.ofList (Text.withReturns source.toList)) = table.analyze source := by
  unfold analyze
  rw [String.toList_ofList, Text.lines_withReturns]
  exact analyzeLines_congr table (Text.map_trim_returnedLines _) 1

theorem analyze_of_blank (table : RuleTable) {source : String}
    (h : ∀ c ∈ source.toList, Text.isBlank c = true) : table.analyze source = .ok [] := by
  refine analyzeLines_of_blank table (fun line hline => Text.trim_of_blank fun c hc => ?_) 1
  exact h c (Text.mem_of_mem_lines hline hc)

/-- Blanks in front of lines and behind them have no part in an analysis: it gives the same
tokens, with the same lexemes and numbers, or the same failure. So it makes no difference
whether lines end with line feeds or with carriage returns and line feeds, and a source of
blanks has no tokens. -/
theorem analyze_padding (table : RuleTable) :
    (∀ lines : List PaddedLine, table.analyze (joinLines (lines.map PaddedLine.padded)) =
      table.analyze (joinLines (lines.map PaddedLine.line))) ∧
    (∀ source : String, table.analyze (String.ofList (Text.withReturns source.toList)) =
      table.analyze source) ∧
    ∀ source : String, (∀ c ∈ source.toList, Text.isBlank c = true) →
      table.analyze source = .ok [] :=
  ⟨analyze_padded table, analyze_withReturns table, fun _ => analyze_of_blank table⟩

/-- A fact with a tab and a wide space around it, a line of blanks, and a line at fault behind
them. -/
theorem analyze_padding_fault :
    prolog.analyze "\tfoo(a).\u3000\r\n \x0c \n\u00a0\"\u2028" = prolog.analyze "foo(a).\n\n\"" ∧
      prolog.analyze "foo(a).\r\n\r\n\"" = prolog.analyze "foo(a).\n\n\"" ∧
      ((∀ c ∈ " \x0b\u0085\n\u2003\n".toList, Text.isBlank c = true) ∧
        prolog.analyze " \x0b\u0085\n\u2003\n" = .ok []) := by
  have hpadding : ∀ {text : List Char}, (text.all fun c => Text.isBlank c && c ≠ '\n') = true →
      ∀ c ∈ text, Text.isBlank c = true ∧ c ≠ '\n' := by
    intro text h c hc
    simpa using List.all_eq_true.mp h c hc
  have hblank : ∀ c ∈ " \x0b\u0085\n\u2003\n".toList, Text.isBlank c = true :=
    List.all_eq_true.mp (by decide)
  refine ⟨?_, (analyze_padding prolog).2.1 "foo(a).\n\n\"", hblank,
    (analyze_padding prolog).2.2 _ hblank⟩
  exact (analyze_padding prolog).1
    [⟨"foo(a).".toList, ['\t'], ['\u3000', '\r'], by decide, hpadding rfl, hpadding rfl⟩,
      ⟨[], [' ', '\x0c'], [' '], by decide, hpadding rfl, hpadding rfl⟩,
      ⟨['"'], ['\u00a0'], ['\u2028'], by decide, hpadding rfl, hpadding rfl⟩]

end RuleTable
end PrologTokens
