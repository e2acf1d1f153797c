import Mathlib.Algebra.Ring.Parity
import Mathlib.Order.Bounds.Basic
import PrologTokens.Analysis

/-!
# The outcome of an analysis

Whether an analysis gives tokens is decided by the source alone. The quotation marks are counted in
trimmed lines, between the scans of the lines before and after; trimming takes no quotation mark
away, and no scan can fail, so the first line with an odd number of them is the whole outcome.

The main statements are `RuleTable.analyzeLines_eq`, which gives the outcome for consecutive lines
in closed form, and `RuleTable.analyze_outcome`, which reads it off the raw lines of a source.
-/

set_option autoImplicit false

namespace PrologTokens

/-! ## Quotation marks -/

/-- Characters that satisfy `p` are all that goes away in front of a list. -/
theorem count_dropWhile_of_false {p : Char → Bool} {c : Char} (hc : p c = false)
    (text : List Char) : (text.dropWhile p).count c = text.count c := by
  have hsplit := congrArg (List.count c) (text.takeWhile_append_dropWhile (p := p))
  rw [List.count_append] at hsplit
  have hnone : (text.takeWhile p).count c = 0 := by
    rw [List.count_eq_zero]
    intro hmem
    have htrue := List.all_eq_true.mp List.all_takeWhile c hmem
    rw [hc] at htrue
    exact absurd htrue (by decide)
  omega

/-- A line has as many quotation marks after trimming as before. -/
theorem count_quote_trim (line : List Char) : (Text.trim line).count '"' = line.count '"' := by
  unfold Text.trim Text.trimEnd
  rw [List.count_reverse, count_dropWhile_of_false Text.isBlank_quote, List.count_reverse,
    count_dropWhile_of_false Text.isBlank_quote]

/-- Trimming does not change whether the quotation marks come in pairs. -/
theorem quotesPaired_trim (line : List Char) :
    quotesPaired (Text.trim line) = quotesPaired line := by
  unfold quotesPaired
  rw [count_quote_trim]

/-- Quotation marks come in pairs if their number is even. -/
theorem quotesPaired_iff_even (line : List Char) :
    quotesPaired line = true ↔ Even (line.count '"') := by
  rw [quotesPaired, decide_eq_true_iff, Nat.even_iff]

/-- Quotation marks do not come in pairs if their number is odd. -/
theorem quotesPaired_eq_false_iff_odd (line : List Char) :
    quotesPaired line = false ↔ Odd (line.count '"') := by
  rw [← Bool.not_eq_true, quotesPaired_iff_even, Nat.not_even_iff_odd]

/-! ## Consecutive lines -/

namespace RuleTable

/-- The index of the first line whose quotation marks do not come in pairs. -/
def firstUnpaired? (lines : List (List Char)) : Option Nat :=
  lines.findIdx? fun line => !quotesPaired line

/-- The tokens of consecutive lines, the first of which has the given number, when nothing is wrong
with any of them. -/
def scanLines (table : RuleTable) (number : Nat) (lines : List (List Char)) : List Token :=
  (lines.zipIdx number).flatMap fun numbered => table.scan (Text.trim numbered.1) numbered.2

/-- The outcome of an analysis of consecutive lines. The induction is over the lines; the number of
the first one grows along, so the index of the line at fault shrinks by as much. -/
theorem analyzeLines_eq (table : RuleTable) (number : Nat) (lines : List (List Char)) :
    table.analyzeLines number lines =
      match firstUnpaired? lines with
      | some index => .error (.unterminatedString (number + index))
      | none => .ok (table.scanLines number lines) := by
  induction lines generalizing number with
  | nil => rfl
  | cons line lines ih =>
    rw [analyzeLines, quotesPaired_trim, firstUnpaired?, List.findIdx?_cons]
    cases hline : quotesPaired line with
    | false => simp
    | true =>
      simp only [Bool.not_true, Bool.false_eq_true, if_false, if_true]
      rw [ih, firstUnpaired?]
      cases lines.findIdx? (fun line => !quotesPaired line) with
      | none => simp [scanLines, bind, Except.bind, pure, Except.pure]
      | some index =>
        have hnumber : number + 1 + index = number + (index + 1) := by omega
        simp [bind, Except.bind, hnumber]

/-- There is no first line at fault exactly when no line is. -/
theorem firstUnpaired?_eq_none_iff {lines : List (List Char)} :
    firstUnpaired? lines = none ↔ ∀ line ∈ lines, Even (line.count '"') := by
  simp only [firstUnpaired?, List.findIdx?_eq_none_iff, Bool.not_eq_false', quotesPaired_iff_even]

/-- The numbers of the lines of a source, counted from 1, that hold an odd number of quotation
marks. -/
def unpairedLines (source : String) : Set Nat :=
  {number | ∃ line, 0 < number ∧ (Text.lines source.toList)[number - 1]? = some line ∧
    Odd (line.count '"')}

/-- The first line at fault is the least one at fault. -/
theorem firstUnpaired?_eq_some_iff {source : String} {index : Nat} :
    firstUnpaired? (Text.lines source.toList) = some index ↔
      IsLeast (unpairedLines source) (index + 1) := by
  rw [firstUnpaired?, List.findIdx?_eq_some_iff_getElem]
  constructor
  · rintro ⟨hindex, hodd, hbefore⟩
    refine ⟨⟨_, Nat.succ_pos index, List.getElem?_eq_getElem hindex, ?_⟩, ?_⟩
    · rw [← quotesPaired_eq_false_iff_odd]
      simpa using hodd
    · rintro number ⟨line, hpos, hline, hlineOdd⟩
      rw [← quotesPaired_eq_false_iff_odd] at hlineOdd
      -- A smaller number would name a line that was passed over.
      by_contra hlt
      obtain ⟨hbound, hget⟩ := List.getElem?_eq_some_iff.mp hline
      have hpassed := hbefore (number - 1) (by omega)
      rw [hget, hlineOdd] at hpassed
      simp at hpassed
  · rintro ⟨⟨line, _, hline, hodd⟩, hleast⟩
    obtain ⟨hindex, hget⟩ := List.getElem?_eq_some_iff.mp hline
    refine ⟨hindex, ?_, ?_⟩
    · rw [← hget, ← quotesPaired_eq_false_iff_odd] at hodd
      simpa using hodd
    · intro j hj hfault
      have hjLength : j < (Text.lines source.toList).length := by omega
      have hmem : j + 1 ∈ unpairedLines source := by
        refine ⟨_, Nat.succ_pos j, List.getElem?_eq_getElem hjLength, ?_⟩
        rw [← quotesPaired_eq_false_iff_odd]
        simpa using hfault
      have := hleast hmem
      omega

/-! ## Whole sources -/

/-- An analysis gives tokens exactly when every raw line holds an even number of quotation marks;
otherwise it gives the least number of a line that does not, and nothing else. The table has no
part in it. -/
theorem analyze_outcome (table : RuleTable) (source : String) :
    ((∃ tokens, table.analyze source = .ok tokens) ↔
      ∀ line ∈ Text.lines source.toList, Even (line.count '"')) ∧
    ∀ error, table.analyze source = .error error ↔
      ∃ number, error = .unterminatedString number ∧ IsLeast (unpairedLines source) number := by
  rw [← firstUnpaired?_eq_none_iff, analyze, analyzeLines_eq]
  cases hfirst : firstUnpaired? (Text.lines source.toList) with
  | none =>
    refine ⟨by simp, fun error => ⟨by simp, ?_⟩⟩
    rintro ⟨number, -, hleast⟩
    obtain ⟨line, hpos, -⟩ := hleast.1
    have hnumber : number - 1 + 1 = number := by omega
    rw [← hnumber, ← firstUnpaired?_eq_some_iff, hfirst] at hleast
    exact absurd hleast (by simp)
  | some index =>
    have hleast := firstUnpaired?_eq_some_iff.mp hfirst
    refine ⟨by simp, fun error => ⟨?_, ?_⟩⟩
    · intro herror
      refine ⟨index + 1, ?_, hleast⟩
      rw [Nat.add_comm index 1]
      exact (Except.error.inj herror).symm
    · rintro ⟨number, rfl, hnumber⟩
      rw [hnumber.unique hleast, Nat.add_comm index 1]

end RuleTable
end PrologTokens
