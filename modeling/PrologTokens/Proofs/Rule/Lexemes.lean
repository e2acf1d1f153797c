import PrologTokens.Proofs.Rule.Locality

/-!
# Lexemes taken by themselves

A lexeme that a rule reports is cut out of its line and looked at as a line of its own. For
patterns in general the cut matters: a condition on a place may hold only because of what stood
next to the lexeme, and the same pattern may prefer a shorter match where less is ahead. The
rules for Prolog report the lexeme once more, whole and as the only one. Most of them have no
conditions on places and report all that they describe; variables, reserved words and numbers
are whole runs of characters, and a run taken by itself is one run.

A rule stands by its lexemes if what it reports on a line it reports as a whole on the part
taken by itself: `Rule.StandsByLexemes`. The main statement is `scan_lexeme`.
-/

set_option autoImplicit false

namespace PrologTokens

open Pattern

variable {text : List Char} {first last : Nat}

namespace Rule

variable {rule : Rule}

/-- What the rule reports on a line it reports, as a whole, on the part of the line taken by
itself. -/
def StandsByLexemes (rule : Rule) : Prop :=
  ∀ (text : List Char) (first last : Nat), rule.Reports text first last →
    rule.Reports (text.extract first last) 0 (last - first)

/-- A rule that reports a whole line reports nothing else on it. -/
theorem scan_of_reports_whole (h : rule.Reports text 0 text.length) :
    rule.scan text = [String.ofList text] := by
  have hwhole : text.extract 0 text.length = text := by simp
  have honly :
      ∀ {start stop : Nat}, rule.Reports text start stop → start = 0 ∧ stop = text.length := by
    intro start stop hother
    have hbounds := hother.bounds
    rcases hother.apart h with hsame | hbefore | hbehind
    · exact hsame
    · omega
    · omega
  have hfind : rule.findAll text = [⟨0, text⟩] := by
    refine findAll_eq_of_mem_iff (List.pairwise_singleton _ _) fun m => ?_
    rw [List.mem_singleton]
    constructor
    · rintro rfl
      exact ⟨0, text.length, h, by rw [hwhole]⟩
    · rintro ⟨start, stop, hother, rfl⟩
      obtain ⟨rfl, rfl⟩ := honly hother
      rw [hwhole]
  rw [scan, hfind, List.map_singleton]

/-- A rule that stands by its lexemes gives each of them back when it is run on it. -/
theorem StandsByLexemes.scan_eq (h : rule.StandsByLexemes) {line : List Char} {lexeme : String}
    (hlexeme : lexeme ∈ rule.scan line) : rule.scan lexeme.toList = [lexeme] := by
  obtain ⟨m, hm, rfl⟩ := List.mem_map.mp hlexeme
  obtain ⟨first, last, hreports, rfl⟩ := mem_findAll_iff.mp hm
  have hwhole := h line first last hreports
  rw [← length_extract first hreports.bounds.2] at hwhole
  rw [String.toList_ofList, scan_of_reports_whole hwhole]

/-! ## Kinds of rules -/

/-- A rule without conditions on places stands by its lexemes if it reports all that its pattern
describes. -/
theorem standsByLexemes_of_describes (hpattern : rule.pattern.unanchored = true)
    (hreports : ∀ {text : List Char} {start stop : Nat},
      rule.Reports text start stop ↔ rule.pattern.Describes text start stop) :
    rule.StandsByLexemes := by
  intro text first last h
  exact hreports.mpr (h.describes.extract hpattern)

/-- A rule for single characters stands by its lexemes. -/
theorem standsByLexemes_chars {set : CharSet} (hscope : rule.scope = .all)
    (hpattern : rule.pattern = chars set) : rule.StandsByLexemes := by
  refine standsByLexemes_of_describes (by rw [hpattern, unanchored]) ?_
  intro text start stop
  rw [reports_chars_iff hscope hpattern, hpattern, describes_chars]

/-- A rule for runs of characters that have a certain look stands by its lexemes. -/
theorem standsByLexemes_runs {P : Char → Bool} (keep : List Char → Bool)
    (hreports : ∀ {text : List Char} {start stop : Nat}, rule.Reports text start stop ↔
      IsRun P text start stop ∧ keep (text.extract start stop) = true) :
    rule.StandsByLexemes := by
  intro text first last h
  obtain ⟨run, hkeep⟩ := hreports.mp h
  have hle := Nat.le_of_lt run.nonempty
  refine hreports.mpr ⟨run.extract, ?_⟩
  rw [extract_extract (by omega), Nat.add_zero, Nat.add_sub_cancel' hle]
  exact hkeep

end Rule

namespace RuleTable.Prolog

/-! ## The rules for Prolog -/

/-- At the start of a line no word goes on. -/
theorem atWordStart_zero (text : List Char) : AtWordStart text 0 :=
  fun _ hpos => absurd hpos (Nat.lt_irrefl 0)

theorem standsByLexemes_fact : fact.StandsByLexemes := by
  intro text first last h
  exact reports_fact_iff.mpr ⟨describes_fact.mp (h.describes.extract rfl), atWordStart_zero _⟩

theorem standsByLexemes_rule : rule.StandsByLexemes := by
  intro text first last h
  exact reports_rule_iff.mpr ⟨describes_rule.mp (h.describes.extract rfl), atWordStart_zero _⟩

/-- An atom taken by itself is a word with a small letter in front. -/
theorem IsAtom.extract {wordStart : Nat} (h : IsAtom text wordStart first last) :
    IsAtom (text.extract first last) 0 0 (last - first) := by
  have hinside := h.inside
  have hlength := length_extract first h.run.inside
  obtain ⟨x, hx, hsmall⟩ := h.small
  refine ⟨⟨by omega, by omega, fun i y _ hi hy => ?_, fun y hpos => absurd hpos (Nat.lt_irrefl 0),
    fun y hy => ?_⟩, ⟨Nat.le_refl 0, by omega⟩,
    ⟨x, getElem?_extract_eq_some_iff.mpr ⟨hinside.2, hx⟩, hsmall⟩, AllBetween.empty⟩
  · exact h.run.all _ y (by omega) (by omega) (getElem?_extract_eq_some_iff.mp hy).2
  · have hlt := (getElem?_extract_eq_some_iff.mp hy).1
    omega

theorem standsByLexemes_atom : atom.StandsByLexemes := by
  intro text first last h
  obtain ⟨wordStart, hatom⟩ := reports_atom_iff.mp h
  exact reports_atom_iff.mpr ⟨0, hatom.extract⟩

/-- In the lexeme of an assignment the equals sign is the first one. -/
theorem standsByLexemes_assignment : assignment.StandsByLexemes := by
  intro text first last h
  obtain ⟨rfl, hequals⟩ := describes_literal.mp h.describes
  have hpart : (text.extract first (first + 1))[0]? = some '=' :=
    getElem?_extract_eq_some_iff.mpr ⟨Nat.lt_succ_self first, hequals⟩
  have hcovers := covers_assignment_iff.mpr ⟨hpart, fun i hi => absurd hi (Nat.not_lt_zero i)⟩
  obtain ⟨start, stop, hreports, hstart, -⟩ := Rule.covers_iff.mp hcovers
  obtain rfl : start = 0 := Nat.le_zero.mp hstart
  obtain ⟨rfl, -⟩ := describes_literal.mp hreports.describes
  rw [Nat.add_sub_cancel_left]
  exact hreports

theorem standsByLexemes_number : number.StandsByLexemes := by
  intro text first last h
  exact reports_number_iff.mpr (reports_number_iff.mp h).extract

theorem standsByLexemes_of_mem_prolog {pass : Rule} (hpass : pass ∈ prolog) :
    pass.StandsByLexemes := by
  cases hpass using mem_prolog_cases with
  | fact _ => exact standsByLexemes_fact
  | rule _ => exact standsByLexemes_rule
  | query _ =>
    exact Rule.standsByLexemes_of_describes rfl (reports_query_iff.trans describes_query.symm)
  | variableWord _ =>
    exact Rule.standsByLexemes_runs (fun lexeme => lexeme.head?.any Char.isUpper)
      reports_variableWord_iff
  | list _ =>
    exact Rule.standsByLexemes_of_describes rfl (reports_list_iff.trans describes_list.symm)
  | logicalOperator _ => exact Rule.standsByLexemes_of_describes rfl reports_logicalOperator_iff
  | number _ => exact standsByLexemes_number
  | operator _ => exact Rule.standsByLexemes_chars rfl rfl
  | assignment _ => exact standsByLexemes_assignment
  | parenthesis _ => exact Rule.standsByLexemes_chars rfl rfl
  | punctuation _ => exact Rule.standsByLexemes_chars rfl rfl
  | atom _ => exact standsByLexemes_atom
  | reserved word _ =>
    exact Rule.standsByLexemes_runs (fun lexeme => lexeme = word.spelling.toList)
      (reports_reserved_iff word)
  | unrecognized _ => exact Rule.standsByLexemes_chars rfl rfl

/-- Run on a lexeme that it has reported on some line, a rule for Prolog reports this lexeme,
and reports it once and nothing else. -/
theorem scan_lexeme {pass : Rule} (hpass : pass ∈ prolog) (line : List Char) {lexeme : String}
    (h : lexeme ∈ pass.scan line) : pass.scan lexeme.toList = [lexeme] :=
  (standsByLexemes_of_mem_prolog hpass).scan_eq h

/-- A variable between characters that belong to no word. -/
theorem scan_lexeme_variable :
    variableWord ∈ prolog ∧ "X1" ∈ variableWord.scan "ÉX1é".toList ∧
      variableWord.scan "X1".toList = ["X1"] := by
  have hmem : variableWord ∈ prolog := by simp [prolog]
  have hscan : variableWord.scan "ÉX1é".toList = ["X1"] := by
    rw [Rule.scan, findAll_variableWord]
    decide +kernel
  have hlexeme : "X1" ∈ variableWord.scan "ÉX1é".toList := by
    rw [hscan]
    exact List.mem_singleton_self _
  exact ⟨hmem, hlexeme, scan_lexeme hmem _ hlexeme⟩

end RuleTable.Prolog
end PrologTokens
