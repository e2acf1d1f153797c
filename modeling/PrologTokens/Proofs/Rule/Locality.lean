import Mathlib.Data.List.Flatten
import Mathlib.Data.List.Permutation
import PrologTokens.Proofs.Pattern.Parts
import PrologTokens.Proofs.Rule.Clauses
import PrologTokens.Proofs.Rule.ReservedWords

/-!
# Clauses and the text around them

What the rules for Prolog find in a part of a line taken by itself they also find in the line,
if the part cuts no word in two and holds no equals sign. The equals sign is the exception,
since a line has one assignment at most: an earlier one would take its place.

Clauses and lists are such parts. A fact and a rule start with a whole word, a query and a list
with a sign, and all of them end with one. So a clause gives the same tokens in whatever text it
stands, besides others that the text around it adds.

A rule keeps a part if all it reports on the part is reported on the line too: `Rule.KeepsPart`.
The main statement is `scan_clause_sublist`.
-/

set_option autoImplicit false

namespace PrologTokens

open Pattern

variable {text : List Char} {first last start stop : Nat}

namespace Rule

variable {rule : Rule}

/-- What the rule reports on a part of a line it reports on the line, as far behind the start of the
part. -/
def KeepsPart (rule : Rule) (text : List Char) (first last : Nat) : Prop :=
  ∀ start stop, rule.Reports (text.extract first last) start stop →
    rule.Reports text (first + start) (first + stop)

/-- The lexemes of a part that is kept are among those of the line, in the same order. -/
theorem KeepsPart.scan_sublist (h : rule.KeepsPart text first last) (hlast : last ≤ text.length) :
    (rule.scan (text.extract first last)).Sublist (rule.scan text) := by
  have hlength := length_extract first hlast
  have hsubset : (rule.findAll (text.extract first last)).map
      (fun m => (⟨first + m.start, m.lexeme⟩ : Match)) ⊆ rule.findAll text := by
    intro m hm
    obtain ⟨_, hpart, rfl⟩ := List.mem_map.mp hm
    obtain ⟨start, stop, hreports, rfl⟩ := mem_findAll_iff.mp hpart
    have hbounds := hreports.bounds
    refine mem_findAll_iff.mpr ⟨first + start, first + stop, h start stop hreports, ?_⟩
    rw [extract_extract (by omega)]
  have hsorted : ((rule.findAll (text.extract first last)).map
      fun m => (⟨first + m.start, m.lexeme⟩ : Match)).Pairwise fun m n => m.start < n.start :=
    List.pairwise_map.mpr
      ((rule.findAll_sorted _).imp fun hlt => Nat.add_lt_add_left hlt first)
  have hnodup := hsorted.imp fun {m n} hlt => (fun heq => Nat.ne_of_lt hlt (congrArg _ heq) : m ≠ n)
  have hsublist := List.sublist_of_subperm_of_pairwise (List.subperm_of_subset hnodup hsubset)
    hsorted (rule.findAll_sorted text)
  have hlexemes := hsublist.map fun m => String.ofList m.lexeme
  rw [List.map_map] at hlexemes
  exact hlexemes

/-- A rule keeps a part if it reports all that its pattern describes. -/
theorem keepsPart_of_describes (hwhole : IsWhole text first last)
    (honly : rule.pattern.boundariesOnly = true)
    (hreports : ∀ {text : List Char} {start stop : Nat},
      rule.Reports text start stop ↔ rule.pattern.Describes text start stop) :
    rule.KeepsPart text first last := by
  intro start stop h
  exact hreports.mpr ((hreports.mp h).of_extract hwhole honly)

/-- A rule for single characters keeps every part. -/
theorem keepsPart_chars {set : CharSet} (hscope : rule.scope = .all)
    (hpattern : rule.pattern = chars set) : rule.KeepsPart text first last := by
  intro start stop h
  obtain ⟨rfl, x, hx, hset⟩ := (reports_chars_iff hscope hpattern).mp h
  exact (reports_chars_iff hscope hpattern).mpr
    ⟨rfl, x, (getElem?_extract_eq_some_iff.mp hx).2, hset⟩

/-- A rule whose pattern describes nothing but runs reports all that its pattern describes. -/
theorem reports_iff_describes_of_runs {P : Char → Bool} (hscope : rule.scope = .all)
    (hempty : rule.pattern.canBeEmpty = false)
    (hrun : ∀ {start stop}, rule.pattern.Describes text start stop → IsRun P text start stop) :
    rule.Reports text start stop ↔ rule.pattern.Describes text start stop := by
  refine reports_iff_describes hscope hempty ?_
  intro start stop start' stop' h h' hle hlt
  exact (hrun h).unique (hrun h') ⟨Nat.le_refl _, (hrun h).nonempty⟩ ⟨hle, hlt⟩

end Rule

namespace RuleTable.Prolog

/-! ## Words -/

theorem keepsPart_variableWord (hwhole : IsWhole text first last) :
    variableWord.KeepsPart text first last :=
  Rule.keepsPart_of_describes hwhole rfl <| Rule.reports_iff_describes_of_runs rfl rfl fun h =>
    (describes_variableWord.mp h).1

theorem keepsPart_reserved (hwhole : IsWhole text first last) (word : ReservedWord) :
    (reserved word).KeepsPart text first last := by
  have honly : (reserved word).pattern.boundariesOnly = true := by
    cases word <;> rfl
  have hempty : (reserved word).pattern.canBeEmpty = false := by
    cases word <;> rfl
  exact Rule.keepsPart_of_describes hwhole honly <|
    Rule.reports_iff_describes_of_runs rfl hempty fun h => ((describes_reserved word).mp h).1

theorem keepsPart_number (hwhole : IsWhole text first last) : number.KeepsPart text first last := by
  intro start stop h
  refine reports_number_iff.mpr ((reports_number_iff.mp h).of_extract hwhole fun x hx => ?_)
  exact (isWord_iff x).mpr (.inr (.inr (.inl hx)))

theorem keepsPart_atom (hwhole : IsWhole text first last) : atom.KeepsPart text first last := by
  intro start stop h
  obtain ⟨wordStart, run, hin, ⟨x, hx, hsmall⟩, hbefore⟩ := reports_atom_iff.mp h
  have hlength := length_extract first hwhole.inside.2
  have hinside := run.inside
  refine reports_atom_iff.mpr ⟨first + wordStart, run.of_extract hwhole fun _ hword => hword,
    by omega, ⟨x, (getElem?_extract_eq_some_iff.mp hx).2, hsmall⟩, hbefore.of_extract (by omega)⟩

/-! ## Signs -/

theorem describes_logicalOperator :
    logicalOperator.pattern.Describes text start stop ↔
      stop = start + 1 ∧ (text[start]? = some ',' ∨ text[start]? = some ';') ∨
        stop = start + 2 ∧ text[start]? = some '-' ∧ text[start + 1]? = some '>' := by
  have hpattern : logicalOperator.pattern =
      alt (literal ',') (alt (literal ';') (seq (literal '-') (literal '>'))) := rfl
  simp only [hpattern, describes_alt, describes_seq, describes_literal]
  constructor
  · rintro (⟨hstop, hcomma⟩ | ⟨hstop, hsemicolon⟩ | ⟨_, ⟨rfl, hdash⟩, hstop, hangle⟩)
    · exact .inl ⟨hstop, .inl hcomma⟩
    · exact .inl ⟨hstop, .inr hsemicolon⟩
    · exact .inr ⟨hstop, hdash, hangle⟩
  · rintro (⟨hstop, hcomma | hsemicolon⟩ | ⟨hstop, hdash, hangle⟩)
    · exact .inl ⟨hstop, hcomma⟩
    · exact .inr (.inl ⟨hstop, hsemicolon⟩)
    · exact .inr (.inr ⟨start + 1, ⟨rfl, hdash⟩, hstop, hangle⟩)

/-- Logical operators lie apart: none starts with the second character of an arrow. -/
theorem reports_logicalOperator_iff :
    logicalOperator.Reports text start stop ↔
      logicalOperator.pattern.Describes text start stop := by
  refine Rule.reports_iff_describes rfl rfl ?_
  intro start stop start' stop' h h' hle hlt
  rw [describes_logicalOperator] at h h'
  have hstart : start = start' := by
    rcases h' with ⟨rfl, -⟩ | ⟨rfl, -, hangle⟩
    · omega
    · rcases Nat.lt_or_eq_of_le hle with hbehind | rfl
      · obtain rfl : start = start' + 1 := by omega
        rcases h with ⟨-, hcomma | hsemicolon⟩ | ⟨-, hdash, -⟩
        · exact absurd (hangle.symm.trans hcomma) (by decide)
        · exact absurd (hangle.symm.trans hsemicolon) (by decide)
        · exact absurd (hangle.symm.trans hdash) (by decide)
      · rfl
  subst hstart
  refine ⟨rfl, ?_⟩
  rcases h with ⟨rfl, hsign⟩ | ⟨rfl, hdash, -⟩
  · rcases h' with ⟨rfl, -⟩ | ⟨-, hdash, -⟩
    · rfl
    · rcases hsign with hcomma | hsemicolon
      · exact absurd (hdash.symm.trans hcomma) (by decide)
      · exact absurd (hdash.symm.trans hsemicolon) (by decide)
  · rcases h' with ⟨-, hcomma | hsemicolon⟩ | ⟨rfl, -, -⟩
    · exact absurd (hdash.symm.trans hcomma) (by decide)
    · exact absurd (hdash.symm.trans hsemicolon) (by decide)
    · rfl

/-- On a part without an equals sign there is no assignment to keep. -/
theorem keepsPart_assignment (hequals : '=' ∉ text.extract first last) :
    assignment.KeepsPart text first last := by
  intro start stop h
  obtain ⟨-, hx⟩ := describes_literal.mp h.describes
  exact absurd (List.mem_of_getElem? hx) hequals

/-! ## Clauses and lists in a part -/

theorem atWordStart_iff : AtWordStart text start ↔ ¬ Before Text.isWord text start := by
  simp only [AtWordStart, Before, not_exists, not_and, Bool.not_eq_true]

/-- A name that is a whole word in a part is one in the line. -/
theorem atWordStart_of_extract (hwhole : IsWhole text first last)
    (hname : Behind Text.isWord (text.extract first last) start)
    (h : AtWordStart (text.extract first last) start) : AtWordStart text (first + start) := by
  rw [atWordStart_iff] at h ⊢
  obtain ⟨hlt, hbehind⟩ := behind_extract_iff.mp hname
  rcases Nat.eq_zero_or_pos start with rfl | hpos
  · exact fun hbefore => hwhole.front hbefore hbehind
  · rwa [before_extract_iff hpos (Nat.le_of_lt hlt)] at h

theorem keepsPart_fact (hwhole : IsWhole text first last) : fact.KeepsPart text first last := by
  intro start stop h
  obtain ⟨⟨head, -, -, -⟩, hword⟩ := reports_fact_iff.mp h
  have hfact := describes_fact.mp (h.describes.of_extract hwhole rfl)
  exact reports_fact_iff.mpr ⟨hfact, atWordStart_of_extract hwhole head.exists_first hword⟩

theorem keepsPart_rule (hwhole : IsWhole text first last) : rule.KeepsPart text first last := by
  intro start stop h
  obtain ⟨⟨head, -, -⟩, hword⟩ := reports_rule_iff.mp h
  have hrule := describes_rule.mp (h.describes.of_extract hwhole rfl)
  exact reports_rule_iff.mpr ⟨hrule, atWordStart_of_extract hwhole head.exists_first hword⟩

/-- Every rule keeps a part that cuts no word and holds no equals sign. -/
theorem keepsPart_of_mem_prolog (hwhole : IsWhole text first last)
    (hequals : '=' ∉ text.extract first last) {pass : Rule} (hpass : pass ∈ prolog) :
    pass.KeepsPart text first last := by
  cases hpass using mem_prolog_cases with
  | fact _ => exact keepsPart_fact hwhole
  | rule _ => exact keepsPart_rule hwhole
  | query _ =>
    exact Rule.keepsPart_of_describes hwhole rfl (reports_query_iff.trans describes_query.symm)
  | variableWord _ => exact keepsPart_variableWord hwhole
  | list _ =>
    exact Rule.keepsPart_of_describes hwhole rfl (reports_list_iff.trans describes_list.symm)
  | logicalOperator _ => exact Rule.keepsPart_of_describes hwhole rfl reports_logicalOperator_iff
  | number _ => exact keepsPart_number hwhole
  | operator _ => exact Rule.keepsPart_chars rfl rfl
  | assignment _ => exact keepsPart_assignment hequals
  | parenthesis _ => exact Rule.keepsPart_chars rfl rfl
  | punctuation _ => exact Rule.keepsPart_chars rfl rfl
  | atom _ => exact keepsPart_atom hwhole
  | reserved word _ => exact keepsPart_reserved hwhole word
  | unrecognized _ => exact Rule.keepsPart_chars rfl rfl

/-- The tokens of a part that cuts no word and holds no equals sign are among those of the line,
in the same order. -/
theorem scan_extract_sublist (hwhole : IsWhole text first last)
    (hequals : '=' ∉ text.extract first last) (number : Nat) :
    (prolog.scan (text.extract first last) number).Sublist (prolog.scan text number) := by
  refine List.Sublist.flatMap_right prolog fun pass hpass => ?_
  have hkeeps := keepsPart_of_mem_prolog hwhole hequals hpass
  exact (hkeeps.scan_sublist hwhole.inside.2).map _

/-! ## Clauses and lists as parts -/

/-- A span with a whole word or a sign in front and a sign at its end cuts no word. -/
theorem isWhole_of_reports {clause : Rule} (h : clause.Reports text first last)
    (hfront : SplitsNoWord text first) (hback : SplitsNoWord text last) : IsWhole text first last :=
  ⟨⟨Nat.le_of_lt h.bounds.1, h.bounds.2⟩, hfront, hback⟩

theorem isWhole_of_mem_clauses {clause : Rule} (hclause : clause ∈ [fact, rule, query, list])
    (h : clause.Reports text first last) : IsWhole text first last := by
  simp only [List.mem_cons, List.not_mem_nil, or_false] at hclause
  rcases hclause with rfl | rfl | rfl | rfl
  · obtain ⟨⟨-, -, -, ends⟩, hword⟩ := reports_fact_iff.mp h
    refine isWhole_of_reports h (fun hbefore => ?_) (splitsNoWord_of_before ends (by decide))
    exact absurd hbefore (atWordStart_iff.mp hword)
  · obtain ⟨⟨-, -, body⟩, hword⟩ := reports_rule_iff.mp h
    refine isWhole_of_reports h (fun hbefore => ?_) (splitsNoWord_of_before body.ends (by decide))
    exact absurd hbefore (atWordStart_iff.mp hword)
  · obtain ⟨opens, body⟩ := reports_query_iff.mp h
    obtain ⟨-, hmark, -⟩ := extract_eq_cons_iff.mp opens
    exact isWhole_of_reports h (splitsNoWord_of_behind hmark (by decide))
      (splitsNoWord_of_before body.ends (by decide))
  · obtain ⟨opens, -, closes⟩ := reports_list_iff.mp h
    exact isWhole_of_reports h (splitsNoWord_of_behind opens (by decide))
      (splitsNoWord_of_before closes (by decide))

theorem equals_not_mem_of_mem_clauses {clause : Rule} (hclause : clause ∈ [fact, rule, query, list])
    (h : clause.Reports text first last) : '=' ∉ text.extract first last := by
  have hnone :
      ([fact, rule, query, list].all fun clause => !clause.pattern.mentions '=') = true := by
    decide
  have hmentions := (Bool.not_eq_true' _).mp (List.all_eq_true.mp hnone clause hclause)
  intro hmem
  exact (h.describes.over (over_of_mentions_eq_false hmentions)).of_mem_extract hmem rfl

/-- The tokens of a fact, a rule, a query or a list taken by itself are tokens of every line in
which it is found, with the same categories and lexemes and in the same order. -/
theorem scan_clause_sublist {clause : Rule} (hclause : clause ∈ [fact, rule, query, list])
    (line : List Char) (number : Nat) {lexeme : String} (h : lexeme ∈ clause.scan line) :
    (prolog.scan lexeme.toList number).Sublist (prolog.scan line number) := by
  obtain ⟨m, hm, rfl⟩ := List.mem_map.mp h
  obtain ⟨first, last, hreports, rfl⟩ := Rule.mem_findAll_iff.mp hm
  rw [String.toList_ofList]
  exact scan_extract_sublist (isWhole_of_mem_clauses hclause hreports)
    (equals_not_mem_of_mem_clauses hclause hreports) number

/-- A fact with a reserved word in it, between an arrow and an assignment. -/
theorem scan_clause_sublist_fact :
    fact.scan "->f(X2,nl) . Y=_f".toList = ["f(X2,nl) ."] ∧
      (prolog.scan "f(X2,nl) .".toList 7).Sublist (prolog.scan "->f(X2,nl) . Y=_f".toList 7) := by
  have hscan : fact.scan "->f(X2,nl) . Y=_f".toList = ["f(X2,nl) ."] := by cbv
  refine ⟨hscan, scan_clause_sublist List.mem_cons_self _ 7 ?_⟩
  rw [hscan]
  exact List.mem_singleton_self _

end RuleTable.Prolog
end PrologTokens
