import Mathlib.Data.List.Permutation
import PrologTokens.Proofs.Analysis.Outcome
import PrologTokens.Proofs.Pattern.Spans

/-!
# Where tokens come from

Every token of an analysis comes from one line, one rule and one span of the trimmed line, and every
span that a rule reports on a line gives one token. `Produces` says which token comes from which
origin; `RuleTable.produced` lists origins and tokens together, in the order of the analysis, which
is the strict order of lines, then rules, then starts of spans.

Since the list is made rule by rule, taking rules out of a table takes out their tokens and leaves
the others as they are: `RuleTable.scanLines_keepRules`.
-/

set_option autoImplicit false

namespace PrologTokens

/-- Where a token comes from. -/
structure Origin where
  /-- The number of the line, counted from 1. -/
  line : Nat
  /-- The position of the rule in the table, counted from 0. -/
  rule : Nat
  /-- How many characters of the trimmed line stand before the span. -/
  start : Nat
  /-- How many characters of the trimmed line stand before the end of the span. -/
  stop : Nat
  deriving DecidableEq, Repr, Inhabited

/-- The strict lexicographic order of line, rule and start. -/
def Origin.Before (a b : Origin) : Prop :=
  a.line < b.line ∨ a.line = b.line ∧ (a.rule < b.rule ∨ a.rule = b.rule ∧ a.start < b.start)

/-- The token comes from the origin: the rule at that position reports the span on the trimmed line
of that number, and the token has the characters of the span, the category of the rule and the
number of the line. -/
inductive Produces (table : RuleTable) (source : String) : Origin → Token → Prop where
  /-- The token of a span that a rule reports on a line. -/
  | span {origin : Origin} {raw : List Char} {rule : Rule} (numbered : 0 < origin.line)
      (at_line : (Text.lines source.toList)[origin.line - 1]? = some raw)
      (at_rule : table[origin.rule]? = some rule)
      (reports : rule.Reports (Text.trim raw) origin.start origin.stop) :
      Produces table source origin
        ⟨String.ofList ((Text.trim raw).extract origin.start origin.stop), rule.category,
          origin.line⟩

/-- Trimming adds no characters. -/
theorem mem_of_mem_trim {c : Char} {text : List Char} (h : c ∈ Text.trim text) : c ∈ text := by
  unfold Text.trim Text.trimEnd at h
  have hback := (List.dropWhile_sublist _).mem (List.mem_reverse.mp h)
  exact (List.dropWhile_sublist _).mem (List.mem_reverse.mp hback)

/-- A token stands on a line of the source, is not empty and does not go over the end of a line. -/
theorem Produces.well_formed {table : RuleTable} {source : String} {origin : Origin} {token : Token}
    (h : Produces table source origin token) :
    1 ≤ token.line ∧ token.line ≤ (Text.lines source.toList).length ∧ token.lexeme ≠ "" ∧
      '\n' ∉ token.lexeme.toList := by
  cases h with
  | @span raw rule numbered at_line at_rule reports =>
    obtain ⟨hlength, hraw⟩ := List.getElem?_eq_some_iff.mp at_line
    have hmem : raw ∈ Text.lines source.toList := hraw ▸ List.getElem_mem hlength
    have hbounds := reports.bounds
    refine ⟨numbered, by simp only; omega, ?_, ?_⟩
    · intro hempty
      have hnil := (String.ofList_eq_empty_iff).mp hempty
      have hspan := Pattern.length_extract origin.start hbounds.2
      rw [hnil, List.length_nil] at hspan
      omega
    · intro hnewline
      rw [String.toList_ofList, List.extract_eq_take_drop] at hnewline
      have htrim := List.mem_of_mem_drop (List.mem_of_mem_take hnewline)
      exact Text.newline_not_mem_of_mem_lines hmem (mem_of_mem_trim htrim)

namespace RuleTable

/-! ## Origins and tokens together -/

/-- What a rule at a position produces on a line of a number. -/
def producedByRule (number : Nat) (line : List Char) (placed : Rule × Nat) :
    List (Origin × Token) :=
  (placed.1.findAll line).map fun m =>
    (⟨number, placed.2, m.start, m.stop⟩, ⟨String.ofList m.lexeme, placed.1.category, number⟩)

/-- What the rules of a table produce on a line of a number. -/
def producedOnLine (table : RuleTable) (number : Nat) (line : List Char) : List (Origin × Token) :=
  table.zipIdx.flatMap (producedByRule number line)

/-- What the rules of a table produce on the lines of a source. -/
def produced (table : RuleTable) (source : String) : List (Origin × Token) :=
  ((Text.lines source.toList).zipIdx 1).flatMap fun numbered =>
    table.producedOnLine numbered.2 (Text.trim numbered.1)

/-- The tokens that a rule produces are the ones it reports. -/
theorem map_snd_producedByRule (number : Nat) (line : List Char) (placed : Rule × Nat) :
    (producedByRule number line placed).map Prod.snd = placed.1.tokens line number := by
  simp [producedByRule, Rule.tokens, Rule.scan, Function.comp_def]

/-- The tokens that are produced on a line are those of the line. -/
theorem map_snd_producedOnLine (table : RuleTable) (number : Nat) (line : List Char) :
    (table.producedOnLine number line).map Prod.snd = table.scan line number := by
  have hrules : table.scan line number =
      (table.zipIdx.map Prod.fst).flatMap fun rule => rule.tokens line number := by
    rw [List.zipIdx_map_fst]
    rfl
  rw [hrules, producedOnLine, List.map_flatMap, List.flatMap_map]
  simp only [map_snd_producedByRule]

/-- The tokens that are produced are those of the lines. -/
theorem map_snd_produced (table : RuleTable) (source : String) :
    (table.produced source).map Prod.snd = table.scanLines 1 (Text.lines source.toList) := by
  rw [produced, scanLines, List.map_flatMap]
  simp only [map_snd_producedOnLine]

/-! ## Which pairs are listed -/

/-- The pairs of a rule are its spans on the line. -/
theorem mem_producedByRule_iff {number : Nat} {line : List Char} {placed : Rule × Nat}
    {origin : Origin} {token : Token} :
    (origin, token) ∈ producedByRule number line placed ↔
      origin.line = number ∧ origin.rule = placed.2 ∧
        placed.1.Reports line origin.start origin.stop ∧
        token = ⟨String.ofList (line.extract origin.start origin.stop), placed.1.category,
          number⟩ := by
  simp only [producedByRule, List.mem_map, Prod.mk.injEq]
  constructor
  · rintro ⟨m, hm, rfl, rfl⟩
    obtain ⟨start, stop, hreports, rfl⟩ := Rule.mem_findAll_iff.mp hm
    have hbounds := hreports.bounds
    have hstop := Pattern.stop_extract (Nat.le_of_lt hbounds.1) hbounds.2
    refine ⟨rfl, rfl, ?_, ?_⟩
    · rw [hstop]
      exact hreports
    · rw [hstop]
  · rintro ⟨hline, hrule, hreports, rfl⟩
    have hbounds := hreports.bounds
    refine ⟨_, Rule.mem_findAll_iff.mpr ⟨_, _, hreports, rfl⟩, ?_, rfl⟩
    rw [Pattern.stop_extract (Nat.le_of_lt hbounds.1) hbounds.2, ← hline, ← hrule]

/-- The pairs of a source are the origins with the tokens that come from them. -/
theorem mem_produced_iff {table : RuleTable} {source : String} {origin : Origin} {token : Token} :
    (origin, token) ∈ table.produced source ↔ Produces table source origin token := by
  simp only [produced, producedOnLine, List.mem_flatMap, mem_producedByRule_iff]
  constructor
  · rintro ⟨⟨raw, number⟩, hraw, ⟨rule, position⟩, hrule, rfl, rfl, hreports, rfl⟩
    obtain ⟨hnumber, hline⟩ := List.mem_zipIdx_iff_le_and_getElem?_sub.mp hraw
    exact .span hnumber hline (List.mem_zipIdx_iff_getElem?.mp hrule) hreports
  · rintro ⟨hnumber, hline, hrule, hreports⟩
    exact ⟨(_, origin.line), List.mem_zipIdx_iff_le_and_getElem?_sub.mpr ⟨hnumber, hline⟩,
      (_, origin.rule), List.mem_zipIdx_iff_getElem?.mpr hrule, rfl, rfl, hreports, rfl⟩

/-! ## In which order -/

/-- The origins on a line are in order. -/
theorem producedOnLine_sorted (table : RuleTable) (number : Nat) (line : List Char) :
    (table.producedOnLine number line).Pairwise fun a b => a.1.Before b.1 := by
  refine List.pairwise_flatMap.mpr ⟨?_, ?_⟩
  · intro placed _
    refine List.pairwise_map.mpr ((placed.1.findAll_sorted line).imp ?_)
    intro m n hlt
    exact .inr ⟨rfl, .inr ⟨rfl, hlt⟩⟩
  · refine (zipIdx_pairwise_lt table 0).imp ?_
    rintro p q hlt ⟨a, _⟩ ha ⟨b, _⟩ hb
    obtain ⟨haLine, haRule, -⟩ := mem_producedByRule_iff.mp ha
    obtain ⟨hbLine, hbRule, -⟩ := mem_producedByRule_iff.mp hb
    exact .inr ⟨haLine.trans hbLine.symm, .inl (by rw [haRule, hbRule]; exact hlt)⟩

/-- The origins of a source are in order. -/
theorem produced_sorted (table : RuleTable) (source : String) :
    (table.produced source).Pairwise fun a b => a.1.Before b.1 := by
  refine List.pairwise_flatMap.mpr ⟨?_, ?_⟩
  · intro numbered _
    exact table.producedOnLine_sorted numbered.2 (Text.trim numbered.1)
  · refine (zipIdx_pairwise_lt _ 1).imp ?_
    rintro p q hlt ⟨a, _⟩ ha ⟨b, _⟩ hb
    obtain ⟨_, _, ha⟩ := List.mem_flatMap.mp ha
    obtain ⟨_, _, hb⟩ := List.mem_flatMap.mp hb
    refine .inl ?_
    rw [(mem_producedByRule_iff.mp ha).1, (mem_producedByRule_iff.mp hb).1]
    exact hlt

/-! ## Fewer rules -/

/-- The rules at the positions that are kept, in their order. -/
def keepRules (keep : Nat → Bool) (table : RuleTable) : RuleTable :=
  (table.zipIdx.filter fun placed => keep placed.2).map Prod.fst

/-- What a rule produces is kept or dropped as a whole. -/
theorem filter_producedByRule (keep : Nat → Bool) (number : Nat) (line : List Char)
    (placed : Rule × Nat) :
    (producedByRule number line placed).filter (fun pair => keep pair.1.rule) =
      if keep placed.2 then producedByRule number line placed else [] := by
  have hrule : ∀ pair ∈ producedByRule number line placed, pair.1.rule = placed.2 := by
    rintro ⟨origin, token⟩ hpair
    exact (mem_producedByRule_iff.mp hpair).2.1
  split
  · rename_i hkeep
    refine List.filter_eq_self.mpr fun pair hpair => ?_
    rw [hrule pair hpair, hkeep]
  · rename_i hkeep
    refine List.filter_eq_nil_iff.mpr fun pair hpair => ?_
    rw [hrule pair hpair]
    exact hkeep

/-- With fewer rules a line gives the tokens of the rules that are kept. -/
theorem scan_keepRules (keep : Nat → Bool) (table : RuleTable) (number : Nat) (line : List Char) :
    (table.keepRules keep).scan line number =
      ((table.producedOnLine number line).filter fun pair => keep pair.1.rule).map Prod.snd := by
  rw [scan, keepRules, producedOnLine, List.filter_flatMap, List.map_flatMap, List.flatMap_map]
  simp only [filter_producedByRule]
  -- Rule by rule, both sides take the tokens of the rule or nothing.
  induction table.zipIdx with
  | nil => rfl
  | cons placed others ih =>
    rw [List.flatMap_cons, ← ih]
    cases hkeep : keep placed.2 with
    | true => simp [hkeep, map_snd_producedByRule]
    | false => simp [hkeep]

/-- With fewer rules a source gives the tokens of the rules that are kept. -/
theorem scanLines_keepRules (keep : Nat → Bool) (table : RuleTable) (source : String) :
    (table.keepRules keep).scanLines 1 (Text.lines source.toList) =
      ((table.produced source).filter fun pair => keep pair.1.rule).map Prod.snd := by
  rw [scanLines, produced, List.filter_flatMap, List.map_flatMap]
  simp only [scan_keepRules]

/-! ## Whole sources -/

theorem scanLines_well_formed {table : RuleTable} {source : String} {token : Token}
    (h : token ∈ table.scanLines 1 (Text.lines source.toList)) :
    1 ≤ token.line ∧ token.line ≤ (Text.lines source.toList).length ∧ token.lexeme ≠ "" ∧
      '\n' ∉ token.lexeme.toList := by
  rw [← map_snd_produced] at h
  obtain ⟨⟨origin, _⟩, hpair, rfl⟩ := List.mem_map.mp h
  exact (mem_produced_iff.mp hpair).well_formed

theorem well_formed_of_analyze {table : RuleTable} {source : String} {tokens : List Token}
    (h : table.analyze source = .ok tokens) {token : Token} (htoken : token ∈ tokens) :
    1 ≤ token.line ∧ token.line ≤ (Text.lines source.toList).length ∧ token.lexeme ≠ "" ∧
      '\n' ∉ token.lexeme.toList := by
  rw [analyze, analyzeLines_eq] at h
  split at h
  · cases h
  · obtain rfl := Except.ok.inj h
    exact scanLines_well_formed htoken

theorem line_le_of_analyze {table : RuleTable} {source : String} {tokens : List Token}
    (h : table.analyze source = .ok tokens) {token : Token} (htoken : token ∈ tokens) :
    token.line ≤ (Text.lines source.toList).length :=
  (well_formed_of_analyze h htoken).2.1

/-- The two ways in which an analysis ends. -/
theorem analyze_cases (table : RuleTable) (source : String) :
    (∃ tokens, table.analyze source = .ok tokens ∧
      ∀ line ∈ Text.lines source.toList, Even (line.count '"')) ∨
    (∃ number, table.analyze source = .error (.unterminatedString number) ∧
      IsLeast (unpairedLines source) number ∧ number ≤ (Text.lines source.toList).length) := by
  rw [analyze, analyzeLines_eq]
  cases hfirst : firstUnpaired? (Text.lines source.toList) with
  | none => exact .inl ⟨_, rfl, firstUnpaired?_eq_none_iff.mp hfirst⟩
  | some index =>
    have hleast := firstUnpaired?_eq_some_iff.mp hfirst
    obtain ⟨line, -, hline, -⟩ := hleast.1
    obtain ⟨hindex, -⟩ := List.getElem?_eq_some_iff.mp hline
    refine .inr ⟨index + 1, by rw [Nat.add_comm], hleast, ?_⟩
    omega

/-- The tokens of an analysis correspond one to one, in order, to the spans that rules report on
trimmed lines, in the order of lines, then rules, then starts. With some of the rules only, the
analysis gives the tokens of those rules, unchanged and in the same order. -/
theorem analyze_provenance (table : RuleTable) (source : String) (tokens : List Token)
    (h : table.analyze source = .ok tokens) :
    ∃ pairs : List (Origin × Token),
      pairs.map Prod.snd = tokens ∧
      pairs.Pairwise (fun a b => a.1.Before b.1) ∧
      (∀ origin token, (origin, token) ∈ pairs ↔ Produces table source origin token) ∧
      (∀ token ∈ tokens, 1 ≤ token.line ∧ token.line ≤ (Text.lines source.toList).length ∧
        token.lexeme ≠ "" ∧ '\n' ∉ token.lexeme.toList) ∧
      ∀ keep : Nat → Bool, (table.keepRules keep).analyze source =
        .ok ((pairs.filter fun pair => keep pair.1.rule).map Prod.snd) := by
  rw [analyze, analyzeLines_eq] at h
  cases hfirst : firstUnpaired? (Text.lines source.toList) with
  | some index =>
    rw [hfirst] at h
    exact absurd h (by simp)
  | none =>
    rw [hfirst] at h
    obtain rfl := Except.ok.inj h
    refine ⟨table.produced source, table.map_snd_produced source, table.produced_sorted source,
      fun _ _ => mem_produced_iff, ?_, ?_⟩
    · intro token htoken
      exact scanLines_well_formed htoken
    · intro keep
      rw [analyze, analyzeLines_eq, hfirst, scanLines_keepRules]

/-- Two rules give five tokens of two lines; without the first rule those of the second are left. -/
theorem analyze_provenance_two_lines :
    ∃ pairs : List (Origin × Token),
      pairs.map Prod.snd = [⟨"1", .number, 1⟩, ⟨"20", .number, 1⟩, ⟨"+", .operator, 1⟩,
        ⟨"3", .number, 2⟩, ⟨"-", .operator, 2⟩] ∧
      pairs.Pairwise (fun a b => a.1.Before b.1) ∧
      analyze (keepRules (· = 1) [Prolog.number, Prolog.operator]) "1+20\n\t\"-3\"" =
        .ok ((pairs.filter fun pair => pair.1.rule = 1).map Prod.snd) := by
  have h : analyze [Prolog.number, Prolog.operator] "1+20\n\t\"-3\"" =
      .ok [⟨"1", .number, 1⟩, ⟨"20", .number, 1⟩, ⟨"+", .operator, 1⟩, ⟨"3", .number, 2⟩,
        ⟨"-", .operator, 2⟩] := by cbv
  obtain ⟨pairs, htokens, hsorted, -, -, hkeep⟩ := analyze_provenance _ _ _ h
  exact ⟨pairs, htokens, hsorted, hkeep (· = 1)⟩

end RuleTable
end PrologTokens
