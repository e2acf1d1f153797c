import Mathlib.Algebra.GroupWithZero.Nat
import PrologTokens.Proofs.Pattern.StepBound
import PrologTokens.Proofs.Pattern.Walk
import PrologTokens.Proofs.Rule.Matching

/-!
# A line as gaps and lexemes

A rule for all matches divides a line: gap, lexeme, gap, lexeme and so on, with a gap at the
end. `Factors` says so of a list of lexemes and the spans at which they stand. Since no lexeme
is empty, there are no more of them than characters.

What a rule reports is told from the walk of its search. A rule for all matches reports all
spans of the walk that are not empty, a rule for the leftmost match the first span alone, unless
that one is empty. `reports_of_make` puts this together for two rules that are made from one
pattern.
-/

set_option autoImplicit false

namespace PrologTokens

/-- The text, which stands at a position of a line, consists of gaps with lexemes between them,
none of them empty, at the given spans. -/
inductive Factors : Nat → List Char → List (Nat × Nat) → List String → Prop where
  /-- A gap at the end. -/
  | last {i : Nat} (gap : List Char) : Factors i gap [] []
  /-- A gap, a lexeme and what follows. -/
  | next {i : Nat} (gap : List Char) {lexeme rest : List Char} {spans : List (Nat × Nat)}
      {lexemes : List String} (nonempty : lexeme ≠ [])
      (more : Factors (i + gap.length + lexeme.length) rest spans lexemes) :
      Factors i (gap ++ (lexeme ++ rest))
        ((i + gap.length, i + gap.length + lexeme.length) :: spans)
          (String.ofList lexeme :: lexemes)

namespace Factors

variable {i : Nat} {text : List Char} {spans : List (Nat × Nat)} {lexemes : List String}

/-- The lexemes have no more characters than the text. -/
theorem sum_length_le (h : Factors i text spans lexemes) :
    (lexemes.map String.length).sum ≤ text.length := by
  induction h with
  | last _ => exact Nat.zero_le _
  | next gap nonempty _ ih =>
    simp only [List.map_cons, List.sum_cons, List.length_append, String.length_ofList]
    omega

theorem nonempty (h : Factors i text spans lexemes) : ∀ lexeme ∈ lexemes, lexeme ≠ "" := by
  induction h with
  | last _ => exact List.forall_mem_nil _
  | next gap nonempty _ ih =>
    refine List.forall_mem_cons.mpr ⟨fun hlexeme => nonempty ?_, ih⟩
    exact String.ofList_eq_empty_iff.mp hlexeme

/-- There are no more lexemes than characters. -/
theorem length_le (h : Factors i text spans lexemes) : lexemes.length ≤ text.length := by
  induction h with
  | last _ => exact Nat.zero_le _
  | next gap nonempty _ ih =>
    have hpos := List.length_pos_of_ne_nil nonempty
    simp only [List.length_cons, List.length_append]
    omega

theorem extract_append_drop {start stop : Nat} (hle : start ≤ stop) :
    text.extract start stop ++ text.drop stop = text.drop start := by
  have hsplit := List.take_append_drop (stop - start) (text.drop start)
  rwa [List.drop_drop, Nat.add_sub_cancel' hle, ← List.extract_eq_take_drop] at hsplit

/-- Spans that are not empty and lie one behind the other divide a line, with their characters
as the lexemes. The induction is over the spans. -/
theorem of_pairwise (spans : List (Nat × Nat)) :
    ∀ {i : Nat}, (∀ span ∈ spans, i ≤ span.1 ∧ span.1 < span.2 ∧ span.2 ≤ text.length) →
      spans.Pairwise (fun a b => a.2 ≤ b.1) →
      Factors i (text.drop i) spans
        (spans.map fun span => String.ofList (text.extract span.1 span.2)) := by
  induction spans with
  | nil => exact fun _ _ => .last _
  | cons span spans ih =>
    intro i hbounds hpairwise
    obtain ⟨start, stop⟩ := span
    obtain ⟨⟨hi, hlt, hstop⟩, hbounds⟩ := List.forall_mem_cons.mp hbounds
    obtain ⟨hbehind, hpairwise⟩ := List.pairwise_cons.mp hpairwise
    have hmore : Factors stop (text.drop stop) spans _ :=
      ih (fun span hspan => ⟨hbehind span hspan, (hbounds span hspan).2⟩) hpairwise
    have hlength : (text.extract start stop).length = stop - start :=
      Pattern.length_extract start hstop
    have hgap : i + (text.extract i start).length = start := by
      rw [Pattern.length_extract i (by omega)]
      omega
    have hlexeme : start + (text.extract start stop).length = stop := by omega
    have hsplit : text.drop i =
        text.extract i start ++ (text.extract start stop ++ text.drop stop) := by
      rw [extract_append_drop (Nat.le_of_lt hlt), extract_append_drop hi]
    have hne : text.extract start stop ≠ [] := List.ne_nil_of_length_pos (by omega)
    have hfactors := Factors.next (i := i) (text.extract i start) hne (by rwa [hgap, hlexeme])
    rw [hgap, hlexeme] at hfactors
    rw [hsplit]
    exact hfactors

end Factors

namespace Rule

open Pattern

variable {rule : Rule} {text : List Char} {found : List (Nat × Nat)}

/-! ## What a rule reports of a walk -/

/-- A pattern that can be read makes a rule, whatever the scope. -/
theorem exists_make {source : String} {p : Pattern} (h : (Pattern.read source).toOption = some p)
    (category : Category) (scope : Scope) :
    ∃ rule, Rule.make category source scope = .ok rule ∧ rule.pattern = p ∧ rule.scope = scope := by
  unfold make
  split
  · rename_i q hread
    rw [hread] at h
    exact ⟨_, rfl, Option.some.inj h, rfl⟩
  · rename_i hfault
    rw [hfault] at h
    cases h

/-- A rule for all matches reports the spans of the walk that are not empty. -/
theorem spans_of_all (hscope : rule.scope = .all) (h : rule.pattern.Walk text 0 found) :
    rule.spans text = found.filter fun span => span.1 < span.2 := by
  have hfind : rule.findAll text = matchesOf text found := by
    rw [findAll, hscope]
    simp only
    rw [allMatches, ← Cursor.ofPosition_zero]
    exact h.matchesFrom_eq (Nat.zero_le _) (Nat.le_refl _)
  rw [spans, hfind]
  exact map_matchesOf fun span hspan => (h.describes (Nat.zero_le _) span hspan).bounds.2

/-- A rule for the leftmost match reports nothing if it finds empty spans only. -/
theorem spans_eq_nil (hscope : rule.scope = .first)
    (h : ∀ start stop, rule.pattern.FindsFrom text 0 start stop → start = stop) :
    rule.spans text = [] := by
  refine List.eq_nil_iff_forall_not_mem.mpr fun span hspan => ?_
  have hreports := mem_spans_iff.mp hspan
  rw [Reports, hscope] at hreports
  exact Nat.ne_of_lt hreports.1 (h _ _ hreports.2)

/-- A rule for the leftmost match reports the first span of the walk, if it is not empty. -/
theorem spans_of_first (hscope : rule.scope = .first) (h : rule.pattern.Walk text 0 found) :
    rule.spans text = (found.take 1).filter fun span => span.1 < span.2 := by
  have hempty {start : Nat} (hfound : rule.pattern.FindsFrom text 0 start start) :
      rule.spans text = [] := by
    refine spans_eq_nil hscope fun start' stop' hfound' => ?_
    obtain ⟨rfl, rfl⟩ := hfound.unique hfound'
    rfl
  cases h with
  | nothing none =>
    exact spans_eq_nil hscope fun start stop hfound => absurd hfound (none start stop)
  | atEnd hfound => simp [hempty hfound]
  | behind hfound nonempty _ => simp [spans_of_findsFrom hscope hfound nonempty, nonempty]
  | further hfound _ _ => simp [hempty hfound]

/-- A rule for the leftmost match reports nothing if there is no leftmost match or if it is
empty. -/
theorem scan_eq_nil_iff_of_first (hscope : rule.scope = .first) :
    rule.scan text = [] ↔ (∀ start stop, ¬ rule.pattern.Describes text start stop) ∨
      ∃ m, rule.pattern.first? text = some m ∧ m.lexeme = [] := by
  rw [scan, List.map_eq_nil_iff, findAll, hscope, ← first?_eq_none_iff]
  cases rule.pattern.first? text with
  | none => simp
  | some m => simp [List.filter_eq_nil_iff]

theorem spans_bounds (rule : Rule) (line : List Char) :
    ∀ span ∈ rule.spans line, span.1 < span.2 ∧ span.2 ≤ line.length :=
  fun _ hspan => (mem_spans_iff.mp hspan).bounds

theorem spans_apart (rule : Rule) (line : List Char) :
    (rule.spans line).Pairwise fun a b => a.2 ≤ b.1 :=
  List.pairwise_map.mpr (rule.findAll_apart line)

/-- The spans that a rule reports divide the line. -/
theorem factors_scan (rule : Rule) (line : List Char) :
    Factors 0 line (rule.spans line) (rule.scan line) := by
  rw [scan_eq_map_spans]
  exact Factors.of_pairwise (rule.spans line)
    (fun span hspan => ⟨Nat.zero_le _, rule.spans_bounds line span hspan⟩) (rule.spans_apart line)

/-- What a rule for all matches reports of a line. -/
structure ReportsAll (rule : Rule) (line : List Char) : Prop where
  /-- At every place the matcher ends within its steps, whatever choices have been made before. -/
  matcher_ends : ∀ i visited, i ≤ line.length →
    explore (rule.pattern.stepBound line.length)
        [⟨[⟨rule.pattern, 0⟩], .ofPosition line i⟩] visited =
      some (rule.pattern.matchEnd (rule.pattern.stepBound line.length) (.ofPosition line i) visited)
  /-- The search ends, in one way. All that it finds is matches, and those that are not empty
  are reported. -/
  ends : ∃ found, (∀ other, rule.pattern.Walk line 0 other ↔ other = found) ∧
    found.length ≤ line.length + 1 ∧ (∀ span ∈ found, rule.pattern.Describes line span.1 span.2) ∧
    rule.spans line = found.filter fun span => span.1 < span.2
  /-- The line consists of gaps and the lexemes, at the spans of the matches. -/
  factors : Factors 0 line (rule.spans line) (rule.scan line)
  /-- No lexeme is empty. -/
  nonempty : ∀ lexeme ∈ rule.scan line, lexeme ≠ ""
  /-- Every span goes from left to right. -/
  increasing : ∀ span ∈ rule.spans line, span.1 < span.2 ∧ span.2 ≤ line.length
  /-- No span starts before the one in front of it has ended. -/
  apart : (rule.spans line).Pairwise fun a b => a.2 ≤ b.1
  /-- There are no more lexemes than characters. -/
  length_le : (rule.scan line).length ≤ line.length
  /-- The lexemes have no more characters than the line. -/
  sum_length_le : ((rule.scan line).map String.length).sum ≤ line.length

/-- What a rule for the leftmost match reports of a line, where another one reports all matches. -/
structure ReportsLeftmost (rule all : Rule) (line : List Char) : Prop where
  /-- The rule reports lexemes with which the other one begins. -/
  begins : rule.scan line <+: all.scan line
  /-- It reports one at most. -/
  length_le : (rule.scan line).length ≤ 1
  /-- It reports none exactly if there is no match or if the leftmost match is empty. -/
  nothing_iff : rule.scan line = [] ↔ (∀ start stop, ¬ rule.pattern.Describes line start stop) ∨
    ∃ m, rule.pattern.first? line = some m ∧ m.lexeme = []
  /-- The leftmost match is a match, and none starts further to the left. -/
  leftmost : ∀ m, rule.pattern.first? line = some m → rule.pattern.Describes line m.start m.stop ∧
    ∀ start stop, rule.pattern.Describes line start stop → m.start ≤ start

theorem reportsAll (hscope : rule.scope = .all) (line : List Char) : rule.ReportsAll line := by
  have hfactors := rule.factors_scan line
  refine ⟨fun i visited hi => explore_eq_matchEnd rule.pattern hi visited, ?_, hfactors,
    hfactors.nonempty,
    rule.spans_bounds line, rule.spans_apart line, hfactors.length_le, hfactors.sum_length_le⟩
  obtain ⟨found, hfound⟩ := exists_walk (p := rule.pattern) (Nat.zero_le line.length)
  exact ⟨found, fun other => ⟨hfound.unique, fun h => h ▸ hfound⟩, hfound.length_le (Nat.zero_le _),
    hfound.describes (Nat.zero_le _), spans_of_all hscope hfound⟩

theorem reportsLeftmost {all : Rule} (hscope : rule.scope = .first) (hall : all.scope = .all)
    (hpattern : rule.pattern = all.pattern) (line : List Char) : rule.ReportsLeftmost all line := by
  obtain ⟨found, hfound⟩ := exists_walk (p := rule.pattern) (Nat.zero_le line.length)
  have hspans := spans_of_first hscope hfound
  have hspans' := spans_of_all hall (hpattern ▸ hfound)
  refine ⟨?_, ?_, scan_eq_nil_iff_of_first hscope, fun m => describes_of_first?⟩
  · rw [scan_eq_map_spans, scan_eq_map_spans, hspans, hspans']
    exact ((List.take_prefix 1 found).filter _).map _
  · rw [scan_eq_map_spans, hspans, List.length_map]
    exact (List.length_filter_le _ _).trans (List.length_take_le 1 found)

/-- One pattern makes two rules. The one for all matches divides every line into gaps and
lexemes, whatever the pattern matches: the search for matches ends, and so does the matcher at
every place, and the lexemes are the matches that are not empty. The one for the leftmost match
reports the first of these lexemes or nothing, and nothing exactly if there is no match or the
leftmost one is empty. -/
theorem reports_of_make {category : Category} {source : String} {all : Rule}
    (h : Rule.make category source .all = .ok all) :
    ∃ first, Rule.make category source .first = .ok first ∧
      ∀ line, all.ReportsAll line ∧ first.ReportsLeftmost all line := by
  obtain ⟨hread, hall⟩ := read_of_make h
  obtain ⟨first, hfirst, hpattern, hscope⟩ :=
    exists_make (congrArg Except.toOption hread) category .first
  exact ⟨first, hfirst,
    fun line => ⟨reportsAll hall line, reportsLeftmost hscope hall hpattern line⟩⟩

/-- Digits that may be missing. The line does not start with one, so the leftmost match is
empty, and the rule that reports no other match reports nothing. -/
theorem reports_of_make_digits :
    ∃ all first, Rule.make .number "[0-9]*" .all = .ok all ∧
      Rule.make .number "[0-9]*" .first = .ok first ∧
      all.ReportsAll "a1b22".toList ∧ first.ReportsLeftmost all "a1b22".toList ∧
      first.scan "a1b22".toList = [] := by
  let digits : CharSet := ⟨[(48, 57)]⟩
  have hread : (Pattern.read "[0-9]*").toOption = some (star (chars digits) true) := by
    decide +kernel
  obtain ⟨all, hmake, -, -⟩ := exists_make hread .number .all
  obtain ⟨first, hfirst, hreports⟩ := reports_of_make hmake
  obtain ⟨hall, hleftmost⟩ := hreports "a1b22".toList
  have hpattern : first.pattern = star (chars digits) true := by
    have hsame := congrArg Except.toOption (read_of_make hfirst).1
    exact Option.some.inj (hsame.symm.trans hread)
  refine ⟨all, first, hmake, hfirst, hall, hleftmost, hleftmost.nothing_iff.mpr (.inr ?_)⟩
  have hempty : first.pattern.Describes "a1b22".toList 0 0 := by
    rw [hpattern]
    exact describes_star_chars.mpr ⟨Nat.le_refl 0, Nat.zero_le _, .empty⟩
  cases hm : first.pattern.first? "a1b22".toList with
  | none => exact absurd hempty (first?_eq_none_iff.mp hm 0 0)
  | some m =>
    obtain ⟨hdescribes, hstart⟩ := hleftmost.leftmost m hm
    have hzero : m.start = 0 := Nat.le_zero.mp (hstart 0 0 hempty)
    rw [hpattern] at hdescribes
    have hnone : ¬ 0 < m.stop := by
      intro hlt
      have hmem := (describes_star_chars.mp hdescribes).2.2 0 'a' (Nat.le_of_eq hzero) hlt rfl
      exact absurd hmem (by decide)
    refine ⟨m, rfl, List.length_eq_zero_iff.mp ?_⟩
    rw [Match.stop] at hnone
    omega

end Rule
end PrologTokens
