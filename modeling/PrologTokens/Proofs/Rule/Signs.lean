import PrologTokens.Proofs.Rule.Locality
import PrologTokens.Proofs.Rule.Matching

/-!
# Signs

The rules for signs look at one or two characters at a time, so what they report can be said
without patterns: a line is gone through from left to right, and some of its characters are
kept. The rule for assignments keeps one equals sign at most.

Signs are shared. A comma is a logical operator and a punctuation mark, and the two characters
of an arrow are an operator and a character outside of the alphabet besides. `Rule.spansMeeting`
counts what is reported at a place; by it each of these happens exactly once. The main statement
is `scan_signs`.
-/

set_option autoImplicit false

namespace PrologTokens

open Pattern

variable {text : List Char} {start stop first last : Nat}

namespace Rule

variable {rule : Rule}

/-! ## What is reported at a place -/

/-- The reported spans that have a character in common with a part of the line. -/
def spansMeeting (rule : Rule) (line : List Char) (first last : Nat) : List (Nat × Nat) :=
  (rule.spans line).filter fun span => span.1 < last && first < span.2

theorem mem_spansMeeting_iff :
    (start, stop) ∈ rule.spansMeeting text first last ↔
      rule.Reports text start stop ∧ start < last ∧ first < stop := by
  rw [spansMeeting, List.mem_filter, mem_spans_iff, Bool.and_eq_true, decide_eq_true_eq,
    decide_eq_true_eq]

/-- If all reported spans that meet a part start at the same position, there is one of them. -/
theorem spansMeeting_eq_singleton (h : (start, stop) ∈ rule.spansMeeting text first last)
    (honly : ∀ {start' stop'}, (start', stop') ∈ rule.spansMeeting text first last →
      start' = start) :
    rule.spansMeeting text first last = [(start, stop)] := by
  have hapart : (rule.spansMeeting text first last).Pairwise fun a b => a.2 ≤ b.1 :=
    (List.pairwise_map.mpr (rule.findAll_apart text)).filter _
  cases hspans : rule.spansMeeting text first last with
  | nil =>
    rw [hspans] at h
    exact absurd h List.not_mem_nil
  | cons span others =>
    rw [hspans] at h honly hapart
    cases others with
    | nil => rw [List.mem_singleton.mp h]
    | cons next others =>
      -- The two would start at the same position, and the first one is not empty.
      have hspan : (span.1, span.2) ∈ rule.spansMeeting text first last := by
        rw [hspans]
        exact List.mem_cons_self
      have hnonempty := (mem_spansMeeting_iff.mp hspan).1.bounds.1
      have hbehind := (List.pairwise_cons.mp hapart).1 next List.mem_cons_self
      have hsame : span.1 = start := honly List.mem_cons_self
      have hsame' : next.1 = start := honly (List.mem_cons_of_mem _ List.mem_cons_self)
      omega

/-- A reported span is the only one that meets a part of itself. -/
theorem Reports.spansMeeting_eq (h : rule.Reports text start stop) (hfirst : start ≤ first)
    (hlt : first < last) (hlast : last ≤ stop) :
    rule.spansMeeting text first last = [(start, stop)] := by
  refine spansMeeting_eq_singleton
    (mem_spansMeeting_iff.mpr ⟨h, by omega, by omega⟩) fun {start' stop'} hmem => ?_
  obtain ⟨h', hmeets⟩ := mem_spansMeeting_iff.mp hmem
  rcases h'.apart h with hsame | hbefore | hbehind
  · exact hsame.1
  · omega
  · omega

/-! ## Rules that report by position -/

/-- A rule whose spans are told by the positions at which they start reports them in this order. -/
theorem scan_eq_filterMap_range {lexemeAt? : Nat → Option String}
    (h : ∀ {i lexeme}, lexemeAt? i = some lexeme ↔
      ∃ stop, rule.Reports text i stop ∧ lexeme = String.ofList (text.extract i stop)) :
    rule.scan text = (List.range text.length).filterMap lexemeAt? := by
  have hfind : rule.findAll text =
      (List.range text.length).filterMap fun i => (lexemeAt? i).map fun lexeme =>
        ⟨i, lexeme.toList⟩ := by
    refine findAll_eq_of_mem_iff ?_ fun m => ?_
    · refine List.pairwise_filterMap.mpr (List.pairwise_lt_range.imp ?_)
      intro i j hlt m hm n hn
      obtain ⟨_, -, rfl⟩ := Option.map_eq_some_iff.mp hm
      obtain ⟨_, -, rfl⟩ := Option.map_eq_some_iff.mp hn
      exact hlt
    · simp only [List.mem_filterMap, List.mem_range, Option.map_eq_some_iff, h]
      constructor
      · rintro ⟨i, -, _, ⟨stop, hreports, rfl⟩, rfl⟩
        exact ⟨i, stop, hreports, by rw [String.toList_ofList]⟩
      · rintro ⟨i, stop, hreports, rfl⟩
        have hbounds := hreports.bounds
        refine ⟨i, by omega, _, ⟨stop, hreports, rfl⟩, ?_⟩
        rw [String.toList_ofList]
  rw [scan, hfind, List.map_filterMap]
  refine List.filterMap_congr fun i _ => ?_
  cases lexemeAt? i with
  | none => rfl
  | some lexeme => exact congrArg some String.ofList_toList

end Rule

namespace RuleTable.Prolog

/-! ## Logical operators -/

/-- The logical operator that starts at a position of a line. -/
def logicalSignAt? (text : List Char) (i : Nat) : Option String :=
  match text[i]?, text[i + 1]? with
  | some ',', _ => some ","
  | some ';', _ => some ";"
  | some '-', some '>' => some "->"
  | _, _ => none

theorem extract_arrow {i : Nat} (hdash : text[i]? = some '-') (hangle : text[i + 1]? = some '>') :
    text.extract i (i + 2) = ['-', '>'] :=
  extract_eq_cons_iff.mpr ⟨by omega, hdash, extract_char hangle⟩

/-- What starts at a position is the logical operator that is reported there. -/
theorem logicalSignAt?_eq_some_iff {i : Nat} {lexeme : String} :
    logicalSignAt? text i = some lexeme ↔
      ∃ stop, logicalOperator.Reports text i stop ∧
        lexeme = String.ofList (text.extract i stop) := by
  simp only [reports_logicalOperator_iff, describes_logicalOperator]
  constructor
  · intro h
    unfold logicalSignAt? at h
    split at h
    · rename_i hcomma
      cases h
      exact ⟨i + 1, .inl ⟨rfl, .inl hcomma⟩, by rw [extract_char hcomma]⟩
    · rename_i hsemicolon
      cases h
      exact ⟨i + 1, .inl ⟨rfl, .inr hsemicolon⟩, by rw [extract_char hsemicolon]⟩
    · rename_i hdash hangle
      cases h
      exact ⟨i + 2, .inr ⟨rfl, hdash, hangle⟩, by rw [extract_arrow hdash hangle]⟩
    · cases h
  · rintro ⟨stop, ⟨rfl, hcomma | hsemicolon⟩ | ⟨rfl, hdash, hangle⟩, rfl⟩
    · rw [logicalSignAt?, hcomma, extract_char hcomma]
      rfl
    · rw [logicalSignAt?, hsemicolon, extract_char hsemicolon]
      rfl
    · rw [logicalSignAt?, hdash, hangle, extract_arrow hdash hangle]
      rfl

/-- Logical operators are the commas, semicolons and arrows of a line. -/
theorem scan_logicalOperator (text : List Char) :
    logicalOperator.scan text = (List.range text.length).filterMap (logicalSignAt? text) :=
  Rule.scan_eq_filterMap_range logicalSignAt?_eq_some_iff

/-! ## Assignments -/

/-- An assignment is an equals sign, and a line has one exactly if there is an equals sign on it. -/
theorem scan_assignment (text : List Char) :
    assignment.scan text = if '=' ∈ text then ["="] else [] := by
  have hdescribes {start stop : Nat} : assignment.pattern.Describes text start stop ↔
      stop = start + 1 ∧ text[start]? = some '=' := describes_literal
  rw [Rule.scan_eq_map_spans]
  split
  · rename_i hequals
    obtain ⟨i, hi⟩ := List.mem_iff_getElem?.mp hequals
    have hempty : ∀ i, ¬ assignment.pattern.Describes text i i := fun i h =>
      absurd (hdescribes.mp h).1 (Nat.ne_of_lt (Nat.lt_succ_self i))
    obtain ⟨first, last, hspans, -⟩ :=
      Rule.spans_of_describes rfl hempty (hdescribes.mpr ⟨rfl, hi⟩)
    have hreports : assignment.Reports text first last :=
      Rule.mem_spans_iff.mp (hspans ▸ List.mem_singleton_self _)
    obtain ⟨rfl, hfirst⟩ := hdescribes.mp hreports.describes
    rw [hspans, List.map_singleton, extract_char hfirst]
  · rename_i hequals
    have hnone : assignment.spans text = [] := by
      refine List.eq_nil_iff_forall_not_mem.mpr fun span hspan => hequals ?_
      have hreports : assignment.Reports text span.1 span.2 := Rule.mem_spans_iff.mp hspan
      exact List.mem_of_getElem? (hdescribes.mp hreports.describes).2
    rw [hnone, List.map_nil]

/-! ## Signs at a place -/

/-- Where a rule for single characters knows one character of a part of the line only, this is
all that it reports there. -/
theorem spansMeeting_chars {rule : Rule} {set : CharSet} {i : Nat} {x : Char}
    (hscope : rule.scope = .all) (hpattern : rule.pattern = chars set)
    (hin : first ≤ i ∧ i < last) (hx : text[i]? = some x) (hset : set.contains x = true)
    (hother : ∀ j y, first ≤ j → j < last → j ≠ i → text[j]? = some y → set.contains y = false) :
    rule.spansMeeting text first last = [(i, i + 1)] := by
  have hreports {start stop : Nat} : rule.Reports text start stop ↔
      stop = start + 1 ∧ ∃ x, text[start]? = some x ∧ set.contains x = true :=
    Rule.reports_chars_iff hscope hpattern
  refine Rule.spansMeeting_eq_singleton
    (Rule.mem_spansMeeting_iff.mpr ⟨hreports.mpr ⟨rfl, x, hx, hset⟩, by omega, by omega⟩) ?_
  intro start stop hmem
  obtain ⟨h, hmeets⟩ := Rule.mem_spansMeeting_iff.mp hmem
  obtain ⟨rfl, y, hy, hknown⟩ := hreports.mp h
  by_contra hne
  rw [hother start y (by omega) hmeets.1 hne hy] at hknown
  exact absurd hknown Bool.false_ne_true

/-- A comma is one logical operator and one punctuation mark. -/
theorem spansMeeting_comma {i : Nat} (hcomma : text[i]? = some ',') :
    logicalOperator.spansMeeting text i (i + 1) = [(i, i + 1)] ∧
      punctuation.spansMeeting text i (i + 1) = [(i, i + 1)] := by
  have hlogical : logicalOperator.Reports text i (i + 1) :=
    reports_logicalOperator_iff.mpr (describes_logicalOperator.mpr (.inl ⟨rfl, .inl hcomma⟩))
  have hlt : i < i + 1 := Nat.lt_succ_self i
  refine ⟨hlogical.spansMeeting_eq (Nat.le_refl i) hlt (Nat.le_refl _), ?_⟩
  refine spansMeeting_chars rfl rfl ⟨Nat.le_refl i, hlt⟩ hcomma (by decide) ?_
  intro j y hle hlt hne
  omega

/-- An arrow is one logical operator. Its first character is one operator and no foreign
character, and with its second one it is the other way round. -/
theorem spansMeeting_arrow {i : Nat} (hdash : text[i]? = some '-')
    (hangle : text[i + 1]? = some '>') :
    logicalOperator.spansMeeting text i (i + 2) = [(i, i + 2)] ∧
      operator.spansMeeting text i (i + 2) = [(i, i + 1)] ∧
      unrecognized.spansMeeting text i (i + 2) = [(i + 1, i + 2)] := by
  have hlogical : logicalOperator.Reports text i (i + 2) :=
    reports_logicalOperator_iff.mpr (describes_logicalOperator.mpr (.inr ⟨rfl, hdash, hangle⟩))
  refine ⟨hlogical.spansMeeting_eq (Nat.le_refl i) (by omega) (Nat.le_refl _), ?_, ?_⟩
  · refine spansMeeting_chars rfl rfl (by omega) hdash (by decide) fun j y hle hlt hne hy => ?_
    obtain rfl : j = i + 1 := by omega
    obtain rfl : y = '>' := Option.some.inj (hy.symm.trans hangle)
    decide
  · refine spansMeeting_chars rfl rfl (by omega) hangle (by decide) fun j y hle hlt hne hy => ?_
    obtain rfl : j = i := by omega
    obtain rfl : y = '-' := Option.some.inj (hy.symm.trans hdash)
    decide

/-! ## All rules for signs -/

/-- A foreign character is one that is neither a letter or digit of ASCII nor one of the other
characters of the alphabet. -/
theorem contains_foreignSet_eq (x : Char) :
    foreignSet.contains x =
      !(x.isAlphanum || decide (x ∈ ['_', '(', ')', ',', ';', '=', '+', '-', '*',
      '/', '.', '\t', '\n', '\x0c', '\r', ' '])) := by
  have hletter : x.isAlpha = (x.isUpper || x.isLower) := rfl
  rw [contains_foreignSet, isWord_eq, Char.isAlphanum, hletter, Bool.or_assoc, Bool.or_assoc,
    ← Bool.decide_or, ← Bool.decide_or]
  simp only [signs, blanks, List.mem_cons, List.not_mem_nil, or_false, or_assoc]

/-- The table has one rule for each kind of sign and one for the characters outside of the
alphabet. -/
theorem mem_signs_iff {pass : Rule} :
    pass ∈ prolog ∧ pass.category ∈ [.logicalOperator, .operator, .assignment, .parenthesis,
        .punctuation, .unrecognized] ↔
      pass ∈ [logicalOperator, operator, assignment, parenthesis, punctuation, unrecognized] := by
  refine mem_and_category_iff ?_
  rw [prolog_eq]
  rfl

/-- The rules of the table for signs are filters. Four of them keep the characters of a set,
each by itself: the signs of arithmetic, the parentheses, the punctuation marks, and whatever is
outside of the alphabet. Logical operators are the commas, semicolons and arrows, in order of
position. An assignment is one equals sign if there is any.

So a comma is one logical operator and one punctuation mark. An arrow is one logical operator, and
besides one operator, its first character, and one character outside of the alphabet, its second. -/
theorem scan_signs (text : List Char) :
    (∀ pass, pass ∈ prolog ∧ pass.category ∈ [.logicalOperator, .operator, .assignment,
        .parenthesis, .punctuation, .unrecognized] ↔
      pass ∈ [logicalOperator, operator, assignment, parenthesis, punctuation, unrecognized]) ∧
      operator.scan text =
        (text.filter (· ∈ ['+', '-', '*', '/'])).map (fun x => String.ofList [x]) ∧
      parenthesis.scan text = (text.filter (· ∈ ['(', ')'])).map (fun x => String.ofList [x]) ∧
      punctuation.scan text = (text.filter (· ∈ ['.', ','])).map (fun x => String.ofList [x]) ∧
      unrecognized.scan text =
        (text.filter fun x =>
          !(x.isAlphanum || x ∈ ['_', '(', ')', ',', ';', '=', '+', '-', '*', '/',
          '.', '\t', '\n', '\x0c', '\r', ' '])).map (fun x => String.ofList [x]) ∧
      logicalOperator.scan text = (List.range text.length).filterMap (logicalSignAt? text) ∧
      assignment.scan text = (if '=' ∈ text then ["="] else []) ∧
      (∀ i, text[i]? = some ',' →
        logicalOperator.spansMeeting text i (i + 1) = [(i, i + 1)] ∧
          punctuation.spansMeeting text i (i + 1) = [(i, i + 1)]) ∧
      ∀ i, text[i]? = some '-' → text[i + 1]? = some '>' →
        logicalOperator.spansMeeting text i (i + 2) = [(i, i + 2)] ∧
          operator.spansMeeting text i (i + 2) = [(i, i + 1)] ∧
          unrecognized.spansMeeting text i (i + 2) = [(i + 1, i + 2)] := by
  refine ⟨fun pass => mem_signs_iff, ?_, ?_, ?_, ?_, scan_logicalOperator text,
    scan_assignment text, fun i => spansMeeting_comma, fun i => spansMeeting_arrow⟩
  · rw [Rule.scan_chars rfl rfl, funext contains_operatorSet]
  · rw [Rule.scan_chars rfl rfl, funext contains_parenthesisSet]
  · rw [Rule.scan_chars rfl rfl, funext contains_punctuationSet]
  · rw [Rule.scan_chars rfl rfl, funext contains_foreignSet_eq]

/-- A line with an arrow, a vertical tab, a comma, a blank and a letter beyond ASCII, and two
equals signs. -/
theorem scan_signs_arrow :
    let text := "a->\x0b,\u00a0b=é=1".toList
    logicalOperator.scan text = ["->", ","] ∧
      unrecognized.scan text = [">", "\x0b", "\u00a0", "é"] ∧ assignment.scan text = ["="] ∧
      (text[1]? = some '-' ∧ text[2]? = some '>' ∧
        logicalOperator.spansMeeting text 1 3 = [(1, 3)] ∧
          operator.spansMeeting text 1 3 = [(1, 2)] ∧
        unrecognized.spansMeeting text 1 3 = [(2, 3)]) ∧
      text[4]? = some ',' ∧ logicalOperator.spansMeeting text 4 5 = [(4, 5)] ∧
        punctuation.spansMeeting text 4 5 = [(4, 5)] := by
  intro text
  obtain ⟨-, -, -, -, hforeign, hlogical, hassignment, hcomma, harrow⟩ := scan_signs text
  have hdash : text[1]? = some '-' := by decide
  have hangle : text[2]? = some '>' := by decide
  have hmark : text[4]? = some ',' := by decide
  rw [hforeign, hlogical, hassignment]
  exact ⟨by decide, by decide, by decide, ⟨hdash, hangle, harrow 1 hdash hangle⟩, hmark,
    hcomma 4 hmark⟩

end RuleTable.Prolog
end PrologTokens
