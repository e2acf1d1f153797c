import PrologTokens.Proofs.Pattern.Greedy
import PrologTokens.Proofs.Pattern.WordRun
import PrologTokens.Proofs.Rule.Alphabet

/-!
# What the rules cover

A rule covers a position of a line if the character there is part of one of its matches. For a
rule that reports all matches this is the case wherever its pattern describes a span; a match
that was found before and reaches further changes nothing about that.

The statements about single rules say which positions they cover: variables and whole words with
a capital letter in front, atoms and everything from a small letter on to the end of a word,
assignments and the first equals sign of the line.
-/

set_option autoImplicit false

namespace PrologTokens

open Pattern

variable {text : List Char} {position start stop : Nat} {x : Char}

namespace Rule

variable {rule : Rule}

/-- The character at a position is part of a match of the rule. -/
def Covers (rule : Rule) (text : List Char) (position : Nat) : Prop :=
  ∃ m ∈ rule.findAll text, m.start ≤ position ∧ position < m.stop

theorem covers_iff :
    rule.Covers text position ↔
      ∃ start stop, rule.Reports text start stop ∧ start ≤ position ∧ position < stop := by
  constructor
  · rintro ⟨m, hm, hstart, hstop⟩
    obtain ⟨start, stop, hreports, rfl⟩ := mem_findAll_iff.mp hm
    have hbounds := hreports.bounds
    rw [stop_extract (Nat.le_of_lt hbounds.1) hbounds.2] at hstop
    exact ⟨start, stop, hreports, hstart, hstop⟩
  · rintro ⟨start, stop, hreports, hstart, hstop⟩
    have hbounds := hreports.bounds
    refine ⟨_, mem_findAll_iff.mpr ⟨start, stop, hreports, rfl⟩, hstart, ?_⟩
    rw [stop_extract (Nat.le_of_lt hbounds.1) hbounds.2]
    exact hstop

/-- A reported span was found from some position of the line on. -/
theorem Reports.found (h : rule.Reports text start stop) :
    ∃ i, i ≤ text.length ∧ rule.pattern.FindsFrom text i start stop := by
  unfold Reports at h
  split at h
  · obtain ⟨-, i, hvisits, hfound⟩ := h
    exact ⟨i, (le_of_visits hvisits (Nat.zero_le _)).2, hfound⟩
  · exact ⟨0, Nat.zero_le _, h.2⟩

/-- A reported span is one that the pattern describes. -/
theorem Reports.describes (h : rule.Reports text start stop) :
    rule.pattern.Describes text start stop := by
  obtain ⟨i, hi, hfound⟩ := h.found
  have hbounds := hfound.bounds hi
  exact ⟨by omega, hfound.matches hi⟩

/-- A rule covers only characters that occur in its pattern. -/
theorem Covers.over {P : Char → Prop} (h : rule.Covers text position) (hrule : rule.pattern.Over P)
    (hx : text[position]? = some x) : P x := by
  obtain ⟨start, stop, hreports, hstart, hstop⟩ := covers_iff.mp h
  exact hreports.describes.over hrule position x hstart hstop hx

/-- A rule for all matches covers every position from which its pattern describes a span, if it
describes no empty one on the line. -/
theorem covers_of_describes_of_nonempty (hscope : rule.scope = .all)
    (hempty : ∀ i, ¬ rule.pattern.Describes text i i)
    (h : rule.pattern.Describes text position stop) : rule.Covers text position := by
  obtain ⟨start, stop, hway, hin⟩ := exists_findsOnWay_of_matches
    (fun j hj hmatches => hempty j ⟨hj, hmatches⟩) h.1 h.2 0 (Nat.zero_le position)
  refine covers_iff.mpr ⟨start, stop, ?_, hin⟩
  rw [Reports, hscope]
  exact hway

theorem covers_of_describes (hscope : rule.scope = .all) (hempty : rule.pattern.canBeEmpty = false)
    (h : rule.pattern.Describes text position stop) : rule.Covers text position := by
  refine covers_of_describes_of_nonempty hscope (fun i hi => ?_) h
  exact Nat.lt_irrefl i (hi.2.lt_of_canBeEmpty hempty)

/-- A rule for single characters covers the characters of its set. -/
theorem covers_chars_iff {set : CharSet} (hscope : rule.scope = .all)
    (hpattern : rule.pattern = chars set) (hx : text[position]? = some x) :
    rule.Covers text position ↔ set.contains x = true := by
  have hover : rule.pattern.Over (set.contains · = true) := by
    rw [hpattern]
    exact fun _ hset => hset
  constructor
  · intro h
    exact h.over hover hx
  · intro hset
    have hdescribes : rule.pattern.Describes text position (position + 1) := by
      rw [hpattern]
      exact describes_chars.mpr ⟨rfl, x, hx, hset⟩
    refine covers_of_describes hscope ?_ hdescribes
    rw [hpattern, canBeEmpty]

end Rule

namespace RuleTable.Prolog

/-! ## Words -/

theorem over_variableWord : variableWord.pattern.Over (Text.isWord · = true) := by
  have hcapital : ∀ x, upperSet.contains x = true → Text.isWord x = true := fun x hx =>
    (isWord_iff x).mpr (.inl (contains_upperSet x ▸ hx))
  exact ⟨trivial, hcapital, fun x hx => (contains_tailSet x).symm.trans hx, trivial⟩

theorem over_atom : atom.pattern.Over (Text.isWord · = true) := by
  have hsmall : ∀ x, lowerSet.contains x = true → Text.isWord x = true := fun x hx =>
    (isWord_iff x).mpr (.inr (.inl (contains_lowerSet x ▸ hx)))
  exact ⟨hsmall, fun x hx => (contains_tailSet x).symm.trans hx⟩

/-- A variable is a whole run of word characters with a capital letter in front. -/
theorem describes_variableWord :
    variableWord.pattern.Describes text start stop ↔
      IsWordRun text start stop ∧ ∃ y, text[start]? = some y ∧ y.isUpper = true := by
  have hpattern : variableWord.pattern =
      seq boundary (seq (chars upperSet) (seq (star (chars tailSet) true) boundary)) := rfl
  constructor
  · intro h
    have hall := h.over over_variableWord
    rw [hpattern] at h
    obtain ⟨_, hleft, hword⟩ := describes_seq.mp h
    obtain ⟨hstart, -, hbefore⟩ := describes_anchor.mp hleft
    obtain rfl := hstart.symm
    obtain ⟨_, hcapital, hmore⟩ := describes_seq.mp hword
    obtain ⟨rfl, y, hy, hupper⟩ := describes_chars.mp hcapital
    obtain ⟨_, htail, hright⟩ := describes_seq.mp hmore
    obtain ⟨rfl, hstop, hbehind⟩ := describes_anchor.mp hright
    rw [contains_upperSet] at hupper
    exact
      ⟨(isWordRun_iff_boundaries htail.bounds.1 hstop hall).mpr ⟨hbefore, hbehind⟩, y, hy, hupper⟩
  · rintro ⟨run, y, hy, hupper⟩
    obtain ⟨hbefore, hbehind⟩ :=
      (isWordRun_iff_boundaries run.nonempty run.inside run.all).mp run
    have hrest : AllBetween (tailSet.contains · = true) text (start + 1) stop := by
      intro i x hi hi' hx
      rw [contains_tailSet]
      exact run.all i x (Nat.le_of_succ_le hi) hi' hx
    have hleft : boundary.Describes text start start :=
      describes_anchor.mpr ⟨rfl, Nat.le_trans (Nat.le_of_lt run.nonempty) run.inside, hbefore⟩
    have hcapital : (chars upperSet).Describes text start (start + 1) :=
      describes_chars.mpr ⟨rfl, y, hy, (contains_upperSet y).trans hupper⟩
    have htail : (star (chars tailSet) true).Describes text (start + 1) stop :=
      describes_star_of_allBetween run.nonempty run.inside hrest
    have hright : boundary.Describes text stop stop :=
      describes_anchor.mpr ⟨rfl, run.inside, hbehind⟩
    exact describes_seq.mpr ⟨_, hleft, describes_seq.mpr ⟨_, hcapital,
      describes_seq.mpr ⟨_, htail, hright⟩⟩⟩

/-- Of a run of word characters either everything or nothing is part of a variable. -/
theorem covers_variableWord_iff (run : IsWordRun text start stop)
    (hin : start ≤ position ∧ position < stop) :
    variableWord.Covers text position ↔ ∃ y, text[start]? = some y ∧ y.isUpper = true := by
  constructor
  · intro h
    obtain ⟨start', stop', hreports, hin'⟩ := Rule.covers_iff.mp h
    obtain ⟨run', hcapital⟩ := describes_variableWord.mp hreports.describes
    rw [(run.unique run' hin hin').1]
    exact hcapital
  · intro hcapital
    have hdescribes := describes_variableWord.mpr ⟨run, hcapital⟩
    have hcovers : variableWord.Covers text start := Rule.covers_of_describes rfl rfl hdescribes
    obtain ⟨start', stop', hreports, hin'⟩ := Rule.covers_iff.mp hcovers
    -- What covers the start of the run is the run.
    obtain ⟨run', -⟩ := describes_variableWord.mp hreports.describes
    obtain ⟨rfl, rfl⟩ := run.unique run' ⟨Nat.le_refl _, run.nonempty⟩ hin'
    exact Rule.covers_iff.mpr ⟨start, stop, hreports, hin⟩

/-- Atoms cover what stands in a word from a small letter on. -/
theorem covers_atom_iff (hx : text[position]? = some x) :
    atom.Covers text position ↔
      ∃ first y, first ≤ position ∧ text[first]? = some y ∧ y.isLower = true ∧
        AllBetween (Text.isWord · = true) text first (position + 1) := by
  constructor
  · intro h
    obtain ⟨start, stop, hreports, hstart, hstop⟩ := Rule.covers_iff.mp h
    have hword := hreports.describes.over over_atom
    obtain ⟨_, hsmall, -⟩ := describes_seq.mp hreports.describes
    obtain ⟨rfl, y, hy, hlower⟩ := describes_chars.mp hsmall
    rw [contains_lowerSet] at hlower
    exact ⟨start, y, hstart, hy, hlower, hword.mono (Nat.le_refl _) hstop⟩
  · rintro ⟨first, y, hle, hy, hlower, hall⟩
    have hfirst : first < text.length := (List.getElem?_eq_some_iff.mp hy).1
    have hsmall : (chars lowerSet).Describes text first (first + 1) :=
      describes_chars.mpr ⟨rfl, y, hy, (contains_lowerSet y).trans hlower⟩
    have htail : (star (chars tailSet) true).Describes text (first + 1) (first + 1) :=
      describes_star_of_allBetween (Nat.le_refl _) hfirst AllBetween.empty
    have hdescribes : atom.pattern.Describes text first (first + 1) :=
      describes_seq.mpr ⟨_, hsmall, htail⟩
    obtain ⟨start, stop, hreports, hstart, hstop⟩ :=
      Rule.covers_iff.mp (Rule.covers_of_describes rfl rfl hdescribes)
    refine Rule.covers_iff.mpr ⟨start, stop, hreports, Nat.le_trans hstart hle, ?_⟩
    -- The match goes on to the end of the word, so it does not stop before the position.
    refine Nat.lt_of_not_le fun hstopLe => ?_
    obtain ⟨i, hi, hfound⟩ := hreports.found
    have hlength : position < text.length := (List.getElem?_eq_some_iff.mp hx).1
    have hget : text[stop]? = some text[stop] := List.getElem?_eq_getElem (by omega)
    have hpast := FindsFrom.past hfound hi hget
    rw [contains_tailSet, hall stop _ (Nat.le_of_lt hstop) (by omega) hget] at hpast
    exact absurd hpast.symm Bool.false_ne_true

/-! ## Numbers and signs -/

/-- Numbers cover every digit. -/
theorem covers_number_iff (hx : text[position]? = some x) :
    number.Covers text position ↔ x.isDigit = true := by
  rw [← contains_digitSet]
  have hover : number.pattern.Over (digitSet.contains · = true) := fun _ hset => hset
  constructor
  · intro h
    exact h.over hover hx
  · intro hset
    obtain ⟨hstart, hdigit⟩ : (chars digitSet).Describes text position (position + 1) :=
      describes_chars.mpr ⟨rfl, x, hx, hset⟩
    have hdescribes : number.pattern.Describes text position (position + 1) :=
      ⟨hstart, .plus hdigit (.starNone _)⟩
    exact Rule.covers_of_describes rfl rfl hdescribes

/-- Logical operators cover every semicolon. -/
theorem covers_logicalOperator_of_semicolon (hx : text[position]? = some ';') :
    logicalOperator.Covers text position := by
  have hdescribes : logicalOperator.pattern.Describes text position (position + 1) :=
    describes_alt.mpr (.inr (describes_alt.mpr (.inl (describes_literal.mpr ⟨rfl, hx⟩))))
  exact Rule.covers_of_describes rfl rfl hdescribes

/-- The assignment of a line is its first equals sign. -/
theorem covers_assignment_iff :
    assignment.Covers text position ↔
      text[position]? = some '=' ∧ ∀ i, i < position → text[i]? ≠ some '=' := by
  constructor
  · intro h
    obtain ⟨start, stop, hreports, hstart, hstop⟩ := Rule.covers_iff.mp h
    obtain ⟨rfl, hx⟩ := describes_literal.mp hreports.describes
    obtain rfl : start = position := Nat.le_antisymm hstart (Nat.le_of_lt_succ hstop)
    refine ⟨hx, fun i hi hequals => ?_⟩
    have hearlier : assignment.pattern.Describes text i (i + 1) :=
      describes_literal.mpr ⟨rfl, hequals⟩
    exact hreports.2.leftmost (Nat.zero_le _) (Nat.zero_le i) hi _ hearlier.2
  · rintro ⟨hx, hfirst⟩
    have hdescribes : assignment.pattern.Describes text position (position + 1) :=
      describes_literal.mpr ⟨rfl, hx⟩
    obtain ⟨start, stop, hfound⟩ :=
      exists_findsFrom (Nat.zero_le position) hdescribes.1 hdescribes.2
    have hle : start ≤ position := Nat.le_of_not_lt fun hlt =>
      hfound.leftmost (Nat.zero_le _) (Nat.zero_le _) hlt _ hdescribes.2
    have hstart : start ≤ text.length := Nat.le_trans hle hdescribes.1
    obtain ⟨rfl, hequals⟩ := describes_literal.mp ⟨hstart, hfound.matches (Nat.zero_le _)⟩
    obtain rfl : start = position :=
      Nat.le_antisymm hle (Nat.le_of_not_lt fun hlt => hfirst start hlt hequals)
    have hreports : assignment.Reports text start (start + 1) := ⟨Nat.lt_succ_self _, hfound⟩
    exact Rule.covers_iff.mpr ⟨start, _, hreports, Nat.le_refl _, Nat.lt_succ_self _⟩

end RuleTable.Prolog
end PrologTokens
