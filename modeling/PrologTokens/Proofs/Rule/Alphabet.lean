import PrologTokens.Proofs.Pattern.CharSet
import PrologTokens.Rule.Prolog

/-!
# The alphabet of Prolog

The sets of characters in the rules for Prolog, each by the characters that it holds. Every
character is a word character, a sign, a blank or foreign, as `contains_foreignSet` says; which
rule takes up which of them is decided on these grounds.
-/

set_option autoImplicit false

namespace PrologTokens.RuleTable.Prolog

/-! ## Word characters -/

/-- A capital letter is one between `A` and `Z`. -/
theorem isUpper_eq (x : Char) : x.isUpper = ('A' ≤ x && x ≤ 'Z') := Bool.decide_and _ _

theorem isWord_eq (x : Char) :
    Text.isWord x = (((x.isUpper || x.isLower) || x.isDigit) || decide (x = '_')) := rfl

theorem isWord_iff (x : Char) :
    Text.isWord x = true ↔
      x.isUpper = true ∨ x.isLower = true ∨ x.isDigit = true ∨ x = '_' := by
  simp only [isWord_eq, Bool.or_eq_true, decide_eq_true_eq, or_assoc]

theorem isDigit_eq_false_of_isUpper {x : Char} (h : x.isUpper = true) : x.isDigit = false := by
  rw [isUpper_eq, Bool.and_eq_true, decide_eq_true_eq] at h
  have hnot : ¬ x ≤ '9' := fun hle => absurd (Char.le_trans h.1 hle) (by decide)
  exact Bool.and_eq_false_iff.mpr (.inr (decide_eq_false hnot))

theorem isLower_eq_false_of_isUpper {x : Char} (h : x.isUpper = true) : x.isLower = false := by
  rw [isUpper_eq, Bool.and_eq_true, decide_eq_true_eq, decide_eq_true_eq] at h
  have hnot : ¬ 'a' ≤ x := fun hle => absurd (Char.le_trans hle h.2) (by decide)
  exact Bool.and_eq_false_iff.mpr (.inl (decide_eq_false hnot))

theorem contains_upperSet (x : Char) : upperSet.contains x = x.isUpper := by
  rw [upperSet, CharSet.contains_ofRanges (by decide), isUpper_eq]
  simp only [List.any_cons, List.any_nil, Bool.or_false]

theorem contains_lowerSet (x : Char) : lowerSet.contains x = x.isLower := by
  rw [lowerSet, CharSet.contains_ofRanges (by decide)]
  simp only [List.any_cons, List.any_nil, Bool.or_false]
  rfl

theorem contains_digitSet (x : Char) : digitSet.contains x = x.isDigit := by
  rw [digitSet, CharSet.contains_ofRanges (by decide)]
  simp only [List.any_cons, List.any_nil, Bool.or_false]
  rfl

theorem contains_tailSet (x : Char) : tailSet.contains x = Text.isWord x := by
  rw [tailSet, CharSet.contains_ofRanges (by decide), isWord_eq, isUpper_eq]
  simp only [List.any_cons, List.any_nil, Bool.or_false, CharSet.between_self, Bool.or_assoc]
  rfl

theorem contains_wordSet (x : Char) : wordSet.contains x = Text.isWord x := by
  rw [wordSet, CharSet.contains_ofRanges (by decide), ← contains_tailSet, tailSet,
    CharSet.contains_ofRanges (by decide)]
  simp only [List.any_cons, List.any_nil, Bool.or_false]
  ac_rfl

/-! ## Signs and blanks -/

theorem contains_operatorSet (x : Char) :
    operatorSet.contains x = decide (x ∈ ['+', '-', '*', '/']) :=
  CharSet.contains_ofRanges_self ['+', '-', '*', '/'] x

theorem contains_parenthesisSet (x : Char) :
    parenthesisSet.contains x = decide (x ∈ ['(', ')']) :=
  CharSet.contains_ofRanges_self ['(', ')'] x

theorem contains_punctuationSet (x : Char) :
    punctuationSet.contains x = decide (x ∈ ['.', ',']) :=
  CharSet.contains_ofRanges_self ['.', ','] x

/-- The characters of the alphabet that are neither word characters nor blanks. -/
def signs : List Char := ['(', ')', ',', ';', '=', '+', '-', '*', '/', '.']

/-- Every sign is a sign of arithmetic, a parenthesis, a punctuation mark, the semicolon or the
equals sign. -/
theorem signs_cases : ∀ x ∈ signs, x ∈ ['+', '-', '*', '/'] ∨ x ∈ ['(', ')'] ∨ x ∈ ['.', ','] ∨
    x = ';' ∨ x = '=' := by
  simp [signs]

/-- The blanks of the alphabet. -/
def blanks : List Char := ['\t', '\n', '\x0c', '\r', ' ']

theorem isWord_eq_false_of_mem_blanks {x : Char} (h : x ∈ blanks) : Text.isWord x = false := by
  have hall : (blanks.all fun c => !Text.isWord c) = true := by decide
  exact (Bool.not_eq_true' _).mp (List.all_eq_true.mp hall x h)

theorem contains_gapSet (x : Char) : gapSet.contains x = decide (x ∈ blanks) :=
  CharSet.contains_ofRanges_self blanks x

/-- A character of a simple argument list: a word character or a comma. -/
def isArgument (x : Char) : Bool := Text.isWord x || decide (x = ',')

/-- A character of the body of a clause: a word character, a parenthesis or a comma. -/
def isBody (x : Char) : Bool := Text.isWord x || decide (x ∈ ['(', ')', ','])

theorem contains_argumentSet (x : Char) : argumentSet.contains x = isArgument x := by
  rw [argumentSet, CharSet.contains_ofRanges (by decide), isArgument, ← contains_wordSet, wordSet,
    CharSet.contains_ofRanges (by decide)]
  simp only [List.any_cons, List.any_nil, Bool.or_false, CharSet.between_self, Bool.or_assoc]

theorem contains_bodySet (x : Char) : bodySet.contains x = isBody x := by
  rw [bodySet, CharSet.contains_ofRanges (by decide), isBody, ← contains_wordSet, wordSet,
    CharSet.contains_ofRanges (by decide)]
  simp only [List.any_cons, List.any_nil, Bool.or_false, CharSet.between_self, List.mem_cons,
    List.not_mem_nil, or_false, Bool.decide_or, Bool.or_assoc]

/-- The foreign characters are those that are neither word characters nor signs nor blanks. -/
theorem contains_foreignSet (x : Char) :
    foreignSet.contains x = !(Text.isWord x || decide (x ∈ signs) || decide (x ∈ blanks)) := by
  rw [foreignSet, CharSet.contains_complement (by decide), CharSet.contains_ofRanges (by decide),
    ← contains_tailSet, tailSet, CharSet.contains_ofRanges (by decide)]
  simp only [List.any_cons, List.any_nil, Bool.or_false, CharSet.between_self, signs, blanks,
    List.mem_cons, List.not_mem_nil, or_false, Bool.decide_or, Bool.or_assoc]

end PrologTokens.RuleTable.Prolog
