import Mathlib.Logic.Basic
import PrologTokens.Proofs.Rule.Coverage

/-!
# Blind spots of the rules for Prolog

A character of a line that is part of no match of any rule is passed over without a trace. Apart
from clauses and lists, which take up whatever their shape asks for, this happens to blanks, to
every equals sign but the first one, and to the front part of some words. The main statement,
`not_covers_iff_blindSpot`, says that it happens to these characters and to no others.

A character of any other kind than these is `Exposed`: some rule takes it up wherever it stands.
Apart from the rules for clauses, lists, variables, atoms and assignments, no rule takes up
anything else.
-/

set_option autoImplicit false

namespace PrologTokens.RuleTable

open Pattern Prolog

variable {text : List Char} {position : Nat} {x : Char}

/-! ## Exposed characters -/

/-- A character that is no blank, no equals sign, no capital letter and no underscore. -/
def Exposed (x : Char) : Prop := x ∉ blanks ∧ x ≠ '=' ∧ x.isUpper = false ∧ x ≠ '_'

instance (x : Char) : Decidable (Exposed x) := inferInstanceAs (Decidable (_ ∧ _))

theorem not_exposed_iff : ¬ Exposed x ↔ x ∈ blanks ∨ x = '=' ∨ x.isUpper = true ∨ x = '_' := by
  simp only [Exposed, not_and_or, not_not, ne_eq, Bool.not_eq_false]

/-- Characters of a kind that leaves out capital letters, blanks, the equals sign and the underscore
are exposed. -/
theorem exposed_of {P : Char → Bool} (hother : (('=' :: '_' :: blanks).all fun c => !P c) = true)
    (hupper : ∀ c, c.isUpper = true → P c = false) (hx : P x = true) : Exposed x := by
  have hnot : P x ≠ false := fun h => Bool.false_ne_true (h.symm.trans hx)
  have hothers : x ∉ '=' :: '_' :: blanks := fun hmem =>
    hnot ((Bool.not_eq_true' _).mp (List.all_eq_true.mp hother x hmem))
  rw [List.mem_cons, List.mem_cons, not_or, not_or] at hothers
  obtain ⟨hequals, hunderscore, hblank⟩ := hothers
  exact ⟨hblank, hequals, eq_false_of_ne_true fun h => hnot (hupper x h), hunderscore⟩

theorem exposed_of_isDigit (hx : x.isDigit = true) : Exposed x :=
  exposed_of (by decide) (fun _ => isDigit_eq_false_of_isUpper) hx

theorem exposed_of_isLower (hx : x.isLower = true) : Exposed x :=
  exposed_of (by decide) (fun _ => isLower_eq_false_of_isUpper) hx

theorem exposed_of_foreign (hx : foreignSet.contains x = true) : Exposed x := by
  refine exposed_of (by decide) (fun c hc => ?_) hx
  have hword : Text.isWord c = true := (isWord_iff c).mpr (.inl hc)
  rw [contains_foreignSet, hword, Bool.true_or, Bool.true_or, Bool.not_true]

/-- Every exposed character is part of a match. -/
theorem exists_covers_of_exposed (hx : text[position]? = some x) (h : Exposed x) :
    ∃ rule ∈ prolog, rule.Covers text position := by
  obtain ⟨hblank, hequals, hupper, hunderscore⟩ := h
  have hkinds : foreignSet.contains x = true ∨ x.isLower = true ∨ x.isDigit = true ∨ x ∈ signs := by
    cases hforeign : foreignSet.contains x with
    | true => exact .inl rfl
    | false =>
      rw [contains_foreignSet, Bool.not_eq_false', Bool.or_eq_true, Bool.or_eq_true,
        decide_eq_true_eq, decide_eq_true_eq, isWord_iff, hupper] at hforeign
      simpa [hblank, hunderscore, or_assoc] using hforeign
  rcases hkinds with hforeign | hlower | hdigit | hsign
  · exact ⟨unrecognized, by simp [prolog], (Rule.covers_chars_iff rfl rfl hx).mpr hforeign⟩
  · have hword : AllBetween (Text.isWord · = true) text position (position + 1) :=
      .of_char hx ((isWord_iff x).mpr (.inr (.inl hlower)))
    exact ⟨atom, by simp [prolog],
      (covers_atom_iff hx).mpr ⟨position, x, Nat.le_refl _, hx, hlower, hword⟩⟩
  · exact ⟨number, by simp [prolog], (covers_number_iff hx).mpr hdigit⟩
  · rcases signs_cases x hsign with hop | hparen | hpunct | rfl | rfl
    · refine ⟨operator, by simp [prolog], (Rule.covers_chars_iff rfl rfl hx).mpr ?_⟩
      exact (contains_operatorSet x).trans (decide_eq_true hop)
    · refine ⟨parenthesis, by simp [prolog], (Rule.covers_chars_iff rfl rfl hx).mpr ?_⟩
      exact (contains_parenthesisSet x).trans (decide_eq_true hparen)
    · refine ⟨punctuation, by simp [prolog], (Rule.covers_chars_iff rfl rfl hx).mpr ?_⟩
      exact (contains_punctuationSet x).trans (decide_eq_true hpunct)
    · exact ⟨logicalOperator, by simp [prolog], covers_logicalOperator_of_semicolon hx⟩
    · exact absurd rfl hequals

/-! ## Rules that take up exposed characters only -/

theorem over_exposed_reserved (word : ReservedWord) : (reserved word).pattern.Over Exposed := by
  have hlower : word.spelling.toList.all Char.isLower = true := by
    cases word <;> decide
  refine over_sequence fun p hp => ?_
  simp only [List.cons_append, List.mem_cons, List.mem_append, List.mem_map, List.not_mem_nil,
    or_false] at hp
  rcases hp with rfl | ⟨c, hc, rfl⟩ | rfl
  · trivial
  · exact over_literal.mpr (exposed_of_isLower (List.all_eq_true.mp hlower c hc))
  · trivial

/-- A set that is given character by character is exposed if these characters are. -/
theorem over_exposed_of_mem {set : CharSet} {cs : List Char}
    (hset : ∀ x, set.contains x = decide (x ∈ cs)) (hcs : (cs.all fun c => Exposed c) = true) :
    (chars set).Over Exposed := by
  intro x hx
  rw [hset, decide_eq_true_eq] at hx
  exact of_decide_eq_true (List.all_eq_true.mp hcs x hx)

theorem over_exposed_logicalOperator : logicalOperator.pattern.Over Exposed := by
  have harrow : (sequence [literal '-', literal '>']).Over Exposed :=
    ⟨over_literal.mpr (by decide), over_literal.mpr (by decide)⟩
  exact ⟨over_literal.mpr (by decide), over_literal.mpr (by decide), harrow⟩

/-- The rules of the table: those for clauses and lists, those for variables, atoms and assignments,
and the others, which take up exposed characters only. -/
theorem kind_of_mem_prolog {rule : Rule} (h : rule ∈ prolog) :
    rule.category ∈ [.fact, .rule, .query, .list] ∨ rule = variableWord ∨ rule = atom ∨
      rule = assignment ∨ rule.pattern.Over Exposed := by
  have hplain {pass : Rule} (hover : pass.pattern.Over Exposed) :
      pass.category ∈ [.fact, .rule, .query, .list] ∨ pass = variableWord ∨ pass = atom ∨
        pass = assignment ∨ pass.pattern.Over Exposed := .inr (.inr (.inr (.inr hover)))
  cases h using mem_prolog_cases with
  | fact _ => exact .inl (by decide)
  | rule _ => exact .inl (by decide)
  | query _ => exact .inl (by decide)
  | variableWord _ => exact .inr (.inl rfl)
  | list _ => exact .inl (by decide)
  | logicalOperator _ => exact hplain over_exposed_logicalOperator
  | number _ => exact hplain fun x hx => exposed_of_isDigit (contains_digitSet x ▸ hx)
  | operator _ => exact hplain (over_exposed_of_mem contains_operatorSet (by decide))
  | assignment _ => exact .inr (.inr (.inr (.inl rfl)))
  | parenthesis _ => exact hplain (over_exposed_of_mem contains_parenthesisSet (by decide))
  | punctuation _ => exact hplain (over_exposed_of_mem contains_punctuationSet (by decide))
  | atom _ => exact .inr (.inr (.inl rfl))
  | reserved word _ => exact hplain (over_exposed_reserved word)
  | unrecognized _ => exact hplain fun _ => exposed_of_foreign

/-! ## Blind spots -/

/-- A character that no rule takes up unless as part of a clause or a list. -/
inductive BlindSpot (text : List Char) (position : Nat) : Prop where
  /-- A blank. -/
  | blank {x : Char} (char : text[position]? = some x) (mem : x ∈ blanks)
  /-- An equals sign behind another one. -/
  | equalsAgain {earlier : Nat} (char : text[position]? = some '=') (before : earlier < position)
      (again : text[earlier]? = some '=')
  /-- A capital letter or an underscore in a word that does not start with a capital letter, with no
  small letter in the word up to there. -/
  | wordPart {x : Char} {start stop : Nat} (char : text[position]? = some x)
      (kind : x.isUpper = true ∨ x = '_') (run : IsWordRun text start stop)
      (inside : start ≤ position ∧ position < stop)
      (first : ∀ y, text[start]? = some y → y.isUpper = false)
      (small : AllBetween (·.isLower = false) text start (position + 1))

/-- What is blind is not exposed. -/
theorem BlindSpot.not_exposed (h : BlindSpot text position) (hx : text[position]? = some x) :
    ¬ Exposed x := by
  rw [not_exposed_iff]
  cases h with
  | blank char mem =>
    rw [hx, Option.some.injEq] at char
    exact .inl (char ▸ mem)
  | equalsAgain char _ _ =>
    rw [hx, Option.some.injEq] at char
    exact .inr (.inl char)
  | wordPart char kind _ _ _ _ =>
    rw [hx, Option.some.injEq] at char
    exact .inr (.inr (char ▸ kind))

/-- A word character that is a blind spot stands in a word without a capital letter in front and
without a small letter up to there. -/
theorem BlindSpot.exists_isWordRun (h : BlindSpot text position) (hx : text[position]? = some x)
    (hword : Text.isWord x = true) :
    ∃ start stop, IsWordRun text start stop ∧ (start ≤ position ∧ position < stop) ∧
      (∀ y, text[start]? = some y → y.isUpper = false) ∧
      AllBetween (·.isLower = false) text start (position + 1) := by
  cases h with
  | blank char mem =>
    rw [hx, Option.some.injEq] at char
    rw [char, isWord_eq_false_of_mem_blanks mem] at hword
    exact absurd hword Bool.false_ne_true
  | equalsAgain char _ _ =>
    rw [hx, Option.some.injEq] at char
    exact absurd (char ▸ hword) (by decide)
  | wordPart _ _ run inside first small => exact ⟨_, _, run, inside, first, small⟩

theorem BlindSpot.not_covers_variableWord (h : BlindSpot text position)
    (hx : text[position]? = some x) : ¬ variableWord.Covers text position := by
  intro hcovers
  obtain ⟨start, stop, run, inside, first, -⟩ :=
    h.exists_isWordRun hx (hcovers.over over_variableWord hx)
  obtain ⟨y, hy, hupper⟩ := (covers_variableWord_iff run inside).mp hcovers
  rw [first y hy] at hupper
  exact absurd hupper Bool.false_ne_true

theorem BlindSpot.not_covers_atom (h : BlindSpot text position) (hx : text[position]? = some x) :
    ¬ atom.Covers text position := by
  intro hcovers
  obtain ⟨start, stop, run, inside, -, small⟩ := h.exists_isWordRun hx (hcovers.over over_atom hx)
  obtain ⟨first, y, hfirst, hy, hlower, hword⟩ := (covers_atom_iff hx).mp hcovers
  have hnot : y.isLower = false :=
    small first y (run.start_le inside hword) (Nat.lt_succ_of_le hfirst) hy
  rw [hnot] at hlower
  exact absurd hlower Bool.false_ne_true

theorem BlindSpot.not_covers_assignment (h : BlindSpot text position) :
    ¬ assignment.Covers text position := by
  intro hcovers
  obtain ⟨hequals, hfirst⟩ := covers_assignment_iff.mp hcovers
  cases h with
  | blank char mem =>
    rw [hequals, Option.some.injEq] at char
    exact absurd (char ▸ mem) (by decide)
  | equalsAgain _ before again => exact hfirst _ before again
  | wordPart char kind _ _ _ _ =>
    rw [hequals, Option.some.injEq] at char
    exact absurd (char ▸ kind) (by decide)

/-- What is in no match and not exposed is a blind spot. -/
theorem blindSpot_of_not_covers (hx : text[position]? = some x)
    (h : ∀ rule ∈ prolog, ¬ rule.Covers text position) : BlindSpot text position := by
  have hkinds : x ∈ blanks ∨ x = '=' ∨ x.isUpper = true ∨ x = '_' := by
    refine not_exposed_iff.mp fun hexposed => ?_
    obtain ⟨rule, hrule, hcovers⟩ := exists_covers_of_exposed hx hexposed
    exact h rule hrule hcovers
  rcases hkinds with hblank | rfl | hkind
  · exact .blank hx hblank
  · by_cases hagain : ∃ i, i < position ∧ text[i]? = some '='
    · obtain ⟨i, hi, hequals⟩ := hagain
      exact .equalsAgain hx hi hequals
    · have hcovers : assignment.Covers text position :=
        covers_assignment_iff.mpr ⟨hx, fun i hi hequals => hagain ⟨i, hi, hequals⟩⟩
      exact absurd hcovers (h assignment (by simp [prolog]))
  · have hword : Text.isWord x = true := by
      rw [isWord_iff]
      rcases hkind with hupper | hunderscore
      · exact .inl hupper
      · exact .inr (.inr (.inr hunderscore))
    obtain ⟨start, stop, run, inside⟩ := exists_isRun hx hword
    refine .wordPart hx hkind run inside (fun y hy => ?_) (fun i y hi hi' hy => ?_)
    · refine eq_false_of_ne_true fun hupper => ?_
      exact h variableWord (by simp [prolog])
        ((covers_variableWord_iff run inside).mpr ⟨y, hy, hupper⟩)
    · refine eq_false_of_ne_true fun hlower => ?_
      exact h atom (by simp [prolog]) ((covers_atom_iff hx).mpr
        ⟨i, y, Nat.le_of_lt_succ hi', hy, hlower, run.all.mono hi inside.2⟩)

/-- A character of a line is part of no match of any rule exactly if it is part of no clause and no
list and is a blind spot. -/
theorem not_covers_iff_blindSpot (text : List Char) (position : Fin text.length) :
    (∀ rule ∈ prolog, ¬ rule.Covers text position) ↔
      (∀ rule ∈ prolog, rule.category ∈ [.fact, .rule, .query, .list] →
        ¬ rule.Covers text position) ∧
      BlindSpot text position := by
  have hx : text[position.val]? = some text[position] := List.getElem?_eq_getElem position.isLt
  constructor
  · intro h
    exact ⟨fun rule hrule _ => h rule hrule, blindSpot_of_not_covers hx h⟩
  · rintro ⟨hclauses, hblind⟩ rule hrule hcovers
    rcases kind_of_mem_prolog hrule with hcategory | rfl | rfl | rfl | hover
    · exact hclauses rule hrule hcategory hcovers
    · exact hblind.not_covers_variableWord hx hcovers
    · exact hblind.not_covers_atom hx hcovers
    · exact hblind.not_covers_assignment hcovers
    · exact hblind.not_exposed hx (hcovers.over hover hx)

end PrologTokens.RuleTable
