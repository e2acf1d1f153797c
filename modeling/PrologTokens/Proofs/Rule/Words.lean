import Mathlib.Data.List.TakeWhile
import PrologTokens.Proofs.Rule.Occurrences

/-!
# Words, atoms and numbers

The rules for variables, atoms and numbers by the words of a line. Variables are the words with a
capital letter in front. An atom is what is left of a word from its first small letter on, so a word
gives one atom or none. Numbers are the runs of digits, wherever they stand in words.

The main statement is `findAll_words`.
-/

set_option autoImplicit false

namespace PrologTokens

open Pattern

variable {text : List Char} {start stop : Nat}

/-! ## Rules that report runs -/

/-- A rule that reports some of the runs of a line gives these runs. -/
theorem Rule.findAll_eq_filter_runs {rule : Rule} {P : Char → Bool} (keep : List Char → Bool)
    (h : ∀ {start stop}, rule.Reports text start stop ↔
      IsRun P text start stop ∧ keep (text.extract start stop) = true) :
    rule.findAll text = (runs P text).filter fun run => keep run.lexeme := by
  refine findAll_eq_of_mem_iff ((runs_sorted P text).filter _) fun m => ?_
  rw [List.mem_filter, mem_runs_iff]
  constructor
  · rintro ⟨⟨start, stop, run, rfl⟩, hkeep⟩
    exact ⟨start, stop, h.mpr ⟨run, hkeep⟩, rfl⟩
  · rintro ⟨start, stop, hreports, rfl⟩
    obtain ⟨run, hkeep⟩ := h.mp hreports
    exact ⟨⟨start, stop, run, rfl⟩, hkeep⟩

/-- A rule for all matches whose pattern describes some of the runs of a line, and nothing else,
reports these runs. -/
theorem Rule.reports_iff_of_describes_runs {rule : Rule} {P : Char → Bool} (keep : List Char → Bool)
    (hscope : rule.scope = .all) (hempty : rule.pattern.canBeEmpty = false)
    (h : ∀ {start stop}, rule.pattern.Describes text start stop ↔
      IsRun P text start stop ∧ keep (text.extract start stop) = true) {start stop : Nat} :
    rule.Reports text start stop ↔
      IsRun P text start stop ∧ keep (text.extract start stop) = true := by
  refine reports_iff_of_apart
    (fun start stop => IsRun P text start stop ∧ keep (text.extract start stop) = true)
    hscope hempty ?_ ?_ ?_
  · intro start stop hreports
    exact h.mp hreports.describes
  · intro start stop hkept
    exact ⟨stop, h.mpr hkept⟩
  · rintro start stop start' stop' ⟨run, -⟩ ⟨run', -⟩ hle hlt
    exact run.unique run' ⟨Nat.le_refl _, run.nonempty⟩ ⟨hle, hlt⟩

namespace RuleTable.Prolog

/-! ## Numbers -/

theorem describes_number :
    number.pattern.Describes text start stop ↔
      start < stop ∧ stop ≤ text.length ∧ AllBetween (·.isDigit = true) text start stop := by
  have hpattern : number.pattern = plus (chars digitSet) true := rfl
  simp only [hpattern, describes_plus_chars, contains_digitSet]

/-- Numbers are the runs of digits. -/
theorem reports_number_iff :
    number.Reports text start stop ↔ IsRun Char.isDigit text start stop := by
  refine Rule.reports_iff_of_apart (IsRun Char.isDigit text) rfl rfl ?_ ?_ ?_
  · intro start stop h
    obtain ⟨hlt, hstop, hall⟩ := describes_number.mp h.describes
    refine ⟨hlt, hstop, hall, fun x hpos hx => ?_, fun x hx => ?_⟩
    · -- A digit in front would be a match of its own, and the digits go on from there.
      refine eq_false_of_ne_true fun hdigit => ?_
      have hnumber : number.pattern.Describes text (start - 1) (start - 1 + 1) :=
        describes_number.mpr ⟨by omega, by omega, .of_char hx hdigit⟩
      have hgo : AllBetween (digitSet.contains · = true) text (start - 1 + 1) (start + 1) := by
        intro i y hi hi' hy
        rw [contains_digitSet]
        exact hall i y (by omega) (by omega) hy
      exact h.not_describes_before rfl rfl .alone (by omega) hgo hnumber
    · rw [← contains_digitSet]
      exact h.past .alone hx
  · intro start stop run
    exact ⟨stop, describes_number.mpr ⟨run.nonempty, run.inside, run.all⟩⟩
  · intro start stop start' stop' run run' hle hlt
    exact run.unique run' ⟨Nat.le_refl _, run.nonempty⟩ ⟨hle, hlt⟩

theorem findAll_number (text : List Char) : number.findAll text = runs Char.isDigit text := by
  have hruns {start stop : Nat} : number.Reports text start stop ↔
      IsRun Char.isDigit text start stop ∧ true = true := by
    rw [reports_number_iff, and_iff_left rfl]
  rw [Rule.findAll_eq_filter_runs (fun _ => true) hruns, List.filter_true]

/-! ## Variables -/

theorem reports_variableWord_iff :
    variableWord.Reports text start stop ↔
      IsWordRun text start stop ∧
        (text.extract start stop).head?.any Char.isUpper = true := by
  refine Rule.reports_iff_of_describes_runs (fun lexeme => lexeme.head?.any Char.isUpper) rfl rfl ?_
  intro start stop
  rw [describes_variableWord]
  refine and_congr_right fun run => ?_
  rw [head?_extract run.nonempty, Option.any_eq_true]

/-- Variables are the words with a capital letter in front. -/
theorem findAll_variableWord (text : List Char) :
    variableWord.findAll text =
      (words text).filter fun word => word.lexeme.head?.any Char.isUpper :=
  Rule.findAll_eq_filter_runs (fun lexeme => lexeme.head?.any Char.isUpper) reports_variableWord_iff

/-! ## Atoms -/

/-- The span goes from the first small letter of a word to the end of the word. -/
structure IsAtom (text : List Char) (first start stop : Nat) : Prop where
  /-- The word. -/
  run : IsWordRun text first stop
  /-- The span starts in the word. -/
  inside : first ≤ start ∧ start < stop
  /-- It starts with a small letter. -/
  small : ∃ x, text[start]? = some x ∧ x.isLower = true
  /-- There is none before that. -/
  before : AllBetween (·.isLower = false) text first start

/-- There is only one atom around a position. -/
theorem IsAtom.unique {first first' start' stop' : Nat} (h : IsAtom text first start stop)
    (h' : IsAtom text first' start' stop') (hle : start' ≤ start) (hlt : start < stop') :
    start = start' ∧ stop = stop' := by
  obtain ⟨rfl, rfl⟩ := h.run.unique h'.run h.inside ⟨Nat.le_trans h'.inside.1 hle, hlt⟩
  refine ⟨?_, rfl⟩
  rcases Nat.lt_or_eq_of_le hle with hbefore | rfl
  · obtain ⟨x, hx, hsmall⟩ := h'.small
    rw [h.before start' x h'.inside.1 hbefore hx] at hsmall
    exact absurd hsmall Bool.false_ne_true
  · rfl

theorem describes_atom :
    atom.pattern.Describes text start stop ↔
      (∃ x, text[start]? = some x ∧ x.isLower = true) ∧ start < stop ∧ stop ≤ text.length ∧
        AllBetween (Text.isWord · = true) text (start + 1) stop := by
  have hpattern : atom.pattern = seq (chars lowerSet) (star (chars tailSet) true) := rfl
  simp only [hpattern, describes_seq, describes_chars, describes_star_chars, contains_lowerSet,
    contains_tailSet]
  constructor
  · rintro ⟨_, ⟨rfl, hsmall⟩, hle, hstop, hall⟩
    exact ⟨hsmall, hle, hstop, hall⟩
  · rintro ⟨hsmall, hlt, hstop, hall⟩
    exact ⟨start + 1, ⟨rfl, hsmall⟩, hlt, hstop, hall⟩

theorem reports_atom_iff :
    atom.Reports text start stop ↔ ∃ first, IsAtom text first start stop := by
  refine Rule.reports_iff_of_apart (fun start stop => ∃ first, IsAtom text first start stop) rfl rfl
    ?_ ?_ ?_
  · intro start stop h
    have hset : EndsInAll tailSet atom.pattern _ := .behind (chars lowerSet)
    have hall : AllBetween (Text.isWord · = true) text start stop := h.describes.over over_atom
    obtain ⟨⟨x, hx, hsmall⟩, hlt, hstop, -⟩ := describes_atom.mp h.describes
    obtain ⟨first, last, run, hin⟩ := exists_isRun hx (hall start x (Nat.le_refl _) hlt hx)
    -- The match goes on to the end of the word, and nothing in the word matches before it.
    have hlast : last = stop := by
      refine Nat.le_antisymm (Nat.le_of_not_lt fun hmore => ?_) (run.le_stop hin hstop hall)
      have hlength := run.inside
      have hget : text[stop]? = some text[stop] := List.getElem?_eq_getElem (by omega)
      have hword : Text.isWord text[stop] = true := run.all stop _ (by omega) hmore hget
      rw [← contains_tailSet, h.past hset hget] at hword
      exact absurd hword Bool.false_ne_true
    subst hlast
    refine ⟨first, run, hin, ⟨x, hx, hsmall⟩, fun k y hk hk' hy => ?_⟩
    refine eq_false_of_ne_true fun hsmall' => ?_
    have hatom : atom.pattern.Describes text k (k + 1) :=
      describes_atom.mpr ⟨⟨y, hy, hsmall'⟩, by omega, by omega, .empty⟩
    have hgo : AllBetween (tailSet.contains · = true) text (k + 1) (start + 1) := by
      intro i z hi hi' hz
      rw [contains_tailSet]
      exact run.all i z (by omega) (by omega) hz
    exact h.not_describes_before rfl rfl hset hk' hgo hatom
  · rintro start stop ⟨first, h⟩
    have hall := h.run.all.mono (Nat.le_succ_of_le h.inside.1) (Nat.le_refl _)
    exact ⟨stop, describes_atom.mpr ⟨h.small, h.inside.2, h.run.inside, hall⟩⟩
  · rintro start stop start' stop' ⟨first, h⟩ ⟨first', h'⟩ hle hlt
    exact h.unique h' hle hlt

/-- A word from its first small letter on, if there is one in it. -/
def fromSmall? (word : Match) : Option Match :=
  match word.lexeme.dropWhile fun c => !c.isLower with
  | [] => none
  | c :: lexeme =>
    some ⟨word.start + (word.lexeme.takeWhile fun c => !c.isLower).length, c :: lexeme⟩

/-- A span that is cut in front of its first small letter. -/
theorem cut_at_small {first : Nat} {x : Char} (hin : first ≤ start ∧ start < stop)
    (hx : text[start]? = some x) (hsmall : x.isLower = true)
    (hbefore : AllBetween (·.isLower = false) text first start) :
    ((text.extract first stop).takeWhile fun c => !c.isLower) = text.extract first start ∧
      ((text.extract first stop).dropWhile fun c => !c.isLower) = text.extract start stop := by
  have hfront : ∀ c ∈ text.extract first start, (!c.isLower) = true := by
    intro c hc
    rw [hbefore.of_mem_extract hc]
    rfl
  obtain ⟨rest, hrest⟩ : ∃ rest, text.extract start stop = x :: rest :=
    ⟨_, extract_eq_cons_iff.mpr ⟨hin.2, hx, rfl⟩⟩
  rw [← extract_append_extract hin.1 (Nat.le_of_lt hin.2), List.takeWhile_append_of_pos hfront,
    List.dropWhile_append_of_pos hfront, hrest, List.takeWhile_cons, List.dropWhile_cons, hsmall]
  exact ⟨List.append_nil _, rfl⟩

/-- What is left of a word from its first small letter on is the atom in it. -/
theorem fromSmall?_eq_some_iff {first : Nat} {m : Match} (run : IsWordRun text first stop) :
    fromSmall? ⟨first, text.extract first stop⟩ = some m ↔
      ∃ start, IsAtom text first start stop ∧ m = ⟨start, text.extract start stop⟩ := by
  have hcut {start : Nat} (h : IsAtom text first start stop) :
      fromSmall? ⟨first, text.extract first stop⟩ = some ⟨start, text.extract start stop⟩ := by
    obtain ⟨x, hx, hsmall⟩ := h.small
    obtain ⟨htake, hdrop⟩ := cut_at_small h.inside hx hsmall h.before
    have hlength := length_extract first (Nat.le_trans (Nat.le_of_lt h.inside.2) run.inside)
    have hrest := extract_eq_cons_iff.mpr ⟨h.inside.2, hx, rfl⟩
    simp only [fromSmall?, htake, hdrop, hlength, Nat.add_sub_cancel' h.inside.1, hrest]
  constructor
  · intro h
    -- The stretch without small letters from the start of the word on ends inside the word.
    obtain ⟨start, hle, hstart, hbefore, hbehind⟩ :=
      exists_stretch_behind (fun c => !c.isLower) text
      (Nat.le_trans (Nat.le_of_lt run.nonempty) run.inside)
    have hnone : AllBetween (·.isLower = false) text first start := fun i x hi hi' hx =>
      (Bool.not_eq_true' _).mp (hbefore i x hi hi' hx)
    rcases Nat.lt_or_ge start stop with hlt | hge
    · have hlength : start < text.length := Nat.lt_of_lt_of_le hlt run.inside
      have hget : text[start]? = some text[start] := List.getElem?_eq_getElem hlength
      have hsmall : text[start].isLower = true := (Bool.not_eq_false' _).mp (hbehind _ hget)
      have hatom : IsAtom text first start stop := ⟨run, ⟨hle, hlt⟩, ⟨_, hget, hsmall⟩, hnone⟩
      rw [hcut hatom, Option.some.injEq] at h
      exact ⟨start, hatom, h.symm⟩
    · have hall : ∀ c ∈ text.extract first stop, (!c.isLower) = true := by
        intro c hc
        rw [(hnone.mono (Nat.le_refl _) hge).of_mem_extract hc]
        rfl
      rw [fromSmall?, List.dropWhile_eq_nil_iff.mpr hall] at h
      exact absurd h (by simp)
  · rintro ⟨start, hatom, rfl⟩
    exact hcut hatom

/-- Atoms are what is left of words from their first small letters on. -/
theorem findAll_atom (text : List Char) :
    atom.findAll text = (words text).filterMap fromSmall? := by
  have hmem {m : Match} : m ∈ (words text).filterMap fromSmall? ↔
      ∃ start stop first, IsAtom text first start stop ∧ m = ⟨start, text.extract start stop⟩ := by
    simp only [List.mem_filterMap, words, mem_runs_iff]
    constructor
    · rintro ⟨_, ⟨first, stop, run, rfl⟩, hm⟩
      obtain ⟨start, hatom, rfl⟩ := (fromSmall?_eq_some_iff run).mp hm
      exact ⟨start, stop, first, hatom, rfl⟩
    · rintro ⟨start, stop, first, hatom, rfl⟩
      exact ⟨_, ⟨first, stop, hatom.run, rfl⟩,
        (fromSmall?_eq_some_iff hatom.run).mpr ⟨start, hatom, rfl⟩⟩
  refine Rule.findAll_eq_of_mem_iff ?_ fun m => ?_
  · refine List.pairwise_filterMap.mpr ((runs_apart Text.isWord text).imp_of_mem ?_)
    intro word word' hword hword' hle m hm m' hm'
    obtain ⟨first, stop, run, rfl⟩ := mem_runs_iff.mp hword
    obtain ⟨first', stop', run', rfl⟩ := mem_runs_iff.mp hword'
    rw [stop_extract (Nat.le_of_lt run.nonempty) run.inside] at hle
    obtain ⟨start, hatom, rfl⟩ := (fromSmall?_eq_some_iff run).mp hm
    obtain ⟨start', hatom', rfl⟩ := (fromSmall?_eq_some_iff run').mp hm'
    exact Nat.lt_of_lt_of_le hatom.inside.2 (Nat.le_trans hle hatom'.inside.1)
  · rw [hmem]
    simp only [reports_atom_iff]
    constructor
    · rintro ⟨start, stop, first, hatom, hm⟩
      exact ⟨start, stop, ⟨first, hatom⟩, hm⟩
    · rintro ⟨start, stop, ⟨first, hatom⟩, hm⟩
      exact ⟨start, stop, first, hatom, hm⟩

/-! ## The three rules -/

/-- The table has one rule for each of variables, numbers and atoms. -/
theorem mem_words_iff {pass : Rule} :
    pass ∈ prolog ∧ pass.category ∈ [.variable, .number, .atom] ↔
      pass ∈ [variableWord, number, atom] := by
  refine mem_and_category_iff ?_
  rw [prolog_eq]
  rfl

/-- By the rules of the table, the variables of a line are its words with a capital letter in
front, as they stand and in order. Its atoms are its words from their first small letters on,
for those that have one. Its numbers are its runs of digits. -/
theorem findAll_words (text : List Char) :
    (∀ pass, pass ∈ prolog ∧ pass.category ∈ [.variable, .number, .atom] ↔
      pass ∈ [variableWord, number, atom]) ∧
      variableWord.findAll text =
        ((words text).filter fun word => word.lexeme.head?.any Char.isUpper) ∧
      atom.findAll text = (words text).filterMap fromSmall? ∧
      number.findAll text = runs Char.isDigit text :=
  ⟨fun _ => mem_words_iff, findAll_variableWord text, findAll_atom text, findAll_number text⟩

end RuleTable.Prolog
end PrologTokens
