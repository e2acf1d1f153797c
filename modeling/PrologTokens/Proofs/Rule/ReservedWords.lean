import Mathlib.Data.Char
import Mathlib.Data.List.Count
import Mathlib.Data.List.Lex
import PrologTokens.Proofs.Rule.Words

/-!
# Reserved words of a line

There is a rule for each reserved word, and the rules go over a line in the order of their
spellings. Each of them reports the words of the line that are spelled like that, so all of them
together give the reserved words of the line in the order of a stable sort by spelling. A
reserved word is written in small letters, so it is its own atom.

The main statement is `scan_reservedWord`.
-/

set_option autoImplicit false

namespace PrologTokens

open Pattern

/-! ## Stable sorting -/

section Sorting

variable {α β : Type} [LinearOrder β] {key : α → β}

/-- If no key is smaller than a given one, a sorted list starts with the elements of that key. -/
theorem filter_append_filter_of_sorted {l : List α} {k : β}
    (hl : l.Pairwise fun a b => key a ≤ key b) (hk : ∀ a ∈ l, k ≤ key a) :
    (l.filter fun a => key a = k) ++ (l.filter fun a => key a ≠ k) = l := by
  induction l with
  | nil => rfl
  | cons a l ih =>
    obtain ⟨ha, htail⟩ := List.pairwise_cons.mp hl
    obtain ⟨hka, hktail⟩ := List.forall_mem_cons.mp hk
    by_cases heq : key a = k
    · simpa [heq] using ih htail hktail
    · -- From here on all keys are larger.
      have hlarger : ∀ b ∈ l, key b ≠ k := fun b hb hbk =>
        heq (le_antisymm (hbk ▸ ha b hb) hka)
      have hnone : (l.filter fun a => key a = k) = [] := by simpa using hlarger
      have hall : (l.filter fun a => key a ≠ k) = l := by simpa using hlarger
      rw [List.filter_cons_of_neg (by simpa using heq),
        List.filter_cons_of_pos (by simpa using heq), hnone, hall, List.nil_append]

/-- A sorted list is made of the elements of each key, one key after the other. -/
theorem eq_flatMap_filter_of_sorted {keys : List β} (hkeys : keys.Pairwise (· < ·)) :
    ∀ {l : List α}, l.Pairwise (fun a b => key a ≤ key b) → (∀ a ∈ l, key a ∈ keys) →
      l = keys.flatMap fun k => l.filter fun a => key a = k := by
  induction keys with
  | nil =>
    intro l _ hmem
    exact List.eq_nil_iff_forall_not_mem.mpr fun a ha => List.not_mem_nil (hmem a ha)
  | cons k keys ih =>
    intro l hl hmem
    obtain ⟨hk, hkeys⟩ := List.pairwise_cons.mp hkeys
    have hleast : ∀ a ∈ l, k ≤ key a := by
      intro a ha
      rcases List.mem_cons.mp (hmem a ha) with heq | hlater
      · exact heq.ge
      · exact (hk _ hlater).le
    have hothers : ∀ a ∈ l.filter fun a => key a ≠ k, key a ∈ keys := by
      intro a ha
      obtain ⟨ha, hne⟩ := List.mem_filter.mp ha
      exact (List.mem_cons.mp (hmem a ha)).resolve_left (of_decide_eq_true hne)
    have hrest : (l.filter fun a => key a ≠ k) =
        keys.flatMap fun k => l.filter fun a => key a = k := by
      rw [ih hkeys (hl.filter _) hothers]
      refine List.flatMap_congr fun k' hk' => ?_
      rw [List.filter_filter]
      refine List.filter_congr fun a _ => ?_
      have hne : key a = k' → key a ≠ k := fun h => h ▸ (hk k' hk').ne'
      simpa using hne
    rw [List.flatMap_cons, ← hrest, filter_append_filter_of_sorted hl hleast]

theorem decide_le_trans (a b c : α) (hab : decide (key a ≤ key b) = true)
    (hbc : decide (key b ≤ key c) = true) : decide (key a ≤ key c) = true :=
  decide_eq_true (le_trans (of_decide_eq_true hab) (of_decide_eq_true hbc))

theorem decide_le_total (a b : α) : (decide (key a ≤ key b) || decide (key b ≤ key a)) = true := by
  simpa using le_total (key a) (key b)

/-- Sorting keeps the elements of one key in their order. -/
theorem filter_mergeSort (l : List α) (k : β) :
    ((l.mergeSort fun a b => key a ≤ key b).filter fun a => key a = k) =
      l.filter fun a => key a = k := by
  have hequal :
      (l.filter fun a => key a = k).Pairwise fun a b => decide (key a ≤ key b) = true := by
    refine List.pairwise_of_forall_mem_list fun a ha b hb => ?_
    have hak := of_decide_eq_true (List.mem_filter.mp ha).2
    have hbk := of_decide_eq_true (List.mem_filter.mp hb).2
    exact decide_eq_true (hak.trans hbk.symm).le
  have hsublist := (List.sublist_mergeSort decide_le_trans decide_le_total hequal
    List.filter_sublist).filter fun a => key a = k
  rw [List.filter_filter, funext fun a => Bool.and_self _] at hsublist
  exact (hsublist.eq_of_length ((List.mergeSort_perm l _).filter _).length_eq.symm).symm

/-- A stable sort puts the elements of each key, in their order, one key after the other. -/
theorem mergeSort_eq_flatMap_filter {keys : List β} (hkeys : keys.Pairwise (· < ·)) {l : List α}
    (hmem : ∀ a ∈ l, key a ∈ keys) :
    (l.mergeSort fun a b => key a ≤ key b) = keys.flatMap fun k => l.filter fun a => key a = k := by
  have hsorted : (l.mergeSort fun a b => key a ≤ key b).Pairwise fun a b => key a ≤ key b :=
    (List.pairwise_mergeSort decide_le_trans decide_le_total l).imp of_decide_eq_true
  have hmem' : ∀ a ∈ l.mergeSort fun a b => key a ≤ key b, key a ∈ keys := fun a ha =>
    hmem a ((List.mergeSort_perm l _).mem_iff.mp ha)
  rw [eq_flatMap_filter_of_sorted hkeys hsorted hmem']
  exact List.flatMap_congr fun k _ => filter_mergeSort l k

end Sorting

/-! ## Tokens of a category -/

/-- The tokens of a category are those of the rules of that category. -/
theorem RuleTable.filter_scan (table : RuleTable) (line : List Char) (number : Nat)
    (category : Category) :
    ((table.scan line number).filter fun token => token.category = category) =
      RuleTable.scan (table.filter fun rule => rule.category = category) line number := by
  induction table with
  | nil => rfl
  | cons rule table ih =>
    have hcategory : ∀ token ∈ rule.tokens line number, token.category = rule.category := by
      intro token htoken
      obtain ⟨_, -, rfl⟩ := List.mem_map.mp htoken
      rfl
    rw [RuleTable.scan, List.flatMap_cons, List.filter_append]
    by_cases hrule : rule.category = category
    · have hall : ((rule.tokens line number).filter fun token => token.category = category) =
          rule.tokens line number :=
        List.filter_eq_self.mpr fun token htoken =>
          decide_eq_true ((hcategory token htoken).trans hrule)
      rw [hall, List.filter_cons_of_pos (by simpa using hrule), RuleTable.scan, List.flatMap_cons]
      exact congrArg _ ih
    · have hnone : ((rule.tokens line number).filter fun token => token.category = category) = [] :=
        List.filter_eq_nil_iff.mpr fun token htoken h =>
          hrule ((hcategory token htoken).symm.trans (of_decide_eq_true h))
      rw [hnone, List.filter_cons_of_neg (by simpa using hrule), List.nil_append]
      exact ih

namespace RuleTable.Prolog

/-! ## One reserved word -/

variable {text : List Char} {start stop : Nat}

theorem spelling_isLower (word : ReservedWord) : ∀ c ∈ word.spelling.toList, c.isLower = true := by
  have hall : word.spelling.toList.all Char.isLower = true := by
    cases word <;> rfl
  exact List.all_eq_true.mp hall

theorem spelling_ne_nil (word : ReservedWord) : word.spelling.toList ≠ [] := by
  cases word <;> decide

/-- The rule for a reserved word describes the words with its spelling. -/
theorem describes_reserved (word : ReservedWord) :
    (reserved word).pattern.Describes text start stop ↔
      IsWordRun text start stop ∧
        decide (text.extract start stop = word.spelling.toList) = true := by
  have hpattern : (reserved word).pattern =
      sequence (boundary :: (word.spelling.toList.map literal ++ [boundary])) := rfl
  rw [hpattern, describes_sequence_cons (by simp), decide_eq_true_eq]
  simp only [describes_sequence_literals, boundary, describes_anchor]
  -- What is spelled like the word is a stretch of word characters, so the boundaries tell the rest.
  have hboundaries (hspelling : text.extract start stop = word.spelling.toList)
      (hstop : stop ≤ text.length) : IsWordRun text start stop ↔
        Anchor.wordBoundary.holds (.ofPosition text start) = true ∧
          Anchor.wordBoundary.holds (.ofPosition text stop) = true := by
    have hlt : start < stop := by
      obtain ⟨c, cs, hcs⟩ := List.exists_cons_of_ne_nil (spelling_ne_nil word)
      exact (extract_eq_cons_iff.mp (hspelling.trans hcs)).1
    refine isWordRun_iff_boundaries hlt hstop fun i x hi hi' hx => ?_
    have hmem : x ∈ text.extract start stop := mem_extract_iff.mpr ⟨i, hi, hi', hx⟩
    exact (isWord_iff x).mpr (.inr (.inl (spelling_isLower word x (hspelling ▸ hmem))))
  constructor
  · rintro ⟨_, ⟨rfl, -, hbefore⟩, _, -, hspelling, rfl, hstop, hbehind⟩
    exact ⟨(hboundaries hspelling hstop).mpr ⟨hbefore, hbehind⟩, hspelling⟩
  · rintro ⟨run, hspelling⟩
    obtain ⟨hbefore, hbehind⟩ := (hboundaries hspelling run.inside).mp run
    have hle := Nat.le_of_lt run.nonempty
    exact ⟨start, ⟨rfl, Nat.le_trans hle run.inside, hbefore⟩, stop, hle, hspelling, rfl,
      run.inside, hbehind⟩

theorem reports_reserved_iff (word : ReservedWord) :
    (reserved word).Reports text start stop ↔
      IsWordRun text start stop ∧
        decide (text.extract start stop = word.spelling.toList) = true := by
  have hempty : (reserved word).pattern.canBeEmpty = false := by
    cases word <;> rfl
  exact Rule.reports_iff_of_describes_runs (fun lexeme => lexeme = word.spelling.toList) rfl hempty
    (describes_reserved word)

/-- The rule for a reserved word gives the words with its spelling. -/
theorem findAll_reserved (word : ReservedWord) (text : List Char) :
    (reserved word).findAll text =
      (words text).filter fun run => run.lexeme = word.spelling.toList :=
  Rule.findAll_eq_filter_runs (fun lexeme => lexeme = word.spelling.toList)
    (reports_reserved_iff word)

/-! ## All reserved words -/

/-- The sixteen reserved words as they are written, in alphabetical order. -/
def keywords : List (List Char) :=
  ["assert", "consult", "cut", "else", "fail", "false", "if", "listing", "nl", "not", "read",
    "retract", "then", "true", "write", "writef"].map String.toList

theorem keywords_sorted : keywords.Pairwise (· < ·) := by decide

/-- Sorted by their spellings, the reserved words stand in the order of the keywords. -/
theorem map_spelling_sorted :
    (ReservedWord.sorted.map fun word => word.spelling.toList) = keywords := by
  rw [ReservedWord.sorted_eq_all]
  rfl

/-- The keywords are the spellings of the reserved words. -/
theorem mem_keywords_iff {lexeme : List Char} :
    lexeme ∈ keywords ↔ ∃ word : ReservedWord, word.spelling.toList = lexeme := by
  rw [← map_spelling_sorted, List.mem_map]
  constructor
  · rintro ⟨word, -, hspelling⟩
    exact ⟨word, hspelling⟩
  · rintro ⟨word, hspelling⟩
    exact ⟨word, word.mem_sorted, hspelling⟩

/-- The words of a line that are keywords, in the order of their spellings, and those of one
spelling from left to right. -/
def reservedWords (text : List Char) : List Match :=
  ((words text).filter fun word => word.lexeme ∈ keywords).mergeSort fun a b => a.lexeme ≤ b.lexeme

/-- The rules for reserved words, one after the other, give the keywords of the line in the order of
their spellings. -/
theorem flatMap_findAll_reserved (text : List Char) :
    (ReservedWord.sorted.flatMap fun word => (reserved word).findAll text) =
      reservedWords text := by
  have hmem : ∀ word ∈ (words text).filter fun word => word.lexeme ∈ keywords,
      word.lexeme ∈ keywords := fun word hword => of_decide_eq_true (List.mem_filter.mp hword).2
  have hrules : (ReservedWord.sorted.flatMap fun word => (reserved word).findAll text) =
      keywords.flatMap fun keyword => (words text).filter fun word => word.lexeme = keyword := by
    rw [← map_spelling_sorted, List.flatMap_map]
    exact List.flatMap_congr fun word _ => findAll_reserved word text
  rw [hrules, reservedWords, mergeSort_eq_flatMap_filter keywords_sorted hmem]
  -- A word that is spelled like one keyword is a keyword, so nothing is lost with the others.
  refine List.flatMap_congr fun keyword hkeyword => ?_
  rw [List.filter_filter]
  refine List.filter_congr fun word _ => ?_
  have hlisted : word.lexeme = keyword → word.lexeme ∈ keywords := fun h => h ▸ hkeyword
  rw [Bool.eq_iff_iff]
  simpa using hlisted

/-! ## Counting tokens -/

/-- A token occurs as often as it does among the tokens of its category. -/
theorem count_filter_category (tokens : List Token) (token : Token) :
    (tokens.filter fun other => other.category = token.category).count token =
      tokens.count token := by
  rw [List.count_filter]
  exact decide_eq_true rfl

/-- How often a lexeme occurs among the tokens that are made of some matches. -/
theorem count_tokens (ms : List Match) (category : Category) (number : Nat) (lexeme : List Char) :
    (ms.map fun m => (⟨String.ofList m.lexeme, category, number⟩ : Token)).count
      ⟨String.ofList lexeme, category, number⟩ = ms.countP fun m => m.lexeme = lexeme := by
  rw [List.count, List.countP_map]
  refine List.countP_congr fun m _ => ?_
  simp [String.ofList_inj]

/-- The tokens for reserved words are those of the rules for reserved words. -/
theorem filter_scan_reservedWord (text : List Char) (number : Nat) :
    ((prolog.scan text number).filter fun token => token.category = .reservedWord) =
      (reservedWords text).map fun word => ⟨String.ofList word.lexeme, .reservedWord, number⟩ := by
  have hrules : (prolog.filter fun rule => rule.category = .reservedWord) =
      ReservedWord.sorted.map reserved := by
    rw [prolog_eq, ReservedWord.sorted_eq_all]
    rfl
  rw [filter_scan, hrules, ← flatMap_findAll_reserved, RuleTable.scan, List.flatMap_map,
    List.map_flatMap]
  refine List.flatMap_congr fun word _ => ?_
  rw [Rule.tokens, Rule.scan, List.map_map]
  rfl

/-- A keyword is a reserved word as often as it is a word of the line, and any other text never
is. -/
theorem count_reservedWord (text : List Char) (number : Nat) (lexeme : List Char) :
    (prolog.scan text number).count ⟨String.ofList lexeme, .reservedWord, number⟩ =
      if lexeme ∈ keywords then ((words text).countP fun word => word.lexeme = lexeme) else 0 := by
  rw [← count_filter_category, filter_scan_reservedWord, count_tokens, reservedWords,
    (List.mergeSort_perm _ _).countP_eq, List.countP_filter]
  split
  · rename_i hmem
    refine List.countP_congr fun word _ => ?_
    simp only [Bool.and_eq_true, decide_eq_true_eq, and_iff_left_iff_imp]
    rintro rfl
    exact hmem
  · rename_i hmem
    rw [List.countP_eq_zero]
    simp only [Bool.and_eq_true, decide_eq_true_eq, not_and]
    rintro word _ rfl
    exact hmem

/-- A text is an atom as often as it is what is left of a word of the line. -/
theorem count_atom (text : List Char) (number : Nat) (lexeme : List Char) :
    (prolog.scan text number).count ⟨String.ofList lexeme, .atom, number⟩ =
      ((words text).filterMap fromSmall?).countP fun atom => atom.lexeme = lexeme := by
  have hrules : (prolog.filter fun rule => rule.category = .atom) = [atom] := by
    rw [prolog_eq]
    rfl
  have htokens : RuleTable.scan [atom] text number =
      (atom.findAll text).map fun m => ⟨String.ofList m.lexeme, .atom, number⟩ := by
    rw [RuleTable.scan, List.flatMap_singleton, Rule.tokens, Rule.scan, List.map_map]
    rfl
  rw [← count_filter_category, filter_scan, hrules, htokens, count_tokens, findAll_atom]

/-- A keyword is an atom as it stands. -/
theorem fromSmall?_of_mem_keywords {word : Match} (h : word.lexeme ∈ keywords) :
    fromSmall? word = some word := by
  obtain ⟨reservedWord, hspelling⟩ := mem_keywords_iff.mp h
  obtain ⟨c, cs, hcs⟩ := List.exists_cons_of_ne_nil (spelling_ne_nil reservedWord)
  have hsmall : c.isLower = true := spelling_isLower reservedWord c (hcs ▸ List.mem_cons_self)
  obtain ⟨first, lexeme⟩ := word
  simp only at hspelling
  simp [fromSmall?, ← hspelling, hcs, hsmall]

/-- The tokens for reserved words on a line are, in order, the words of the line that are one of the
sixteen keywords, in the order of a stable sort by spelling. So each of these words gives one such
token, and no other word gives any. There are at least as many tokens for atoms with the same
lexeme. -/
theorem scan_reservedWord (text : List Char) (number : Nat) :
    let found := ((words text).filter fun word => word.lexeme ∈ keywords).mergeSort
      fun a b => a.lexeme ≤ b.lexeme
    (∀ lexeme : List Char,
      lexeme ∈ keywords ↔ ∃ word : ReservedWord, word.spelling.toList = lexeme) ∧
    (ReservedWord.sorted.flatMap fun word => (reserved word).findAll text) = found ∧
    ((prolog.scan text number).filter fun token => token.category = .reservedWord) =
      found.map (fun word => ⟨String.ofList word.lexeme, .reservedWord, number⟩) ∧
    (∀ lexeme : List Char,
      (prolog.scan text number).count ⟨String.ofList lexeme, .reservedWord, number⟩ =
        if lexeme ∈ keywords then ((words text).countP fun word => word.lexeme = lexeme) else 0) ∧
    ∀ lexeme : List Char,
      (prolog.scan text number).count ⟨String.ofList lexeme, .reservedWord, number⟩ ≤
        (prolog.scan text number).count ⟨String.ofList lexeme, .atom, number⟩ := by
  intro found
  refine ⟨fun lexeme => mem_keywords_iff, flatMap_findAll_reserved text,
    filter_scan_reservedWord text number, count_reservedWord text number, fun lexeme => ?_⟩
  rw [count_reservedWord, count_atom, List.countP_filterMap]
  split
  · rename_i hmem
    refine List.countP_mono_left fun word _ hword => ?_
    obtain rfl := of_decide_eq_true hword
    rw [fromSmall?_of_mem_keywords hmem]
    exact hword
  · exact Nat.zero_le _

end RuleTable.Prolog
end PrologTokens
