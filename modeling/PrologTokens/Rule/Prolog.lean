import PrologTokens.ReservedWord
import PrologTokens.Rule.Basic

/-!
# The rules for Prolog

Twelve rules for clauses, identifiers, numbers and signs, one for each reserved word, and one for
the characters that no Prolog text needs. Identifiers and word boundaries know ASCII only.
-/

set_option autoImplicit false

namespace PrologTokens.RuleTable.Prolog

open Pattern

/-- The characters of identifiers. -/
def wordSet : CharSet := .ofRanges [('0', '9'), ('A', 'Z'), ('a', 'z'), ('_', '_')]

/-- The characters of simple argument lists: identifiers and commas. -/
def argumentSet : CharSet :=
  .ofRanges [('0', '9'), ('A', 'Z'), ('a', 'z'), ('_', '_'), (',', ',')]

/-- The characters of clause bodies: identifiers, parentheses and commas. -/
def bodySet : CharSet :=
  .ofRanges [('0', '9'), ('A', 'Z'), ('a', 'z'), ('_', '_'), ('(', '('), (')', ')'), (',', ',')]

/-- The characters that follow the first one of a variable or an atom. -/
def tailSet : CharSet := .ofRanges [('A', 'Z'), ('a', 'z'), ('0', '9'), ('_', '_')]

/-- The blanks allowed before the full stop of a fact. -/
def gapSet : CharSet :=
  .ofRanges [('\t', '\t'), ('\n', '\n'), ('\x0c', '\x0c'), ('\r', '\r'), (' ', ' ')]

/-- The ASCII digits. -/
def digitSet : CharSet := .ofRanges [('0', '9')]

/-- The capital ASCII letters. -/
def upperSet : CharSet := .ofRanges [('A', 'Z')]

/-- The small ASCII letters. -/
def lowerSet : CharSet := .ofRanges [('a', 'z')]

/-- The signs of arithmetic. -/
def operatorSet : CharSet := .ofRanges [('+', '+'), ('-', '-'), ('*', '*'), ('/', '/')]

/-- The parentheses. -/
def parenthesisSet : CharSet := .ofRanges [('(', '('), (')', ')')]

/-- The full stop and the comma. -/
def punctuationSet : CharSet := .ofRanges [('.', '.'), (',', ',')]

/-- The characters outside of the alphabet. -/
def foreignSet : CharSet :=
  (CharSet.ofRanges [('A', 'Z'), ('a', 'z'), ('0', '9'), ('_', '_'), ('(', '('), (')', ')'),
    (',', ','), (';', ';'), ('=', '='), ('+', '+'), ('-', '-'), ('*', '*'), ('/', '/'), ('.', '.'),
    ('\t', '\t'), ('\n', '\n'), ('\x0c', '\x0c'), ('\r', '\r'), (' ', ' ')]).complement

/-- Characters of a set, at least one, as many as possible. -/
def run1 (set : CharSet) : Pattern := plus (chars set) true

/-- Characters of a set, as many as possible. -/
def run0 (set : CharSet) : Pattern := star (chars set) true

/-- The boundary of a word. -/
def boundary : Pattern := anchor .wordBoundary

/-- A fact `name(arguments).`, with blanks allowed before the full stop. -/
def fact : Rule where
  category := .fact
  source := "[0-9A-Za-z_]+\\([0-9A-Za-z_,]+\\)[\\t\\n\\x0C\\r ]*\\."
  scope := .all
  pattern := sequence
    [run1 wordSet, literal '(', run1 argumentSet, literal ')', run0 gapSet, literal '.']
  reads := by decide +kernel

/-- A rule `name(arguments) :- body.` -/
def rule : Rule where
  category := .rule
  source := "[0-9A-Za-z_]+\\([0-9A-Za-z_,]+\\) :- [0-9A-Za-z_(),]+\\."
  scope := .all
  pattern := sequence
    [run1 wordSet, literal '(', run1 argumentSet, literal ')', literal ' ', literal ':',
      literal '-', literal ' ', run1 bodySet, literal '.']
  reads := by decide +kernel

/-- A query `?- body.` -/
def query : Rule where
  category := .query
  source := "\\?- [0-9A-Za-z_(),]+\\."
  scope := .all
  pattern := sequence [literal '?', literal '-', literal ' ', run1 bodySet, literal '.']
  reads := by decide +kernel

/-- A word that starts with a capital letter. -/
def variableWord : Rule where
  category := .variable
  source := "(?-u:\\b)[A-Z][A-Za-z0-9_]*(?-u:\\b)"
  scope := .all
  pattern := sequence [boundary, chars upperSet, run0 tailSet, boundary]
  reads := by decide +kernel

/-- A list `[arguments]` -/
def list : Rule where
  category := .list
  source := "\\[[0-9A-Za-z_,]+\\]"
  scope := .all
  pattern := sequence [literal '[', run1 argumentSet, literal ']']
  reads := by decide +kernel

/-- A comma, a semicolon or an arrow. -/
def logicalOperator : Rule where
  category := .logicalOperator
  source := ",|;|->"
  scope := .all
  pattern := oneOf [literal ',', literal ';', sequence [literal '-', literal '>']]
  reads := by decide +kernel

/-- A run of digits. -/
def number : Rule where
  category := .number
  source := "[0-9]+"
  scope := .all
  pattern := run1 digitSet
  reads := by decide +kernel

/-- A sign of arithmetic. -/
def operator : Rule where
  category := .operator
  source := "[+\\-*/]"
  scope := .all
  pattern := chars operatorSet
  reads := by decide +kernel

/-- The first equals sign of the line. -/
def assignment : Rule where
  category := .assignment
  source := "="
  scope := .first
  pattern := literal '='
  reads := by decide +kernel

/-- A parenthesis. -/
def parenthesis : Rule where
  category := .parenthesis
  source := "[()]"
  scope := .all
  pattern := chars parenthesisSet
  reads := by decide +kernel

/-- A full stop or a comma. -/
def punctuation : Rule where
  category := .punctuation
  source := "[.,]"
  scope := .all
  pattern := chars punctuationSet
  reads := by decide +kernel

/-- A small letter and the word characters behind it, wherever it stands. -/
def atom : Rule where
  category := .atom
  source := "[a-z][A-Za-z0-9_]*"
  scope := .all
  pattern := sequence [chars lowerSet, run0 tailSet]
  reads := by decide +kernel

/-- A reserved word, standing as a whole word. -/
def reserved (word : ReservedWord) : Rule where
  category := .reservedWord
  source := "(?-u:\\b)" ++ word.spelling ++ "(?-u:\\b)"
  scope := .all
  pattern := sequence (boundary :: word.spelling.toList.map literal ++ [boundary])
  reads := by cases word <;> decide +kernel

/-- A character outside of the alphabet. -/
def unrecognized : Rule where
  category := .unrecognized
  source := "[^A-Za-z0-9_(),;=+\\-*/.\\t\\n\\x0C\\r ]"
  scope := .all
  pattern := chars foreignSet
  reads := by decide +kernel

end Prolog

open Prolog in
/-- The rules for Prolog, in the order in which they go over a line. -/
def prolog : RuleTable :=
  [fact, rule, query, variableWord, list, logicalOperator, number, operator, assignment,
    parenthesis, punctuation, atom] ++ ReservedWord.sorted.map reserved ++ [unrecognized]

open Prolog in
/-- The table with the reserved words as they are listed, a form that can be computed with. -/
theorem prolog_eq : prolog =
    [fact, rule, query, variableWord, list, logicalOperator, number, operator, assignment,
      parenthesis, punctuation, atom] ++ ReservedWord.all.map reserved ++ [unrecognized] := by
  rw [prolog, ReservedWord.sorted_eq_all]

/-- Twelve rules, one for each reserved word, and one for the characters outside. -/
theorem length_prolog : prolog.length = 29 := by
  rw [prolog_eq]
  rfl

open Prolog in
/-- To show something of all rules of the table is to show it of each of them, where those for
reserved words are taken together. -/
@[elab_as_elim]
theorem mem_prolog_cases {motive : (pass : Rule) → pass ∈ prolog → Prop}
    (fact : ∀ h, motive fact h) (rule : ∀ h, motive rule h) (query : ∀ h, motive query h)
    (variableWord : ∀ h, motive variableWord h) (list : ∀ h, motive list h)
    (logicalOperator : ∀ h, motive logicalOperator h) (number : ∀ h, motive number h)
    (operator : ∀ h, motive operator h) (assignment : ∀ h, motive assignment h)
    (parenthesis : ∀ h, motive parenthesis h) (punctuation : ∀ h, motive punctuation h)
    (atom : ∀ h, motive atom h) (reserved : ∀ word h, motive (reserved word) h)
    (unrecognized : ∀ h, motive unrecognized h) {pass : Rule} (h : pass ∈ prolog) :
    motive pass h := by
  have hpass := h
  simp only [prolog, List.mem_append, List.mem_cons, List.mem_map, List.not_mem_nil,
    or_false] at hpass
  rcases hpass with (hfirst | ⟨word, -, rfl⟩) | rfl
  · rcases hfirst with rfl | rfl | rfl | rfl | rfl | rfl | rfl | rfl | rfl | rfl | rfl | rfl
    · exact fact h
    · exact rule h
    · exact query h
    · exact variableWord h
    · exact list h
    · exact logicalOperator h
    · exact number h
    · exact operator h
    · exact assignment h
    · exact parenthesis h
    · exact punctuation h
    · exact atom h
  · exact reserved word h
  · exact unrecognized h

/-- If `passes` is what is left of a table without the rules for other categories, it has the
rules of the table for these categories. -/
theorem mem_and_category_iff {table passes : RuleTable} {categories : List Category}
    (h : (table.filter fun rule => rule.category ∈ categories) = passes) {rule : Rule} :
    rule ∈ table ∧ rule.category ∈ categories ↔ rule ∈ passes := by
  rw [← h, List.mem_filter, decide_eq_true_eq]

end PrologTokens.RuleTable
