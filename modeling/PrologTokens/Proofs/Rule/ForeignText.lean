import PrologTokens.Proofs.Pattern.Replacement
import PrologTokens.Proofs.Rule.Occurrences

/-!
# Text beyond ASCII

The rules for Prolog that recognise something know ASCII characters only. What else stands on a
line, whether a letter of another script or a sign, is the same to them: it is part of none of
their matches, and it bounds a word like any other character that is none of a word. So
characters beyond ASCII can be replaced by others, and only the rule for characters outside of
the alphabet takes notice.

Whether a pattern knows ASCII only can be computed: `Pattern.isAscii`. The main statement is
`scan_beyond_ascii`.
-/

set_option autoImplicit false

namespace PrologTokens

open Pattern

/-- A replacement of characters that keeps ASCII characters as they are and the others beyond
ASCII. -/
structure KeepsAscii (g : Char → Char) : Prop where
  /-- ASCII characters stay as they are. -/
  ascii : ∀ c : Char, c.toNat < 0x80 → g c = c
  /-- No other character becomes one of them. -/
  beyond : ∀ c : Char, 0x80 ≤ c.toNat → 0x80 ≤ (g c).toNat

/-! ## Patterns for ASCII characters -/

/-- An ASCII set holds ASCII characters only. -/
theorem CharSet.toNat_lt_of_isAscii {set : CharSet} (h : set.isAscii = true) {x : Char}
    (hx : set.contains x = true) : x.toNat < 0x80 := by
  obtain ⟨r, hr, hin⟩ := List.any_eq_true.mp hx
  have hlast : r.2 < 0x80 := of_decide_eq_true (List.all_eq_true.mp h r hr)
  rw [Bool.and_eq_true, decide_eq_true_eq, decide_eq_true_eq] at hin
  exact Nat.lt_of_le_of_lt hin.2 hlast

/-- Whether a condition on a place tells no character beyond ASCII from another. -/
def Anchor.isAscii : Anchor → Bool
  | lineStart => true
  | lineEnd => true
  | wordBoundary => true
  | scriptBoundary => false
  | noScriptBoundary => false
  | scriptWordStart => false
  | scriptWordEnd => false

/-- Whether all sets and conditions of a pattern are about ASCII characters. -/
def Pattern.isAscii : Pattern → Bool
  | empty => true
  | chars set => set.isAscii
  | anchor a => a.isAscii
  | seq p q => p.isAscii && q.isAscii
  | alt p q => p.isAscii && q.isAscii
  | star p _ => p.isAscii
  | plus p _ => p.isAscii

theorem Pattern.over_of_isAscii {p : Pattern} (h : p.isAscii = true) : p.Over (·.toNat < 0x80) := by
  induction p with
  | empty => trivial
  | chars set => exact fun x hx => CharSet.toNat_lt_of_isAscii h hx
  | anchor a => trivial
  | seq p q ihp ihq =>
    rw [isAscii, Bool.and_eq_true] at h
    exact ⟨ihp h.1, ihq h.2⟩
  | alt p q ihp ihq =>
    rw [isAscii, Bool.and_eq_true] at h
    exact ⟨ihp h.1, ihq h.2⟩
  | star p greedy ih => exact ih h
  | plus p greedy ih => exact ih h

namespace KeepsAscii

variable {g : Char → Char}

/-- A property that only ASCII characters have is kept. -/
theorem of_ascii (hg : KeepsAscii g) {P : Char → Bool} (hP : ∀ x, P x = true → x.toNat < 0x80)
    (x : Char) : P (g x) = P x := by
  rcases Nat.lt_or_ge x.toNat 0x80 with hascii | hbeyond
  · rw [hg.ascii x hascii]
  · have hnot {y : Char} (hy : 0x80 ≤ y.toNat) : P y = false :=
      eq_false_of_ne_true fun h => Nat.not_lt.mpr hy (hP y h)
    rw [hnot hbeyond, hnot (hg.beyond x hbeyond)]

theorem isWord (hg : KeepsAscii g) (x : Char) : Text.isWord (g x) = Text.isWord x := by
  refine hg.of_ascii (fun y hy => ?_) x
  rw [← RuleTable.Prolog.contains_tailSet] at hy
  exact CharSet.toNat_lt_of_isAscii (by decide) hy

/-- The ends of a line and the boundaries of words stay where they are. -/
theorem holds_replace (hg : KeepsAscii g) {a : Anchor} (ha : a.isAscii = true) (c : Cursor) :
    a.holds (c.replace g) = a.holds c := by
  obtain ⟨position, previous, rest⟩ := c
  cases a with
  | lineStart => exact Option.isNone_map
  | lineEnd => exact List.isEmpty_map
  | wordBoundary =>
    simp only [Anchor.holds, Cursor.replace, List.head?_map, Option.any_map, hg.isWord]
  | scriptBoundary => exact absurd ha Bool.false_ne_true
  | noScriptBoundary => exact absurd ha Bool.false_ne_true
  | scriptWordStart => exact absurd ha Bool.false_ne_true
  | scriptWordEnd => exact absurd ha Bool.false_ne_true

/-- A pattern for ASCII characters cannot tell the others from their replacements. -/
theorem blindTo (hg : KeepsAscii g) {p : Pattern} (h : p.isAscii = true) : p.BlindTo g := by
  induction p with
  | empty => trivial
  | chars set => exact hg.of_ascii fun x hx => CharSet.toNat_lt_of_isAscii h hx
  | anchor a => exact hg.holds_replace h
  | seq p q ihp ihq =>
    rw [Pattern.isAscii, Bool.and_eq_true] at h
    exact ⟨ihp h.1, ihq h.2⟩
  | alt p q ihp ihq =>
    rw [Pattern.isAscii, Bool.and_eq_true] at h
    exact ⟨ihp h.1, ihq h.2⟩
  | star p greedy ih => exact ih h
  | plus p greedy ih => exact ih h

end KeepsAscii

/-! ## Rules for ASCII characters -/

namespace Rule

variable {rule : Rule}

theorem lexeme_ascii (h : rule.pattern.isAscii = true) {line : List Char} {m : Match}
    (hm : m ∈ rule.findAll line) : ∀ c ∈ m.lexeme, c.toNat < 0x80 := by
  obtain ⟨start, stop, hreports, rfl⟩ := mem_findAll_iff.mp hm
  intro c hc
  exact (hreports.describes.over (over_of_isAscii h)).of_mem_extract hc

/-- A rule for ASCII characters gives the same matches whatever else stands on the line. -/
theorem findAll_beyond_ascii (h : rule.pattern.isAscii = true) {g : Char → Char} (hg : KeepsAscii g)
    (line : List Char) : rule.findAll (line.map g) = rule.findAll line := by
  have hsame : ∀ m ∈ rule.findAll line, m.replace g = m := by
    intro m hm
    have hlexeme : ∀ c ∈ m.lexeme, g c = c := fun c hc => hg.ascii c (lexeme_ascii h hm c hc)
    rw [Match.replace, List.map_congr_left hlexeme, List.map_id']
  rw [findAll_replace (hg.blindTo h), List.map_congr_left hsame, List.map_id']

end Rule

namespace RuleTable.Prolog

/-- All rules but the last one are about ASCII characters. -/
theorem isAscii_of_mem_dropLast {rule : Rule} (h : rule ∈ prolog.dropLast) :
    rule.pattern.isAscii = true := by
  have hall : (prolog.dropLast.all fun rule => rule.pattern.isAscii) = true := by
    rw [prolog_eq]
    decide
  exact List.all_eq_true.mp hall rule h

/-- A character is outside of the alphabet exactly if its replacement is. -/
theorem contains_foreignSet_of_keepsAscii {g : Char → Char} (hg : KeepsAscii g) (x : Char) :
    foreignSet.contains (g x) = foreignSet.contains x := by
  have hlisted : ∀ y, decide (y ∈ signs ++ blanks) = true → y.toNat < 0x80 := by
    have hall : ((signs ++ blanks).all fun c => c.toNat < 0x80) = true := by decide
    intro y hy
    exact of_decide_eq_true (List.all_eq_true.mp hall y (of_decide_eq_true hy))
  have hsame := hg.of_ascii hlisted x
  simp only [List.mem_append, Bool.decide_or] at hsame
  rw [contains_foreignSet, contains_foreignSet, hg.isWord, Bool.or_assoc, Bool.or_assoc, hsame]

/-- Characters beyond ASCII have no influence on any rule but the last one: whatever other
characters beyond ASCII they are replaced by, all other rules report the same lexemes, which are
made of ASCII characters. The last rule reports one lexeme for each character outside of the
alphabet, and reports their replacements on the new line. -/
theorem scan_beyond_ascii (g : Char → Char) (hg : KeepsAscii g) (line : List Char) :
    (∀ rule ∈ prolog.dropLast, rule.scan (line.map g) = rule.scan line ∧
      ∀ lexeme ∈ rule.scan line, ∀ c ∈ lexeme.toList, c.toNat < 0x80) ∧
    prolog.getLast? = some unrecognized ∧
    unrecognized.scan (line.map g) =
      (unrecognized.scan line).map (fun lexeme => String.ofList (lexeme.toList.map g)) ∧
    unrecognized.scan line = (line.filter foreignSet.contains).map fun c => String.ofList [c] := by
  have hforeign (line : List Char) : unrecognized.scan line =
      (line.filter foreignSet.contains).map fun c => String.ofList [c] :=
        Rule.scan_chars rfl rfl line
  refine ⟨fun rule hrule => ⟨?_, ?_⟩, List.getLast?_concat, ?_, hforeign line⟩
  · rw [Rule.scan, Rule.scan, Rule.findAll_beyond_ascii (isAscii_of_mem_dropLast hrule) hg]
  · intro lexeme hlexeme
    obtain ⟨m, hm, rfl⟩ := List.mem_map.mp hlexeme
    rw [String.toList_ofList]
    exact Rule.lexeme_ascii (isAscii_of_mem_dropLast hrule) hm
  · have hkept : foreignSet.contains ∘ g = foreignSet.contains :=
      funext (contains_foreignSet_of_keepsAscii hg)
    rw [hforeign, hforeign, List.filter_map, hkept, List.map_map, List.map_map]
    refine List.map_congr_left fun c _ => ?_
    rw [Function.comp_apply, Function.comp_apply, String.toList_ofList]
    rfl

/-- A letter and a sign beyond ASCII, both replaced by a digit beyond ASCII. -/
theorem scan_beyond_ascii_digit :
    let g (c : Char) : Char := if c.toNat < 0x80 then c else '٣'
    KeepsAscii g ∧ (∀ rule ∈ prolog.dropLast,
      rule.scan "٣X is foo٣nl.".toList = rule.scan "ÉX is foo→nl.".toList) ∧
      unrecognized.scan "٣X is foo٣nl.".toList = ["٣", "٣"] := by
  intro g
  have hg : KeepsAscii g := by
    refine ⟨fun c hc => if_pos hc, fun c hc => ?_⟩
    simp only [g, if_neg (Nat.not_lt.mpr hc)]
    decide
  have hline : "ÉX is foo→nl.".toList.map g = "٣X is foo٣nl.".toList := by decide
  have hforeign : "ÉX is foo→nl.".toList.filter foreignSet.contains = ['É', '→'] := by decide
  have hscan := scan_beyond_ascii g hg "ÉX is foo→nl.".toList
  rw [hline, hforeign] at hscan
  obtain ⟨hothers, -, hlast, hchars⟩ := hscan
  refine ⟨hg, fun rule hrule => (hothers rule hrule).1, ?_⟩
  rw [hlast, hchars]
  decide

end RuleTable.Prolog
end PrologTokens
