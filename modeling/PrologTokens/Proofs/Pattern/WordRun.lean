import PrologTokens.Proofs.Pattern.Runs

/-!
# Runs of word characters

A line falls into runs of word characters with other characters in between. Every word character
stands in exactly one run, and what tells a run from any other stretch of word characters is
that there is a boundary of a word at both of its ends.
-/

set_option autoImplicit false

namespace PrologTokens
namespace Pattern

variable {text : List Char} {start stop : Nat}

/-- The characters between two positions of a line are a run of word characters, with no more of
them on either side. -/
abbrev IsWordRun (text : List Char) (start stop : Nat) : Prop := IsRun Text.isWord text start stop

/-- Before a place of a line stands the character at the position before it, if there is one. -/
theorem previous_ofPosition {i : Nat} (hi : i ≤ text.length) (x : Char) :
    (Cursor.ofPosition text i).previous = some x ↔ 0 < i ∧ text[i - 1]? = some x := by
  rw [Cursor.ofPosition, List.getLast?_take]
  split
  · rename_i hzero
    simp [hzero]
  · rename_i hne
    have hlt : i - 1 < text.length := by omega
    rw [List.getElem?_eq_getElem hlt, Option.some_or]
    simp only [Nat.pos_of_ne_zero hne, true_and]

/-- Before a word character the boundary of a word is where no word character stands on the left. -/
theorem holds_wordBoundary_before {i : Nat} {x : Char} (hx : text[i]? = some x)
    (hword : Text.isWord x = true) :
    Anchor.wordBoundary.holds (.ofPosition text i) = true ↔
      ∀ y, 0 < i → text[i - 1]? = some y → Text.isWord y = false := by
  have hi : i ≤ text.length := Nat.le_of_lt (List.getElem?_eq_some_iff.mp hx).1
  have hahead : (Cursor.ofPosition text i).rest.head?.any Text.isWord = true := by
    rw [Cursor.ofPosition, List.head?_drop, hx]
    exact hword
  rw [Anchor.holds, hahead, bne_iff_ne, ne_eq, Bool.not_eq_true, Option.any_eq_false]
  simp only [previous_ofPosition hi, and_imp]

/-- Behind a word character the boundary of a word is where no word character stands on the
right. -/
theorem holds_wordBoundary_behind {i : Nat} {x : Char} (hx : text[i]? = some x)
    (hword : Text.isWord x = true) :
    Anchor.wordBoundary.holds (.ofPosition text (i + 1)) = true ↔
      ∀ y, text[i + 1]? = some y → Text.isWord y = false := by
  have hi : i + 1 ≤ text.length := (List.getElem?_eq_some_iff.mp hx).1
  have hprevious : (Cursor.ofPosition text (i + 1)).previous.any Text.isWord = true := by
    rw [(previous_ofPosition hi x).mpr ⟨Nat.succ_pos i, hx⟩]
    exact hword
  have hahead : (Cursor.ofPosition text (i + 1)).rest.head? = text[i + 1]? := List.head?_drop
  rw [Anchor.holds, hprevious, hahead, bne_comm, bne_iff_ne, ne_eq, Bool.not_eq_true,
    Option.any_eq_false]

/-- A stretch of word characters is a run exactly if there is a boundary of a word at both of its
ends. -/
theorem isWordRun_iff_boundaries (hlt : start < stop) (hstop : stop ≤ text.length)
    (hword : AllBetween (Text.isWord · = true) text start stop) :
    IsWordRun text start stop ↔
      Anchor.wordBoundary.holds (.ofPosition text start) = true ∧
        Anchor.wordBoundary.holds (.ofPosition text stop) = true := by
  obtain ⟨last, rfl⟩ : ∃ last, stop = last + 1 := ⟨stop - 1, by omega⟩
  have hfirst : text[start]? = some text[start] := List.getElem?_eq_getElem (by omega)
  have hlast : text[last]? = some text[last] := List.getElem?_eq_getElem hstop
  have hleft := holds_wordBoundary_before hfirst (hword _ _ (Nat.le_refl _) hlt hfirst)
  have hright := holds_wordBoundary_behind hlast (hword _ _ (by omega) (Nat.lt_succ_self _) hlast)
  rw [hleft, hright]
  constructor
  · intro run
    exact ⟨run.before, run.behind⟩
  · rintro ⟨hbefore, hbehind⟩
    exact ⟨hlt, hstop, hword, hbefore, hbehind⟩

end Pattern
end PrologTokens
