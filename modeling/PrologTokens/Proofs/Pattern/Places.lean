import PrologTokens.Proofs.Pattern.WordRun

/-!
# Conditions on places

A matcher tells whether a condition holds at a place from what it has passed and what is ahead.
Here the same conditions are said of the positions of a line and of the characters that stand on
both sides.
-/

set_option autoImplicit false

namespace PrologTokens

namespace Pattern

/-- The character before a position of a line has a property. -/
def Before (P : Char → Bool) (text : List Char) (i : Nat) : Prop :=
  ∃ x, 0 < i ∧ text[i - 1]? = some x ∧ P x = true

/-- The character behind a position of a line has a property. -/
def Behind (P : Char → Bool) (text : List Char) (i : Nat) : Prop :=
  ∃ x, text[i]? = some x ∧ P x = true

variable {P : Char → Bool} {text : List Char} {i : Nat}

theorem any_previous_iff (hi : i ≤ text.length) :
    (Cursor.ofPosition text i).previous.any P = true ↔ Before P text i := by
  simp only [Option.any_eq_true, previous_ofPosition hi, Before, and_assoc]

theorem any_head?_iff : (Cursor.ofPosition text i).rest.head?.any P = true ↔ Behind P text i := by
  simp only [Cursor.ofPosition, List.head?_drop, Option.any_eq_true, Behind]

end Pattern

open Pattern

/-- The condition holds at a position of a line. -/
def Anchor.HoldsAt (text : List Char) (i : Nat) : Anchor → Prop
  | lineStart => i = 0
  | lineEnd => i = text.length
  | wordBoundary => ¬ (Before Text.isWord text i ↔ Behind Text.isWord text i)
  | scriptBoundary =>
    ¬ (Before Text.isWordOfAnyScript text i ↔ Behind Text.isWordOfAnyScript text i)
  | noScriptBoundary => Before Text.isWordOfAnyScript text i ↔ Behind Text.isWordOfAnyScript text i
  | scriptWordStart =>
    ¬ Before Text.isWordOfAnyScript text i ∧ Behind Text.isWordOfAnyScript text i
  | scriptWordEnd =>
    Before Text.isWordOfAnyScript text i ∧ ¬ Behind Text.isWordOfAnyScript text i

/-- What a matcher finds at a place is what holds at the position. -/
theorem Anchor.holds_ofPosition_iff {text : List Char} {i : Nat} (hi : i ≤ text.length)
    (a : Anchor) : a.holds (.ofPosition text i) = true ↔ a.HoldsAt text i := by
  cases a with
  | lineStart =>
    have hnone : (Cursor.ofPosition text i).previous = none ↔ i = 0 := by
      simp only [Option.eq_none_iff_forall_not_mem, Option.mem_def, previous_ofPosition hi, not_and]
      constructor
      · intro h
        refine Nat.eq_zero_of_not_pos fun hpos => ?_
        exact h _ hpos (List.getElem?_eq_getElem (by omega))
      · rintro rfl _ hpos
        exact absurd hpos (Nat.lt_irrefl 0)
    rw [holds, Option.isNone_iff_eq_none, hnone, HoldsAt]
  | lineEnd =>
    rw [holds, List.isEmpty_iff, Cursor.ofPosition, List.drop_eq_nil_iff, HoldsAt]
    omega
  | wordBoundary =>
    rw [holds, bne_iff_ne, ne_eq, Bool.eq_iff_iff, any_previous_iff hi, any_head?_iff, HoldsAt]
  | scriptBoundary =>
    rw [holds, bne_iff_ne, ne_eq, Bool.eq_iff_iff, any_previous_iff hi, any_head?_iff, HoldsAt]
  | noScriptBoundary =>
    rw [holds, beq_iff_eq, Bool.eq_iff_iff, any_previous_iff hi, any_head?_iff, HoldsAt]
  | scriptWordStart =>
    rw [holds, Bool.and_eq_true, Bool.not_eq_true', ← Bool.not_eq_true, any_previous_iff hi,
      any_head?_iff, HoldsAt]
  | scriptWordEnd =>
    rw [holds, Bool.and_eq_true, Bool.not_eq_true', ← Bool.not_eq_true, any_previous_iff hi,
      any_head?_iff, HoldsAt]

end PrologTokens
