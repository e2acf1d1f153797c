import PrologTokens.Pattern.CharSet

/-!
# Membership in sets of characters

A set that is made from ranges holds the characters in these ranges, in whatever order they are
given and whether or not they overlap. The complement of a set holds all the other characters.
-/

set_option autoImplicit false

namespace PrologTokens.CharSet

/-! ## Sets made from ranges -/

/-- What holds of a range and of those that it is added to, and goes over to two ranges that
become one, holds of all the ranges then. -/
theorem forall_mem_addRange {P : Nat × Nat → Prop}
    (hmerge : ∀ {low high a b}, P (low, high) → P (a, b) → P (min low a, max high b))
    {low high : Nat} (h : P (low, high)) {ranges : List (Nat × Nat)} (hranges : ∀ r ∈ ranges, P r) :
    ∀ r ∈ addRange low high ranges, P r := by
  induction ranges generalizing low high with
  | nil =>
    intro r hr
    rw [List.mem_singleton.mp hr]
    exact h
  | cons first ranges ih =>
    obtain ⟨a, b⟩ := first
    obtain ⟨hab, htail⟩ := List.forall_mem_cons.mp hranges
    rw [addRange]
    split
    · exact List.forall_mem_cons.mpr ⟨h, hranges⟩
    · split
      · exact List.forall_mem_cons.mpr ⟨hab, ih h htail⟩
      · exact ih (hmerge h hab) htail

/-- Adding a range to ranges that are none of them upside down gives such ranges. -/
theorem le_of_mem_addRange {low high : Nat} (h : low ≤ high) {ranges : List (Nat × Nat)}
    (hranges : ∀ r ∈ ranges, r.1 ≤ r.2) : ∀ r ∈ addRange low high ranges, r.1 ≤ r.2 :=
  forall_mem_addRange (P := fun r => r.1 ≤ r.2) (fun hle hle' => by omega) h hranges

/-- Ranges that are added one after the other add the codes in them. The induction is over the
ranges to be added; the ones that are there already grow along. -/
theorem any_foldl_addRange (code : Nat) (ranges : List (Nat × Nat)) :
    ∀ {all : List (Nat × Nat)}, (∀ r ∈ ranges, r.1 ≤ r.2) → (∀ r ∈ all, r.1 ≤ r.2) →
      ((ranges.foldl (fun all r => addRange r.1 r.2 all) all).any
          fun r => r.1 ≤ code && code ≤ r.2) =
        ((all.any fun r => r.1 ≤ code && code ≤ r.2) ||
          ranges.any fun r => r.1 ≤ code && code ≤ r.2) := by
  induction ranges with
  | nil =>
    intro all _ _
    rw [List.foldl_nil, List.any_nil, Bool.or_false]
  | cons r ranges ih =>
    intro all hranges hall
    obtain ⟨hr, htail⟩ := List.forall_mem_cons.mp hranges
    rw [List.foldl_cons, ih htail (le_of_mem_addRange hr hall),
      any_addRange code r.1 r.2 hr all hall, List.any_cons,
      Bool.or_comm (decide (r.1 ≤ code) && decide (code ≤ r.2)), Bool.or_assoc]

/-- The set made from ranges holds the characters in one of them. -/
theorem contains_ofRanges {ranges : List (Char × Char)} (h : ∀ r ∈ ranges, r.1 ≤ r.2) (x : Char) :
    (ofRanges ranges).contains x = ranges.any fun r => r.1 ≤ x && x ≤ r.2 := by
  have hcodes : ∀ r ∈ ranges.map fun r => (r.1.toNat, r.2.toNat), r.1 ≤ r.2 := by
    intro r hr
    obtain ⟨r, hmem, rfl⟩ := List.mem_map.mp hr
    exact h r hmem
  rw [ofRanges, ofCodes, contains, any_foldl_addRange x.toNat _ hcodes (by simp), List.any_nil,
    Bool.false_or, List.any_map]
  rfl

/-- A range from a character to itself holds this character only. -/
theorem between_self (c x : Char) : (c ≤ x && x ≤ c) = decide (x = c) := by
  rw [Bool.eq_iff_iff, Bool.and_eq_true, decide_eq_true_eq, decide_eq_true_eq, decide_eq_true_eq]
  constructor
  · rintro ⟨hle, hge⟩
    exact Char.le_antisymm hge hle
  · rintro rfl
    exact ⟨Char.le_refl x, Char.le_refl x⟩

/-- A set that is given character by character holds these characters. -/
theorem contains_ofRanges_self (cs : List Char) (x : Char) :
    (ofRanges (cs.map fun c => (c, c))).contains x = decide (x ∈ cs) := by
  rw [contains_ofRanges (by simp), List.any_map]
  simp only [Function.comp_def, between_self]
  rw [Bool.eq_iff_iff]
  simp

/-! ## Complements -/

/-- The ranges follow each other from a code on, with nothing in common. -/
def Ascending : (start : Nat) → List (Nat × Nat) → Prop
  | _, [] => True
  | start, (low, high) :: ranges => start ≤ low ∧ low ≤ high ∧ Ascending (high + 1) ranges

instance decidableAscending : (start : Nat) → (ranges : List (Nat × Nat)) →
    Decidable (Ascending start ranges)
  | _, [] => inferInstanceAs (Decidable True)
  | start, (low, high) :: ranges =>
    have := decidableAscending (high + 1) ranges
    inferInstanceAs (Decidable (start ≤ low ∧ low ≤ high ∧ Ascending (high + 1) ranges))

/-- No range starts before the code from which on they follow each other. -/
theorem Ascending.le_of_mem {start : Nat} {ranges : List (Nat × Nat)} (h : Ascending start ranges) :
    ∀ r ∈ ranges, start ≤ r.1 := by
  induction ranges generalizing start with
  | nil =>
    intro r hr
    exact absurd hr List.not_mem_nil
  | cons first ranges ih =>
    obtain ⟨low, high⟩ := first
    obtain ⟨hlow, hhigh, htail⟩ := h
    refine List.forall_mem_cons.mpr ⟨hlow, fun r hr => ?_⟩
    have := ih htail r hr
    omega

/-- The code of a character is none of those kept free, and no larger than the last one. -/
theorem code_valid (x : Char) : x.toNat < 0xd800 ∨ 0xdfff < x.toNat ∧ x.toNat ≤ lastCode := by
  have hvalid : x.toNat < 0xd800 ∨ 0xdfff < x.toNat ∧ x.toNat < 0x110000 := x.valid
  rw [lastCode]
  omega

/-- Leaving out codes at the ends that no character has makes no difference to characters. -/
theorem any_trimmed (x : Char) (low high : Nat) :
    ((trimmed low high).any fun r => r.1 ≤ x.toNat && x.toNat ≤ r.2) =
      (decide (low ≤ x.toNat) && decide (x.toNat ≤ high)) := by
  have hvalid := code_valid x
  rw [Bool.eq_iff_iff]
  simp only [trimmed]
  split <;> split <;> split <;>
    simp only [List.any_cons, List.any_nil, Bool.or_false, Bool.and_eq_true, decide_eq_true_eq,
      Bool.false_eq_true, false_iff] <;> omega

/-- The gaps between ranges that follow each other hold the characters from the start on that are in
none of the ranges. -/
theorem any_gaps (x : Char) {start : Nat} {ranges : List (Nat × Nat)} (h : Ascending start ranges) :
    ((gaps start ranges).any fun r => r.1 ≤ x.toNat && x.toNat ≤ r.2) =
      (decide (start ≤ x.toNat) && !ranges.any fun r => r.1 ≤ x.toNat && x.toNat ≤ r.2) := by
  induction ranges generalizing start with
  | nil =>
    have hvalid := code_valid x
    have hlast : x.toNat ≤ lastCode := by
      have : 0xd800 ≤ lastCode := by decide
      omega
    rw [gaps, any_trimmed, List.any_nil, decide_eq_true hlast, Bool.and_true, Bool.not_false,
      Bool.and_true]
  | cons first ranges ih =>
    obtain ⟨low, high⟩ := first
    obtain ⟨hlow, hhigh, htail⟩ := h
    -- Below the second range only the first one counts.
    have hbelow : x.toNat ≤ high →
        (ranges.any fun r => r.1 ≤ x.toNat && x.toNat ≤ r.2) = false := by
      intro hx
      rw [List.any_eq_false]
      intro r hr
      have := htail.le_of_mem r hr
      simp only [Bool.and_eq_true, decide_eq_true_eq]
      omega
    have hgaps : ((gaps start ((low, high) :: ranges)).any
        fun r => r.1 ≤ x.toNat && x.toNat ≤ r.2) =
          ((decide (start ≤ x.toNat) && decide (x.toNat < low)) ||
            (gaps (high + 1) ranges).any fun r => r.1 ≤ x.toNat && x.toNat ≤ r.2) := by
      rw [gaps]
      split
      · rename_i hstart
        have hpred : decide (x.toNat ≤ low - 1) = decide (x.toNat < low) :=
          decide_eq_decide.mpr (by omega)
        rw [List.any_append, any_trimmed, hpred]
      · have hnone : (decide (start ≤ x.toNat) && decide (x.toNat < low)) = false := by
          simp only [Bool.and_eq_false_iff, decide_eq_false_iff_not]
          omega
        rw [hnone, Bool.false_or]
    rw [hgaps, ih htail, List.any_cons]
    by_cases hx : x.toNat ≤ high
    · rw [hbelow hx, Bool.eq_iff_iff]
      simp only [Bool.or_false, Bool.not_false, Bool.and_true, Bool.or_eq_true, Bool.and_eq_true,
        Bool.not_eq_true', Bool.and_eq_false_iff, decide_eq_true_eq, decide_eq_false_iff_not]
      omega
    · have hlow' : decide (x.toNat < low) = false := decide_eq_false (by omega)
      have hhigh' : decide (high + 1 ≤ x.toNat) = true := decide_eq_true (by omega)
      have hstart : decide (start ≤ x.toNat) = true := decide_eq_true (by omega)
      rw [hlow', hhigh', hstart, decide_eq_false hx, Bool.and_false, Bool.and_false, Bool.false_or,
        Bool.false_or]

/-- The complement of a set holds the characters that the set does not hold. -/
theorem contains_complement {set : CharSet} (h : Ascending 0 set.ranges) (x : Char) :
    set.complement.contains x = !set.contains x := by
  rw [complement, contains, any_gaps x h, decide_eq_true (Nat.zero_le _), Bool.true_and]
  rfl

end PrologTokens.CharSet
