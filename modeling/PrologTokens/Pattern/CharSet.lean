/-!
# Sets of characters

A set of characters is kept as the list of its ranges of code points: in ascending order, no two of
them overlapping or adjacent. So equal sets are equal lists, however they were written.
-/

set_option autoImplicit false

namespace PrologTokens

/-- A set of characters, given by closed ranges of code points in ascending order with gaps between
them. -/
structure CharSet where
  /-- The ranges. -/
  ranges : List (Nat × Nat)
  deriving DecidableEq, Repr, Inhabited

namespace CharSet

/-- Membership of a character. -/
def contains (set : CharSet) (c : Char) : Bool :=
  set.ranges.any fun r => r.1 ≤ c.toNat && c.toNat ≤ r.2

/-- The set without characters. -/
def empty : CharSet := ⟨[]⟩

/-- The set of one character. -/
def singleton (c : Char) : CharSet := ⟨[(c.toNat, c.toNat)]⟩

/-- The only character of a set with a single one. -/
def singleton? (set : CharSet) : Option Char :=
  match set.ranges with
  | [(low, high)] => if low = high then some (Char.ofNat low) else none
  | _ => none

/-- Adds a range. The ranges that it overlaps or touches become one with it. -/
def addRange : (low high : Nat) → List (Nat × Nat) → List (Nat × Nat)
  | low, high, [] => [(low, high)]
  | low, high, (a, b) :: ranges =>
    if high + 1 < a then (low, high) :: (a, b) :: ranges
    else if b + 1 < low then (a, b) :: addRange low high ranges
    else addRange (min low a) (max high b) ranges

/-- The set of the characters in some ranges. -/
def ofCodes (ranges : List (Nat × Nat)) : CharSet :=
  ⟨ranges.foldl (fun all r => addRange r.1 r.2 all) []⟩

/-- The set of the characters in some ranges. -/
def ofRanges (ranges : List (Char × Char)) : CharSet :=
  ofCodes (ranges.map fun r => (r.1.toNat, r.2.toNat))

/-- The characters of either set. -/
def union (set other : CharSet) : CharSet :=
  ⟨other.ranges.foldl (fun all r => addRange r.1 r.2 all) set.ranges⟩

/-- The largest code point. -/
def lastCode : Nat := 0x10ffff

/-- The codes from `low` to `high` without those kept free for halves of pairs, which no character
has, at either end. -/
def trimmed (low high : Nat) : List (Nat × Nat) :=
  let low := if 0xd800 ≤ low ∧ low ≤ 0xdfff then 0xe000 else low
  let high := if 0xd800 ≤ high ∧ high ≤ 0xdfff then 0xd7ff else high
  if low ≤ high then [(low, high)] else []

/-- The gaps between ranges, from a code on. -/
def gaps : (start : Nat) → List (Nat × Nat) → List (Nat × Nat)
  | start, [] => trimmed start lastCode
  | start, (low, high) :: ranges =>
    if start < low then trimmed start (low - 1) ++ gaps (high + 1) ranges
    else gaps (high + 1) ranges

/-- The characters outside of a set. -/
def complement (set : CharSet) : CharSet := ⟨gaps 0 set.ranges⟩

/-- The characters of both sets. -/
def inter (set other : CharSet) : CharSet := (set.complement.union other.complement).complement

/-- The characters of the first set that are not in the second. -/
def diff (set other : CharSet) : CharSet := set.inter other.complement

/-- The characters that are in one set and not in the other. -/
def symmDiff (set other : CharSet) : CharSet := (set.diff other).union (other.diff set)

/-- Every character but the line feed. -/
def notNewline : CharSet := (singleton '\n').complement

/-- Whether all characters of the set are ASCII characters. -/
def isAscii (set : CharSet) : Bool := set.ranges.all fun r => r.2 < 0x80

/-- A one-element set holds that element and no other. -/
theorem contains_singleton (c d : Char) : (singleton c).contains d = decide (d = c) := by
  by_cases h : d = c
  · simp [singleton, contains, h]
  · have hne : d.toNat ≠ c.toNat := fun hn => h (Char.toNat_inj.1 hn)
    simp only [singleton, contains, List.any_cons, List.any_nil, Bool.or_false, h, decide_false,
      Bool.and_eq_false_iff, decide_eq_false_iff_not]
    omega

/-- Adding a range adds the codes of that range. -/
theorem any_addRange (code low high : Nat) (h : low ≤ high) (ranges : List (Nat × Nat))
    (hr : ∀ r ∈ ranges, r.1 ≤ r.2) :
    ((addRange low high ranges).any fun r => r.1 ≤ code && code ≤ r.2) =
      ((low ≤ code && code ≤ high) || ranges.any fun r => r.1 ≤ code && code ≤ r.2) := by
  induction ranges generalizing low high with
  | nil => simp [addRange]
  | cons r ranges ih =>
    obtain ⟨a, b⟩ := r
    have hab : a ≤ b := hr (a, b) (by simp)
    have htail : ∀ r ∈ ranges, r.1 ≤ r.2 := fun r hmem => hr r (by simp [hmem])
    rw [addRange]
    split
    · simp
    · split
      · rw [List.any_cons, ih low high h htail, List.any_cons]
        cases (a ≤ code && code ≤ b : Bool) <;> cases (low ≤ code && code ≤ high : Bool) <;> simp
      · rename_i h₁ h₂
        rw [ih _ _ (by omega) htail, List.any_cons, ← Bool.or_assoc]
        congr 1
        rw [Bool.eq_iff_iff]
        simp only [Bool.or_eq_true, Bool.and_eq_true, decide_eq_true_eq]
        omega

end CharSet
end PrologTokens
