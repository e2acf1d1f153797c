import Mathlib.Logic.Basic
import PrologTokens.Pattern.Reader
import PrologTokens.Proofs.Except
import PrologTokens.Proofs.Pattern.CharSet

/-!
# The symbols of written patterns

Two things hold of every symbol that is read from a text, and what is made of the symbols relies
on them. The ranges of a set start with the code of a character and none of them is upside down,
so that a set with a single code is the set of one character and sets can be united range by
range. The bounds of a repetition are in order.

Sets are read in many ways, but all of them start with ranges between characters or with a table
of codes, and the operations on sets keep the property. The main statement is
`Symbol.valid_of_mem_readAll`.
-/

set_option autoImplicit false

namespace PrologTokens

/-! ## Sets -/

namespace CharSet

/-- The range starts with the code of a character and is not upside down. -/
def ProperRange (r : Nat × Nat) : Prop := r.1 ≤ r.2 ∧ r.1.isValidChar

instance decidableProperRange (r : Nat × Nat) : Decidable (ProperRange r) :=
  inferInstanceAs (Decidable (r.1 ≤ r.2 ∧ r.1.isValidChar))

/-- All ranges of the set are proper. -/
def Proper (set : CharSet) : Prop := ∀ r ∈ set.ranges, ProperRange r

variable {set other : CharSet} {ranges all : List (Nat × Nat)} {low high : Nat}

/-- Of two ranges that become one, the smaller start is one of the two. -/
theorem ProperRange.merge {a b : Nat} (h : ProperRange (low, high)) (h' : ProperRange (a, b)) :
    ProperRange (min low a, max high b) := by
  refine ⟨Nat.le_trans (Nat.min_le_left low a) (Nat.le_trans h.1 (Nat.le_max_left high b)), ?_⟩
  rcases Nat.le_total low a with hle | hle
  · rw [Nat.min_eq_left hle]
    exact h.2
  · rw [Nat.min_eq_right hle]
    exact h'.2

theorem properRange_of_mem_foldl_addRange (hranges : ∀ r ∈ ranges, ProperRange r)
    (hall : ∀ r ∈ all, ProperRange r) :
    ∀ r ∈ ranges.foldl (fun all r => addRange r.1 r.2 all) all, ProperRange r := by
  induction ranges generalizing all with
  | nil => exact hall
  | cons r ranges ih =>
    obtain ⟨hr, htail⟩ := List.forall_mem_cons.mp hranges
    exact ih htail (forall_mem_addRange ProperRange.merge hr hall)

theorem proper_empty : Proper empty := fun _ hr => absurd hr List.not_mem_nil

theorem proper_ofCodes (h : ∀ r ∈ ranges, ProperRange r) : Proper (ofCodes ranges) :=
  properRange_of_mem_foldl_addRange h fun _ hr => absurd hr List.not_mem_nil

theorem proper_ofRanges {ranges : List (Char × Char)} (h : ∀ r ∈ ranges, r.1 ≤ r.2) :
    Proper (ofRanges ranges) := by
  refine proper_ofCodes fun r hr => ?_
  obtain ⟨r, hmem, rfl⟩ := List.mem_map.mp hr
  exact ⟨h r hmem, r.1.valid⟩

theorem proper_singleton (c : Char) : Proper (singleton c) := by
  intro r hr
  rw [List.mem_singleton.mp hr]
  exact ⟨Nat.le_refl _, c.valid⟩

theorem Proper.union (h : set.Proper) (h' : other.Proper) : (set.union other).Proper :=
  properRange_of_mem_foldl_addRange h' h

/-- What is left of a range without the codes kept free is proper, unless it goes beyond the
last code. -/
theorem properRange_of_mem_trimmed (hhigh : high ≤ lastCode) :
    ∀ r ∈ trimmed low high, ProperRange r := by
  intro r hr
  have hlast : lastCode = 0x10ffff := rfl
  simp only [trimmed] at hr
  split at hr <;> split at hr <;> split at hr <;>
    simp only [List.mem_singleton, List.not_mem_nil] at hr <;> subst hr <;>
    simp only [ProperRange, Nat.isValidChar] <;> omega

/-- Between ranges that start with codes of characters lie proper ranges. -/
theorem properRange_of_mem_gaps (hranges : ∀ r ∈ ranges, r.1.isValidChar) (start : Nat) :
    ∀ r ∈ gaps start ranges, ProperRange r := by
  induction ranges generalizing start with
  | nil => exact properRange_of_mem_trimmed (Nat.le_refl _)
  | cons first ranges ih =>
    obtain ⟨low, high⟩ := first
    obtain ⟨hlow, htail⟩ := List.forall_mem_cons.mp hranges
    rw [gaps]
    split
    · have hlast : lastCode = 0x10ffff := rfl
      have hbelow : low - 1 ≤ lastCode := by
        simp only [Nat.isValidChar] at hlow
        omega
      intro r hr
      rcases List.mem_append.mp hr with hr | hr
      · exact properRange_of_mem_trimmed hbelow r hr
      · exact ih htail _ r hr
    · exact ih htail _

theorem Proper.complement (h : set.Proper) : set.complement.Proper :=
  properRange_of_mem_gaps (fun r hr => (h r hr).2) 0

theorem Proper.inter (h : set.Proper) (h' : other.Proper) : (set.inter other).Proper :=
  (h.complement.union h'.complement).complement

theorem Proper.diff (h : set.Proper) (h' : other.Proper) : (set.diff other).Proper :=
  h.inter h'.complement

theorem Proper.symmDiff (h : set.Proper) (h' : other.Proper) : (set.symmDiff other).Proper :=
  (h.diff h').union (h'.diff h)

/-- The union of proper sets holds the characters of both. -/
theorem Proper.contains_union (h : set.Proper) (h' : other.Proper) (x : Char) :
    (set.union other).contains x = (set.contains x || other.contains x) :=
  any_foldl_addRange x.toNat other.ranges (fun r hr => (h' r hr).1) fun r hr => (h r hr).1

/-- A proper set that is taken for the set of one character holds this one and no other. -/
theorem Proper.contains_of_singleton? (h : set.Proper) {c : Char} (hc : set.singleton? = some c)
    (x : Char) : set.contains x = decide (x = c) := by
  obtain ⟨ranges⟩ := set
  unfold singleton? at hc
  split at hc
  · rename_i low high hranges
    simp only at hranges
    subst hranges
    split at hc
    · rename_i heq
      subst heq
      cases hc
      have hcode : (Char.ofNat low).toNat = low := by
        have hvalid := (h _ List.mem_cons_self).2
        rw [Char.ofNat, dif_pos hvalid]
        rfl
      have hsingle := contains_singleton (Char.ofNat low) x
      rwa [singleton, hcode] at hsingle
    · cases hc
  · cases hc

end CharSet

namespace Pattern

/-! ## Escapes -/

namespace Escape

/-- The set, if the escape stands for one, is proper. -/
def Proper : Escape → Prop
  | .set members => members.Proper
  | _ => True

theorem proper_digitSet : digitSet.Proper := CharSet.proper_ofCodes (by decide +kernel)

theorem proper_blankSet : blankSet.Proper := CharSet.proper_ofCodes (by decide)

theorem proper_wordSet : wordSet.Proper := CharSet.proper_ofCodes (by decide +kernel)

theorem proper_of_ofHexDigits {digits : List Char} {escape : Escape}
    (h : ofHexDigits digits = .ok escape) : escape.Proper := by
  unfold ofHexDigits at h
  split at h
  · simp only at h
    split at h
    · cases h
      trivial
    · cases h
  · cases h

theorem proper_of_readCode {width : Nat} {text rest : List Char} {escape : Escape}
    (h : readCode width text = .ok (escape, rest)) : escape.Proper := by
  unfold readCode at h
  split at h
  · split at h
    · obtain ⟨_, hdigits, heq⟩ := map_eq_ok.mp h
      cases heq
      exact proper_of_ofHexDigits hdigits
    · cases h
  · split at h
    · cases h
    · obtain ⟨_, hdigits, heq⟩ := map_eq_ok.mp h
      cases heq
      exact proper_of_ofHexDigits hdigits

theorem proper_of_read {text rest : List Char} {escape : Escape}
    (h : Escape.read text = .ok (escape, rest)) : escape.Proper := by
  unfold Escape.read at h
  split at h
  case h_7 | h_8 | h_9 => exact proper_of_readCode h
  case h_10 => cases h; exact proper_digitSet
  case h_11 => cases h; exact proper_digitSet.complement
  case h_12 => cases h; exact proper_blankSet
  case h_13 => cases h; exact proper_blankSet.complement
  case h_14 => cases h; exact proper_wordSet
  case h_15 => cases h; exact proper_wordSet.complement
  case h_22 =>
    split at h
    · cases h
      trivial
    · cases h
  all_goals
    cases h
  all_goals trivial

end Escape

/-! ## Brackets -/

theorem SetOperation.proper_apply (operation : SetOperation) {set other : CharSet} (h : set.Proper)
    (h' : other.Proper) : (operation.apply set other).Proper := by
  cases operation with
  | inter => exact h.inter h'
  | diff => exact h.diff h'
  | symmDiff => exact h.symmDiff h'

namespace Bracket

/-- The sets of a draft are proper. -/
structure Draft.Proper (draft : Draft) : Prop where
  waiting : ∀ operation first, draft.waiting = some (operation, first) → first.set.Proper
  members : draft.members.Proper

theorem Draft.proper_start : Draft.start.Proper :=
  ⟨fun _ _ h => absurd h (by simp [Draft.start]), CharSet.proper_empty⟩

theorem Draft.Proper.add {draft : Draft} (h : draft.Proper) {set : CharSet} (hset : set.Proper)
    (depth : Nat) : (draft.add set depth).Proper :=
  ⟨h.waiting, h.members.union hset⟩

theorem Draft.Proper.finish {draft : Draft} (h : draft.Proper) : draft.finish.set.Proper := by
  obtain ⟨waiting, members, count, depth⟩ := draft
  cases waiting with
  | none => exact h.members
  | some first => exact first.1.proper_apply (h.waiting _ _ rfl) h.members

theorem Draft.Proper.operate {draft : Draft} (h : draft.Proper) (operation : SetOperation) :
    (draft.operate operation).Proper := by
  refine ⟨?_, CharSet.proper_empty⟩
  intro _ first heq
  cases heq
  exact h.finish

theorem proper_of_named? {name : String} {set : CharSet} (h : named? name = some set) :
    set.Proper := by
  unfold named? at h
  split at h
  case h_15 => cases h
  all_goals
    cases h
    exact CharSet.proper_ofRanges (by decide)

theorem proper_of_readNamed? {text rest : List Char} {set : CharSet}
    (h : readNamed? text = some (set, rest)) : set.Proper := by
  unfold readNamed? at h
  simp only at h
  split at h
  · obtain ⟨named, hname, heq⟩ := Option.map_eq_some_iff.mp h
    have hnamed := proper_of_named? hname
    cases heq
    split
    · exact hnamed.complement
    · exact hnamed
  · cases h

theorem proper_of_readMember {text rest : List Char} {escape : Escape}
    (h : readMember text = .ok (escape, rest)) : escape.Proper := by
  unfold readMember at h
  split at h
  · cases h
  · exact Escape.proper_of_read h
  · cases h
    trivial

theorem proper_of_readRange {text rest : List Char} {set : CharSet}
    (h : readRange text = .ok (set, rest)) : set.Proper := by
  obtain ⟨⟨low, rest₁⟩, hlow, h⟩ := bind_eq_ok.mp h
  rcases ite_eq_iff.mp h with ⟨-, h⟩ | ⟨-, h⟩
  · obtain ⟨⟨high, rest₂⟩, -, h⟩ := bind_eq_ok.mp h
    simp only at h
    split at h
    · split at h
      · cases h
      · rename_i a b hle
        cases h
        refine CharSet.proper_ofRanges fun r hr => ?_
        rw [List.mem_singleton.mp hr]
        exact Char.not_lt.mp hle
    · cases h
  · split at h
    · cases h
      exact CharSet.proper_singleton _
    · cases h
      exact proper_of_readMember hlow
    · cases h

theorem proper_openingMembers (text : List Char) : (openingMembers text).1.Proper := by
  unfold openingMembers
  split
  · exact Draft.proper_start.add (CharSet.proper_singleton _) 0
  · refine List.foldlRecOn _ _ Draft.proper_start fun draft h c _ => ?_
    exact h.add (CharSet.proper_singleton c) 0

/-- The sets that the two readers give are proper. The induction is over the fuel, which goes
down in both. -/
theorem proper_of_readMembers_and_readBracket (fuel : Nat) :
    (∀ {draft text bracket rest}, draft.Proper → readMembers fuel draft text = .ok (bracket, rest) →
      bracket.set.Proper) ∧
    ∀ {text bracket rest}, readBracket fuel text = .ok (bracket, rest) → bracket.set.Proper := by
  induction fuel with
  | zero =>
    refine ⟨fun _ h => ?_, fun h => ?_⟩
    · rw [readMembers] at h
      cases h
    · rw [readBracket] at h
      cases h
  | succ fuel ih =>
    obtain ⟨ihMembers, ihBracket⟩ := ih
    constructor
    · intro draft text bracket rest hdraft h
      unfold readMembers at h
      split at h
      case h_1 | h_2 => cases h
      case h_3 =>
        cases h
        exact hdraft.finish
      case h_4 hfuel =>
        cases hfuel
        split at h
        · rename_i hnamed
          rcases ite_eq_iff.mp hnamed with ⟨-, hnamed⟩ | ⟨-, hnamed⟩
          · exact ihMembers (hdraft.add (proper_of_readNamed? hnamed) 0) h
          · cases hnamed
        · obtain ⟨⟨inner, rest'⟩, hinner, h⟩ := bind_eq_ok.mp h
          exact ihMembers (hdraft.add (ihBracket hinner) _) h
      case h_5 hfuel | h_6 hfuel | h_7 hfuel =>
        cases hfuel
        exact ihMembers (hdraft.operate _) h
      case h_8 hfuel _ _ _ _ _ _ =>
        cases hfuel
        obtain ⟨⟨set, rest'⟩, hset, h⟩ := bind_eq_ok.mp h
        exact ihMembers (hdraft.add (proper_of_readRange hset) 0) h
    · intro text bracket rest h
      unfold readBracket at h
      simp only at h
      obtain ⟨⟨inner, rest'⟩, hinner, heq⟩ := map_eq_ok.mp h
      have hproper := ihMembers (proper_openingMembers _) hinner
      cases heq
      split
      · exact hproper.complement
      · exact hproper

theorem proper_of_read {text rest : List Char} {bracket : Bracket}
    (h : Bracket.read text = .ok (bracket, rest)) : bracket.set.Proper :=
  (proper_of_readMembers_and_readBracket _).2 h

end Bracket

/-! ## Symbols -/

namespace Symbol

/-- A set is proper, and the bounds of a repetition are in order. -/
def Valid : Symbol → Prop
  | chars set _ => set.Proper
  | times least most _ => ∀ bound ∈ most, least ≤ bound
  | _ => True

theorem valid_ofEscape {escape : Escape} (h : escape.Proper) : (ofEscape escape).Valid := by
  cases escape with
  | char c => exact CharSet.proper_singleton c
  | set set => exact h
  | anchor a => trivial

theorem valid_withPreference {least : Nat} {most : Option Nat} (h : ∀ bound ∈ most, least ≤ bound)
    (text : List Char) : (withPreference least most text).1.Valid := by
  unfold withPreference
  split
  · exact h
  · exact h

theorem le_of_readBounds {text rest : List Char} {least : Nat} {most : Option Nat}
    (h : readBounds text = .ok ((least, most), rest)) : ∀ bound ∈ most, least ≤ bound := by
  obtain ⟨⟨first, rest₁⟩, -, h⟩ := bind_eq_ok.mp h
  simp only at h
  split at h
  · cases h
    intro bound hbound
    cases hbound
    exact Nat.le_refl _
  · cases h
    intro bound hbound
    cases hbound
  · obtain ⟨⟨second, rest₂⟩, -, h⟩ := bind_eq_ok.mp h
    simp only at h
    split at h
    · split at h
      · cases h
      · rename_i hle
        cases h
        intro bound hbound
        cases hbound
        exact Nat.not_lt.mp hle
    · cases h
  · cases h

theorem valid_of_readName {text rest : List Char} {symbol : Symbol}
    (h : readName text = .ok (symbol, rest)) : symbol.Valid := by
  unfold readName at h
  split at h
  · split at h
    · cases h
      trivial
    · cases h
  · cases h

theorem valid_of_read {c : Char} {text rest : List Char} {symbol : Symbol}
    (h : Symbol.read c text = .ok (symbol, rest)) : symbol.Valid := by
  unfold Symbol.read at h
  split at h
  case h_3 | h_4 => exact valid_of_readName h
  case h_5 => cases h
  case h_11 =>
    cases h
    exact (CharSet.proper_singleton _).complement
  case h_12 | h_13 =>
    rw [← (Prod.mk.inj (Except.ok.inj h)).1]
    exact valid_withPreference (fun _ hbound => absurd hbound (Option.not_mem_none _)) text
  case h_14 =>
    rw [← (Prod.mk.inj (Except.ok.inj h)).1]
    exact valid_withPreference (fun _ _ => Nat.zero_le _) text
  case h_15 =>
    obtain ⟨⟨⟨least, most⟩, rest'⟩, hbounds, h⟩ := bind_eq_ok.mp h
    rw [← (Prod.mk.inj (Except.ok.inj h)).1]
    exact valid_withPreference (le_of_readBounds hbounds) rest'
  case h_16 =>
    obtain ⟨⟨bracket, rest'⟩, hbracket, h⟩ := bind_eq_ok.mp h
    cases h
    exact Bracket.proper_of_read hbracket
  case h_17 =>
    obtain ⟨⟨escape, rest'⟩, hescape, h⟩ := bind_eq_ok.mp h
    cases h
    exact valid_ofEscape (Escape.proper_of_read hescape)
  case h_18 =>
    cases h
    exact CharSet.proper_singleton _
  all_goals
    cases h
    trivial

/-- All symbols of a text are valid. -/
theorem valid_of_mem_readAll {fuel : Nat} {text : List Char} {symbols : List Symbol}
    (h : readAll fuel text = .ok symbols) : ∀ symbol ∈ symbols, symbol.Valid := by
  induction fuel generalizing text symbols with
  | zero =>
    cases text <;> cases h <;> simp
  | succ fuel ih =>
    cases text with
    | nil =>
      cases h
      simp
    | cons c text =>
      obtain ⟨⟨first, rest⟩, hfirst, h⟩ := bind_eq_ok.mp h
      obtain ⟨others, hothers, h⟩ := bind_eq_ok.mp h
      cases h
      exact List.forall_mem_cons.mpr ⟨valid_of_read hfirst, ih hothers⟩

end Symbol
end Pattern
end PrologTokens
