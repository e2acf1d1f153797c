import PrologTokens.Proofs.Pattern.Describes

/-!
# Repetition

A pattern has no counted repetition: it is written out in copies and in optional parts that
stand inside each other, with a repetition without bounds at the end if there is no upper one.
Here all of these are said to be what they stand for: some number of spans, one behind the
other, where the number lies within the bounds. Whether more or fewer turns are preferred makes
no difference to that, and neither does a body that takes up nothing.

The main statement is `describes_repeated`.
-/

set_option autoImplicit false

namespace PrologTokens.Pattern

/-- A number of spans of a kind follow each other between two positions of a line. -/
def Repeats (text : List Char) (Occurs : Nat → Nat → Prop) : (count start stop : Nat) → Prop
  | 0, start, stop => stop = start ∧ start ≤ text.length
  | count + 1, start, stop => ∃ middle, Occurs start middle ∧ Repeats text Occurs count middle stop

/-- The number of turns lies within the bounds of a repetition. -/
def InBounds (least : Nat) (most : Option Nat) (count : Nat) : Prop :=
  least ≤ count ∧ ∀ bound ∈ most, count ≤ bound

variable {text : List Char} {start stop count : Nat}

theorem repeats_congr {Occurs Occurs' : Nat → Nat → Prop}
    (h : ∀ {start stop}, Occurs start stop ↔ Occurs' start stop) :
    Repeats text Occurs count start stop ↔ Repeats text Occurs' count start stop := by
  induction count generalizing start with
  | zero => exact Iff.rfl
  | succ count ih => simp only [Repeats, h, ih]

variable {p q : Pattern} {greedy : Bool}

theorem describes_empty : empty.Describes text start stop ↔ stop = start ∧ start ≤ text.length := by
  constructor
  · rintro ⟨hstart, hmatches⟩
    generalize hd : Cursor.ofPosition text stop = d at hmatches
    cases hmatches with
    | empty => exact ⟨congrArg Cursor.position hd, hstart⟩
  · rintro ⟨rfl, hstart⟩
    exact ⟨hstart, .empty _⟩

theorem repeats_one :
    Repeats text (p.Describes text) 1 start stop ↔ p.Describes text start stop := by
  constructor
  · rintro ⟨_, h, rfl, -⟩
    exact h
  · intro h
    exact ⟨stop, h, rfl, h.bounds.2⟩

theorem Repeats.start_le (h : Repeats text (p.Describes text) count start stop) :
    start ≤ text.length := by
  cases count with
  | zero => exact h.2
  | succ count =>
    obtain ⟨_, hfirst, -⟩ := h
    exact hfirst.1

theorem repeats_add {more : Nat} :
    Repeats text (p.Describes text) (count + more) start stop ↔
      ∃ middle, Repeats text (p.Describes text) count start middle ∧
        Repeats text (p.Describes text) more middle stop := by
  induction count generalizing start with
  | zero =>
    rw [Nat.zero_add]
    constructor
    · intro h
      exact ⟨start, ⟨rfl, h.start_le⟩, h⟩
    · rintro ⟨_, ⟨rfl, -⟩, h⟩
      exact h
  | succ count ih =>
    rw [Nat.add_right_comm]
    constructor
    · rintro ⟨first, hfirst, hothers⟩
      obtain ⟨middle, hcount, hmore⟩ := ih.mp hothers
      exact ⟨middle, ⟨first, hfirst, hcount⟩, hmore⟩
    · rintro ⟨middle, ⟨first, hfirst, hcount⟩, hmore⟩
      exact ⟨first, hfirst, ih.mpr ⟨middle, hcount, hmore⟩⟩

/-! ## Without an upper bound -/

theorem describes_star :
    (star p greedy).Describes text start stop ↔
      ∃ count, Repeats text (p.Describes text) count start stop := by
  constructor
  · rintro ⟨hstart, hmatches⟩
    generalize hs : star p greedy = s at hmatches
    generalize hc : Cursor.ofPosition text start = c at hmatches
    generalize hd : Cursor.ofPosition text stop = d at hmatches
    -- The induction is over the turns, each of which starts at a position of the line.
    induction hmatches generalizing start with
    | starNone c =>
      obtain rfl : stop = start := congrArg Cursor.position (hd.trans hc.symm)
      exact ⟨0, rfl, hstart⟩
    | starMore first more _ ihMore =>
      cases hs
      subst hc
      obtain ⟨middle, -, hmiddle, rfl⟩ := first.exists_ofPosition text rfl hstart
      obtain ⟨count, hcount⟩ := ihMore hmiddle rfl rfl hd
      exact ⟨count + 1, middle, ⟨hstart, first⟩, hcount⟩
    | _ => cases hs
  · rintro ⟨count, h⟩
    induction count generalizing start with
    | zero =>
      obtain ⟨rfl, hstart⟩ := h
      exact ⟨hstart, .starNone _⟩
    | succ count ih =>
      obtain ⟨middle, hfirst, hothers⟩ := h
      exact ⟨hfirst.1, .starMore hfirst.2 (ih hothers).2⟩

theorem describes_plus :
    (plus p greedy).Describes text start stop ↔
      ∃ count, Repeats text (p.Describes text) (count + 1) start stop := by
  have hsplit : (plus p greedy).Describes text start stop ↔
      ∃ middle, p.Describes text start middle ∧ (star p greedy).Describes text middle stop := by
    constructor
    · rintro ⟨hstart, hmatches⟩
      cases hmatches with
      | plus first more =>
        obtain ⟨middle, -, hmiddle, rfl⟩ := first.exists_ofPosition text rfl hstart
        exact ⟨middle, ⟨hstart, first⟩, hmiddle, more⟩
    · rintro ⟨middle, hfirst, hmore⟩
      exact ⟨hfirst.1, .plus hfirst.2 hmore.2⟩
  rw [hsplit]
  constructor
  · rintro ⟨middle, hfirst, hmore⟩
    obtain ⟨count, hcount⟩ := describes_star.mp hmore
    exact ⟨count, middle, hfirst, hcount⟩
  · rintro ⟨count, middle, hfirst, hcount⟩
    exact ⟨middle, hfirst, describes_star.mpr ⟨count, hcount⟩⟩

theorem describes_optional :
    (optional greedy p).Describes text start stop ↔
      stop = start ∧ start ≤ text.length ∨ p.Describes text start stop := by
  cases greedy with
  | true => exact describes_alt.trans ((or_congr Iff.rfl describes_empty).trans or_comm)
  | false => exact describes_alt.trans (or_congr describes_empty Iff.rfl)

theorem describes_anyNumber :
    (anyNumber greedy p).Describes text start stop ↔
      ∃ count, Repeats text (p.Describes text) count start stop := by
  unfold anyNumber
  split
  · rw [describes_optional, describes_plus]
    constructor
    · rintro (hnone | ⟨count, hcount⟩)
      · exact ⟨0, hnone⟩
      · exact ⟨count + 1, hcount⟩
    · rintro ⟨_ | count, hcount⟩
      · exact .inl hcount
      · exact .inr ⟨count, hcount⟩
  · exact describes_star

/-! ## Copies -/

theorem describes_copies :
    (copies p count q).Describes text start stop ↔
      ∃ middle, Repeats text (p.Describes text) count start middle ∧
        q.Describes text middle stop := by
  induction count generalizing q with
  | zero =>
    constructor
    · intro h
      exact ⟨start, ⟨rfl, h.1⟩, h⟩
    · rintro ⟨_, ⟨rfl, -⟩, h⟩
      exact h
  | succ count ih =>
    -- The copy next to `q` is the last one.
    rw [copies, ih]
    constructor
    · rintro ⟨middle, hcount, hseq⟩
      obtain ⟨middle', hlast, hq⟩ := describes_seq.mp hseq
      exact ⟨middle', repeats_add.mpr ⟨middle, hcount, repeats_one.mpr hlast⟩, hq⟩
    · rintro ⟨middle', hcopies, hq⟩
      obtain ⟨middle, hcount, hlast⟩ := repeats_add.mp hcopies
      exact ⟨middle, hcount, describes_seq.mpr ⟨middle', repeats_one.mp hlast, hq⟩⟩

theorem describes_exactly :
    (exactly p count).Describes text start stop ↔
      Repeats text (p.Describes text) count start stop := by
  cases count with
  | zero => exact describes_empty
  | succ count => simp only [exactly, describes_copies, repeats_add, repeats_one]

theorem describes_atLeast {least : Nat} :
    (atLeast greedy p least).Describes text start stop ↔
      ∃ count, least ≤ count ∧ Repeats text (p.Describes text) count start stop := by
  cases least with
  | zero => simp only [atLeast, describes_anyNumber, Nat.zero_le, true_and]
  | succ least =>
    rw [atLeast, describes_copies]
    constructor
    · rintro ⟨middle, hleast, hplus⟩
      obtain ⟨more, hmore⟩ := describes_plus.mp hplus
      exact ⟨least + (more + 1), by omega, repeats_add.mpr ⟨middle, hleast, hmore⟩⟩
    · rintro ⟨count, hle, hcount⟩
      obtain ⟨more, rfl⟩ : ∃ more, count = least + (more + 1) := ⟨count - least - 1, by omega⟩
      obtain ⟨middle, hleast, hmore⟩ := repeats_add.mp hcount
      exact ⟨middle, hleast, describes_plus.mpr ⟨more, hmore⟩⟩

/-- An optional part that stands behind one more turn adds this turn. -/
theorem describes_optional_seq {bound : Nat}
    (hq : ∀ {start stop}, q.Describes text start stop ↔
      ∃ count, count ≤ bound ∧ Repeats text (p.Describes text) count start stop) :
    (optional greedy (seq p q)).Describes text start stop ↔
      ∃ count, count ≤ bound + 1 ∧ Repeats text (p.Describes text) count start stop := by
  rw [describes_optional, describes_seq]
  constructor
  · rintro (hnone | ⟨middle, hfirst, hothers⟩)
    · exact ⟨0, Nat.zero_le _, hnone⟩
    · obtain ⟨count, hle, hcount⟩ := hq.mp hothers
      exact ⟨count + 1, Nat.succ_le_succ hle, middle, hfirst, hcount⟩
  · rintro ⟨_ | count, hle, hcount⟩
    · exact .inl hcount
    · obtain ⟨middle, hfirst, hothers⟩ := hcount
      exact .inr ⟨middle, hfirst, hq.mpr ⟨count, Nat.le_of_succ_le_succ hle, hothers⟩⟩

theorem describes_nested {bound : Nat}
    (hq : ∀ {start stop}, q.Describes text start stop ↔
      ∃ count, count ≤ bound ∧ Repeats text (p.Describes text) count start stop) (more : Nat) :
    (nested greedy p more q).Describes text start stop ↔
      ∃ count, count ≤ bound + more ∧ Repeats text (p.Describes text) count start stop := by
  induction more generalizing q bound with
  | zero => exact hq
  | succ more ih =>
    rw [nested, ih (describes_optional_seq hq), Nat.add_assoc, Nat.add_comm 1 more]

theorem describes_atMost {bound : Nat} :
    (atMost greedy p bound).Describes text start stop ↔
      ∃ count, count ≤ bound ∧ Repeats text (p.Describes text) count start stop := by
  cases bound with
  | zero => simp only [atMost, describes_empty, Nat.le_zero, exists_eq_left, Repeats]
  | succ bound =>
    have hone : ∀ {start stop}, (optional greedy p).Describes text start stop ↔
        ∃ count, count ≤ 1 ∧ Repeats text (p.Describes text) count start stop := by
      intro start stop
      rw [describes_optional]
      constructor
      · rintro (hnone | hturn)
        · exact ⟨0, Nat.zero_le 1, hnone⟩
        · exact ⟨1, Nat.le_refl 1, repeats_one.mpr hturn⟩
      · rintro ⟨_ | _ | count, hle, hcount⟩
        · exact .inl hcount
        · exact .inr (repeats_one.mp hcount)
        · omega
    rw [atMost, describes_nested hone, Nat.add_comm]

/-! ## Bounds -/

/-- A repetition describes the spans that are made of a number of spans of its body, with the number
within the bounds. -/
theorem describes_repeated {least : Nat} {most : Option Nat}
    (hbounds : ∀ bound ∈ most, least ≤ bound) :
    (p.repeated least most greedy).Describes text start stop ↔
      ∃ count, InBounds least most count ∧ Repeats text (p.Describes text) count start stop := by
  cases most with
  | none => simp only [repeated, describes_atLeast, InBounds, Option.not_mem_none, false_implies,
      implies_true, and_true]
  | some bound =>
    have hle : least ≤ bound := hbounds bound rfl
    simp only [repeated, InBounds, Option.mem_some_iff, forall_eq']
    split
    · rw [describes_exactly]
      constructor
      · intro h
        exact ⟨least, ⟨Nat.le_refl _, hle⟩, h⟩
      · rintro ⟨count, ⟨hleast, hmost⟩, h⟩
        obtain rfl : least = count := by omega
        exact h
    · rw [describes_copies]
      constructor
      · rintro ⟨middle, hleast, hothers⟩
        obtain ⟨more, hmore, hmiddle⟩ := describes_atMost.mp hothers
        exact ⟨least + more, by omega, repeats_add.mpr ⟨middle, hleast, hmiddle⟩⟩
      · rintro ⟨count, ⟨hleast, hmost⟩, h⟩
        obtain ⟨more, rfl⟩ := Nat.exists_eq_add_of_le hleast
        obtain ⟨middle, hfirst, hothers⟩ := repeats_add.mp h
        exact ⟨middle, hfirst, describes_atMost.mpr ⟨more, by omega, hothers⟩⟩

end PrologTokens.Pattern
