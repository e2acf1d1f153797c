import Mathlib.Logic.Relation
import PrologTokens.Proofs.Pattern.Soundness
import PrologTokens.Rule.Basic

/-!
# The spans that a rule reports

A search for all matches is a walk over the positions of the line: from each position it finds
the leftmost match, and goes on behind it, or one character further if the match is empty.
`Visits` says where that walk comes by; `Rule.Reports` says which non-empty spans a rule finds
on it, without a list and without a bound on the number of turns. A turn can go in four ways, by
`findsFrom_cases`, and for each of them there is one law for the walk and one for the list.

The main statements are `Rule.mem_findAll_iff`, by which the list of matches holds exactly these
spans with their characters, and `Rule.findAll_sorted`, by which it holds them from left to right.
By `Rule.findAll_apart` no two of them overlap.
-/

set_option autoImplicit false

namespace PrologTokens

/-- Numbers given along a list increase. -/
theorem zipIdx_pairwise_lt {α : Type} (items : List α) (number : Nat) :
    (items.zipIdx number).Pairwise fun a b => a.2 < b.2 := by
  rw [← List.pairwise_map (f := Prod.snd) (R := (· < ·)), List.zipIdx_map_snd]
  exact List.pairwise_lt_range'

namespace Pattern

/-! ## Places of a line -/

/-- A match that starts at a place of a line ends at a place of it that is not further to the left.
The induction is over the match. -/
theorem Matches.exists_ofPosition {p : Pattern} {c e : Cursor} (h : p.Matches c e)
    (line : List Char) :
    ∀ {start : Nat}, c = .ofPosition line start → start ≤ line.length →
      ∃ stop, start ≤ stop ∧ stop ≤ line.length ∧ e = .ofPosition line stop := by
  induction h with
  | empty c =>
    intro start hc hstart
    exact ⟨start, Nat.le_refl start, hstart, hc⟩
  | @chars set c x rest ahead mem =>
    intro start hc hstart
    rw [hc] at ahead ⊢
    refine ⟨start + 1, Nat.le_succ start, ?_, Cursor.pass_ofPosition ahead⟩
    have hlength := congrArg List.length ahead
    simp only [Cursor.ofPosition, List.length_drop, List.length_cons] at hlength
    omega
  | anchor holds =>
    intro start hc hstart
    exact ⟨start, Nat.le_refl start, hstart, hc⟩
  | seq _ _ ihFirst ihSecond =>
    intro start hc hstart
    obtain ⟨middle, hle, hmiddle, hd⟩ := ihFirst hc hstart
    obtain ⟨stop, hle', hstop, he⟩ := ihSecond hd hmiddle
    exact ⟨stop, Nat.le_trans hle hle', hstop, he⟩
  | altLeft _ ih => exact ih
  | altRight _ ih => exact ih
  | starNone c =>
    intro start hc hstart
    exact ⟨start, Nat.le_refl start, hstart, hc⟩
  | starMore _ _ ihFirst ihMore =>
    intro start hc hstart
    obtain ⟨middle, hle, hmiddle, hd⟩ := ihFirst hc hstart
    obtain ⟨stop, hle', hstop, he⟩ := ihMore hd hmiddle
    exact ⟨stop, Nat.le_trans hle hle', hstop, he⟩
  | plus _ _ ihFirst ihMore =>
    intro start hc hstart
    obtain ⟨middle, hle, hmiddle, hd⟩ := ihFirst hc hstart
    obtain ⟨stop, hle', hstop, he⟩ := ihMore hd hmiddle
    exact ⟨stop, Nat.le_trans hle hle', hstop, he⟩

/-- One character further on there is the rest behind it, and the place is still inside the line. -/
theorem drop_succ_of_drop {line rest : List Char} {i : Nat} {x : Char}
    (h : line.drop i = x :: rest) : line.drop (i + 1) = rest ∧ i + 1 ≤ line.length := by
  refine ⟨(congrArg Cursor.rest (Cursor.pass_ofPosition h)).symm, ?_⟩
  have hlength := congrArg List.length h
  simp only [List.length_drop, List.length_cons] at hlength
  omega

section

variable {p : Pattern} {steps : Nat} {line rest : List Char} {i : Nat} {visited : Visited}

/-- At the end of a line the search tries this one place. -/
theorem leftmost?_of_drop_nil (h : line.drop i = []) :
    p.leftmost? steps i (line.take i).getLast? visited [] =
      (p.matchEnd steps (.ofPosition line i) visited).1.map fun e => (.ofPosition line i, e) := by
  have hcursor : (⟨i, (line.take i).getLast?, []⟩ : Cursor) = .ofPosition line i := by
    rw [Cursor.ofPosition, h]
  rw [leftmost?, hcursor]

/-- In front of a character it tries the place, and if nothing is found there it goes on behind the
character. -/
theorem leftmost?_of_drop_cons {x : Char} (h : line.drop i = x :: rest) :
    p.leftmost? steps i (line.take i).getLast? visited (x :: rest) =
      match p.matchEnd steps (.ofPosition line i) visited with
      | (some e, _) => some (.ofPosition line i, e)
      | (none, visited) =>
        p.leftmost? steps (i + 1) (line.take (i + 1)).getLast? visited rest := by
  have hcursor : (⟨i, (line.take i).getLast?, x :: rest⟩ : Cursor) = .ofPosition line i := by
    rw [Cursor.ofPosition, h]
  have hprevious : some x = (line.take (i + 1)).getLast? :=
    congrArg Cursor.previous (Cursor.pass_ofPosition h)
  rcases hend : p.matchEnd steps (.ofPosition line i) visited with ⟨_ | e, visited'⟩
  · simp only [leftmost?, hcursor, hend, hprevious]
  · simp only [leftmost?, hcursor, hend]

end

/-- Searching from a place of a line finds a match between two places of it. -/
theorem leftmost?_ofPosition {p : Pattern} {steps : Nat} {line : List Char} (rest : List Char) :
    ∀ {i : Nat} {visited : Visited} {s e : Cursor}, line.drop i = rest → i ≤ line.length →
      p.leftmost? steps i (line.take i).getLast? visited rest = some (s, e) →
      ∃ start stop, i ≤ start ∧ start ≤ stop ∧ stop ≤ line.length ∧
        s = .ofPosition line start ∧ e = .ofPosition line stop ∧ p.Matches s e := by
  -- What is found at the place itself.
  have hhere : ∀ {i : Nat} {visited : Visited} {e : Cursor}, i ≤ line.length →
      (p.matchEnd steps (.ofPosition line i) visited).1 = some e →
      ∃ stop, i ≤ stop ∧ stop ≤ line.length ∧ e = .ofPosition line stop ∧
        p.Matches (.ofPosition line i) e := by
    intro i visited e hi hend
    have hmatches := matchEnd_sound hend
    obtain ⟨stop, hle, hstop, he⟩ := hmatches.exists_ofPosition line rfl hi
    exact ⟨stop, hle, hstop, he, hmatches⟩
  induction rest with
  | nil =>
    intro i visited s e hrest hi h
    rw [leftmost?_of_drop_nil hrest] at h
    obtain ⟨e', hend, hpair⟩ := Option.map_eq_some_iff.mp h
    obtain ⟨rfl, rfl⟩ := Prod.mk.inj hpair
    obtain ⟨stop, hle, hstop, he, hmatches⟩ := hhere hi hend
    exact ⟨i, stop, Nat.le_refl i, hle, hstop, rfl, he, hmatches⟩
  | cons x rest ih =>
    intro i visited s e hrest hi h
    rw [leftmost?_of_drop_cons hrest] at h
    split at h
    · rename_i e' visited' hend
      obtain ⟨rfl, rfl⟩ := Prod.mk.inj (Option.some.inj h)
      have hend' : (p.matchEnd steps (.ofPosition line i) visited).1 = some e' := by rw [hend]
      obtain ⟨stop, hle, hstop, he, hmatches⟩ := hhere hi hend'
      exact ⟨i, stop, Nat.le_refl i, hle, hstop, rfl, he, hmatches⟩
    · -- Nothing is found here, so the search goes on behind the next character.
      obtain ⟨hdrop, hi'⟩ := drop_succ_of_drop hrest
      obtain ⟨start, stop, hle, hrest'⟩ := ih hdrop hi' h
      exact ⟨start, stop, by omega, hrest'⟩

/-! ## The walk of a search -/

/-- The leftmost match from a position of a line on, preferred among those that start where it does,
is the span between two positions. -/
def FindsFrom (p : Pattern) (line : List Char) (i start stop : Nat) : Prop :=
  p.leftmost? (p.stepBound line.length) i (line.take i).getLast? ∅ (line.drop i) =
    some (.ofPosition line start, .ofPosition line stop)

/-- What is found lies ahead and inside the line. -/
theorem FindsFrom.bounds {p : Pattern} {line : List Char} {i start stop : Nat}
    (h : p.FindsFrom line i start stop) (hi : i ≤ line.length) :
    i ≤ start ∧ start ≤ stop ∧ stop ≤ line.length := by
  obtain ⟨start', stop', hle, hle', hstop, hs, he, -⟩ := leftmost?_ofPosition _ rfl hi h
  have hstart : start = start' := congrArg Cursor.position hs
  have hstop' : stop = stop' := congrArg Cursor.position he
  omega

/-- At most one span is found from a position. -/
theorem FindsFrom.unique {p : Pattern} {line : List Char} {i start stop start' stop' : Nat}
    (h : p.FindsFrom line i start stop) (h' : p.FindsFrom line i start' stop') :
    start = start' ∧ stop = stop' := by
  have hpair := Prod.mk.inj (Option.some.inj (h.symm.trans h'))
  exact ⟨congrArg Cursor.position hpair.1, congrArg Cursor.position hpair.2⟩

/-- Where the search for all matches goes on after the search from a position. -/
inductive GoesOn (p : Pattern) (line : List Char) : Nat → Nat → Prop where
  /-- Behind a match that takes up characters. -/
  | behind {i start stop : Nat} (found : p.FindsFrom line i start stop) (nonempty : start < stop) :
      GoesOn p line i stop
  /-- One character further than an empty match. -/
  | further {i start : Nat} (found : p.FindsFrom line i start start)
      (more : start < line.length) : GoesOn p line i (start + 1)

/-- The search goes on further to the right. -/
theorem GoesOn.lt_and_le {p : Pattern} {line : List Char} {i j : Nat} (h : p.GoesOn line i j)
    (hi : i ≤ line.length) : i < j ∧ j ≤ line.length := by
  cases h with
  | behind found nonempty =>
    have := found.bounds hi
    omega
  | further found more =>
    have := found.bounds hi
    omega

/-- The search that starts at the first position comes by the second one. -/
abbrev Visits (p : Pattern) (line : List Char) : Nat → Nat → Prop :=
  Relation.ReflTransGen (p.GoesOn line)

/-- A non-empty span is found on the way of a search from a position on. -/
def FindsOnWay (p : Pattern) (line : List Char) (i start stop : Nat) : Prop :=
  start < stop ∧ ∃ j, p.Visits line i j ∧ p.FindsFrom line j start stop

/-- A search that comes by a position has moved to the right. -/
theorem le_of_visits {p : Pattern} {line : List Char} {i j : Nat} (h : p.Visits line i j)
    (hi : i ≤ line.length) : i ≤ j ∧ j ≤ line.length := by
  induction h with
  | refl => exact ⟨Nat.le_refl i, hi⟩
  | tail _ hstep ih =>
    have := hstep.lt_and_le ih.2
    omega

/-- What is found on the way lies ahead and inside the line. -/
theorem FindsOnWay.bounds {p : Pattern} {line : List Char} {i start stop : Nat}
    (h : p.FindsOnWay line i start stop) (hi : i ≤ line.length) :
    i ≤ start ∧ start < stop ∧ stop ≤ line.length := by
  obtain ⟨hlt, j, hvisits, hfound⟩ := h
  have hj := le_of_visits hvisits hi
  have := hfound.bounds hj.2
  omega

/-- What is found on the way is found at its first position or on the way from the second one. -/
theorem findsOnWay_iff {p : Pattern} {line : List Char} {i start stop : Nat} :
    p.FindsOnWay line i start stop ↔
      start < stop ∧ p.FindsFrom line i start stop ∨
        ∃ j, p.GoesOn line i j ∧ p.FindsOnWay line j start stop := by
  constructor
  · rintro ⟨hlt, j, hvisits, hfound⟩
    rcases hvisits.cases_head with rfl | ⟨k, hstep, hrest⟩
    · exact .inl ⟨hlt, hfound⟩
    · exact .inr ⟨k, hstep, hlt, j, hrest, hfound⟩
  · rintro (⟨hlt, hfound⟩ | ⟨j, hstep, hlt, k, hvisits, hfound⟩)
    · exact ⟨hlt, i, .refl, hfound⟩
    · exact ⟨hlt, k, hvisits.head hstep, hfound⟩

/-! ## The list of matches -/

/-- The match between two places of a line holds the characters between them. -/
theorem between_ofPosition (line : List Char) (start stop : Nat) :
    Match.between (.ofPosition line start) (.ofPosition line stop) =
      ⟨start, line.extract start stop⟩ := by
  rw [Match.between, List.extract_eq_take_drop]
  rfl

/-- A span inside the line holds as many characters as its positions are apart. -/
theorem length_extract {line : List Char} (start : Nat) {stop : Nat} (hstop : stop ≤ line.length) :
    (line.extract start stop).length = stop - start := by
  rw [List.extract_eq_take_drop, List.length_take, List.length_drop]
  omega

/-- The end of a match is the end of its span. -/
theorem stop_extract {line : List Char} {start stop : Nat} (hle : start ≤ stop)
    (hstop : stop ≤ line.length) : Match.stop ⟨start, line.extract start stop⟩ = stop := by
  rw [Match.stop, length_extract start hstop]
  exact Nat.add_sub_cancel' hle

/-! ## One turn -/

section Turn

variable {p : Pattern} {text : List Char} {i : Nat}

/-- A turn finds nothing, a span that takes up characters, an empty span inside the line or one
at its end. -/
theorem findsFrom_cases (p : Pattern) (hi : i ≤ text.length) :
    (∀ start stop, ¬ p.FindsFrom text i start stop) ∨
      (∃ start stop, p.FindsFrom text i start stop ∧ start < stop) ∨
      (∃ start, p.FindsFrom text i start start ∧ start < text.length) ∨
      p.FindsFrom text i text.length text.length := by
  by_cases hany : ∃ start stop, p.FindsFrom text i start stop
  · obtain ⟨start, stop, hfound⟩ := hany
    obtain ⟨-, hle, hstop⟩ := hfound.bounds hi
    rcases Nat.lt_or_eq_of_le hle with hlt | rfl
    · exact .inr (.inl ⟨start, stop, hfound, hlt⟩)
    · rcases Nat.lt_or_eq_of_le hstop with hinside | rfl
      · exact .inr (.inr (.inl ⟨start, hfound, hinside⟩))
      · exact .inr (.inr (.inr hfound))
  · exact .inl fun start stop hfound => hany ⟨start, stop, hfound⟩

/-- Where nothing is found, the way ends. -/
theorem not_findsOnWay_of_nothing {start stop : Nat}
    (h : ∀ start stop, ¬ p.FindsFrom text i start stop) : ¬ p.FindsOnWay text i start stop := by
  intro hway
  rcases findsOnWay_iff.mp hway with ⟨-, hhere⟩ | ⟨j, hstep, -⟩
  · exact h start stop hhere
  · cases hstep with
    | behind found _ => exact h _ _ found
    | further found _ => exact h _ _ found

/-- The way goes on behind a span that takes up characters. -/
theorem findsOnWay_of_lt {first last start stop : Nat} (h : p.FindsFrom text i first last)
    (hlt : first < last) :
    p.FindsOnWay text i start stop ↔ start = first ∧ stop = last ∨
      p.FindsOnWay text last start stop := by
  rw [findsOnWay_iff]
  constructor
  · rintro (⟨-, hhere⟩ | ⟨j, hstep, hway⟩)
    · exact .inl (hhere.unique h)
    · refine .inr ?_
      cases hstep with
      | behind found _ =>
        obtain ⟨-, rfl⟩ := h.unique found
        exact hway
      | further found _ =>
        obtain ⟨rfl, rfl⟩ := h.unique found
        exact absurd hlt (Nat.lt_irrefl _)
  · rintro (⟨rfl, rfl⟩ | hway)
    · exact .inl ⟨hlt, h⟩
    · exact .inr ⟨last, .behind h hlt, hway⟩

/-- The way goes on one character further than an empty span, if there is one. -/
theorem findsOnWay_of_empty {first start stop : Nat} (h : p.FindsFrom text i first first) :
    p.FindsOnWay text i start stop ↔
      first < text.length ∧ p.FindsOnWay text (first + 1) start stop := by
  rw [findsOnWay_iff]
  constructor
  · rintro (⟨hlt, hhere⟩ | ⟨j, hstep, hway⟩)
    · obtain ⟨rfl, rfl⟩ := hhere.unique h
      exact absurd hlt (Nat.lt_irrefl _)
    · cases hstep with
      | behind found nonempty =>
        obtain ⟨rfl, rfl⟩ := h.unique found
        exact absurd nonempty (Nat.lt_irrefl _)
      | further found more =>
        obtain ⟨rfl, -⟩ := h.unique found
        exact ⟨more, hway⟩
  · rintro ⟨hmore, hway⟩
    exact .inr ⟨first + 1, .further h hmore, hway⟩

/-- The search for the leftmost match fails where no span is found. -/
theorem leftmost?_eq_none_iff (hi : i ≤ text.length) :
    p.leftmost? (p.stepBound text.length) i (text.take i).getLast? ∅ (text.drop i) = none ↔
      ∀ start stop, ¬ p.FindsFrom text i start stop := by
  constructor
  · intro hnone start stop hfound
    rw [FindsFrom, hnone] at hfound
    cases hfound
  · intro hnone
    refine Option.eq_none_iff_forall_ne_some.mpr fun pair hsome => ?_
    obtain ⟨s, e⟩ := pair
    obtain ⟨start, stop, -, -, -, rfl, rfl, -⟩ := leftmost?_ofPosition _ rfl hi hsome
    exact hnone start stop hsome

/-- Where nothing is found there are no matches. -/
theorem matchesFrom_of_nothing (fuel : Nat) (hi : i ≤ text.length)
    (h : ∀ start stop, ¬ p.FindsFrom text i start stop) :
    p.matchesFrom (p.stepBound text.length) fuel (.ofPosition text i) = [] := by
  cases fuel with
  | zero => rfl
  | succ fuel =>
    have hnone := (leftmost?_eq_none_iff hi).mpr h
    simp only [matchesFrom, Cursor.ofPosition, hnone]

/-- A span that takes up characters is the first match, and the search goes on behind it. -/
theorem matchesFrom_of_lt {start stop : Nat} (fuel : Nat) (h : p.FindsFrom text i start stop)
    (hlt : start < stop) :
    p.matchesFrom (p.stepBound text.length) (fuel + 1) (.ofPosition text i) =
      ⟨start, text.extract start stop⟩ ::
        p.matchesFrom (p.stepBound text.length) fuel (.ofPosition text stop) := by
  have hfound : p.leftmost? (p.stepBound text.length) (Cursor.ofPosition text i).position
      (Cursor.ofPosition text i).previous ∅ (Cursor.ofPosition text i).rest =
      some (.ofPosition text start, .ofPosition text stop) := h
  have hlt' : (Cursor.ofPosition text start).position < (Cursor.ofPosition text stop).position :=
    hlt
  simp only [matchesFrom, hfound, if_pos hlt', between_ofPosition]

/-- An empty span is no match, and the search goes on one character further. -/
theorem matchesFrom_of_empty {start : Nat} (fuel : Nat) (h : p.FindsFrom text i start start)
    (hinside : start < text.length) :
    p.matchesFrom (p.stepBound text.length) (fuel + 1) (.ofPosition text i) =
      p.matchesFrom (p.stepBound text.length) fuel (.ofPosition text (start + 1)) := by
  have hfound : p.leftmost? (p.stepBound text.length) (Cursor.ofPosition text i).position
      (Cursor.ofPosition text i).previous ∅ (Cursor.ofPosition text i).rest =
      some (.ofPosition text start, .ofPosition text start) := h
  have hrest : (Cursor.ofPosition text start).rest = text[start] :: text.drop (start + 1) :=
    List.drop_eq_getElem_cons hinside
  simp only [matchesFrom, hfound, Nat.lt_irrefl, if_false, hrest, Cursor.pass_ofPosition hrest]

/-- An empty span at the end of the line is no match, and the search is over. -/
theorem matchesFrom_of_end (fuel : Nat) (h : p.FindsFrom text i text.length text.length) :
    p.matchesFrom (p.stepBound text.length) fuel (.ofPosition text i) = [] := by
  cases fuel with
  | zero => rfl
  | succ fuel =>
    have hfound : p.leftmost? (p.stepBound text.length) (Cursor.ofPosition text i).position
        (Cursor.ofPosition text i).previous ∅ (Cursor.ofPosition text i).rest =
        some (.ofPosition text text.length, .ofPosition text text.length) := h
    have hrest : (Cursor.ofPosition text text.length).rest = [] := List.drop_length
    simp only [matchesFrom, hfound, Nat.lt_irrefl, if_false, hrest]

end Turn

/-- The list of matches from a position on holds what is found on the way from there. The induction
is over the fuel, which is never less than the number of characters ahead: at the end of the line it
may have run out, but there only an empty match can be found. -/
theorem mem_matchesFrom_iff {p : Pattern} {line : List Char} (fuel : Nat) :
    ∀ {i : Nat} {m : Match}, i ≤ line.length → line.length ≤ fuel + i →
      (m ∈ p.matchesFrom (p.stepBound line.length) fuel (.ofPosition line i) ↔
        ∃ start stop, p.FindsOnWay line i start stop ∧ m = ⟨start, line.extract start stop⟩) := by
  induction fuel with
  | zero =>
    intro i m hi hfuel
    simp only [matchesFrom, List.not_mem_nil, false_iff, not_exists, not_and]
    intro start stop hfound
    have := hfound.bounds hi
    omega
  | succ fuel ih =>
    intro i m hi hfuel
    rcases p.findsFrom_cases hi with
      hnone | ⟨start, stop, hfound, hlt⟩ | ⟨start, hfound, hinside⟩ | hfound
    · simp only [matchesFrom_of_nothing _ hi hnone, not_findsOnWay_of_nothing hnone,
        List.not_mem_nil, false_and, exists_false]
    · have hbounds := hfound.bounds hi
      rw [matchesFrom_of_lt fuel hfound hlt, List.mem_cons, ih hbounds.2.2 (by omega)]
      simp only [findsOnWay_of_lt hfound hlt]
      constructor
      · rintro (rfl | ⟨start', stop', hway, rfl⟩)
        · exact ⟨start, stop, .inl ⟨rfl, rfl⟩, rfl⟩
        · exact ⟨start', stop', .inr hway, rfl⟩
      · rintro ⟨start', stop', ⟨rfl, rfl⟩ | hway, rfl⟩
        · exact .inl rfl
        · exact .inr ⟨start', stop', hway, rfl⟩
    · have hbounds := hfound.bounds hi
      rw [matchesFrom_of_empty fuel hfound hinside, ih hinside (by omega)]
      simp only [findsOnWay_of_empty hfound, hinside, true_and]
    · simp only [matchesFrom_of_end _ hfound, findsOnWay_of_empty hfound, Nat.lt_irrefl,
        List.not_mem_nil, false_and, exists_false]

/-- The list of matches from a position on goes from left to right, and no match starts before the
one in front of it has ended. -/
theorem matchesFrom_sorted {p : Pattern} {line : List Char} (fuel : Nat) :
    ∀ {i : Nat}, i ≤ line.length → line.length ≤ fuel + i →
      (p.matchesFrom (p.stepBound line.length) fuel (.ofPosition line i)).Pairwise
        fun m n => m.stop ≤ n.start := by
  induction fuel with
  | zero =>
    intro i _ _
    exact .nil
  | succ fuel ih =>
    intro i hi hfuel
    rcases p.findsFrom_cases hi with
      hnone | ⟨start, stop, hfound, hlt⟩ | ⟨start, hfound, hinside⟩ | hfound
    · rw [matchesFrom_of_nothing _ hi hnone]
      exact .nil
    · obtain ⟨hle, hle', hstop⟩ := hfound.bounds hi
      have hfuel' : line.length ≤ fuel + stop := by omega
      rw [matchesFrom_of_lt fuel hfound hlt, List.pairwise_cons, stop_extract hle' hstop]
      refine ⟨?_, ih hstop hfuel'⟩
      intro m hm
      obtain ⟨start', stop', hway, rfl⟩ := (mem_matchesFrom_iff fuel hstop hfuel').mp hm
      exact (hway.bounds hstop).1
    · have hbounds := hfound.bounds hi
      rw [matchesFrom_of_empty fuel hfound hinside]
      exact ih hinside (by omega)
    · rw [matchesFrom_of_end _ hfound]
      exact .nil

end Pattern

/-! ## Rules -/

namespace Rule

open Pattern

/-- The rule reports the non-empty span between two positions of a line: if all matches are asked
for, one that is found on the way from the start of the line, and if only the leftmost one is, that
one. -/
def Reports (rule : Rule) (line : List Char) (start stop : Nat) : Prop :=
  match rule.scope with
  | .all => rule.pattern.FindsOnWay line 0 start stop
  | .first => start < stop ∧ rule.pattern.FindsFrom line 0 start stop

/-- A reported span is not empty and lies inside the line. -/
theorem Reports.bounds {rule : Rule} {line : List Char} {start stop : Nat}
    (h : rule.Reports line start stop) : start < stop ∧ stop ≤ line.length := by
  unfold Reports at h
  split at h
  · exact (h.bounds (Nat.zero_le _)).2
  · exact ⟨h.1, (h.2.bounds (Nat.zero_le _)).2.2⟩

/-- The matches that a rule gives are the spans that it reports, with their characters. -/
theorem mem_findAll_iff {rule : Rule} {line : List Char} {m : Match} :
    m ∈ rule.findAll line ↔
      ∃ start stop, rule.Reports line start stop ∧ m = ⟨start, line.extract start stop⟩ := by
  unfold findAll Reports
  cases rule.scope with
  | all =>
    simp only
    rw [allMatches, ← Cursor.ofPosition_zero]
    exact mem_matchesFrom_iff line.length (Nat.zero_le _) (Nat.le_refl _)
  | first =>
    simp only [List.mem_filter, Option.mem_toList, first?]
    constructor
    · rintro ⟨hfirst, hnonempty⟩
      obtain ⟨⟨s, e⟩, hsome, rfl⟩ := Option.map_eq_some_iff.mp hfirst
      obtain ⟨start, stop, -, hle, hstop, rfl, rfl, -⟩ :=
        leftmost?_ofPosition (i := 0) _ rfl (Nat.zero_le _) hsome
      refine ⟨start, stop, ⟨?_, hsome⟩, between_ofPosition line start stop⟩
      rw [between_ofPosition] at hnonempty
      rcases Nat.lt_or_eq_of_le hle with hlt | rfl
      · exact hlt
      · simp [List.extract_eq_take_drop] at hnonempty
    · rintro ⟨start, stop, ⟨hlt, hfound⟩, rfl⟩
      have hstop := (hfound.bounds (Nat.zero_le _)).2.2
      refine ⟨Option.map_eq_some_iff.mpr ⟨_, hfound, between_ofPosition line start stop⟩, ?_⟩
      have hlength := length_extract start hstop
      cases hlexeme : line.extract start stop with
      | nil =>
        rw [hlexeme, List.length_nil] at hlength
        omega
      | cons x rest => rfl

/-- No match that a rule gives starts before the one in front of it has ended. -/
theorem findAll_apart (rule : Rule) (line : List Char) :
    (rule.findAll line).Pairwise fun m n => m.stop ≤ n.start := by
  unfold findAll
  cases rule.scope with
  | all =>
    simp only
    rw [allMatches, ← Cursor.ofPosition_zero]
    exact matchesFrom_sorted line.length (Nat.zero_le _) (Nat.le_refl _)
  | first =>
    cases rule.pattern.first? line with
    | none => exact .nil
    | some m => exact (List.pairwise_singleton _ m).filter _

/-- The matches that a rule gives start one behind the other. -/
theorem findAll_sorted (rule : Rule) (line : List Char) :
    (rule.findAll line).Pairwise fun m n => m.start < n.start := by
  refine (rule.findAll_apart line).imp_of_mem ?_
  intro m n hm _ hle
  obtain ⟨start, stop, hreports, rfl⟩ := mem_findAll_iff.mp hm
  have hbounds := hreports.bounds
  rw [stop_extract (Nat.le_of_lt hbounds.1) hbounds.2] at hle
  exact Nat.lt_of_lt_of_le hbounds.1 hle

end Rule
end PrologTokens
