import PrologTokens.Proofs.Pattern.Describes

/-!
# The walk of a search, turn by turn

`Walk` is the search for all matches without a bound on its turns: the spans that it finds from
a position on, one for each turn, until it ends. Empty spans are among them, since they decide
where the search goes on.

The search always ends, and in one way only: `exists_walk` and `Walk.unique`. What carries this
is that every turn but the last leaves a character behind, so `Walk.length_le` bounds the turns
by the characters ahead. The bounded search gives the matches of the walk that are not empty, by
`Walk.matchesFrom_eq`.
-/

set_option autoImplicit false

namespace PrologTokens.Pattern

/-- The spans that a search for all matches finds from a position of a line on, turn by turn. -/
inductive Walk (p : Pattern) (text : List Char) : Nat → List (Nat × Nat) → Prop where
  /-- Nothing is found. -/
  | nothing {i : Nat} (none : ∀ start stop, ¬ p.FindsFrom text i start stop) : Walk p text i []
  /-- An empty span is found at the end of the line. -/
  | atEnd {i : Nat} (found : p.FindsFrom text i text.length text.length) :
      Walk p text i [(text.length, text.length)]
  /-- A span is found that takes up characters, and the search goes on behind it. -/
  | behind {i start stop : Nat} {spans : List (Nat × Nat)} (found : p.FindsFrom text i start stop)
      (nonempty : start < stop) (more : Walk p text stop spans) :
      Walk p text i ((start, stop) :: spans)
  /-- An empty span is found, and the search goes on one character further. -/
  | further {i start : Nat} {spans : List (Nat × Nat)} (found : p.FindsFrom text i start start)
      (inside : start < text.length) (more : Walk p text (start + 1) spans) :
      Walk p text i ((start, start) :: spans)

variable {p : Pattern} {text : List Char} {i : Nat} {spans : List (Nat × Nat)}

/-! ## The end of the search -/

/-- From every position the search comes to an end. The induction is over the characters ahead. -/
theorem exists_walk (hi : i ≤ text.length) : ∃ spans, p.Walk text i spans := by
  induction hahead : text.length - i using Nat.strongRecOn generalizing i with
  | ind ahead ih =>
    rcases p.findsFrom_cases hi with
      hnone | ⟨start, stop, hfound, hlt⟩ | ⟨start, hfound, hinside⟩ | hfound
    · exact ⟨[], .nothing hnone⟩
    · have hbounds := hfound.bounds hi
      obtain ⟨spans, hmore⟩ := ih (text.length - stop) (by omega) hbounds.2.2 rfl
      exact ⟨_, .behind hfound hlt hmore⟩
    · have hbounds := hfound.bounds hi
      obtain ⟨spans, hmore⟩ := ih (text.length - (start + 1)) (by omega) hinside rfl
      exact ⟨_, .further hfound hinside hmore⟩
    · exact ⟨_, .atEnd hfound⟩

/-- A search that finds a span starts with it. It goes on behind the span or one character
further, or it has come to the end of the line. -/
theorem Walk.of_findsFrom {start stop : Nat} (h : p.Walk text i spans)
    (hfound : p.FindsFrom text i start stop) :
    ∃ more, spans = (start, stop) :: more ∧
      (start < stop ∧ p.Walk text stop more ∨
        start = stop ∧ start < text.length ∧ p.Walk text (start + 1) more ∨
        start = stop ∧ start = text.length ∧ more = []) := by
  cases h with
  | nothing none => exact absurd hfound (none start stop)
  | atEnd found =>
    obtain ⟨rfl, rfl⟩ := hfound.unique found
    exact ⟨[], rfl, .inr (.inr ⟨rfl, rfl, rfl⟩)⟩
  | behind found nonempty more =>
    obtain ⟨rfl, rfl⟩ := hfound.unique found
    exact ⟨_, rfl, .inl ⟨nonempty, more⟩⟩
  | further found inside more =>
    obtain ⟨rfl, rfl⟩ := hfound.unique found
    exact ⟨_, rfl, .inr (.inl ⟨rfl, inside, more⟩)⟩

/-- The search goes one way only. -/
theorem Walk.unique (h : p.Walk text i spans) :
    ∀ {spans' : List (Nat × Nat)}, p.Walk text i spans' → spans' = spans := by
  induction h with
  | nothing none =>
    intro spans' h'
    cases h' with
    | nothing _ => rfl
    | atEnd found => exact absurd found (none _ _)
    | behind found _ _ => exact absurd found (none _ _)
    | further found _ _ => exact absurd found (none _ _)
  | atEnd found =>
    intro spans' h'
    obtain ⟨_, rfl, hmore⟩ := h'.of_findsFrom found
    rcases hmore with ⟨hlt, -⟩ | ⟨-, hlt, -⟩ | ⟨-, -, rfl⟩
    · exact absurd hlt (Nat.lt_irrefl _)
    · exact absurd hlt (Nat.lt_irrefl _)
    · rfl
  | behind found nonempty _ ih =>
    intro spans' h'
    obtain ⟨_, rfl, hmore⟩ := h'.of_findsFrom found
    rcases hmore with ⟨-, hmore⟩ | ⟨rfl, -⟩ | ⟨rfl, -⟩
    · rw [ih hmore]
    · exact absurd nonempty (Nat.lt_irrefl _)
    · exact absurd nonempty (Nat.lt_irrefl _)
  | further found inside _ ih =>
    intro spans' h'
    obtain ⟨_, rfl, hmore⟩ := h'.of_findsFrom found
    rcases hmore with ⟨hlt, -⟩ | ⟨-, -, hmore⟩ | ⟨-, rfl, -⟩
    · exact absurd hlt (Nat.lt_irrefl _)
    · rw [ih hmore]
    · exact absurd inside (Nat.lt_irrefl _)

/-- Every turn but the last leaves a character behind. -/
theorem Walk.length_le (h : p.Walk text i spans) (hi : i ≤ text.length) :
    spans.length ≤ text.length - i + 1 := by
  induction h with
  | nothing _ => exact Nat.zero_le _
  | atEnd _ => exact Nat.le_add_left 1 _
  | behind found nonempty _ ih =>
    have hbounds := found.bounds hi
    have hmore := ih hbounds.2.2
    rw [List.length_cons]
    omega
  | further found inside _ ih =>
    have hbounds := found.bounds hi
    have hmore := ih inside
    rw [List.length_cons]
    omega

theorem FindsFrom.describes {start stop : Nat} (h : p.FindsFrom text i start stop)
    (hi : i ≤ text.length) : p.Describes text start stop := by
  have hbounds := h.bounds hi
  exact ⟨Nat.le_trans hbounds.2.1 hbounds.2.2, h.matches hi⟩

/-- What is found on the walk, the pattern describes. -/
theorem Walk.describes (h : p.Walk text i spans) (hi : i ≤ text.length) :
    ∀ span ∈ spans, p.Describes text span.1 span.2 := by
  induction h with
  | nothing _ => exact List.forall_mem_nil _
  | atEnd found => exact List.forall_mem_singleton.mpr (found.describes hi)
  | behind found _ _ ih =>
    exact List.forall_mem_cons.mpr ⟨found.describes hi, ih (found.bounds hi).2.2⟩
  | further found inside _ ih => exact List.forall_mem_cons.mpr ⟨found.describes hi, ih inside⟩

/-! ## The bounded search -/

/-- The matches of a walk: the spans that are not empty, with their characters. -/
def matchesOf (text : List Char) (spans : List (Nat × Nat)) : List Match :=
  (spans.filter fun span => span.1 < span.2).map fun span => ⟨span.1, text.extract span.1 span.2⟩

theorem matchesOf_cons_of_lt {start stop : Nat} (hlt : start < stop) :
    matchesOf text ((start, stop) :: spans) =
      ⟨start, text.extract start stop⟩ :: matchesOf text spans := by
  simp [matchesOf, hlt]

theorem matchesOf_cons_of_empty {start : Nat} :
    matchesOf text ((start, start) :: spans) = matchesOf text spans := by
  simp [matchesOf]

/-- The search for all matches gives those of its walk, if its bound is not less than the number
of characters ahead. -/
theorem Walk.matchesFrom_eq (h : p.Walk text i spans) :
    ∀ {fuel : Nat}, i ≤ text.length → text.length ≤ fuel + i →
      p.matchesFrom (p.stepBound text.length) fuel (.ofPosition text i) = matchesOf text spans := by
  induction h with
  | nothing none =>
    intro fuel hi _
    exact matchesFrom_of_nothing fuel hi none
  | atEnd found =>
    intro fuel _ _
    rw [matchesFrom_of_end fuel found, matchesOf_cons_of_empty]
    rfl
  | @behind i start stop spans found nonempty more ih =>
    intro fuel hi hfuel
    have hbounds := found.bounds hi
    obtain ⟨fuel, rfl⟩ : ∃ more, fuel = more + 1 := ⟨fuel - 1, by omega⟩
    rw [matchesFrom_of_lt fuel found nonempty, ih hbounds.2.2 (by omega),
      matchesOf_cons_of_lt nonempty]
  | @further i start spans found inside more ih =>
    intro fuel hi hfuel
    have hbounds := found.bounds hi
    obtain ⟨fuel, rfl⟩ : ∃ more, fuel = more + 1 := ⟨fuel - 1, by omega⟩
    rw [matchesFrom_of_empty fuel found inside, ih inside (by omega), matchesOf_cons_of_empty]

/-- The matches of a walk stand at its spans. -/
theorem map_matchesOf (hspans : ∀ span ∈ spans, span.2 ≤ text.length) :
    (matchesOf text spans).map (fun m => (m.start, m.stop)) =
      spans.filter fun span => span.1 < span.2 := by
  rw [matchesOf, List.map_map]
  refine (List.map_congr_left fun span hspan => ?_).trans (List.map_id _)
  obtain ⟨hmem, hlt⟩ := List.mem_filter.mp hspan
  have hstop := stop_extract (Nat.le_of_lt (of_decide_eq_true hlt)) (hspans span hmem)
  exact Prod.ext rfl hstop

/-! ## The leftmost match -/

/-- The leftmost match is what a search from the start of the line finds. -/
theorem first?_eq_some_iff {m : Match} :
    p.first? text = some m ↔
      ∃ start stop, p.FindsFrom text 0 start stop ∧ m = ⟨start, text.extract start stop⟩ := by
  rw [first?, Option.map_eq_some_iff]
  constructor
  · rintro ⟨⟨s, e⟩, hsome, rfl⟩
    obtain ⟨start, stop, -, -, -, rfl, rfl, -⟩ :=
      leftmost?_ofPosition (i := 0) _ rfl (Nat.zero_le _) hsome
    exact ⟨start, stop, hsome, between_ofPosition text start stop⟩
  · rintro ⟨start, stop, hfound, rfl⟩
    exact ⟨_, hfound, between_ofPosition text start stop⟩

/-- There is a leftmost match if there is any. -/
theorem first?_eq_none_iff :
    p.first? text = none ↔ ∀ start stop, ¬ p.Describes text start stop := by
  rw [Option.eq_none_iff_forall_ne_some]
  constructor
  · intro hnone start stop hdescribes
    obtain ⟨start', stop', hfound⟩ := exists_findsFrom (Nat.zero_le start) hdescribes.1 hdescribes.2
    exact hnone _ (first?_eq_some_iff.mpr ⟨start', stop', hfound, rfl⟩)
  · intro hnone m hm
    obtain ⟨start, stop, hfound, -⟩ := first?_eq_some_iff.mp hm
    exact hnone start stop (hfound.describes (Nat.zero_le _))

/-- The leftmost match is a match, and none starts further to the left. -/
theorem describes_of_first? {m : Match} (h : p.first? text = some m) :
    p.Describes text m.start m.stop ∧
      ∀ start stop, p.Describes text start stop → m.start ≤ start := by
  obtain ⟨start, stop, hfound, rfl⟩ := first?_eq_some_iff.mp h
  have hbounds := hfound.bounds (Nat.zero_le _)
  rw [stop_extract hbounds.2.1 hbounds.2.2]
  refine ⟨hfound.describes (Nat.zero_le _), fun start' stop' hdescribes => ?_⟩
  exact Nat.le_of_not_lt fun hbefore =>
    hfound.leftmost (Nat.zero_le _) (Nat.zero_le _) hbefore _ hdescribes.2

end PrologTokens.Pattern
