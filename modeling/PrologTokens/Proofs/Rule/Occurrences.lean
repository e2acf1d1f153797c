import Mathlib.Data.List.Sort
import PrologTokens.Proofs.Rule.Coverage

/-!
# Rules that report all occurrences

A search promises the leftmost match, then the leftmost one behind that, and so on. What it
reports is told from its pattern by two facts: between a match and the one in front of it no
match starts, by `Rule.Reports.exists_previous`, and wherever a span is described a match lies.
If no two of the spans in question overlap, the search reports all of them:
`Rule.reports_iff_of_apart`.

`Rule.findAll_eq_of_mem_iff` tells the list of matches of a rule from the spans that it reports.
What there is to say about a rule that reports all spans of a kind is `Rule.Lists`.
-/

set_option autoImplicit false

namespace PrologTokens.Rule

open Pattern

variable {rule : Rule} {text : List Char} {start stop : Nat}

/-- A rule that takes up characters of a set as long as it can leaves none behind its matches. -/
theorem Reports.past {set : CharSet} {n : Nat} {x : Char} (hset : EndsInAll set rule.pattern n)
    (h : rule.Reports text start stop) (hx : text[stop]? = some x) : set.contains x = false := by
  obtain ⟨i, hi, hfound⟩ := h.found
  exact hfound.past_of_endsInAll hset hi hx

/-- Between a match and the end of the one in front of it, or the start of the line, no match
starts. -/
theorem Reports.exists_previous (hscope : rule.scope = .all)
    (hempty : rule.pattern.canBeEmpty = false) (h : rule.Reports text start stop) :
    ∃ i, i ≤ start ∧ (i = 0 ∨ ∃ first, rule.Reports text first i) ∧
      ∀ k last, i ≤ k → k < start → ¬ rule.pattern.Describes text k last := by
  rw [Reports, hscope] at h
  obtain ⟨-, i, hvisits, hfound⟩ := h
  have hi := (le_of_visits hvisits (Nat.zero_le _)).2
  refine ⟨i, (hfound.bounds hi).1, ?_, ?_⟩
  · rcases hvisits.cases_tail with rfl | ⟨j, hbefore, hstep⟩
    · exact .inl rfl
    · have hj := (le_of_visits hbefore (Nat.zero_le _)).2
      cases hstep with
      | @behind first _ found nonempty =>
        refine .inr ⟨first, ?_⟩
        rw [Reports, hscope]
        exact ⟨nonempty, j, hbefore, found⟩
      | further found more =>
        -- No match is empty.
        exact absurd ((found.matches hj).lt_of_canBeEmpty hempty) (Nat.lt_irrefl _)
  · intro k last hk hlt hdescribes
    exact hfound.leftmost hi hk hlt _ hdescribes.2

/-- In front of a match of a rule that takes up characters of a set as long as it can, no match
starts from which such characters go on to it. -/
theorem Reports.not_describes_before {set : CharSet} {n k last : Nat} (hscope : rule.scope = .all)
    (hempty : rule.pattern.canBeEmpty = false) (hset : EndsInAll set rule.pattern n)
    (h : rule.Reports text start stop) (hk : k < start)
    (hall : AllBetween (set.contains · = true) text (k + 1) (start + 1)) :
    ¬ rule.pattern.Describes text k last := by
  obtain ⟨i, hi, hprevious, hnone⟩ := h.exists_previous hscope hempty
  rcases Nat.lt_or_ge k i with hlt | hge
  · -- The match in front ends on the way from there, so a character of the set was left over.
    rcases hprevious with rfl | ⟨first, hfirst⟩
    · exact absurd hlt (Nat.not_lt_zero k)
    · have hlength : i < text.length := by
        have := h.bounds
        omega
      have hget : text[i]? = some text[i] := List.getElem?_eq_getElem hlength
      have hmem : set.contains text[i] = true := hall i _ hlt (Nat.lt_succ_of_le hi) hget
      rw [hfirst.past hset hget] at hmem
      exact absurd hmem Bool.false_ne_true
  · exact hnone k last hge hk

/-- A rule for all matches reports exactly the spans of a kind if it reports no others, its pattern
describes a span wherever one of the kind starts, and no two of the kind overlap. -/
theorem reports_iff_of_apart (Occurs : Nat → Nat → Prop) (hscope : rule.scope = .all)
    (hempty : rule.pattern.canBeEmpty = false)
    (hsound : ∀ {start stop}, rule.Reports text start stop → Occurs start stop)
    (hdescribes : ∀ {start stop}, Occurs start stop →
      ∃ last, rule.pattern.Describes text start last)
    (hapart : ∀ {start stop start' stop'}, Occurs start stop → Occurs start' stop' →
      start' ≤ start → start < stop' → start = start' ∧ stop = stop') :
    rule.Reports text start stop ↔ Occurs start stop := by
  constructor
  · exact hsound
  · intro hoccurs
    obtain ⟨last, hlast⟩ := hdescribes hoccurs
    obtain ⟨start', stop', hreports, hle, hlt⟩ :=
      covers_iff.mp (covers_of_describes hscope hempty hlast)
    obtain ⟨rfl, rfl⟩ := hapart hoccurs (hsound hreports) hle hlt
    exact hreports

/-- A rule for all matches reports exactly the spans of a kind if it reports no others, its
pattern describes a span wherever one of the kind starts, and from a given start there is one at
most, with no further one starting inside. -/
theorem reports_iff_of_unique (Occurs : Nat → Nat → Prop) (hscope : rule.scope = .all)
    (hempty : rule.pattern.canBeEmpty = false)
    (hsound : ∀ {start stop}, rule.Reports text start stop → Occurs start stop)
    (hdescribes : ∀ {start stop}, Occurs start stop →
      ∃ last, rule.pattern.Describes text start last)
    (hunique : ∀ {start stop stop'}, Occurs start stop → Occurs start stop' → stop = stop')
    (hinside : ∀ {start stop start' stop'}, Occurs start stop → Occurs start' stop' →
      start' < start → stop' ≤ start) {start stop : Nat} :
    rule.Reports text start stop ↔ Occurs start stop := by
  refine reports_iff_of_apart Occurs hscope hempty hsound hdescribes ?_
  intro start stop start' stop' hoccurs hoccurs' hle hlt
  rcases Nat.lt_or_eq_of_le hle with hbefore | rfl
  · exact absurd hlt (Nat.not_lt.mpr (hinside hoccurs hoccurs' hbefore))
  · exact ⟨rfl, hunique hoccurs hoccurs'⟩

instance antisymm_start_lt : Std.Antisymm fun m n : Match => m.start < n.start :=
  ⟨fun _ _ hlt hgt => absurd hlt (Nat.lt_asymm hgt)⟩

/-- A list of matches from left to right that holds the spans that a rule reports, and no others, is
the list that the rule gives. -/
theorem findAll_eq_of_mem_iff {ms : List Match} (hsorted : ms.Pairwise fun m n => m.start < n.start)
    (hmem : ∀ m, m ∈ ms ↔
      ∃ start stop, rule.Reports text start stop ∧ m = ⟨start, text.extract start stop⟩) :
    rule.findAll text = ms := by
  have hirrefl : Std.Irrefl fun m n : Match => m.start < n.start :=
    ⟨fun _ => Nat.lt_irrefl _⟩
  refine (rule.findAll_sorted text).eq_of_mem_iff hsorted fun m => ?_
  rw [mem_findAll_iff, hmem]

/-- A rule for all matches reports all spans that its pattern describes if no two of these
overlap. -/
theorem reports_iff_describes (hscope : rule.scope = .all)
    (hempty : rule.pattern.canBeEmpty = false)
    (hapart : ∀ {start stop start' stop'}, rule.pattern.Describes text start stop →
      rule.pattern.Describes text start' stop' → start' ≤ start → start < stop' →
      start = start' ∧ stop = stop') :
    rule.Reports text start stop ↔ rule.pattern.Describes text start stop :=
  reports_iff_of_apart (rule.pattern.Describes text) hscope hempty (fun h => h.describes)
    (fun h => ⟨_, h⟩) hapart

/-- A rule for single characters reports all characters of its set. -/
theorem reports_chars_iff {set : CharSet} (hscope : rule.scope = .all)
    (hpattern : rule.pattern = chars set) :
    rule.Reports text start stop ↔
      stop = start + 1 ∧ ∃ x, text[start]? = some x ∧ set.contains x = true := by
  rw [← describes_chars, ← hpattern]
  refine reports_iff_describes hscope (by rw [hpattern, canBeEmpty]) ?_
  intro start stop start' stop' h h' hle hlt
  rw [hpattern, describes_chars] at h h'
  omega

/-- A rule for single characters gives the characters of its set, one by one. -/
theorem scan_chars {set : CharSet} (hscope : rule.scope = .all)
    (hpattern : rule.pattern = chars set) (text : List Char) :
    rule.scan text = (text.filter set.contains).map fun x => String.ofList [x] := by
  have hfind : rule.findAll text =
      (text.zipIdx.filter fun placed => set.contains placed.1).map fun placed =>
        ⟨placed.2, [placed.1]⟩ := by
    have hsorted := (zipIdx_pairwise_lt text 0).filter fun placed => set.contains placed.1
    refine findAll_eq_of_mem_iff (List.pairwise_map.mpr hsorted) fun m => ?_
    simp only [List.mem_map, List.mem_filter, Prod.exists, List.mk_mem_zipIdx_iff_getElem?,
      reports_chars_iff hscope hpattern]
    constructor
    · rintro ⟨x, start, ⟨hx, hset⟩, rfl⟩
      exact ⟨start, start + 1, ⟨rfl, x, hx, hset⟩, by rw [extract_char hx]⟩
    · rintro ⟨start, _, ⟨rfl, x, hx, hset⟩, rfl⟩
      exact ⟨x, start, ⟨hx, hset⟩, by rw [extract_char hx]⟩
  have hchars : text.filter set.contains =
      (text.zipIdx.filter fun placed => set.contains placed.1).map Prod.fst := by
    calc text.filter set.contains = (text.zipIdx.map Prod.fst).filter set.contains := by
          rw [List.zipIdx_map_fst]
      _ = _ := List.filter_map
  rw [scan, hfind, hchars, List.map_map, List.map_map]
  rfl

/-- The spans that the rule reports on a line, from left to right. -/
def spans (rule : Rule) (line : List Char) : List (Nat × Nat) :=
  (rule.findAll line).map fun m => (m.start, m.stop)

theorem mem_spans_iff : (start, stop) ∈ rule.spans text ↔ rule.Reports text start stop := by
  simp only [spans, List.mem_map, mem_findAll_iff, Prod.mk.injEq]
  constructor
  · rintro ⟨_, ⟨first, last, h, rfl⟩, rfl, rfl⟩
    rw [stop_extract (Nat.le_of_lt h.bounds.1) h.bounds.2]
    exact h
  · intro h
    exact ⟨_, ⟨start, stop, h, rfl⟩, rfl, stop_extract (Nat.le_of_lt h.bounds.1) h.bounds.2⟩

/-- The rule gives the texts of the spans that it reports. -/
theorem scan_eq_map_spans (rule : Rule) (text : List Char) :
    rule.scan text = (rule.spans text).map fun span =>
      String.ofList (text.extract span.1 span.2) := by
  rw [scan, spans, List.map_map]
  refine List.map_congr_left fun m hm => ?_
  obtain ⟨first, last, h, rfl⟩ := mem_findAll_iff.mp hm
  rw [Function.comp_apply, stop_extract (Nat.le_of_lt h.bounds.1) h.bounds.2]

/-- The matches of the rule on a line are, from left to right, all spans of a kind, and no two
of these spans have a character in common. -/
structure Lists (rule : Rule) (text : List Char) (Occurs : Nat → Nat → Prop) : Prop where
  /-- The rule reports the texts of these spans. -/
  scan_eq : ∃ spans : List (Nat × Nat),
    (∀ start stop, (start, stop) ∈ spans ↔ Occurs start stop) ∧
    spans.Pairwise (fun a b => a.2 ≤ b.1) ∧
    rule.scan text = spans.map fun span => String.ofList (text.extract span.1 span.2)
  /-- The spans lie apart. -/
  apart : ∀ start stop start' stop', Occurs start stop → Occurs start' stop' →
    start = start' ∧ stop = stop' ∨ stop ≤ start' ∨ stop' ≤ start

/-- No two reported spans overlap. -/
theorem Reports.apart {start' stop' : Nat} (h : rule.Reports text start stop)
    (h' : rule.Reports text start' stop') :
    start = start' ∧ stop = stop' ∨ stop ≤ start' ∨ stop' ≤ start := by
  have hapart := List.Pairwise.forall_of_forall_of_flip
    (R := fun m n : Match => m = n ∨ m.stop ≤ n.start ∨ n.stop ≤ m.start) (fun _ _ => Or.inl rfl)
    ((rule.findAll_apart text).imp fun hle => Or.inr (Or.inl hle))
    ((rule.findAll_apart text).imp fun hle => Or.inr (Or.inr hle))
    (mem_findAll_iff.mpr ⟨start, stop, h, rfl⟩) (mem_findAll_iff.mpr ⟨start', stop', h', rfl⟩)
  rw [stop_extract (Nat.le_of_lt h.bounds.1) h.bounds.2,
    stop_extract (Nat.le_of_lt h'.bounds.1) h'.bounds.2] at hapart
  refine hapart.imp_left fun hsame => ?_
  -- Where the matches are the same, so are their ends.
  have hstops := congrArg Match.stop hsame
  rw [stop_extract (Nat.le_of_lt h.bounds.1) h.bounds.2,
    stop_extract (Nat.le_of_lt h'.bounds.1) h'.bounds.2] at hstops
  exact ⟨congrArg Match.start hsame, hstops⟩

/-- A rule that reports exactly the spans of a kind lists them. -/
theorem lists_of_reports_iff {Occurs : Nat → Nat → Prop}
    (h : ∀ {start stop}, rule.Reports text start stop ↔ Occurs start stop) :
    rule.Lists text Occurs := by
  refine ⟨⟨rule.spans text, fun start stop => mem_spans_iff.trans h, ?_,
    rule.scan_eq_map_spans text⟩, ?_⟩
  · exact List.pairwise_map.mpr (rule.findAll_apart text)
  · intro start stop start' stop' hoccurs hoccurs'
    exact (h.mpr hoccurs).apart (h.mpr hoccurs')

end PrologTokens.Rule
