import PrologTokens.Proofs.Pattern.Written
import PrologTokens.Proofs.Rule.Occurrences

/-!
# Rules and the patterns that they are written with

A rule is made from the text of a pattern. What it reports is said here in terms of this text
alone, by the spans of the tree that the text is written for: every reported span is one of
these, and if none of them is empty, the rule misses nothing. A rule for all matches covers
every position from which a span starts; a rule for the leftmost match reports one of the spans
that start first, or nothing if there are none.
-/

set_option autoImplicit false

namespace PrologTokens.Rule

open Pattern

variable {rule : Rule} {text : List Char} {start stop : Nat}

theorem read_of_make {category : Category} {source : String} {scope : Scope}
    (h : Rule.make category source scope = .ok rule) :
    Pattern.read source = .ok rule.pattern ∧ rule.scope = scope := by
  unfold make at h
  split at h
  · rename_i hread
    cases h
    exact ⟨hread, rfl⟩
  · cases h

/-- A rule for the leftmost match reports what a search from the start of the line finds. -/
theorem spans_of_findsFrom (hscope : rule.scope = .first)
    (h : rule.pattern.FindsFrom text 0 start stop) (hlt : start < stop) :
    rule.spans text = [(start, stop)] := by
  have hreports :
      ∀ {start' stop'}, rule.Reports text start' stop' ↔ start' = start ∧ stop' = stop := by
    intro start' stop'
    rw [Reports, hscope]
    constructor
    · rintro ⟨-, hfound⟩
      exact hfound.unique h
    · rintro ⟨rfl, rfl⟩
      exact ⟨hlt, h⟩
  have hfind : rule.findAll text = [⟨start, text.extract start stop⟩] := by
    refine findAll_eq_of_mem_iff (List.pairwise_singleton _ _) fun m => ?_
    simp only [List.mem_singleton, hreports]
    constructor
    · intro hm
      exact ⟨start, stop, ⟨rfl, rfl⟩, hm⟩
    · rintro ⟨_, _, ⟨rfl, rfl⟩, hm⟩
      exact hm
  have hbounds := h.bounds (Nat.zero_le _)
  rw [spans, hfind, List.map_singleton, stop_extract hbounds.2.1 hbounds.2.2]

/-- Where a pattern describes spans and no empty ones, a rule for the leftmost match reports one
of those that start first. -/
theorem spans_of_describes (hscope : rule.scope = .first)
    (hempty : ∀ i, ¬ rule.pattern.Describes text i i) (h : rule.pattern.Describes text start stop) :
    ∃ first last, rule.spans text = [(first, last)] ∧
      ∀ start stop, rule.pattern.Describes text start stop → first ≤ start := by
  obtain ⟨first, last, hfound⟩ := exists_findsFrom (Nat.zero_le start) h.1 h.2
  obtain ⟨-, hle, hlast⟩ := hfound.bounds (Nat.zero_le _)
  have hlt : first < last := by
    rcases Nat.lt_or_eq_of_le hle with hlt | rfl
    · exact hlt
    · exact absurd ⟨hlast, hfound.matches (Nat.zero_le _)⟩ (hempty first)
  refine ⟨first, last, spans_of_findsFrom hscope hfound hlt, fun start stop hspan => ?_⟩
  exact Nat.le_of_not_lt fun hbefore =>
    hfound.leftmost (Nat.zero_le _) (Nat.zero_le _) hbefore _ hspan.2

/-- Every accepted text of a pattern is written for a tree, and whatever tree it is written for,
the rule that is made from it reports spans of the tree only. If none of these is empty on the
line, nothing is missed: a rule for all matches has every position at which a span starts inside
a reported one, and a rule for the leftmost match reports one span that starts at the first of
these positions, or none if there are none. -/
theorem spans_of_make {category : Category} {source : String} {scope : Scope}
    (h : Rule.make category source scope = .ok rule) :
    (∃ written : Written .choice, written.IsWrittenAs source) ∧
    ∀ written : Written .choice, written.IsWrittenAs source → ∀ line : List Char,
      rule.scan line = (rule.spans line).map (fun span =>
        String.ofList (line.extract span.1 span.2)) ∧
      (∀ span ∈ rule.spans line, written.Spans line span.1 span.2) ∧
      ((∀ i, ¬ written.Spans line i i) →
        match scope with
        | .all => ∀ start stop, written.Spans line start stop →
          ∃ span ∈ rule.spans line, span.1 ≤ start ∧ start < span.2
        | .first =>
          (rule.spans line = [] ∧ ∀ start stop, ¬ written.Spans line start stop) ∨
          ∃ first last, rule.spans line = [(first, last)] ∧
            ∀ start stop, written.Spans line start stop → first ≤ start) := by
  obtain ⟨hread, hscope⟩ := read_of_make h
  refine ⟨exists_isWrittenAs hread, fun written hwritten line => ?_⟩
  have hdescribes : ∀ {start stop},
      rule.pattern.Describes line start stop ↔ written.Spans line start stop :=
    describes_iff_spans hread hwritten
  simp only [← hdescribes]
  have hsound : ∀ span ∈ rule.spans line, rule.pattern.Describes line span.1 span.2 :=
    fun span hspan => (mem_spans_iff.mp hspan).describes
  refine ⟨rule.scan_eq_map_spans line, hsound, fun hempty => ?_⟩
  cases scope with
  | all =>
    intro start stop hspan
    obtain ⟨first, last, hreports, hin⟩ :=
      covers_iff.mp (covers_of_describes_of_nonempty hscope hempty hspan)
    exact ⟨(first, last), mem_spans_iff.mpr hreports, hin⟩
  | first =>
    by_cases hany : ∃ start stop, rule.pattern.Describes line start stop
    · obtain ⟨start, stop, hspan⟩ := hany
      exact .inr (spans_of_describes hscope hempty hspan)
    · have hnone : ∀ start stop, ¬ rule.pattern.Describes line start stop :=
        fun start stop hspan => hany ⟨start, stop, hspan⟩
      refine .inl ⟨List.eq_nil_iff_forall_not_mem.mpr fun span hspan => ?_, hnone⟩
      exact hnone _ _ (hsound span hspan)

/-- A repetition of what may be nothing, a repetition that prefers few turns, and the end of the
line. -/
theorem spans_of_make_nested :
    ∃ rule, Rule.make .atom "(a*)*b{1,2}?$" .all = .ok rule ∧
      ∃ span ∈ rule.spans "caabb".toList, span.1 ≤ 1 ∧ 1 < span.2 := by
  have hread : (Pattern.read "(a*)*b{1,2}?$").toOption.map canBeEmpty = some false := by
    decide +kernel
  obtain ⟨rule, hrule⟩ : ∃ rule, Rule.make .atom "(a*)*b{1,2}?$" .all = .ok rule := by
    unfold make
    split
    · exact ⟨_, rfl⟩
    · rename_i hfault
      rw [hfault] at hread
      cases hread
  let letters : Written .part := .times 0 none true (.chars (.singleton 'a') 0)
  let nested : Written .part :=
    .times 0 none true (.group (.numbered none) (.only (.followed .nothing letters)))
  let few : Written .part := .times 1 (some 2) false (.chars (.singleton 'b') 0)
  let tree : Written .choice :=
    .only (.followed (.followed (.followed .nothing nested) few) (.anchor .lineEnd 0))
  have htree : tree.IsWrittenAs "(a*)*b{1,2}?$" := rfl
  have hempty : ∀ i, ¬ tree.Spans "caabb".toList i i := by
    intro i hspan
    obtain ⟨hp, -⟩ := read_of_make hrule
    rw [hp] at hread
    have hdescribes := (describes_iff_spans hp htree).mpr hspan
    exact Nat.lt_irrefl i (hdescribes.2.lt_of_canBeEmpty (Option.some.inj hread))
  have hletters : letters.Spans "caabb".toList 1 3 :=
    ⟨2, ⟨Nat.zero_le 2, by simp⟩, 2, ⟨rfl, 'a', rfl, rfl⟩, 3, ⟨rfl, 'a', rfl, rfl⟩, rfl, by decide⟩
  have hnested : nested.Spans "caabb".toList 1 3 :=
    ⟨1, ⟨Nat.zero_le 1, by simp⟩, 3, ⟨1, ⟨rfl, by decide⟩, hletters⟩, rfl, by decide⟩
  have hfew : few.Spans "caabb".toList 3 5 :=
    ⟨2, ⟨by decide, by simp⟩, 4, ⟨rfl, 'b', rfl, rfl⟩, 5, ⟨rfl, 'b', rfl, rfl⟩, rfl, by decide⟩
  have hspan : tree.Spans "caabb".toList 1 5 :=
    ⟨5, ⟨3, ⟨1, ⟨rfl, by decide⟩, hnested⟩, hfew⟩, rfl, by decide, rfl⟩
  obtain ⟨-, hmake⟩ := spans_of_make hrule
  obtain ⟨-, -, hcovers⟩ := hmake tree htree "caabb".toList
  exact ⟨rule, hrule, hcovers hempty 1 5 hspan⟩

end PrologTokens.Rule
