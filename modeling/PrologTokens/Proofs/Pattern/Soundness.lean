import PrologTokens.Proofs.Pattern.Steps

/-!
# Every end that is found is the end of a match

The matchers look for ends of matches in an order of preference; here the order plays no part. Both
the plain matcher `run` and the stepwise one `explore` give only places up to which the pattern, or
what a task still has to match, describes the characters. So does `matchEnd`, whatever choices were
made before and whether or not its steps suffice.
-/

set_option autoImplicit false

namespace PrologTokens.Pattern

/-! ## The plain matcher -/

/-- A matcher hands on only ends of matches of the pattern. -/
def RunSound (α : Type) (p : Pattern) : Prop :=
  ∀ (accept : Cursor → Option α) (c : Cursor) (answer : α), p.run accept c = some answer →
    ∃ d, p.Matches c d ∧ accept d = some answer

/-- Repeating a sound matcher gives ends of repetitions. The induction is over the fuel: each turn
is one repetition in front of the others. -/
theorem iterate_sound {α : Type} {p : Pattern} (hp : RunSound α p) (greedy : Bool)
    (accept : Cursor → Option α) (fuel : Nat) :
    ∀ (c : Cursor) (answer : α), iterate p.run greedy accept fuel c = some answer →
      ∃ d, (star p greedy).Matches c d ∧ accept d = some answer := by
  induction fuel with
  | zero =>
    intro c answer h
    exact ⟨c, .starNone c, h⟩
  | succ fuel ih =>
    intro c answer h
    -- One more repetition, and then the rest by the induction hypothesis.
    have hmore : ∀ x, p.run (fun d => if c.position < d.position then
          iterate p.run greedy accept fuel d else none) c = some x →
        ∃ d, (star p greedy).Matches c d ∧ accept d = some x := by
      intro x hx
      obtain ⟨d, hfirst, hagain⟩ := hp _ c x hx
      split at hagain
      · obtain ⟨e, hothers, haccept⟩ := ih d x hagain
        exact ⟨e, .starMore hfirst hothers, haccept⟩
      · exact absurd hagain (by simp)
    rw [iterate] at h
    split at h
    · split at h
      · rename_i x hx
        rw [← Option.some.inj h]
        exact hmore x hx
      · exact ⟨c, .starNone c, h⟩
    · split at h
      · rename_i x hx
        rw [← Option.some.inj h]
        exact ⟨c, .starNone c, hx⟩
      · exact hmore answer h

/-- The plain matcher hands on only ends of matches. -/
theorem run_sound {α : Type} (p : Pattern) : RunSound α p := by
  induction p with
  | empty =>
    intro accept c answer h
    exact ⟨c, .empty c, h⟩
  | chars set =>
    intro accept c answer h
    rw [run] at h
    split at h
    · exact absurd h (by simp)
    · rename_i x rest hrest
      split at h
      · rename_i hmem
        exact ⟨_, .chars hrest hmem, h⟩
      · exact absurd h (by simp)
  | anchor a =>
    intro accept c answer h
    rw [run] at h
    split at h
    · rename_i hholds
      exact ⟨c, .anchor hholds, h⟩
    · exact absurd h (by simp)
  | seq p q ihp ihq =>
    intro accept c answer h
    obtain ⟨d, hfirst, hrest⟩ := ihp _ c answer h
    obtain ⟨e, hsecond, haccept⟩ := ihq _ d answer hrest
    exact ⟨e, .seq hfirst hsecond, haccept⟩
  | alt p q ihp ihq =>
    intro accept c answer h
    rw [run] at h
    split at h
    · rename_i x hx
      rw [← Option.some.inj h]
      obtain ⟨d, hleft, haccept⟩ := ihp _ c x hx
      exact ⟨d, .altLeft hleft, haccept⟩
    · obtain ⟨d, hright, haccept⟩ := ihq _ c answer h
      exact ⟨d, .altRight hright, haccept⟩
  | star p greedy ih =>
    intro accept c answer h
    exact iterate_sound ih greedy accept _ c answer h
  | plus p greedy ih =>
    intro accept c answer h
    obtain ⟨d, hfirst, hrest⟩ := ih _ c answer h
    obtain ⟨e, hmore, haccept⟩ := iterate_sound ih greedy accept _ d answer hrest
    exact ⟨e, .plus hfirst hmore, haccept⟩

/-! ## The stepwise matcher -/

/-- What the items describe, one after another, lies between two places. -/
def ItemsMatch : List Item → Cursor → Cursor → Prop
  | [], c, e => c = e
  | item :: items, c, e => ∃ d, item.pattern.Matches c d ∧ ItemsMatch items d e

/-- A task can come to an end at a place. -/
def Task.EndsAt (task : Task) (e : Cursor) : Prop := ItemsMatch task.items task.cursor e

/-- Where a step leads, the task itself can come to an end: what the step takes up or decides is put
in front of the matches of the items that are left. -/
theorem Task.Step.endsAt {task task' : Task} {e : Cursor} (hstep : task.Step task')
    (hends : task'.EndsAt e) : task.EndsAt e := by
  cases hstep with
  | empty => exact ⟨_, .empty _, hends⟩
  | chars ahead mem => exact ⟨_, .chars ahead mem, hends⟩
  | anchor holds => exact ⟨_, .anchor holds, hends⟩
  | seq =>
    obtain ⟨_, hfirst, d, hsecond, hitems⟩ := hends
    exact ⟨d, .seq hfirst hsecond, hitems⟩
  | altLeft =>
    obtain ⟨d, hleft, hitems⟩ := hends
    exact ⟨d, .altLeft hleft, hitems⟩
  | altRight _ =>
    obtain ⟨d, hright, hitems⟩ := hends
    exact ⟨d, .altRight hright, hitems⟩
  | altEmpty => exact ⟨_, .altRight (.empty _), hends⟩
  | starDone => exact ⟨_, .starNone _, hends⟩
  | starMore =>
    obtain ⟨_, hfirst, d, hothers, hitems⟩ := hends
    exact ⟨d, .starMore hfirst hothers, hitems⟩
  | plus =>
    obtain ⟨_, hfirst, d, hmore, hitems⟩ := hends
    exact ⟨d, .plus hfirst hmore, hitems⟩

/-- Putting its successors in the place of a task adds no ends. -/
theorem exists_endsAt_of_successors {task : Task} {tasks : List Task} {e : Cursor}
    (h : ∃ next ∈ task.successors ++ tasks, next.EndsAt e) :
    ∃ next ∈ task :: tasks, next.EndsAt e := by
  obtain ⟨next, hmem, hends⟩ := h
  rcases List.mem_append.mp hmem with hnew | hold
  · exact ⟨task, List.mem_cons_self, (Task.mem_successors_iff.mp hnew).endsAt hends⟩
  · exact ⟨next, List.mem_cons_of_mem task hold, hends⟩

/-- Working off tasks ends only where one of them can come to an end. What a run keeps is that a
place where one of its tasks can come to an end is such a place for the tasks at the start as
well. -/
theorem explore_sound (steps : Nat) :
    ∀ (tasks : List Task) (visited visited' : Visited) (e : Cursor),
      explore steps tasks visited = some (some e, visited') → ∃ task ∈ tasks, task.EndsAt e := by
  intro tasks visited visited' e hexplore
  have hrun := explore_invariant
    (fun current _ => (∃ task ∈ current, task.EndsAt e) → ∃ task ∈ tasks, task.EndsAt e)
    (fun hkept _ _ hends => hkept (hends.imp fun _ => And.imp_left (List.mem_cons_of_mem _)))
    (fun hkept _ _ hends => hkept (exists_endsAt_of_successors hends))
    (fun hkept _ _ hends => hkept (exists_endsAt_of_successors hends))
    steps id hexplore
  rcases hrun with ⟨hnone, -⟩ | ⟨d, others, hsome, hkept⟩
  · exact absurd hnone (Option.some_ne_none e)
  · obtain rfl := Option.some.inj hsome
    exact hkept ⟨⟨[], e⟩, List.mem_cons_self, rfl⟩

/-- The end that is given is the end of a match. -/
theorem matchEnd_sound {p : Pattern} {steps : Nat} {c e : Cursor} {visited : Visited}
    (h : (p.matchEnd steps c visited).1 = some e) : p.Matches c e := by
  unfold matchEnd at h
  split at h
  · rename_i result hresult
    obtain ⟨end?, visited'⟩ := result
    simp only at h
    subst h
    obtain ⟨task, hmem, hends⟩ := explore_sound steps _ _ _ _ hresult
    rw [List.mem_singleton.mp hmem] at hends
    obtain ⟨d, hmatches, hd⟩ := hends
    exact hd ▸ hmatches
  · obtain ⟨d, hmatches, hd⟩ := run_sound p some c e h
    exact Option.some.inj hd ▸ hmatches

end PrologTokens.Pattern
