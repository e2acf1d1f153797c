import PrologTokens.Proofs.Pattern.Completeness

/-!
# Greedy repetition at the end of a pattern

A pattern that ends in the greedy repetition of a set takes up all characters of the set that it
can: behind a match that is found no further one stands. More is preferred to less there, and
since nothing is left to be matched, more never fails.

For the stepwise matcher this is a statement about the phases of a run. Before the repetition is
reached, none of its choices have been made; from then on it takes up one character after the other,
each at a place where its choice is new. The main statement is `FindsFrom.past`.
-/

set_option autoImplicit false

namespace PrologTokens

/-- No character of the set stands at the place. -/
def Cursor.Past (set : CharSet) (c : Cursor) : Prop :=
  ∀ x, c.rest.head? = some x → set.contains x = false

namespace Pattern

/-! ## The plain matcher -/

/-- Greedy repetition of a set gives the place behind all of its characters. -/
theorem iterate_past {set : CharSet} (fuel : Nat) :
    ∀ {c e : Cursor}, c.rest.length ≤ fuel →
      iterate (chars set).run true some fuel c = some e → e.Past set := by
  induction fuel with
  | zero =>
    intro c e hfuel h
    obtain rfl := Option.some.inj h
    have hrest : c.rest = [] := List.length_eq_zero_iff.mp (Nat.le_zero.mp hfuel)
    intro x hx
    rw [hrest] at hx
    exact absurd hx (by simp)
  | succ fuel ih =>
    intro c e hfuel h
    rw [iterate, if_pos rfl] at h
    split at h
    · rename_i answer hmore
      obtain rfl := Option.some.inj h
      obtain ⟨d, hfirst, hagain⟩ := run_sound _ _ c answer hmore
      rcases hfirst.eq_or_lt with rfl | ⟨hposition, hrest⟩
      · exact absurd hagain (by simp)
      · rw [if_pos hposition] at hagain
        exact ih (by omega) hagain
    · rename_i hnone
      obtain rfl := Option.some.inj h
      intro x hx
      obtain ⟨rest, hrest⟩ := List.head?_eq_some_iff.mp hx
      refine eq_false_of_ne_true fun hset => ?_
      -- If the character were taken up, something would be accepted behind it.
      have hagain := run_complete _ _ c _ hnone (.chars hrest hset)
      have hposition : c.position < (c.pass x rest).position := Nat.lt_succ_self _
      rw [if_pos hposition] at hagain
      rw [hrest] at hfuel
      have haccept := iterate_complete (run_complete (chars set)) true some fuel
        (Nat.le_of_succ_le_succ hfuel) hagain (.starNone _)
      exact absurd haccept (by simp)

/-! ## The phases of a run -/

/-- The number is none of those of the choices of the item. -/
def Item.Avoids (n : Nat) (item : Item) : Prop :=
  n < item.number ∨ item.pattern.nextNumber item.number ≤ n

/-- The task ends in the greedy repetition of the set, whose choice has the number `n`, and makes no
choice of that number before. -/
def Task.Trails (set : CharSet) (n : Nat) (task : Task) : Prop :=
  ∃ front, task.items = front ++ [⟨star (chars set) true, n⟩] ∧ ∀ item ∈ front, item.Avoids n

/-- A step before the repetition leads to a task before the repetition. The numbers of the parts
of a pattern are among those of the pattern. -/
theorem trails_of_step {set : CharSet} {n : Nat} {task task' : Task} (hstep : task.Step task')
    {item : Item} {front : List Item}
    (hitems : task.items = item :: (front ++ [⟨star (chars set) true, n⟩]))
    (hitem : item.Avoids n) (hfront : ∀ item ∈ front, item.Avoids n) : task'.Trails set n := by
  have hpush : ∀ {items : List Item} {c : Cursor}, (∀ item ∈ items, item.Avoids n) →
      Task.Trails set n ⟨items ++ (front ++ [⟨star (chars set) true, n⟩]), c⟩ := by
    intro items c h
    refine ⟨items ++ front, (List.append_assoc ..).symm, ?_⟩
    intro item hmem
    rcases List.mem_append.mp hmem with hmem | hmem
    · exact h item hmem
    · exact hfront item hmem
  cases hstep with
  | empty =>
    obtain ⟨-, rfl⟩ := List.cons.inj hitems
    exact ⟨front, rfl, hfront⟩
  | chars _ _ =>
    obtain ⟨-, rfl⟩ := List.cons.inj hitems
    exact ⟨front, rfl, hfront⟩
  | anchor _ =>
    obtain ⟨-, rfl⟩ := List.cons.inj hitems
    exact ⟨front, rfl, hfront⟩
  | @seq p q m =>
    obtain ⟨rfl, rfl⟩ := List.cons.inj hitems
    refine @hpush [⟨p, m⟩, ⟨q, p.nextNumber m⟩] _ ?_
    have hp := p.le_nextNumber m
    have hq := q.le_nextNumber (p.nextNumber m)
    simp only [Item.Avoids, nextNumber, List.forall_mem_cons] at hitem ⊢
    exact ⟨by omega, by omega, fun _ hmem => absurd hmem List.not_mem_nil⟩
  | @altLeft p q m =>
    obtain ⟨rfl, rfl⟩ := List.cons.inj hitems
    refine @hpush [⟨p, m + 1⟩] _ ?_
    have hq := q.le_nextNumber (p.nextNumber (m + 1))
    simp only [Item.Avoids, nextNumber, List.forall_mem_cons] at hitem ⊢
    exact ⟨by omega, fun _ hmem => absurd hmem List.not_mem_nil⟩
  | @altRight p q m =>
    obtain ⟨rfl, rfl⟩ := List.cons.inj hitems
    refine @hpush [⟨q, p.nextNumber (m + 1)⟩] _ ?_
    have hp := p.le_nextNumber (m + 1)
    simp only [Item.Avoids, nextNumber, List.forall_mem_cons] at hitem ⊢
    exact ⟨by omega, fun _ hmem => absurd hmem List.not_mem_nil⟩
  | altEmpty =>
    obtain ⟨-, rfl⟩ := List.cons.inj hitems
    exact ⟨front, rfl, hfront⟩
  | starDone =>
    obtain ⟨-, rfl⟩ := List.cons.inj hitems
    exact ⟨front, rfl, hfront⟩
  | @starMore p greedy m =>
    obtain ⟨rfl, rfl⟩ := List.cons.inj hitems
    refine @hpush [⟨p, m + 1⟩, ⟨star p greedy, m⟩] _ ?_
    simp only [Item.Avoids, nextNumber, List.forall_mem_cons] at hitem ⊢
    exact ⟨by omega, hitem, fun _ hmem => absurd hmem List.not_mem_nil⟩
  | @plus p greedy m =>
    obtain ⟨rfl, rfl⟩ := List.cons.inj hitems
    refine @hpush [⟨p, m + 1⟩, ⟨star p greedy, m⟩] _ ?_
    simp only [Item.Avoids, nextNumber, List.forall_mem_cons] at hitem ⊢
    exact ⟨by omega, hitem, fun _ hmem => absurd hmem List.not_mem_nil⟩

/-- The choices of an item that avoids a number have other numbers. -/
theorem Item.Avoids.choice_ne {n : Nat} {task : Task} {item : Item} {items : List Item}
    {choice : Nat × Nat} (hitem : item.Avoids n) (hitems : task.items = item :: items)
    (hchoice : task.choice? = some choice) : choice.1 ≠ n := by
  obtain ⟨_, c⟩ := task
  simp only at hitems
  subst hitems
  obtain ⟨p, m⟩ := item
  cases p with
  | alt p q =>
    obtain rfl := Option.some.inj hchoice
    have hp := p.le_nextNumber (m + 1)
    have hq := q.le_nextNumber (p.nextNumber (m + 1))
    simp only [Item.Avoids, nextNumber] at hitem ⊢
    omega
  | star p greedy =>
    obtain rfl := Option.some.inj hchoice
    have hp := p.le_nextNumber (m + 1)
    simp only [Item.Avoids, nextNumber] at hitem ⊢
    omega
  | _ => exact absurd hchoice (by simp [Task.choice?])

/-- No choice of the number has been made. -/
def Fresh (n : Nat) (visited : Visited) : Prop := ∀ i, visited.contains (n, i) = false

/-- The phases of a run that comes to the greedy repetition of a set, whose choice has the number
`n`, as the last thing to be matched. -/
inductive Phase (set : CharSet) (n : Nat) : List Task → Visited → Prop where
  /-- No task has come to the repetition so far. -/
  | before {tasks : List Task} {visited : Visited} (trails : ∀ task ∈ tasks, task.Trails set n)
      (fresh : Fresh n visited) : Phase set n tasks visited
  /-- The repetition goes on from a place. Its choice is new there and at every later one. -/
  | repeating {c : Cursor} {tasks : List Task} {visited : Visited}
      (fresh : ∀ i, c.position ≤ i → visited.contains (n, i) = false) :
      Phase set n (⟨[⟨star (chars set) true, n⟩], c⟩ :: tasks) visited
  /-- One more character is tried at a place, before it is left at that. -/
  | taking {m : Nat} {c : Cursor} {tasks : List Task} {visited : Visited}
      (fresh : ∀ i, c.position < i → visited.contains (n, i) = false) :
      Phase set n (⟨[⟨chars set, m⟩, ⟨star (chars set) true, n⟩], c⟩ :: ⟨[], c⟩ :: tasks) visited
  /-- There is no further character of the set. -/
  | finished {c : Cursor} {tasks : List Task} {visited : Visited} (past : c.Past set) :
      Phase set n (⟨[], c⟩ :: tasks) visited

namespace Phase

variable {set : CharSet} {n : Nat} {task : Task} {tasks : List Task} {visited : Visited}
  {choice : Nat × Nat}

/-- Only before the repetition a task can be dropped because of its choice. -/
theorem again (h : Phase set n (task :: tasks) visited) (hchoice : task.choice? = some choice)
    (hmade : visited.contains choice = true) : Phase set n tasks visited := by
  cases h with
  | before trails fresh =>
    exact .before (fun task' hmem => trails task' (List.mem_cons_of_mem task hmem)) fresh
  | @repeating c _ _ fresh =>
    obtain rfl := Option.some.inj hchoice
    rw [fresh c.position (Nat.le_refl _)] at hmade
    exact absurd hmade (by simp)
  | taking fresh => exact absurd hchoice (by simp [Task.choice?])
  | finished past => exact absurd hchoice (by simp [Task.choice?])

/-- What a step without a choice leads to: the same phase, or from trying a character either on to
the next place or to the end. -/
theorem goOn (h : Phase set n (task :: tasks) visited) (hitems : task.items ≠ [])
    (hchoice : task.choice? = none) : Phase set n (task.successors ++ tasks) visited := by
  cases h with
  | before trails fresh =>
    obtain ⟨front, hfront, havoids⟩ := trails task List.mem_cons_self
    refine .before ?_ fresh
    intro task' hmem
    rcases List.mem_append.mp hmem with hmem | hmem
    · cases front with
      | nil => exact absurd hchoice (by simp [Task.choice?, hfront])
      | cons item front =>
        obtain ⟨hitem, hothers⟩ := List.forall_mem_cons.mp havoids
        exact trails_of_step (Task.mem_successors_iff.mp hmem) hfront hitem hothers
    · exact trails task' (List.mem_cons_of_mem task hmem)
  | repeating fresh => exact absurd hchoice (by simp [Task.choice?])
  | @taking m c _ _ fresh =>
    simp only [Task.successors, Task.successorsOf]
    cases hrest : c.rest with
    | nil =>
      refine .finished fun x hx => ?_
      rw [hrest] at hx
      exact absurd hx (by simp)
    | cons x rest =>
      by_cases hset : set.contains x = true
      · simp only [hset, if_true]
        exact .repeating fun i hi => fresh i hi
      · simp only [hset, if_false, Bool.false_eq_true]
        refine .finished fun y hy => ?_
        rw [hrest, List.head?_cons, Option.some.injEq] at hy
        exact hy ▸ eq_false_of_ne_true hset
  | finished past => exact absurd rfl hitems

/-- What a step with a choice leads to: the same phase, or from the repetition to one more
character. -/
theorem choose (h : Phase set n (task :: tasks) visited) (hchoice : task.choice? = some choice) :
    Phase set n (task.successors ++ tasks) (visited.insert choice) := by
  -- The repetition goes on with a character, wherever its choice was new so far.
  have htake : ∀ {c : Cursor}, task = ⟨[⟨star (chars set) true, n⟩], c⟩ →
      (∀ i, c.position ≤ i → visited.contains (n, i) = false) →
      Phase set n (task.successors ++ tasks) (visited.insert choice) := by
    intro c htask hfresh
    subst htask
    obtain rfl := Option.some.inj hchoice
    refine .taking fun i hi => ?_
    have hne : (n, c.position) ≠ (n, i) := fun heq => Nat.ne_of_lt hi (Prod.mk.inj heq).2
    rw [Std.HashSet.contains_insert, beq_false_of_ne hne, Bool.false_or]
    exact hfresh i (Nat.le_of_lt hi)
  cases h with
  | before trails fresh =>
    obtain ⟨front, hfront, havoids⟩ := trails task List.mem_cons_self
    cases front with
    | nil =>
      obtain ⟨items, c⟩ := task
      exact htake (congrArg (Task.mk · c) hfront) fun i _ => fresh i
    | cons item front =>
      obtain ⟨hitem, hothers⟩ := List.forall_mem_cons.mp havoids
      refine .before ?_ fun i => ?_
      · intro task' hmem
        rcases List.mem_append.mp hmem with hmem | hmem
        · exact trails_of_step (Task.mem_successors_iff.mp hmem) hfront hitem hothers
        · exact trails task' (List.mem_cons_of_mem task hmem)
      · have hne : choice ≠ (n, i) := fun heq =>
          hitem.choice_ne hfront hchoice (congrArg Prod.fst heq)
        rw [Std.HashSet.contains_insert, beq_false_of_ne hne, Bool.false_or]
        exact fresh i
  | repeating fresh => exact htake rfl fresh
  | taking fresh => exact absurd hchoice (by simp [Task.choice?])
  | finished past => exact absurd hchoice (by simp [Task.choice?])

end Phase

/-- A run that starts before the repetition ends behind all characters of the set, or without having
come to the repetition. -/
theorem explore_phase {set : CharSet} {n : Nat} {steps : Nat} {tasks : List Task}
    {visited visited' : Visited} {found? : Option Cursor} (h : Phase set n tasks visited)
    (hexplore : explore steps tasks visited = some (found?, visited')) :
    (∀ e, found? = some e → e.Past set) ∧ (found? = none → Fresh n visited') := by
  have hend := explore_invariant (Phase set n) (fun h hchoice hmade => h.again hchoice hmade)
    (fun h hitems hchoice => h.goOn hitems hchoice) (fun h hchoice _ => h.choose hchoice) steps h
    hexplore
  rcases hend with ⟨rfl, hend⟩ | ⟨e, others, rfl, hend⟩
  · refine ⟨by simp, fun _ => ?_⟩
    cases hend with
    | before _ fresh => exact fresh
  · refine ⟨?_, by simp⟩
    rintro e' ⟨⟩
    cases hend with
    | before trails _ =>
      obtain ⟨front, hfront, -⟩ := trails _ List.mem_cons_self
      exact absurd hfront (by simp)
    | finished past => exact past

/-! ## Searching -/

/-- A pattern, and behind it characters of a set, as many as possible. -/
abbrev thenAll (p : Pattern) (set : CharSet) : Pattern := seq p (star (chars set) true)

/-- The pattern ends in the greedy repetition of a set, whose choice has the number `n`. -/
inductive EndsInAll (set : CharSet) : (p : Pattern) → (n : Nat) → Prop where
  /-- The set is repeated behind a pattern. -/
  | behind (p : Pattern) : EndsInAll set (p.thenAll set) (p.nextNumber 0)
  /-- The set is all there is. -/
  | alone : EndsInAll set (plus (chars set) true) 0

/-- The plain matcher gives an end behind all characters of the set. -/
theorem EndsInAll.run_past {set : CharSet} {p : Pattern} {n : Nat} {c e : Cursor}
    (h : EndsInAll set p n) (hrun : p.run some c = some e) : e.Past set := by
  cases h with
  | behind p =>
    obtain ⟨d, -, hiterate⟩ := run_sound p _ c e hrun
    exact iterate_past _ (Nat.le_refl _) hiterate
  | alone =>
    rw [run] at hrun
    obtain ⟨d, -, hiterate⟩ := run_sound (chars set) _ c e hrun
    exact iterate_past _ (Nat.le_refl _) hiterate

/-- The first step of the stepwise matcher takes the pattern apart into the repetition and what
comes before it. -/
theorem EndsInAll.explore_first {set : CharSet} {p : Pattern} {n : Nat} (h : EndsInAll set p n)
    (steps : Nat) (c : Cursor) (visited : Visited) :
    ∃ item : Item, item.Avoids n ∧ explore (steps + 1) [⟨[⟨p, 0⟩], c⟩] visited =
      explore steps [⟨[item, ⟨star (chars set) true, n⟩], c⟩] visited := by
  cases h with
  | behind p => exact ⟨⟨p, 0⟩, .inr (Nat.le_refl _), rfl⟩
  | alone => exact ⟨⟨chars set, 1⟩, .inl Nat.zero_lt_one, rfl⟩

/-- As long as the choice of the repetition is new, the end that is given lies behind all characters
of the set, and if none is given the choice stays new. -/
theorem matchEnd_past {p : Pattern} {set : CharSet} {n : Nat} {steps : Nat} {c : Cursor}
    {visited visited' : Visited} {found? : Option Cursor} (hp : EndsInAll set p n)
    (h : Fresh n visited) (hend : p.matchEnd steps c visited = (found?, visited')) :
    (∀ e, found? = some e → e.Past set) ∧ (found? = none → Fresh n visited') := by
  unfold matchEnd at hend
  split at hend
  · rename_i result hexplore
    subst hend
    cases steps with
    | zero => exact absurd hexplore (by simp [explore])
    | succ steps =>
      obtain ⟨item, havoids, hparts⟩ := hp.explore_first steps c visited
      rw [hparts] at hexplore
      refine explore_phase (.before ?_ h) hexplore
      intro task hmem
      obtain rfl := List.mem_singleton.mp hmem
      refine ⟨[item], rfl, ?_⟩
      intro item' hmem
      obtain rfl := List.mem_singleton.mp hmem
      exact havoids
  · obtain ⟨hrun, rfl⟩ := Prod.mk.inj hend
    refine ⟨?_, fun _ i => Std.HashSet.contains_empty⟩
    intro e he
    rw [he] at hrun
    exact hp.run_past hrun

/-- Behind what is found no character of the set stands. -/
theorem FindsFrom.past_of_endsInAll {p : Pattern} {set : CharSet} {n : Nat} {text : List Char}
    {i start stop : Nat} (hp : EndsInAll set p n) (h : p.FindsFrom text i start stop)
    (hi : i ≤ text.length) {x : Char} (hx : text[stop]? = some x) : set.contains x = false := by
  have hplaces := leftmost?_places p (p.stepBound text.length) (Fresh n)
    (fun _ hfresh hend => (matchEnd_past hp hfresh hend).2 rfl) (text.drop i) rfl hi
    (fun _ => Std.HashSet.contains_empty)
  rw [h] at hplaces
  obtain ⟨-, visited, hfresh, hend⟩ := hplaces
  have hpast := (matchEnd_past hp hfresh (Prod.ext hend rfl)).1 _ rfl
  refine hpast x ?_
  rw [← hx]
  exact List.head?_drop

/-- Behind what is found no character of the set stands. -/
theorem FindsFrom.past {p : Pattern} {set : CharSet} {text : List Char} {i start stop : Nat}
    (h : (p.thenAll set).FindsFrom text i start stop) (hi : i ≤ text.length) {x : Char}
    (hx : text[stop]? = some x) : set.contains x = false :=
  h.past_of_endsInAll (.behind p) hi hx

end Pattern
end PrologTokens
