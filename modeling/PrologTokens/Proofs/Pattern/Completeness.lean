import PrologTokens.Proofs.Pattern.Spans
import PrologTokens.Proofs.Pattern.Steps

/-!
# Every match is found

If a search ends with nothing, there is nothing to be found: no match starts at any place that
it has come by. For the plain matcher this is an induction over the pattern. The stepwise
matcher drops every task that would make a choice twice; there it takes an invariant. All that a
choice leads to is either still to be done or leads, step by step, to choices that have been
made. When no task is left, the choices that have been made lead to each other only, and so
never to an end.

The main statements are `FindsFrom.leftmost`, by which no match starts before the one that is found,
`exists_findsFrom`, by which one is found if there is one, and `exists_findsOnWay_of_matches`, by
which a search for all matches passes over none of them.
-/

set_option autoImplicit false

namespace PrologTokens.Pattern

/-! ## The plain matcher -/

/-- A match takes up nothing or goes on to the right. -/
theorem Matches.eq_or_lt {p : Pattern} {c d : Cursor} (h : p.Matches c d) :
    d = c ∨ c.position < d.position ∧ d.rest.length < c.rest.length := by
  -- One stretch behind another.
  have htrans : ∀ {c d e : Cursor},
      (d = c ∨ c.position < d.position ∧ d.rest.length < c.rest.length) →
      (e = d ∨ d.position < e.position ∧ e.rest.length < d.rest.length) →
      e = c ∨ c.position < e.position ∧ e.rest.length < c.rest.length := by
    rintro c d e (rfl | hcd) (rfl | hde)
    · exact .inl rfl
    · exact .inr hde
    · exact .inr hcd
    · exact .inr (by omega)
  induction h with
  | empty c => exact .inl rfl
  | @chars set c x rest ahead mem =>
    refine .inr ⟨Nat.lt_succ_self _, ?_⟩
    rw [ahead]
    exact Nat.lt_succ_self _
  | anchor holds => exact .inl rfl
  | seq _ _ ihFirst ihSecond => exact htrans ihFirst ihSecond
  | altLeft _ ih => exact ih
  | altRight _ ih => exact ih
  | starNone c => exact .inl rfl
  | starMore _ _ ihFirst ihMore => exact htrans ihFirst ihMore
  | plus _ _ ihFirst ihMore => exact htrans ihFirst ihMore

/-- Repetitions that take up nothing can be left out: there is either nothing to repeat, or a first
repetition that takes up something. -/
theorem Matches.star_cases {p : Pattern} {greedy : Bool} {c e : Cursor}
    (h : (star p greedy).Matches c e) :
    e = c ∨ ∃ d, p.Matches c d ∧ c.position < d.position ∧ d.rest.length < c.rest.length ∧
      (star p greedy).Matches d e := by
  generalize hq : star p greedy = q at h
  induction h with
  | starNone c => exact .inl rfl
  | starMore first more _ ihMore =>
    cases hq
    rcases first.eq_or_lt with rfl | ⟨hposition, hrest⟩
    · exact ihMore rfl
    · exact .inr ⟨_, first, hposition, hrest, more⟩
  | _ => cases hq

/-- If a matcher hands on nothing that is accepted, no match ends at a place that is. -/
def RunComplete (α : Type) (p : Pattern) : Prop :=
  ∀ (accept : Cursor → Option α) (c d : Cursor), p.run accept c = none → p.Matches c d →
    accept d = none

/-- Repeating a complete matcher misses no end of repetitions. The induction is over the fuel, which
is never less than the number of characters ahead. -/
theorem iterate_complete {α : Type} {p : Pattern} (hp : RunComplete α p) (greedy : Bool)
    (accept : Cursor → Option α) (fuel : Nat) :
    ∀ {c d : Cursor}, c.rest.length ≤ fuel → iterate p.run greedy accept fuel c = none →
      (star p greedy).Matches c d → accept d = none := by
  induction fuel with
  | zero =>
    intro c d hfuel hnone hmatches
    rcases hmatches.eq_or_lt with rfl | ⟨-, hrest⟩
    · exact hnone
    · omega
  | succ fuel ih =>
    intro c d hfuel hnone hmatches
    -- Neither here nor behind another repetition is anything accepted.
    have hboth : accept c = none ∧ p.run (fun d => if c.position < d.position then
        iterate p.run greedy accept fuel d else none) c = none := by
      rw [iterate] at hnone
      split at hnone
      · split at hnone
        · exact absurd hnone (by simp)
        · rename_i hbody
          exact ⟨hnone, hbody⟩
      · split at hnone
        · exact absurd hnone (by simp)
        · rename_i haccept
          exact ⟨haccept, hnone⟩
    rcases hmatches.star_cases with rfl | ⟨m, hfirst, hposition, hrest, hmore⟩
    · exact hboth.1
    · have hagain := hp _ c m hboth.2 hfirst
      rw [if_pos hposition] at hagain
      exact ih (by omega) hagain hmore

/-- The plain matcher misses no end. -/
theorem run_complete {α : Type} (p : Pattern) : RunComplete α p := by
  induction p with
  | empty =>
    intro accept c d hnone hmatches
    cases hmatches
    exact hnone
  | chars set =>
    intro accept c d hnone hmatches
    cases hmatches with
    | chars ahead mem =>
      rw [run, ahead] at hnone
      simpa only [mem, if_true] using hnone
  | anchor a =>
    intro accept c d hnone hmatches
    cases hmatches with
    | anchor holds => rwa [run, if_pos holds] at hnone
  | seq p q ihp ihq =>
    intro accept c d hnone hmatches
    cases hmatches with
    | seq first second => exact ihq accept _ d (ihp _ c _ hnone first) second
  | alt p q ihp ihq =>
    intro accept c d hnone hmatches
    rw [run] at hnone
    split at hnone
    · exact absurd hnone (by simp)
    · rename_i hleft
      cases hmatches with
      | altLeft left => exact ihp accept c d hleft left
      | altRight right => exact ihq accept c d hnone right
  | star p greedy ih =>
    intro accept c d hnone hmatches
    exact iterate_complete ih greedy accept _ (Nat.le_refl _) hnone hmatches
  | plus p greedy ih =>
    intro accept c d hnone hmatches
    cases hmatches with
    | plus first more =>
      have hbehind := ih (fun d => iterate p.run greedy accept d.rest.length d) c _ hnone first
      exact iterate_complete ih greedy accept _ (Nat.le_refl _) hbehind more

/-! ## The stepwise matcher -/

/-- All ends of a task are among those of other tasks, or lie behind choices that have been made. -/
inductive Leads (visited : Visited) (tasks : List Task) : Task → Prop where
  /-- The task itself is still to be done. -/
  | pending {task : Task} (mem : task ∈ tasks) : Leads visited tasks task
  /-- The task would make a choice that has been made. -/
  | again {task : Task} {choice : Nat × Nat} (makes : task.choice? = some choice)
      (made : visited.contains choice = true) : Leads visited tasks task
  /-- What a step makes of the task leads there. -/
  | through {task : Task} (unfinished : task.items ≠ [])
      (steps : ∀ task', task.Step task' → Leads visited tasks task') : Leads visited tasks task

/-- More choices may have been made, and other tasks may be still to be done, if what was to be done
leads to them. -/
theorem Leads.trans {visited visited' : Visited} {tasks tasks' : List Task} {task : Task}
    (h : Leads visited tasks task)
    (hvisited : ∀ choice, visited.contains choice = true → visited'.contains choice = true)
    (htasks : ∀ task ∈ tasks, Leads visited' tasks' task) : Leads visited' tasks' task := by
  induction h with
  | pending mem => exact htasks _ mem
  | again makes made => exact .again makes (hvisited _ made)
  | through unfinished _ ih => exact .through unfinished ih

section Line

variable (ahead : Nat → List Item) (line : List Char)

/-- A task of a search in a line: the numbers of its choices tell what is still to be matched, and
its place is one of the line. -/
structure InLine (task : Task) : Prop where
  placed : Placed ahead task.items
  on_line : ∃ i, i ≤ line.length ∧ task.cursor = .ofPosition line i

variable {ahead line}

/-- A step leads to a task of the same search. -/
theorem InLine.step {task task' : Task} (h : InLine ahead line task) (hstep : task.Step task') :
    InLine ahead line task' := by
  refine ⟨h.placed.step hstep, ?_⟩
  have hline := h.on_line
  cases hstep with
  | @chars set n items c x rest hrest hset =>
    obtain ⟨i, hi, hcursor⟩ := hline
    simp only at hcursor
    subst hcursor
    refine ⟨i + 1, ?_, Cursor.pass_ofPosition hrest⟩
    have hlength := congrArg List.length hrest
    simp only [Cursor.ofPosition, List.length_drop, List.length_cons] at hlength
    omega
  | _ => exact hline

/-- Only one task of a search makes a choice at a position. -/
theorem InLine.unique {task task' : Task} {choice : Nat × Nat} (h : InLine ahead line task)
    (h' : InLine ahead line task') (hchoice : task.choice? = some choice)
    (hchoice' : task'.choice? = some choice) : task = task' := by
  obtain ⟨hitems, hposition⟩ := h.placed.of_choice hchoice
  obtain ⟨hitems', hposition'⟩ := h'.placed.of_choice hchoice'
  obtain ⟨i, -, hcursor⟩ := h.on_line
  obtain ⟨j, -, hcursor'⟩ := h'.on_line
  have hij : i = j := by
    rw [hcursor] at hposition
    rw [hcursor'] at hposition'
    exact hposition.trans hposition'.symm
  obtain ⟨items, c⟩ := task
  obtain ⟨items', c'⟩ := task'
  simp only at hitems hitems' hcursor hcursor'
  rw [hitems, hitems', hcursor, hcursor', hij]

variable (ahead line)

/-- Whatever a choice that has been made leads to is still to be done, or lies behind choices that
have been made. -/
def Closed (visited : Visited) (tasks : List Task) : Prop :=
  ∀ {task choice task'}, InLine ahead line task → task.choice? = some choice →
    visited.contains choice = true → task.Step task' → Leads visited tasks task'

/-- What is kept while the tasks of a search are worked off that started with a given one. -/
structure Searching (first : Task) (tasks : List Task) (visited : Visited) : Prop where
  in_line : ∀ task ∈ tasks, InLine ahead line task
  closed : Closed ahead line visited tasks
  leads : Leads visited tasks first

variable {ahead line}

/-- Tasks can be replaced by others that they lead to. -/
theorem Searching.replace {first : Task} {tasks tasks' : List Task} {visited : Visited}
    (h : Searching ahead line first tasks visited)
    (hin : ∀ task ∈ tasks', InLine ahead line task)
    (hleads : ∀ task ∈ tasks, Leads visited tasks' task) :
    Searching ahead line first tasks' visited where
  in_line := hin
  closed := fun hline hchoice hmade hstep =>
    (h.closed hline hchoice hmade hstep).trans (fun _ hmade => hmade) hleads
  leads := h.leads.trans (fun _ hmade => hmade) hleads

/-- The successors of a task of the search are tasks of it, and so are the others. -/
theorem Searching.in_line_successors {first task : Task} {tasks : List Task} {visited : Visited}
    (h : Searching ahead line first (task :: tasks) visited) :
    ∀ task' ∈ task.successors ++ tasks, InLine ahead line task' := by
  intro task' hmem
  rcases List.mem_append.mp hmem with hmem | hmem
  · exact (h.in_line task List.mem_cons_self).step (Task.mem_successors_iff.mp hmem)
  · exact h.in_line task' (List.mem_cons_of_mem task hmem)

/-- A task leads to its successors, which are put in its place. -/
theorem Leads.successor {task task' : Task} {tasks : List Task} {visited : Visited}
    (hstep : task.Step task') : Leads visited (task.successors ++ tasks) task' :=
  .pending (List.mem_append_left tasks (Task.mem_successors_iff.mpr hstep))

/-- A task can be dropped if it would make a choice that has been made. -/
theorem Searching.again {first task : Task} {tasks : List Task} {visited : Visited}
    {choice : Nat × Nat} (h : Searching ahead line first (task :: tasks) visited)
    (hchoice : task.choice? = some choice) (hmade : visited.contains choice = true) :
    Searching ahead line first tasks visited := by
  refine h.replace (fun task' hmem => h.in_line task' (List.mem_cons_of_mem task hmem)) ?_
  intro task' hmem
  rcases List.mem_cons.mp hmem with rfl | hmem
  · exact .again hchoice hmade
  · exact .pending hmem

/-- A task that makes no choice can be replaced by its successors. -/
theorem Searching.goOn {first task : Task} {tasks : List Task} {visited : Visited}
    (h : Searching ahead line first (task :: tasks) visited) (hitems : task.items ≠ []) :
    Searching ahead line first (task.successors ++ tasks) visited := by
  refine h.replace h.in_line_successors ?_
  intro task' hmem
  rcases List.mem_cons.mp hmem with rfl | hmem
  · exact .through hitems fun _ hstep => .successor hstep
  · exact .pending (List.mem_append_right _ hmem)

/-- A task that makes a choice can be replaced by its successors, and then the choice has been
made. No other task makes it, so all it leads to is among these successors. -/
theorem Searching.choose {first task : Task} {tasks : List Task} {visited : Visited}
    {choice : Nat × Nat} (h : Searching ahead line first (task :: tasks) visited)
    (hchoice : task.choice? = some choice) :
    Searching ahead line first (task.successors ++ tasks) (visited.insert choice) := by
  have hkept : ∀ made, visited.contains made = true →
      (visited.insert choice).contains made = true := by
    intro made hmade
    rw [Std.HashSet.contains_insert, hmade, Bool.or_true]
  have hleads : ∀ task' ∈ task :: tasks,
      Leads (visited.insert choice) (task.successors ++ tasks) task' := by
    intro task' hmem
    rcases List.mem_cons.mp hmem with rfl | hmem
    · exact .again hchoice Std.HashSet.contains_insert_self
    · exact .pending (List.mem_append_right _ hmem)
  refine ⟨h.in_line_successors, ?_, h.leads.trans hkept hleads⟩
  intro other made task' hother hmakes hmade hstep
  rw [Std.HashSet.contains_insert, Bool.or_eq_true, beq_iff_eq] at hmade
  rcases hmade with rfl | hmade
  · obtain rfl := hother.unique (h.in_line task List.mem_cons_self) hmakes hchoice
    exact .successor hstep
  · exact (h.closed hother hmakes hmade hstep).trans hkept hleads

/-- When the tasks have been worked off, the choices that have been made lead to each other only. -/
theorem explore_searching {first : Task} {steps : Nat} {tasks : List Task}
    {visited visited' : Visited} (h : Searching ahead line first tasks visited)
    (hexplore : explore steps tasks visited = some (none, visited')) :
    Searching ahead line first [] visited' := by
  have hend := explore_invariant (Searching ahead line first)
    (fun h hchoice hmade => h.again hchoice hmade) (fun h hitems _ => h.goOn hitems)
    (fun h hchoice _ => h.choose hchoice) steps h hexplore
  rcases hend with ⟨-, hend⟩ | ⟨e, others, habsurd, -⟩
  · exact hend
  · exact absurd habsurd (by simp)

/-- When no task is left, no task that leads only behind choices that have been made comes to an
end. -/
theorem Closed.not_reaches {visited : Visited} (h : Closed ahead line visited []) {task : Task}
    {e : Cursor} (hreaches : Reaches task ⟨[], e⟩) :
    InLine ahead line task → Leads visited [] task → False := by
  induction hreaches using Relation.ReflTransGen.head_induction_on with
  | refl =>
    intro _ hleads
    cases hleads with
    | pending mem => exact List.not_mem_nil mem
    | again makes made => exact absurd makes (by simp [Task.choice?])
    | through unfinished _ => exact unfinished rfl
  | head hstep _ ih =>
    intro hline hleads
    refine ih (hline.step hstep) ?_
    cases hleads with
    | pending mem => exact absurd mem List.not_mem_nil
    | again makes made => exact h hline makes made hstep
    | through _ steps => exact steps _ hstep

end Line

/-- What is still to be matched at each choice of a whole pattern. -/
def aheadOf (p : Pattern) (k : Nat) : List Item := p.aheadAt k 0 []

/-- The choices made so far in a line lead to no match of the pattern. -/
abbrev Exhausted (p : Pattern) (line : List Char) (visited : Visited) : Prop :=
  Closed p.aheadOf line visited []

theorem exhausted_empty (p : Pattern) (line : List Char) : p.Exhausted line ∅ := by
  intro task choice task' _ _ hmade
  exact absurd hmade (by simp)

/-- If nothing is found at a place, no match starts there, and the choices made on the way lead
to no match either. -/
theorem matchEnd_complete {p : Pattern} {steps : Nat} {line : List Char} {i : Nat}
    {visited visited' : Visited} (hi : i ≤ line.length) (hvisited : p.Exhausted line visited)
    (h : p.matchEnd steps (.ofPosition line i) visited = (none, visited')) :
    (∀ e, ¬ p.Matches (.ofPosition line i) e) ∧ p.Exhausted line visited' := by
  unfold matchEnd at h
  split at h
  · rename_i result hexplore
    subst h
    have hfirst : InLine p.aheadOf line ⟨[⟨p, 0⟩], .ofPosition line i⟩ :=
      ⟨⟨placedBefore_of_agree p fun k _ _ => rfl, trivial⟩, i, hi, rfl⟩
    have hstart : Searching p.aheadOf line ⟨[⟨p, 0⟩], .ofPosition line i⟩
        [⟨[⟨p, 0⟩], .ofPosition line i⟩] visited := by
      refine ⟨?_, ?_, .pending List.mem_cons_self⟩
      · intro task hmem
        rw [List.mem_singleton.mp hmem]
        exact hfirst
      · intro task choice task' hline hchoice hmade hstep
        exact (hvisited hline hchoice hmade hstep).trans (fun _ hmade => hmade)
          fun _ hmem => absurd hmem List.not_mem_nil
    have hend := explore_searching hstart hexplore
    refine ⟨?_, hend.closed⟩
    intro e hmatches
    exact Closed.not_reaches hend.closed (reaches_of_matches hmatches 0 []) hfirst hend.leads
  · obtain ⟨hrun, rfl⟩ := Prod.mk.inj h
    refine ⟨?_, exhausted_empty p line⟩
    intro e hmatches
    exact absurd (run_complete p some _ e hrun hmatches) (by simp)

/-! ## Searching -/

/-- A search that goes on with choices of a certain kind finds nothing at a place. -/
def FailsAt (p : Pattern) (steps : Nat) (line : List Char) (Kind : Visited → Prop)
    (i : Nat) : Prop :=
  ∃ visited visited', Kind visited ∧
    p.matchEnd steps (.ofPosition line i) visited = (none, visited')

/-- A search from a place on tries one place after the other: all those before the one at which it
finds something, or all there are. If the choices are of a certain kind at its start and stay so at
every place where nothing is found, they are of that kind at all of these places. The induction is
over the characters ahead. -/
theorem leftmost?_places (p : Pattern) (steps : Nat) {line : List Char} (Kind : Visited → Prop)
    (hkeeps : ∀ {i visited visited'}, i ≤ line.length → Kind visited →
      p.matchEnd steps (.ofPosition line i) visited = (none, visited') → Kind visited')
    (rest : List Char) :
    ∀ {i : Nat} {visited : Visited}, line.drop i = rest → i ≤ line.length → Kind visited →
      match p.leftmost? steps i (line.take i).getLast? visited rest with
      | some (s, e) =>
        (∀ k, i ≤ k → k < s.position → p.FailsAt steps line Kind k) ∧
          ∃ visited', Kind visited' ∧ (p.matchEnd steps s visited').1 = some e
      | none => ∀ k, i ≤ k → k ≤ line.length → p.FailsAt steps line Kind k := by
  induction rest with
  | nil =>
    intro i visited hrest hi hkind
    have hlength : line.length ≤ i := List.drop_eq_nil_iff.mp hrest
    rw [leftmost?_of_drop_nil hrest]
    rcases hend : p.matchEnd steps (.ofPosition line i) visited with ⟨_ | e, visited'⟩
    · simp only [Option.map_none]
      intro k hk hk'
      obtain rfl : i = k := by omega
      exact ⟨visited, visited', hkind, hend⟩
    · simp only [Option.map_some]
      refine ⟨fun k hk hk' => ?_, visited, hkind, by rw [hend]⟩
      exact absurd hk (Nat.not_le.mpr hk')
  | cons x rest ih =>
    intro i visited hrest hi hkind
    rw [leftmost?_of_drop_cons hrest]
    rcases hend : p.matchEnd steps (.ofPosition line i) visited with ⟨_ | e, visited'⟩
    · -- Nothing is found here, so the search goes on behind the next character.
      have hhere : p.FailsAt steps line Kind i := ⟨visited, visited', hkind, hend⟩
      obtain ⟨hdrop, hi'⟩ := drop_succ_of_drop hrest
      have hlater := ih hdrop hi' (hkeeps hi hkind hend)
      simp only
      have hfrom : ∀ {k}, i ≤ k → k = i ∨ i + 1 ≤ k := by omega
      split at hlater
      · refine ⟨fun k hk hk' => ?_, hlater.2⟩
        rcases hfrom hk with rfl | hk
        · exact hhere
        · exact hlater.1 k hk hk'
      · intro k hk hk'
        rcases hfrom hk with rfl | hk
        · exact hhere
        · exact hlater k hk hk'
    · simp only
      refine ⟨fun k hk hk' => ?_, visited, hkind, by rw [hend]⟩
      exact absurd hk (Nat.not_le.mpr hk')

/-- No match starts where a search fails that goes on with choices that lead to no match. -/
theorem FailsAt.not_matches {p : Pattern} {steps : Nat} {line : List Char} {k : Nat}
    (h : p.FailsAt steps line (p.Exhausted line) k) (hk : k ≤ line.length) (e : Cursor) :
    ¬ p.Matches (.ofPosition line k) e := by
  obtain ⟨visited, visited', hvisited, hend⟩ := h
  exact (matchEnd_complete hk hvisited hend).1 e

/-- A search passes over no match: none starts before the one that it finds, and if it finds
nothing, none starts at any place that it has come by. -/
theorem leftmost?_complete (p : Pattern) {line : List Char} {i : Nat} (hi : i ≤ line.length) :
    match p.leftmost? (p.stepBound line.length) i (line.take i).getLast? ∅ (line.drop i) with
    | some (s, _) => ∀ k, i ≤ k → k < s.position → k ≤ line.length →
        ∀ e, ¬ p.Matches (.ofPosition line k) e
    | none => ∀ k, i ≤ k → k ≤ line.length → ∀ e, ¬ p.Matches (.ofPosition line k) e := by
  have hplaces := leftmost?_places p (p.stepBound line.length) (p.Exhausted line)
    (fun hi hvisited hend => (matchEnd_complete hi hvisited hend).2) (line.drop i) rfl hi
    (exhausted_empty p line)
  cases hfound : p.leftmost? (p.stepBound line.length) i (line.take i).getLast? ∅ (line.drop i) with
  | none =>
    rw [hfound] at hplaces
    intro k hk hk'
    exact (hplaces k hk hk').not_matches hk'
  | some pair =>
    rw [hfound] at hplaces
    intro k hk hlt hk'
    exact (hplaces.1 k hk hlt).not_matches hk'

/-- No match starts between the position of a search and the one that it finds. -/
theorem FindsFrom.leftmost {p : Pattern} {line : List Char} {i start stop : Nat}
    (h : p.FindsFrom line i start stop) (hi : i ≤ line.length) {k : Nat} (hk : i ≤ k)
    (hk' : k < start) (e : Cursor) : ¬ p.Matches (.ofPosition line k) e := by
  have hcomplete := p.leftmost?_complete hi
  rw [h] at hcomplete
  have hbounds := h.bounds hi
  exact hcomplete k hk hk' (by omega) e

/-- What is found is a match. -/
theorem FindsFrom.matches {p : Pattern} {line : List Char} {i start stop : Nat}
    (h : p.FindsFrom line i start stop) (hi : i ≤ line.length) :
    p.Matches (.ofPosition line start) (.ofPosition line stop) := by
  obtain ⟨-, -, -, -, -, -, -, hmatches⟩ := leftmost?_ofPosition _ rfl hi h
  exact hmatches

/-- If a match starts at the position of a search or behind it, the search finds one. -/
theorem exists_findsFrom {p : Pattern} {line : List Char} {i k : Nat} {e : Cursor} (hik : i ≤ k)
    (hk : k ≤ line.length) (h : p.Matches (.ofPosition line k) e) :
    ∃ start stop, p.FindsFrom line i start stop := by
  have hi : i ≤ line.length := Nat.le_trans hik hk
  have hcomplete := p.leftmost?_complete hi
  cases hfound : p.leftmost? (p.stepBound line.length) i (line.take i).getLast? ∅ (line.drop i) with
  | none =>
    rw [hfound] at hcomplete
    exact absurd h (hcomplete k hik hk e)
  | some pair =>
    obtain ⟨s, e'⟩ := pair
    obtain ⟨start, stop, -, -, -, rfl, rfl, -⟩ := leftmost?_ofPosition _ rfl hi hfound
    exact ⟨start, stop, hfound⟩

/-- If a pattern matches no empty span of a line, then every position of the line at which a
match starts lies inside a span that is found on the way of a search for all matches. The
induction is over the characters that are left to search. -/
theorem exists_findsOnWay_of_matches {p : Pattern} {line : List Char}
    (hp : ∀ j, j ≤ line.length → ¬ p.Matches (.ofPosition line j) (.ofPosition line j)) {k : Nat}
    {e : Cursor} (hk : k ≤ line.length) (h : p.Matches (.ofPosition line k) e) :
    ∀ i, i ≤ k → ∃ start stop, p.FindsOnWay line i start stop ∧ start ≤ k ∧ k < stop := by
  intro i hik
  induction hleft : k - i using Nat.strongRecOn generalizing i with
  | ind left ih =>
    have hi : i ≤ line.length := Nat.le_trans hik hk
    obtain ⟨start, stop, hfound⟩ := exists_findsFrom hik hk h
    obtain ⟨histart, hle, hstop⟩ := hfound.bounds hi
    have hstart : start ≤ k := Nat.le_of_not_lt fun hlt => hfound.leftmost hi hik hlt e h
    have hlt : start < stop := by
      rcases Nat.lt_or_eq_of_le hle with hlt | rfl
      · exact hlt
      · exact absurd (hfound.matches hi) (hp start hstop)
    by_cases hinside : k < stop
    · exact ⟨start, stop, findsOnWay_iff.mpr (.inl ⟨hlt, hfound⟩), hstart, hinside⟩
    · -- The position lies behind what was found, and there the search goes on.
      obtain ⟨start', stop', hway, hin⟩ := ih (k - stop) (by omega) stop (by omega) rfl
      exact ⟨start', stop', findsOnWay_iff.mpr (.inr ⟨stop, .behind hfound hlt, hway⟩), hin⟩

end PrologTokens.Pattern
