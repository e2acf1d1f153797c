import PrologTokens.Proofs.Pattern.Spans
import PrologTokens.Proofs.Pattern.Steps

/-!
# Replaced characters

Let every character of a line be replaced by another one. If a pattern cannot tell a character
from its replacement, neither in its sets nor in its conditions on places, then a search on the
new line goes through the same steps as on the old one and makes the same choices. So it finds
matches at the same positions, with replaced characters in them.

One step of the stepwise matcher is `Task.successors_replace`; a whole run is `explore_replace`.
The main statement is `Rule.findAll_replace`.
-/

set_option autoImplicit false

namespace PrologTokens

/-- The place with the characters on both sides replaced. -/
def Cursor.replace (g : Char → Char) (c : Cursor) : Cursor :=
  ⟨c.position, c.previous.map g, c.rest.map g⟩

namespace Pattern

variable {g : Char → Char}

/-- The pattern cannot tell characters from their replacements. -/
def BlindTo (g : Char → Char) : Pattern → Prop
  | empty => True
  | chars set => ∀ x, set.contains (g x) = set.contains x
  | anchor a => ∀ c, a.holds (c.replace g) = a.holds c
  | seq p q => p.BlindTo g ∧ q.BlindTo g
  | alt p q => p.BlindTo g ∧ q.BlindTo g
  | star p _ => p.BlindTo g
  | plus p _ => p.BlindTo g

/-! ## The plain matcher -/

/-- What is accepted on the new line is what is accepted on the old one. -/
def SameAnswers (g : Char → Char) (accept accept' : Cursor → Option Cursor) : Prop :=
  ∀ c, accept' (c.replace g) = (accept c).map (·.replace g)

/-- Repeating a matcher that does the same on both lines does the same on both. The induction is
over the fuel; positions and numbers of characters ahead are the same on both lines. -/
theorem iterate_replace {p : Pattern}
    (hp : ∀ {accept accept'}, SameAnswers g accept accept' →
      SameAnswers g (p.run accept) (p.run accept'))
    (greedy : Bool) {accept accept' : Cursor → Option Cursor} (h : SameAnswers g accept accept')
    (fuel : Nat) :
    SameAnswers g (iterate p.run greedy accept fuel) (iterate p.run greedy accept' fuel) := by
  induction fuel with
  | zero => exact h
  | succ fuel ih =>
    intro c
    have hagain : SameAnswers g
        (fun d => if c.position < d.position then iterate p.run greedy accept fuel d else none)
        (fun d =>
          if c.position < d.position then iterate p.run greedy accept' fuel d else none) := by
      intro d
      have hposition : (d.replace g).position = d.position := rfl
      simp only [hposition]
      split
      · exact ih d
      · rfl
    have hmore := hp hagain c
    have hposition : (c.replace g).position = c.position := rfl
    rw [iterate, iterate]
    simp only [hposition]
    cases greedy with
    | true =>
      rw [if_pos rfl, if_pos rfl, hmore]
      cases p.run (fun d => if c.position < d.position then
          iterate p.run true accept fuel d else none) c with
      | none => exact h c
      | some e => rfl
    | false =>
      rw [if_neg Bool.false_ne_true, if_neg Bool.false_ne_true, h c, hmore]
      cases accept c with
      | none => rfl
      | some e => rfl

/-- The plain matcher does the same on both lines. -/
theorem run_replace {p : Pattern} (hp : p.BlindTo g) {accept accept' : Cursor → Option Cursor}
    (h : SameAnswers g accept accept') : SameAnswers g (p.run accept) (p.run accept') := by
  have hlength (c : Cursor) : (c.replace g).rest.length = c.rest.length := List.length_map g
  induction p generalizing accept accept' with
  | empty => exact h
  | chars set =>
    intro c
    obtain ⟨position, previous, rest⟩ := c
    cases rest with
    | nil => rfl
    | cons x rest =>
      simp only [run, Cursor.replace, List.map_cons, hp x]
      split
      · exact h ⟨position + 1, some x, rest⟩
      · rfl
  | anchor a =>
    intro c
    rw [run, run, hp c]
    split
    · exact h c
    · rfl
  | seq p q ihp ihq => exact ihp hp.1 (ihq hp.2 h)
  | alt p q ihp ihq =>
    intro c
    rw [run, run, ihp hp.1 h c]
    cases p.run accept c with
    | none => exact ihq hp.2 h c
    | some e => rfl
  | star p greedy ih =>
    intro c
    rw [run, run, hlength]
    exact iterate_replace (ih hp) greedy h _ c
  | plus p greedy ih =>
    refine ih hp fun d => ?_
    rw [hlength]
    exact iterate_replace (ih hp) greedy h _ d

/-! ## The stepwise matcher -/

namespace Task

/-- The task at the place with replaced characters. -/
def replace (g : Char → Char) (task : Task) : Task := ⟨task.items, task.cursor.replace g⟩

/-- All that is still to be matched is blind to the replacement. -/
def BlindTo (g : Char → Char) (task : Task) : Prop :=
  ∀ item ∈ task.items, item.pattern.BlindTo g

/-- The same choice is made on both lines. -/
theorem choice?_replace (task : Task) : (task.replace g).choice? = task.choice? := rfl

/-- A step goes the same ways on both lines. -/
theorem successors_replace {task : Task} (h : task.BlindTo g) :
    (task.replace g).successors = task.successors.map (replace g) := by
  obtain ⟨items, c⟩ := task
  match items with
  | [] => rfl
  | ⟨p, n⟩ :: items =>
    have hp : p.BlindTo g := h _ List.mem_cons_self
    cases p with
    | empty => rfl
    | chars set =>
      obtain ⟨position, previous, rest⟩ := c
      cases rest with
      | nil => rfl
      | cons x rest =>
        simp only [replace, successors, successorsOf, Cursor.replace, List.map_cons, hp x]
        split <;> rfl
    | anchor a =>
      simp only [replace, successors, successorsOf, hp c]
      split <;> rfl
    | seq p q => rfl
    | alt p q => rfl
    | star p greedy => cases greedy <;> rfl
    | plus p greedy => rfl

/-- What a step makes of a blind task is blind. -/
theorem BlindTo.step {task task' : Task} (h : task.BlindTo g) (hstep : task.Step task') :
    task'.BlindTo g := by
  unfold BlindTo at h ⊢
  cases hstep with
  | seq =>
    obtain ⟨⟨hp, hq⟩, hitems⟩ := List.forall_mem_cons.mp h
    exact List.forall_mem_cons.mpr ⟨hp, List.forall_mem_cons.mpr ⟨hq, hitems⟩⟩
  | altLeft =>
    obtain ⟨⟨hp, -⟩, hitems⟩ := List.forall_mem_cons.mp h
    exact List.forall_mem_cons.mpr ⟨hp, hitems⟩
  | altRight nonempty =>
    obtain ⟨⟨-, hq⟩, hitems⟩ := List.forall_mem_cons.mp h
    exact List.forall_mem_cons.mpr ⟨hq, hitems⟩
  | starMore => exact List.forall_mem_cons.mpr ⟨(List.forall_mem_cons.mp h).1, h⟩
  | plus =>
    obtain ⟨hp, hitems⟩ := List.forall_mem_cons.mp h
    exact List.forall_mem_cons.mpr ⟨hp, List.forall_mem_cons.mpr ⟨hp, hitems⟩⟩
  | empty => exact (List.forall_mem_cons.mp h).2
  | chars ahead mem => exact (List.forall_mem_cons.mp h).2
  | anchor holds => exact (List.forall_mem_cons.mp h).2
  | altEmpty => exact (List.forall_mem_cons.mp h).2
  | starDone => exact (List.forall_mem_cons.mp h).2

end Task

/-- What a search on the new line gives for what a search on the old one gives: the end with
replaced characters, and the same choices. -/
def replaceEnd (g : Char → Char) (result : Option Cursor × Visited) : Option Cursor × Visited :=
  (result.1.map (·.replace g), result.2)

/-- The stepwise matcher does the same on both lines. The induction is over the steps. -/
theorem explore_replace (steps : Nat) :
    ∀ {tasks : List Task}, (∀ task ∈ tasks, task.BlindTo g) → ∀ visited : Visited,
      explore steps (tasks.map (Task.replace g)) visited =
        (explore steps tasks visited).map (replaceEnd g) := by
  induction steps with
  | zero =>
    intro tasks _ visited
    rfl
  | succ steps ih =>
    intro tasks htasks visited
    match tasks, htasks with
    | [], _ => rfl
    | ⟨[], c⟩ :: tasks, _ => rfl
    | ⟨item :: items, c⟩ :: tasks, htasks =>
      obtain ⟨hfirst, hothers⟩ := List.forall_mem_cons.mp htasks
      have hnext : ∀ task ∈ Task.successors ⟨item :: items, c⟩ ++ tasks, task.BlindTo g := by
        intro task hmem
        rcases List.mem_append.mp hmem with hsuccessor | hother
        · exact hfirst.step (Task.mem_successors_iff.mp hsuccessor)
        · exact hothers task hother
      have hreplaced :
          (Task.replace g ⟨item :: items, c⟩).successors ++ tasks.map (Task.replace g) =
            (Task.successors ⟨item :: items, c⟩ ++ tasks).map (Task.replace g) := by
        rw [Task.successors_replace hfirst, List.map_append]
      rw [List.map_cons, explore_cons steps (List.cons_ne_nil item items),
        explore_cons steps (List.cons_ne_nil item items), Task.choice?_replace, hreplaced]
      cases Task.choice? ⟨item :: items, c⟩ with
      | none => exact ih hnext visited
      | some choice =>
        simp only
        split
        · exact ih hothers visited
        · exact ih hnext _

variable {p : Pattern}

theorem matchEnd_replace (hp : p.BlindTo g) (steps : Nat) (c : Cursor) (visited : Visited) :
    p.matchEnd steps (c.replace g) visited = replaceEnd g (p.matchEnd steps c visited) := by
  have htask : ∀ task ∈ [(⟨[⟨p, 0⟩], c⟩ : Task)], task.BlindTo g := by
    intro task htask item hitem
    rw [List.mem_singleton.mp htask] at hitem
    rw [List.mem_singleton.mp hitem]
    exact hp
  have hexplore : explore steps [⟨[⟨p, 0⟩], c.replace g⟩] visited =
      (explore steps [⟨[⟨p, 0⟩], c⟩] visited).map (replaceEnd g) :=
        explore_replace steps htask visited
  have hrun : p.run some (c.replace g) = (p.run some c).map (·.replace g) :=
    run_replace hp (fun _ => rfl) c
  unfold matchEnd
  rw [hexplore]
  cases explore steps [⟨[⟨p, 0⟩], c⟩] visited with
  | none =>
    simp only [Option.map_none, hrun]
    rfl
  | some result => rfl

/-! ## Searching -/

/-- A search finds the same places on both lines. The induction is over the characters ahead. -/
theorem leftmost?_replace (hp : p.BlindTo g) (steps : Nat) (rest : List Char) :
    ∀ (position : Nat) (previous : Option Char) (visited : Visited),
      p.leftmost? steps position (previous.map g) visited (rest.map g) =
        (p.leftmost? steps position previous visited rest).map fun (s, e) =>
          (s.replace g, e.replace g) := by
  induction rest with
  | nil =>
    intro position previous visited
    have hend := matchEnd_replace hp steps ⟨position, previous, []⟩ visited
    have hcursor : (⟨position, previous.map g, []⟩ : Cursor) =
        Cursor.replace g ⟨position, previous, []⟩ := rfl
    rw [List.map_nil, leftmost?, leftmost?, hcursor, hend]
    rcases p.matchEnd steps ⟨position, previous, []⟩ visited with ⟨_ | e, visited'⟩
    · rfl
    · rfl
  | cons x rest ih =>
    intro position previous visited
    have hend := matchEnd_replace hp steps ⟨position, previous, x :: rest⟩ visited
    have hcursor : (⟨position, previous.map g, g x :: rest.map g⟩ : Cursor) =
        Cursor.replace g ⟨position, previous, x :: rest⟩ := rfl
    rw [List.map_cons, leftmost?, leftmost?, hcursor, hend]
    rcases p.matchEnd steps ⟨position, previous, x :: rest⟩ visited with ⟨_ | e, visited'⟩
    · exact ih (position + 1) (some x) visited'
    · rfl

/-- The match with its characters replaced. -/
def Match.replace (g : Char → Char) (m : Match) : Match := ⟨m.start, m.lexeme.map g⟩

theorem Match.between_replace (s e : Cursor) :
    Match.between (s.replace g) (e.replace g) = (Match.between s e).replace g := by
  simp only [Match.between, Match.replace, Cursor.replace, List.map_take]

/-- A search for all matches finds the same ones on both lines. The induction is over the fuel. -/
theorem matchesFrom_replace (hp : p.BlindTo g) (steps fuel : Nat) :
    ∀ c : Cursor, p.matchesFrom steps fuel (c.replace g) =
      (p.matchesFrom steps fuel c).map (Match.replace g) := by
  induction fuel with
  | zero =>
    intro c
    rfl
  | succ fuel ih =>
    intro c
    have hfound := leftmost?_replace hp steps c.rest c.position c.previous ∅
    rw [matchesFrom, matchesFrom]
    simp only [Cursor.replace]
    rw [hfound]
    cases p.leftmost? steps c.position c.previous ∅ c.rest with
    | none => rfl
    | some pair =>
      obtain ⟨s, e⟩ := pair
      have hstart : (s.replace g).position = s.position := rfl
      have hstop : (e.replace g).position = e.position := rfl
      simp only [Option.map_some, hstart, hstop]
      split
      · rw [ih, Match.between_replace, List.map_cons]
      · obtain ⟨position, previous, rest⟩ := s
        cases rest with
        | nil => rfl
        | cons x rest => exact ih ⟨position + 1, some x, rest⟩

end Pattern

/-- A rule whose pattern cannot tell characters from their replacements finds the same matches
on a line with replaced characters, with replaced characters in them. -/
theorem Rule.findAll_replace {g : Char → Char} {rule : Rule} (h : rule.pattern.BlindTo g)
    (line : List Char) :
    rule.findAll (line.map g) = (rule.findAll line).map (Pattern.Match.replace g) := by
  unfold findAll
  cases rule.scope with
  | all =>
    simp only [Pattern.allMatches, List.length_map]
    exact Pattern.matchesFrom_replace h _ _ (.start line)
  | first =>
    have hfirst : rule.pattern.first? (line.map g) =
        (rule.pattern.first? line).map (Pattern.Match.replace g) := by
      unfold Pattern.first?
      rw [List.length_map, ← Option.map_none (f := g), Pattern.leftmost?_replace h]
      simp only [Option.map_map, Function.comp_def, Pattern.Match.between_replace, Option.map_none]
    simp only [hfirst]
    cases rule.pattern.first? line with
    | none => rfl
    | some m =>
      obtain ⟨start, lexeme⟩ := m
      cases lexeme <;> rfl

end PrologTokens
