import Mathlib.Logic.Relation
import PrologTokens.Pattern.Search

/-!
# The steps of the stepwise matcher

A step of `explore` takes the first task and puts its successors in its place, the preferred one
first. If the task is about to make a choice that was made at that position before, it is
dropped instead. `explore_cons` says so once for all patterns, and `explore_invariant` derives
from it what a whole run keeps: every later statement about `explore` is an instance of that.

Successors lead to every end that a match has: `reaches_of_matches`. And the choices of a
pattern are numbered apart, so the number of a choice tells what is still to be matched there:
`Placed`.
-/

set_option autoImplicit false

namespace PrologTokens.Pattern

/-! ## One step -/

namespace Task

/-- The choice that a task is about to make, with the position at which it makes it. -/
def choice? (task : Task) : Option (Nat × Nat) :=
  match task.items with
  | ⟨alt _ _, n⟩ :: _ => some (n, task.cursor.position)
  | ⟨star _ _, n⟩ :: _ => some (n, task.cursor.position)
  | _ => none

/-- What a step makes of a task that starts with the given pattern. -/
def successorsOf (items : List Item) (c : Cursor) : Pattern → (number : Nat) → List Task
  | empty, _ => [⟨items, c⟩]
  | chars set, _ =>
    match c.rest with
    | [] => []
    | x :: rest => if set.contains x then [⟨items, c.pass x rest⟩] else []
  | anchor a, _ => if a.holds c then [⟨items, c⟩] else []
  | seq p q, n => [⟨⟨p, n⟩ :: ⟨q, p.nextNumber n⟩ :: items, c⟩]
  | alt p q, n =>
    [⟨⟨p, n + 1⟩ :: items, c⟩,
      ⟨if q = empty then items else ⟨q, p.nextNumber (n + 1)⟩ :: items, c⟩]
  | star p greedy, n =>
    let more : Task := ⟨⟨p, n + 1⟩ :: ⟨star p greedy, n⟩ :: items, c⟩
    if greedy then [more, ⟨items, c⟩] else [⟨items, c⟩, more]
  | plus p greedy, n => [⟨⟨p, n + 1⟩ :: ⟨star p greedy, n⟩ :: items, c⟩]

/-- What a step makes of a task, in order of preference. -/
def successors (task : Task) : List Task :=
  match task.items with
  | [] => []
  | item :: items => successorsOf items task.cursor item.pattern item.number

/-- One task is among what a step makes of another. -/
inductive Step : Task → Task → Prop where
  /-- Nothing is matched by taking up nothing. -/
  | empty {n : Nat} {items : List Item} {c : Cursor} : Step ⟨⟨empty, n⟩ :: items, c⟩ ⟨items, c⟩
  /-- A set is matched by taking up one of its characters. -/
  | chars {set : CharSet} {n : Nat} {items : List Item} {c : Cursor} {x : Char} {rest : List Char}
      (ahead : c.rest = x :: rest) (mem : set.contains x = true) :
      Step ⟨⟨chars set, n⟩ :: items, c⟩ ⟨items, c.pass x rest⟩
  /-- An anchor is matched where its condition holds. -/
  | anchor {a : Anchor} {n : Nat} {items : List Item} {c : Cursor} (holds : a.holds c = true) :
      Step ⟨⟨anchor a, n⟩ :: items, c⟩ ⟨items, c⟩
  /-- A sequence is matched part by part. -/
  | seq {p q : Pattern} {n : Nat} {items : List Item} {c : Cursor} :
      Step ⟨⟨seq p q, n⟩ :: items, c⟩ ⟨⟨p, n⟩ :: ⟨q, p.nextNumber n⟩ :: items, c⟩
  /-- The first branch is taken. -/
  | altLeft {p q : Pattern} {n : Nat} {items : List Item} {c : Cursor} :
      Step ⟨⟨alt p q, n⟩ :: items, c⟩ ⟨⟨p, n + 1⟩ :: items, c⟩
  /-- The second branch is taken, and there is something to match in it. -/
  | altRight {p q : Pattern} {n : Nat} {items : List Item} {c : Cursor} (nonempty : q ≠ .empty) :
      Step ⟨⟨alt p q, n⟩ :: items, c⟩ ⟨⟨q, p.nextNumber (n + 1)⟩ :: items, c⟩
  /-- The second branch is taken, and it is empty. -/
  | altEmpty {p : Pattern} {n : Nat} {items : List Item} {c : Cursor} :
      Step ⟨⟨alt p .empty, n⟩ :: items, c⟩ ⟨items, c⟩
  /-- Nothing is repeated any more. -/
  | starDone {p : Pattern} {greedy : Bool} {n : Nat} {items : List Item} {c : Cursor} :
      Step ⟨⟨star p greedy, n⟩ :: items, c⟩ ⟨items, c⟩
  /-- Something is repeated once more. -/
  | starMore {p : Pattern} {greedy : Bool} {n : Nat} {items : List Item} {c : Cursor} :
      Step ⟨⟨star p greedy, n⟩ :: items, c⟩ ⟨⟨p, n + 1⟩ :: ⟨star p greedy, n⟩ :: items, c⟩
  /-- Something is matched that may be repeated behind that. -/
  | plus {p : Pattern} {greedy : Bool} {n : Nat} {items : List Item} {c : Cursor} :
      Step ⟨⟨plus p greedy, n⟩ :: items, c⟩ ⟨⟨p, n + 1⟩ :: ⟨star p greedy, n⟩ :: items, c⟩

/-- The successors of a task are what a step can make of it. -/
theorem mem_successors_iff {task task' : Task} : task' ∈ task.successors ↔ Step task task' := by
  constructor
  · intro hmem
    obtain ⟨items, c⟩ := task
    match items with
    | [] => exact absurd hmem List.not_mem_nil
    | ⟨p, n⟩ :: items =>
      simp only [successors] at hmem
      cases p with
      | empty =>
        obtain rfl := List.mem_singleton.mp hmem
        exact .empty
      | chars set =>
        simp only [successorsOf] at hmem
        split at hmem
        · exact absurd hmem List.not_mem_nil
        · rename_i x rest hrest
          split at hmem
          · rename_i hset
            obtain rfl := List.mem_singleton.mp hmem
            exact .chars hrest hset
          · exact absurd hmem List.not_mem_nil
      | anchor a =>
        simp only [successorsOf] at hmem
        split at hmem
        · rename_i hholds
          obtain rfl := List.mem_singleton.mp hmem
          exact .anchor hholds
        · exact absurd hmem List.not_mem_nil
      | seq p q =>
        obtain rfl := List.mem_singleton.mp hmem
        exact .seq
      | alt p q =>
        rcases List.mem_cons.mp hmem with rfl | hmem
        · exact .altLeft
        · obtain rfl := List.mem_singleton.mp hmem
          by_cases hq : q = .empty
          · subst hq
            exact .altEmpty
          · rw [if_neg hq]
            exact .altRight hq
      | star p greedy =>
        have hways : task' = ⟨⟨p, n + 1⟩ :: ⟨star p greedy, n⟩ :: items, c⟩ ∨
            task' = ⟨items, c⟩ := by
          cases greedy with
          | true => simpa [successorsOf] using hmem
          | false => simpa [successorsOf, or_comm] using hmem
        rcases hways with rfl | rfl
        · exact .starMore
        · exact .starDone
      | plus p greedy =>
        obtain rfl := List.mem_singleton.mp hmem
        exact .plus
  · intro hstep
    cases hstep with
    | empty => simp [successors, successorsOf]
    | chars ahead mem => simp [successors, successorsOf, ahead, mem]
    | anchor holds => simp [successors, successorsOf, holds]
    | seq => simp [successors, successorsOf]
    | altLeft => simp [successors, successorsOf]
    | altRight nonempty => simp [successors, successorsOf, nonempty]
    | altEmpty => simp [successors, successorsOf]
    | @starDone p greedy => cases greedy <;> simp [successors, successorsOf]
    | @starMore p greedy => cases greedy <;> simp [successors, successorsOf]
    | plus => simp [successors, successorsOf]

end Task

/-- A step drops the first task if it would make a choice twice, and puts its successors in its
place otherwise. -/
theorem explore_cons (steps : Nat) {task : Task} (h : task.items ≠ []) (tasks : List Task)
    (visited : Visited) :
    explore (steps + 1) (task :: tasks) visited =
      match task.choice? with
      | none => explore steps (task.successors ++ tasks) visited
      | some choice =>
        if visited.contains choice then explore steps tasks visited
        else explore steps (task.successors ++ tasks) (visited.insert choice) := by
  obtain ⟨items, c⟩ := task
  match items with
  | [] => exact absurd rfl h
  | ⟨p, n⟩ :: items =>
    cases p with
    | empty => rfl
    | chars set =>
      simp only [explore, Task.choice?, Task.successors, Task.successorsOf]
      cases c.rest with
      | nil => rfl
      | cons x rest =>
        simp only
        split <;> rfl
    | anchor a =>
      simp only [explore, Task.choice?, Task.successors, Task.successorsOf]
      split <;> rfl
    | seq p q => rfl
    | alt p q => rfl
    | star p greedy =>
      simp only [explore, Task.choice?, Task.successors, Task.successorsOf]
      cases greedy <;> rfl
    | plus p greedy => rfl

/-- What holds of the tasks and the choices at the start of a run, and is kept by each of the three
things that a step can do, holds at its end. There either no task is left, or the first one has come
to its end. -/
theorem explore_invariant (Holds : List Task → Visited → Prop)
    (again : ∀ {task tasks visited choice}, Holds (task :: tasks) visited →
      task.choice? = some choice → visited.contains choice = true → Holds tasks visited)
    (goOn : ∀ {task tasks visited}, Holds (task :: tasks) visited → task.items ≠ [] →
      task.choice? = none → Holds (task.successors ++ tasks) visited)
    (choose : ∀ {task tasks visited choice}, Holds (task :: tasks) visited →
      task.choice? = some choice → visited.contains choice = false →
      Holds (task.successors ++ tasks) (visited.insert choice))
    (steps : Nat) :
    ∀ {tasks visited found? visited'}, Holds tasks visited →
      explore steps tasks visited = some (found?, visited') →
      found? = none ∧ Holds [] visited' ∨
        ∃ e others, found? = some e ∧ Holds (⟨[], e⟩ :: others) visited' := by
  induction steps with
  | zero =>
    intro tasks visited found? visited' _ hexplore
    exact absurd hexplore (by simp [explore])
  | succ steps ih =>
    intro tasks visited found? visited' hholds hexplore
    match tasks, hholds, hexplore with
    | [], hholds, hexplore =>
      obtain ⟨rfl, rfl⟩ := Prod.mk.inj (Option.some.inj hexplore)
      exact .inl ⟨rfl, hholds⟩
    | ⟨[], e⟩ :: tasks, hholds, hexplore =>
      obtain ⟨rfl, rfl⟩ := Prod.mk.inj (Option.some.inj hexplore)
      exact .inr ⟨e, tasks, rfl, hholds⟩
    | ⟨item :: items, c⟩ :: tasks, hholds, hexplore =>
      have hitems : (⟨item :: items, c⟩ : Task).items ≠ [] := List.cons_ne_nil _ _
      rw [explore_cons steps hitems] at hexplore
      split at hexplore
      · rename_i hchoice
        exact ih (goOn hholds hitems hchoice) hexplore
      · rename_i choice hchoice
        split at hexplore
        · rename_i hvisited
          exact ih (again hholds hchoice hvisited) hexplore
        · rename_i hvisited
          exact ih (choose hholds hchoice (eq_false_of_ne_true hvisited)) hexplore

/-! ## Where steps lead -/

/-- Steps lead from one task to another. -/
abbrev Reaches : Task → Task → Prop := Relation.ReflTransGen Task.Step

/-- Steps lead from a pattern to the end of each of its matches, whatever is to be matched
behind it. The induction is over the match. -/
theorem reaches_of_matches {p : Pattern} {c d : Cursor} (h : p.Matches c d) :
    ∀ (n : Nat) (items : List Item), Reaches ⟨⟨p, n⟩ :: items, c⟩ ⟨items, d⟩ := by
  induction h with
  | empty c =>
    intro n items
    exact .single .empty
  | chars ahead mem =>
    intro n items
    exact .single (.chars ahead mem)
  | anchor holds =>
    intro n items
    exact .single (.anchor holds)
  | seq _ _ ihFirst ihSecond =>
    intro n items
    exact .head .seq ((ihFirst n _).trans (ihSecond _ items))
  | altLeft _ ih =>
    intro n items
    exact .head .altLeft (ih _ items)
  | @altRight p q c d right ih =>
    intro n items
    by_cases hq : q = empty
    · subst hq
      cases right
      exact .single .altEmpty
    · exact .head (.altRight hq) (ih _ items)
  | starNone c =>
    intro n items
    exact .single .starDone
  | starMore _ _ ihFirst ihMore =>
    intro n items
    exact .head .starMore ((ihFirst _ _).trans (ihMore n items))
  | plus _ _ ihFirst ihMore =>
    intro n items
    exact .head .plus ((ihFirst _ _).trans (ihMore n items))

/-! ## What the number of a choice tells -/

/-- Numbering the choices of a pattern does not go back. -/
theorem le_nextNumber (p : Pattern) : ∀ n, n ≤ p.nextNumber n := by
  induction p with
  | empty => exact Nat.le_refl
  | chars set => exact Nat.le_refl
  | anchor a => exact Nat.le_refl
  | seq p q ihp ihq =>
    intro n
    exact Nat.le_trans (ihp n) (ihq _)
  | alt p q ihp ihq =>
    intro n
    exact Nat.le_trans (Nat.le_succ n) (Nat.le_trans (ihp (n + 1)) (ihq _))
  | star p greedy ih =>
    intro n
    exact Nat.le_trans (Nat.le_succ n) (ih (n + 1))
  | plus p greedy ih =>
    intro n
    exact Nat.le_trans (Nat.le_succ n) (ih (n + 1))

/-- What is still to be matched when the choice of number `k` is made, if the choices of the pattern
are numbered from `number` on and `items` come behind it. -/
def aheadAt (k : Nat) : Pattern → (number : Nat) → (items : List Item) → List Item
  | empty, _, items => items
  | chars _, _, items => items
  | anchor _, _, items => items
  | seq p q, n, items =>
    if k < p.nextNumber n then p.aheadAt k n (⟨q, p.nextNumber n⟩ :: items)
    else q.aheadAt k (p.nextNumber n) items
  | alt p q, n, items =>
    if k = n then ⟨alt p q, n⟩ :: items
    else if k < p.nextNumber (n + 1) then p.aheadAt k (n + 1) items
    else q.aheadAt k (p.nextNumber (n + 1)) items
  | star p greedy, n, items =>
    if k = n then ⟨star p greedy, n⟩ :: items
    else p.aheadAt k (n + 1) (⟨star p greedy, n⟩ :: items)
  | plus p greedy, n, items =>
    if k = n then ⟨star p greedy, n⟩ :: items
    else p.aheadAt k (n + 1) (⟨star p greedy, n⟩ :: items)

/-- Every choice of the pattern, numbered from `number` on and with `items` behind it, is made with
what `ahead` gives for its number still to be matched. -/
def PlacedBefore (ahead : Nat → List Item) : Pattern → (number : Nat) → (items : List Item) → Prop
  | empty, _, _ => True
  | chars _, _, _ => True
  | anchor _, _, _ => True
  | seq p q, n, items =>
    p.PlacedBefore ahead n (⟨q, p.nextNumber n⟩ :: items) ∧
      q.PlacedBefore ahead (p.nextNumber n) items
  | alt p q, n, items =>
    ahead n = ⟨alt p q, n⟩ :: items ∧ p.PlacedBefore ahead (n + 1) items ∧
      q.PlacedBefore ahead (p.nextNumber (n + 1)) items
  | star p greedy, n, items =>
    ahead n = ⟨star p greedy, n⟩ :: items ∧
      p.PlacedBefore ahead (n + 1) (⟨star p greedy, n⟩ :: items)
  | plus p greedy, n, items =>
    ahead n = ⟨star p greedy, n⟩ :: items ∧
      p.PlacedBefore ahead (n + 1) (⟨star p greedy, n⟩ :: items)

/-- The choices of a pattern are made as `aheadAt` says. The parts of a pattern have numbers of
their own, so a function that agrees with `aheadAt` on the numbers of the pattern does so on
those of each part. -/
theorem placedBefore_of_agree {ahead : Nat → List Item} (p : Pattern) :
    ∀ {n : Nat} {items : List Item},
      (∀ k, n ≤ k → k < p.nextNumber n → ahead k = p.aheadAt k n items) →
      p.PlacedBefore ahead n items := by
  induction p with
  | empty =>
    intro n items _
    trivial
  | chars set =>
    intro n items _
    trivial
  | anchor a =>
    intro n items _
    trivial
  | seq p q ihp ihq =>
    intro n items h
    have hp := p.le_nextNumber n
    have hq := q.le_nextNumber (p.nextNumber n)
    refine ⟨ihp fun k hk hk' => ?_, ihq fun k hk hk' => ?_⟩
    · rw [h k hk (Nat.lt_of_lt_of_le hk' hq), aheadAt, if_pos hk']
    · rw [h k (Nat.le_trans hp hk) hk', aheadAt, if_neg (Nat.not_lt.mpr hk)]
  | alt p q ihp ihq =>
    intro n items h
    have hp := p.le_nextNumber (n + 1)
    have hq := q.le_nextNumber (p.nextNumber (n + 1))
    refine ⟨?_, ihp fun k hk hk' => ?_, ihq fun k hk hk' => ?_⟩
    · rw [h n (Nat.le_refl n) (Nat.lt_of_lt_of_le hp hq), aheadAt, if_pos rfl]
    · rw [h k (Nat.le_of_succ_le hk) (Nat.lt_of_lt_of_le hk' hq), aheadAt,
        if_neg (Nat.ne_of_gt hk), if_pos hk']
    · have hn : n < k := Nat.lt_of_lt_of_le hp hk
      rw [h k (Nat.le_of_lt hn) hk', aheadAt, if_neg (Nat.ne_of_gt hn), if_neg (Nat.not_lt.mpr hk)]
  | star p greedy ih =>
    intro n items h
    refine ⟨?_, ih fun k hk hk' => ?_⟩
    · rw [h n (Nat.le_refl n) (p.le_nextNumber (n + 1)), aheadAt, if_pos rfl]
    · rw [h k (Nat.le_of_succ_le hk) hk', aheadAt, if_neg (Nat.ne_of_gt hk)]
  | plus p greedy ih =>
    intro n items h
    refine ⟨?_, ih fun k hk hk' => ?_⟩
    · rw [h n (Nat.le_refl n) (p.le_nextNumber (n + 1)), aheadAt, if_pos rfl]
    · rw [h k (Nat.le_of_succ_le hk) hk', aheadAt, if_neg (Nat.ne_of_gt hk)]

/-- Every choice among the items is made with what `ahead` gives for its number still to be
matched. -/
def Placed (ahead : Nat → List Item) : List Item → Prop
  | [] => True
  | item :: items => item.pattern.PlacedBefore ahead item.number items ∧ Placed ahead items

/-- A step makes no choices that were not there. -/
theorem Placed.step {ahead : Nat → List Item} {task task' : Task} (h : Placed ahead task.items)
    (hstep : task.Step task') : Placed ahead task'.items := by
  cases hstep with
  | empty => exact h.2
  | chars _ _ => exact h.2
  | anchor _ => exact h.2
  | seq => exact ⟨h.1.1, h.1.2, h.2⟩
  | altLeft => exact ⟨h.1.2.1, h.2⟩
  | altRight _ => exact ⟨h.1.2.2, h.2⟩
  | altEmpty => exact h.2
  | starDone => exact h.2
  | starMore => exact ⟨h.1.2, h.1, h.2⟩
  | plus => exact ⟨h.1.2, h.1, h.2⟩

/-- The number of a choice tells what is still to be matched, and its position where. -/
theorem Placed.of_choice {ahead : Nat → List Item} {task : Task} {choice : Nat × Nat}
    (h : Placed ahead task.items) (hchoice : task.choice? = some choice) :
    task.items = ahead choice.1 ∧ task.cursor.position = choice.2 := by
  obtain ⟨items, c⟩ := task
  unfold Task.choice? at hchoice
  split at hchoice
  · rename_i hitems
    simp only at hitems
    subst hitems
    obtain rfl := Option.some.inj hchoice
    exact ⟨h.1.1.symm, rfl⟩
  · rename_i hitems
    simp only at hitems
    subst hitems
    obtain rfl := Option.some.inj hchoice
    exact ⟨h.1.1.symm, rfl⟩
  · exact absurd hchoice (by simp)

end PrologTokens.Pattern
