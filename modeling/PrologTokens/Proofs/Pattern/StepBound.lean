import Mathlib.Algebra.GroupWithZero.Nat
import Mathlib.Data.Finset.Prod
import PrologTokens.Proofs.Pattern.Spans
import PrologTokens.Proofs.Pattern.Steps

/-!
# The steps of a search suffice

The stepwise matcher is given a number of steps, `stepBound`, and it never runs out of them:
whatever the pattern is, what is found at a place is found in a number of steps that is linear
in the length of the line. This is `explore_stepBound`.

What carries it is a potential that every step lowers. A task costs the steps up to its next
choice. A choice costs more, since two tasks come of it, but it is made at a position only once.
So the potential is the cost of all tasks that are still to be done and a price for every choice
that is still open at a position.
-/

set_option autoImplicit false

namespace PrologTokens.Pattern

/-! ## Sizes -/

theorem sizeFrom_add (p : Pattern) : ∀ n m, p.sizeFrom (n + m) = p.sizeFrom n + m := by
  induction p with
  | empty => exact fun n m => Nat.add_right_comm n m 1
  | chars set => exact fun n m => Nat.add_right_comm n m 1
  | anchor a => exact fun n m => Nat.add_right_comm n m 1
  | seq p q ihp ihq =>
    intro n m
    rw [sizeFrom, sizeFrom, Nat.add_right_comm, ihp, ihq]
  | alt p q ihp ihq =>
    intro n m
    rw [sizeFrom, sizeFrom, Nat.add_right_comm, ihp, ihq]
  | star p greedy ih =>
    intro n m
    rw [sizeFrom, sizeFrom, Nat.add_right_comm, ih]
  | plus p greedy ih =>
    intro n m
    rw [sizeFrom, sizeFrom, Nat.add_right_comm, ih]

theorem sizeFrom_eq (p : Pattern) (n : Nat) : p.sizeFrom n = p.size + n := by
  rw [size, ← sizeFrom_add, Nat.zero_add]

theorem size_seq (p q : Pattern) : (seq p q).size = p.size + q.size + 1 := by
  rw [size, sizeFrom, sizeFrom_eq, sizeFrom_eq]
  omega

theorem size_alt (p q : Pattern) : (alt p q).size = p.size + q.size + 1 := by
  rw [size, sizeFrom, sizeFrom_eq, sizeFrom_eq]
  omega

theorem size_star (p : Pattern) (greedy : Bool) : (star p greedy).size = p.size + 1 := by
  rw [size, sizeFrom, sizeFrom_eq]

theorem size_plus (p : Pattern) (greedy : Bool) : (plus p greedy).size = p.size + 1 := by
  rw [size, sizeFrom, sizeFrom_eq]

/-- A pattern has no more choices than parts. -/
theorem nextNumber_le (p : Pattern) : ∀ n, p.nextNumber n ≤ n + p.size := by
  induction p with
  | empty => exact fun n => Nat.le_add_right n _
  | chars set => exact fun n => Nat.le_add_right n _
  | anchor a => exact fun n => Nat.le_add_right n _
  | seq p q ihp ihq =>
    intro n
    have hp := ihp n
    have hq := ihq (p.nextNumber n)
    rw [nextNumber, size_seq]
    omega
  | alt p q ihp ihq =>
    intro n
    have hp := ihp (n + 1)
    have hq := ihq (p.nextNumber (n + 1))
    rw [nextNumber, size_alt]
    omega
  | star p greedy ih =>
    intro n
    have hp := ih (n + 1)
    rw [nextNumber, size_star]
    omega
  | plus p greedy ih =>
    intro n
    have hp := ih (n + 1)
    rw [nextNumber, size_plus]
    omega

/-! ## What a task costs -/

/-- The number of steps from a pattern on up to the next choice, where `behind` is that number
behind it. -/
def cost : Pattern → (behind : Nat) → Nat
  | empty, behind => behind + 1
  | chars _, behind => behind + 1
  | anchor _, behind => behind + 1
  | seq p q, behind => p.cost (q.cost behind) + 1
  | alt _ _, _ => 1
  | star _ _, _ => 1
  | plus p _, _ => p.cost 1 + 1

/-- The number of steps up to the next choice or the end. -/
def costOf : List Item → Nat
  | [] => 1
  | item :: items => item.pattern.cost (costOf items)

theorem cost_le (p : Pattern) : ∀ behind, p.cost behind ≤ behind + 2 * p.size := by
  have hone (behind n : Nat) : 1 ≤ behind + 2 * (n + 1) := by omega
  induction p with
  | empty => exact fun behind => Nat.le_succ _
  | chars set => exact fun behind => Nat.le_succ _
  | anchor a => exact fun behind => Nat.le_succ _
  | seq p q ihp ihq =>
    intro behind
    have hp := ihp (q.cost behind)
    have hq := ihq behind
    rw [cost, size_seq]
    omega
  | alt p q _ _ =>
    intro behind
    rw [cost, size_alt]
    exact hone behind _
  | star p greedy _ =>
    intro behind
    rw [cost, size_star]
    exact hone behind _
  | plus p greedy ih =>
    intro behind
    have hp := ih 1
    rw [cost, size_plus]
    omega

theorem costOf_pos (items : List Item) : 0 < costOf items := by
  cases items with
  | nil => exact Nat.one_pos
  | cons item items => cases hp : item.pattern <;> simp [costOf, cost, hp]

variable {price last length : Nat}

/-- Items stay within a budget: no task that comes of them costs more than the price, and the
numbers of their choices are below the last one. -/
def Fits (price last : Nat) : List Item → Prop
  | [] => 1 ≤ price
  | item :: items =>
    costOf items + 2 * item.pattern.size ≤ price ∧ item.pattern.nextNumber item.number ≤ last ∧
      Fits price last items

theorem fits_cons {p : Pattern} {n : Nat} {items : List Item} :
    Fits price last (⟨p, n⟩ :: items) ↔
      costOf items + 2 * p.size ≤ price ∧ p.nextNumber n ≤ last ∧ Fits price last items :=
  Iff.rfl

theorem Fits.costOf_le {items : List Item} (h : Fits price last items) : costOf items ≤ price := by
  cases items with
  | nil => exact h
  | cons item items => exact Nat.le_trans (item.pattern.cost_le _) h.1

/-- A step leads to items within the same budget. -/
theorem Fits.step {task task' : Task} (h : Fits price last task.items) (hstep : task.Step task') :
    Fits price last task'.items := by
  cases hstep with
  | empty => exact h.2.2
  | chars _ _ => exact h.2.2
  | anchor _ => exact h.2.2
  | @seq p q n items c =>
    obtain ⟨hprice, hlast, hitems⟩ := fits_cons.mp h
    rw [size_seq] at hprice
    have hcost : costOf (⟨q, p.nextNumber n⟩ :: items) ≤ costOf items + 2 * q.size := q.cost_le _
    have hq : Fits price last (⟨q, p.nextNumber n⟩ :: items) :=
      fits_cons.mpr ⟨by omega, hlast, hitems⟩
    exact fits_cons.mpr ⟨by omega, Nat.le_trans (q.le_nextNumber _) hlast, hq⟩
  | @altLeft p q n items c =>
    obtain ⟨hprice, hlast, hitems⟩ := fits_cons.mp h
    rw [size_alt] at hprice
    exact fits_cons.mpr ⟨by omega, Nat.le_trans (q.le_nextNumber _) hlast, hitems⟩
  | @altRight p q n items c _ =>
    obtain ⟨hprice, hlast, hitems⟩ := fits_cons.mp h
    rw [size_alt] at hprice
    exact fits_cons.mpr ⟨by omega, hlast, hitems⟩
  | altEmpty => exact h.2.2
  | starDone => exact h.2.2
  | @starMore p greedy n items c =>
    obtain ⟨hprice, hlast, hitems⟩ := fits_cons.mp h
    rw [size_star] at hprice
    have hcost : costOf (⟨star p greedy, n⟩ :: items) = 1 := rfl
    exact fits_cons.mpr ⟨by omega, hlast, h⟩
  | @plus p greedy n items c =>
    obtain ⟨hprice, hlast, hitems⟩ := fits_cons.mp h
    rw [size_plus] at hprice
    have hcost : costOf (⟨star p greedy, n⟩ :: items) = 1 := rfl
    have hstar : Fits price last (⟨star p greedy, n⟩ :: items) := by
      refine fits_cons.mpr ⟨?_, hlast, hitems⟩
      rwa [size_star]
    exact fits_cons.mpr ⟨by omega, hlast, hstar⟩

/-- A task of a search in a line of the given length, within a budget. -/
structure Budgeted (price last length : Nat) (task : Task) : Prop where
  fits : Fits price last task.items
  length_eq : task.cursor.position + task.cursor.rest.length = length

theorem Budgeted.step {task task' : Task} (h : Budgeted price last length task)
    (hstep : task.Step task') : Budgeted price last length task' := by
  refine ⟨h.fits.step hstep, ?_⟩
  have hlength := h.length_eq
  cases hstep with
  | @chars set n items c x rest hrest hset =>
    simp only [hrest, List.length_cons] at hlength
    simp only [Cursor.pass]
    omega
  | _ => exact hlength

/-- The choice that a task within a budget is about to make is one of finitely many. -/
theorem Budgeted.choice_lt {task : Task} {choice : Nat × Nat} (h : Budgeted price last length task)
    (hchoice : task.choice? = some choice) : choice.1 < last ∧ choice.2 < length + 1 := by
  obtain ⟨items, c⟩ := task
  obtain ⟨hfits, hlength⟩ := h
  have hposition : c.position < length + 1 := Nat.lt_succ_of_le (hlength ▸ Nat.le_add_right _ _)
  unfold Task.choice? at hchoice
  split at hchoice
  · rename_i p q n rest hitems
    simp only at hitems
    subst hitems
    obtain rfl := Option.some.inj hchoice
    have hn : n + 1 ≤ (alt p q).nextNumber n :=
      Nat.le_trans (p.le_nextNumber (n + 1)) (q.le_nextNumber _)
    exact ⟨Nat.le_trans hn (fits_cons.mp hfits).2.1, hposition⟩
  · rename_i p greedy n rest hitems
    simp only at hitems
    subst hitems
    obtain rfl := Option.some.inj hchoice
    have hn : n + 1 ≤ (star p greedy).nextNumber n := p.le_nextNumber (n + 1)
    exact ⟨Nat.le_trans hn (fits_cons.mp hfits).2.1, hposition⟩
  · cases hchoice

/-! ## The potential -/

/-- What the tasks cost. -/
def costs (tasks : List Task) : Nat := (tasks.map fun task => costOf task.items).sum

theorem costs_cons (task : Task) (tasks : List Task) :
    costs (task :: tasks) = costOf task.items + costs tasks := by
  rw [costs, List.map_cons, List.sum_cons, costs]

theorem costs_append (tasks tasks' : List Task) :
    costs (tasks ++ tasks') = costs tasks + costs tasks' := by
  rw [costs, List.map_append, List.sum_append, costs, costs]

/-- A step that makes no choice has been paid for. -/
theorem costs_successors {task : Task} (hitems : task.items ≠ []) (hchoice : task.choice? = none) :
    costs task.successors < costOf task.items := by
  obtain ⟨items, c⟩ := task
  match items with
  | [] => exact absurd rfl hitems
  | ⟨p, n⟩ :: items =>
    cases p with
    | empty => simp [Task.successors, Task.successorsOf, costs, costOf, cost]
    | chars set =>
      simp only [Task.successors, Task.successorsOf, costOf, cost]
      split
      · exact Nat.succ_pos _
      · split
        · simp [costs]
        · exact Nat.succ_pos _
    | anchor a =>
      simp only [Task.successors, Task.successorsOf, costOf, cost]
      split
      · simp [costs]
      · exact Nat.succ_pos _
    | seq p q => simp [Task.successors, Task.successorsOf, costs, costOf, cost]
    | alt p q => cases hchoice
    | star p greedy => cases hchoice
    | plus p greedy => simp [Task.successors, Task.successorsOf, costs, costOf, cost]

/-- A choice is one between two tasks. -/
theorem exists_successors_of_choice {task : Task} {choice : Nat × Nat}
    (h : task.choice? = some choice) : ∃ first second, task.successors = [first, second] := by
  obtain ⟨items, c⟩ := task
  unfold Task.choice? at h
  split at h
  · rename_i hitems
    simp only at hitems
    subst hitems
    exact ⟨_, _, rfl⟩
  · rename_i p greedy n rest hitems
    simp only at hitems
    subst hitems
    cases greedy with
    | true => exact ⟨_, _, rfl⟩
    | false => exact ⟨_, _, rfl⟩
  · cases h

theorem Budgeted.costs_successors {task : Task} {choice : Nat × Nat}
    (h : Budgeted price last length task) (hchoice : task.choice? = some choice) :
    costs task.successors ≤ 2 * price := by
  obtain ⟨first, second, hsuccessors⟩ := exists_successors_of_choice hchoice
  have hcost : ∀ task' ∈ task.successors, costOf task'.items ≤ price :=
    fun task' hmem => (h.step (Task.mem_successors_iff.mp hmem)).fits.costOf_le
  rw [hsuccessors] at hcost ⊢
  have hfirst := hcost first List.mem_cons_self
  have hsecond := hcost second (List.mem_cons_of_mem _ List.mem_cons_self)
  simp only [costs, List.map_cons, List.map_nil, List.sum_cons, List.sum_nil]
  omega

/-- The choices that are still open at the positions of a line. -/
def openChoices (last length : Nat) (visited : Visited) : Finset (Nat × Nat) :=
  (Finset.range last ×ˢ Finset.range (length + 1)).filter fun choice =>
    visited.contains choice = false

theorem card_openChoices_le (visited : Visited) :
    (openChoices last length visited).card ≤ last * (length + 1) := by
  refine (Finset.card_filter_le _ _).trans ?_
  rw [Finset.card_product, Finset.card_range, Finset.card_range]

/-- A choice that is made is no longer open. -/
theorem card_openChoices_insert_lt {visited : Visited} {choice : Nat × Nat}
    (hchoice : choice.1 < last ∧ choice.2 < length + 1)
    (hvisited : visited.contains choice = false) :
    (openChoices last length (visited.insert choice)).card <
      (openChoices last length visited).card := by
  refine Finset.card_lt_card (Finset.ssubset_iff_of_subset ?_ |>.mpr ⟨choice, ?_, ?_⟩)
  · intro other hother
    rw [openChoices, Finset.mem_filter, Std.HashSet.contains_insert, Bool.or_eq_false_iff] at hother
    exact Finset.mem_filter.mpr ⟨hother.1, hother.2.2⟩
  · rw [openChoices, Finset.mem_filter, Finset.mem_product, Finset.mem_range, Finset.mem_range]
    exact ⟨hchoice, hvisited⟩
  · rw [openChoices, Finset.mem_filter, Std.HashSet.contains_insert_self]
    exact fun hmem => Bool.noConfusion hmem.2

/-! ## The bound -/

/-- The steps suffice if there are more of them than the potential. The induction is over the
steps, and each of them lowers the potential. -/
theorem explore_isSome (steps : Nat) :
    ∀ {tasks : List Task} {visited : Visited}, (∀ task ∈ tasks, Budgeted price last length task) →
      costs tasks + 2 * price * (openChoices last length visited).card < steps →
      (explore steps tasks visited).isSome := by
  induction steps with
  | zero =>
    intro tasks visited _ hsteps
    exact absurd hsteps (Nat.not_lt_zero _)
  | succ steps ih =>
    intro tasks visited hbounds hsteps
    match tasks, hbounds, hsteps with
    | [], _, _ => rfl
    | ⟨[], c⟩ :: tasks, _, _ => rfl
    | ⟨item :: items, c⟩ :: tasks, hbounds, hsteps =>
      obtain ⟨htask, htasks⟩ := List.forall_mem_cons.mp hbounds
      have hitems : (⟨item :: items, c⟩ : Task).items ≠ [] := List.cons_ne_nil _ _
      have hsuccessors : ∀ task ∈ (⟨item :: items, c⟩ : Task).successors ++ tasks,
          Budgeted price last length task :=
        List.forall_mem_append.mpr
          ⟨fun _ hmem => htask.step (Task.mem_successors_iff.mp hmem), htasks⟩
      rw [costs_cons] at hsteps
      rw [explore_cons steps hitems]
      split
      · rename_i hchoice
        refine ih hsuccessors ?_
        have hcosts := costs_successors hitems hchoice
        rw [costs_append]
        omega
      · rename_i choice hchoice
        split
        · refine ih htasks ?_
          have hpos := costOf_pos (item :: items)
          simp only at hsteps
          omega
        · rename_i hvisited
          refine ih hsuccessors ?_
          have hcosts := htask.costs_successors hchoice
          have hopen :=
            card_openChoices_insert_lt (htask.choice_lt hchoice) (eq_false_of_ne_true hvisited)
          -- The open choice pays for the two tasks that come of it.
          have hprice := Nat.mul_le_mul_left (2 * price) hopen
          have hpos := costOf_pos (item :: items)
          rw [Nat.mul_succ] at hprice
          rw [costs_append]
          simp only at hsteps
          omega

/-- What a search can cost, in terms of the size of a pattern and the length of a line. -/
theorem potential_lt (size length : Nat) :
    2 * size + 1 + 2 * (2 * size + 1) * (size * (length + 1)) <
      (2 * size + 2) * (2 * size * (length + 1) + length + 2) := by
  have hchoices : 2 * (2 * size + 1) * (size * (length + 1)) ≤
      (2 * size + 2) * (2 * size * (length + 1)) := by
    calc 2 * (2 * size + 1) * (size * (length + 1))
        = (2 * size + 1) * (2 * size * (length + 1)) := by
          rw [Nat.mul_comm 2 (2 * size + 1), Nat.mul_assoc (2 * size + 1), Nat.mul_assoc 2 size]
      _ ≤ (2 * size + 2) * (2 * size * (length + 1)) := Nat.mul_le_mul_right _ (Nat.le_succ _)
  have htask : 2 * size + 2 ≤ (2 * size + 2) * (length + 2) :=
    Nat.le_mul_of_pos_right _ (Nat.succ_pos _)
  rw [Nat.add_assoc _ length 2, Nat.mul_add (2 * size + 2) (2 * size * (length + 1)) (length + 2)]
  omega

/-- Whatever choices have been made, the steps suffice at every place of a line. -/
theorem explore_stepBound (p : Pattern) {line : List Char} {i : Nat} (hi : i ≤ line.length)
    (visited : Visited) :
    (explore (p.stepBound line.length) [⟨[⟨p, 0⟩], .ofPosition line i⟩] visited).isSome := by
  have hfits : Fits (2 * p.size + 1) p.size [⟨p, 0⟩] := by
    refine fits_cons.mpr ⟨?_, ?_, Nat.succ_pos _⟩
    · rw [costOf, Nat.add_comm]
    · have hlast := p.nextNumber_le 0
      rwa [Nat.zero_add] at hlast
  have hlength : i + (line.drop i).length = line.length := by
    rw [List.length_drop]
    omega
  have htask : Budgeted (2 * p.size + 1) p.size line.length ⟨[⟨p, 0⟩], .ofPosition line i⟩ :=
    ⟨hfits, hlength⟩
  refine explore_isSome _ (List.forall_mem_singleton.mpr htask) ?_
  have hopen : (openChoices p.size line.length visited).card ≤ p.size * (line.length + 1) :=
    card_openChoices_le visited
  have hcost : costs [⟨[⟨p, 0⟩], .ofPosition line i⟩] ≤ 2 * p.size + 1 := hfits.costOf_le
  have hchoices := Nat.mul_le_mul_left (2 * (2 * p.size + 1)) hopen
  exact Nat.lt_of_le_of_lt (Nat.add_le_add hcost hchoices) (potential_lt p.size line.length)

/-- So what is found at a place is what the steps find there. -/
theorem explore_eq_matchEnd (p : Pattern) {line : List Char} {i : Nat} (hi : i ≤ line.length)
    (visited : Visited) :
    explore (p.stepBound line.length) [⟨[⟨p, 0⟩], .ofPosition line i⟩] visited =
      some (p.matchEnd (p.stepBound line.length) (.ofPosition line i) visited) := by
  obtain ⟨result, hresult⟩ := Option.isSome_iff_exists.mp (p.explore_stepBound hi visited)
  rw [matchEnd, hresult]

end PrologTokens.Pattern
