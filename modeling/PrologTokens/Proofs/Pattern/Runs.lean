import PrologTokens.Proofs.Pattern.Describes

/-!
# Runs of characters

The characters of a line that have a property stand in runs, with other characters in between. A
run is given by its two ends, `IsRun`, and every character with the property stands in exactly
one. All runs of a line, from left to right, are listed by `runs`: one starts at every character
with the property that does not follow another one, and takes up what has the property from
there on.
-/

set_option autoImplicit false

namespace PrologTokens.Pattern

variable {P : Char → Bool} {text : List Char} {start stop : Nat}

/-- The characters between two positions of a line are a run of characters with a property, with no
more of them on either side. -/
structure IsRun (P : Char → Bool) (text : List Char) (start stop : Nat) : Prop where
  /-- There is a character in it. -/
  nonempty : start < stop
  /-- It lies inside the line. -/
  inside : stop ≤ text.length
  /-- Its characters have the property. -/
  all : AllBetween (P · = true) text start stop
  /-- No character with the property stands before it. -/
  before : ∀ x, 0 < start → text[start - 1]? = some x → P x = false
  /-- No character with the property stands behind it. -/
  behind : ∀ x, text[stop]? = some x → P x = false

/-! ## The run around a position -/

/-- A stretch of characters with the property that reaches a position of a run does not start before
the run. -/
theorem IsRun.start_le {first position : Nat} (run : IsRun P text start stop)
    (hin : start ≤ position ∧ position < stop)
    (h : AllBetween (P · = true) text first (position + 1)) : start ≤ first := by
  refine Nat.le_of_not_lt fun hlt => ?_
  have hlength := run.inside
  have hget : text[start - 1]? = some text[start - 1] := List.getElem?_eq_getElem (by omega)
  have hhas : P text[start - 1] = true := h _ _ (by omega) (by omega) hget
  rw [run.before _ (by omega) hget] at hhas
  exact absurd hhas Bool.false_ne_true

/-- A stretch of characters with the property from a position of a run on does not stop behind the
run. -/
theorem IsRun.le_stop {position last : Nat} (run : IsRun P text start stop)
    (hin : start ≤ position ∧ position < stop) (hlast : last ≤ text.length)
    (h : AllBetween (P · = true) text position last) : last ≤ stop := by
  refine Nat.le_of_not_lt fun hlt => ?_
  have hget : text[stop]? = some text[stop] := List.getElem?_eq_getElem (by omega)
  have hhas : P text[stop] = true := h _ _ (by omega) hlt hget
  rw [run.behind _ hget] at hhas
  exact absurd hhas Bool.false_ne_true

/-- There is only one run around a position. -/
theorem IsRun.unique {start' stop' position : Nat} (run : IsRun P text start stop)
    (run' : IsRun P text start' stop') (hin : start ≤ position ∧ position < stop)
    (hin' : start' ≤ position ∧ position < stop') : start = start' ∧ stop = stop' :=
  ⟨Nat.le_antisymm (run.start_le hin (run'.all.mono (Nat.le_refl _) hin'.2))
      (run'.start_le hin' (run.all.mono (Nat.le_refl _) hin.2)),
    Nat.le_antisymm (run'.le_stop hin' run.inside (run.all.mono hin.1 (Nat.le_refl _)))
      (run.le_stop hin run'.inside (run'.all.mono hin'.1 (Nat.le_refl _)))⟩

/-- To the left of a position the characters with a property stand in a stretch with none of them
before it. The induction is over the position. -/
theorem exists_stretch_before (P : Char → Bool) (text : List Char) (position : Nat) :
    ∃ start, start ≤ position ∧ AllBetween (P · = true) text start position ∧
      ∀ x, 0 < start → text[start - 1]? = some x → P x = false := by
  induction position with
  | zero =>
    refine ⟨0, Nat.le_refl 0, AllBetween.empty, ?_⟩
    intro x hpos
    exact absurd hpos (Nat.lt_irrefl 0)
  | succ position ih =>
    cases hnext : text[position]?.any P with
    | true =>
      obtain ⟨start, hle, hall, hbefore⟩ := ih
      refine ⟨start, Nat.le_succ_of_le hle, hall.append (AllBetween.single.mpr ?_), hbefore⟩
      intro x hx
      rw [hx] at hnext
      exact hnext
    | false =>
      refine ⟨position + 1, Nat.le_refl _, AllBetween.empty, ?_⟩
      intro x _ hx
      exact (Option.any_eq_false _ _).mp hnext x hx

/-- To the right of a position the characters with a property stand in a stretch with none of them
behind it. The induction is over the length of the rest of the line. -/
theorem exists_stretch_behind (P : Char → Bool) (text : List Char) {position : Nat}
    (h : position ≤ text.length) :
    ∃ stop, position ≤ stop ∧ stop ≤ text.length ∧ AllBetween (P · = true) text position stop ∧
      ∀ x, text[stop]? = some x → P x = false := by
  induction hleft : text.length - position generalizing position with
  | zero =>
    refine ⟨position, Nat.le_refl _, h, AllBetween.empty, ?_⟩
    intro x hx
    rw [List.getElem?_eq_none (by omega)] at hx
    exact absurd hx (by simp)
  | succ left ih =>
    cases hnext : text[position]?.any P with
    | true =>
      have hlt : position + 1 ≤ text.length := by omega
      obtain ⟨stop, hle, hstop, hall, hbehind⟩ := ih hlt (by omega)
      refine ⟨stop, Nat.le_of_succ_le hle, hstop, (AllBetween.single.mpr ?_).append hall, hbehind⟩
      intro x hx
      rw [hx] at hnext
      exact hnext
    | false =>
      refine ⟨position, Nat.le_refl _, h, AllBetween.empty, ?_⟩
      intro x hx
      exact (Option.any_eq_false _ _).mp hnext x hx

/-- Every character with the property stands in a run. -/
theorem exists_isRun {position : Nat} {x : Char} (hx : text[position]? = some x)
    (h : P x = true) : ∃ start stop, IsRun P text start stop ∧ start ≤ position ∧
      position < stop := by
  have hlt : position < text.length := (List.getElem?_eq_some_iff.mp hx).1
  have hhere : AllBetween (P · = true) text position (position + 1) := .of_char hx h
  obtain ⟨start, hstart, hleft, hbefore⟩ := exists_stretch_before P text position
  obtain ⟨stop, hstop, hlength, hright, hbehind⟩ := exists_stretch_behind P text hlt
  have hall := (hleft.append hhere).append hright
  exact ⟨start, stop, ⟨by omega, hlength, hall, hbefore, hbehind⟩, hstart, hstop⟩

/-! ## All runs of a line -/

/-- The character at the position has the property, and the one before it, if there is one, has
not. -/
def startsRun (P : Char → Bool) (text : List Char) (position : Nat) : Bool :=
  text[position]?.any P && !(decide (0 < position) && text[position - 1]?.any P)

/-- The runs of characters with a property, from left to right. -/
def runs (P : Char → Bool) (text : List Char) : List Match :=
  ((List.range text.length).filter (startsRun P text)).map fun position =>
    ⟨position, (text.drop position).takeWhile P⟩

/-- The words of a line: its runs of ASCII letters, ASCII digits and underscores. -/
def words (text : List Char) : List Match := runs Text.isWord text

theorem startsRun_iff :
    startsRun P text start = true ↔ (∃ x, text[start]? = some x ∧ P x = true) ∧
      ∀ x, 0 < start → text[start - 1]? = some x → P x = false := by
  simp only [startsRun, Bool.and_eq_true, Bool.not_eq_true', Option.any_eq_true,
    Bool.and_eq_false_imp, decide_eq_true_eq, Option.any_eq_false]
  exact and_congr_right' forall_comm

/-- What has the property from a position on is the span up to the next character that has not. -/
theorem takeWhile_drop_eq_extract (hle : start ≤ stop)
    (hall : AllBetween (P · = true) text start stop)
    (hbehind : ∀ x, text[stop]? = some x → P x = false) :
    (text.drop start).takeWhile P = text.extract start stop := by
  have hsplit : text.drop start = text.extract start stop ++ text.drop stop := by
    have hdrop : (text.drop start).drop (stop - start) = text.drop stop := by
      rw [List.drop_drop, Nat.add_sub_cancel' hle]
    rw [List.extract_eq_take_drop, ← hdrop, List.take_append_drop]
  have hspan : ∀ x ∈ text.extract start stop, P x = true := fun _ hx => hall.of_mem_extract hx
  have hrest : (text.drop stop).takeWhile P = [] := by
    cases hdrop : text.drop stop with
    | nil => rfl
    | cons x rest =>
      have hx : text[stop]? = some x := by rw [← List.head?_drop, hdrop, List.head?_cons]
      rw [List.takeWhile_cons, hbehind x hx]
      rfl
  rw [hsplit, List.takeWhile_append_of_pos hspan, hrest, List.append_nil]

/-- The list holds the runs of the line, with their characters. -/
theorem mem_runs_iff {m : Match} :
    m ∈ runs P text ↔
      ∃ start stop, IsRun P text start stop ∧ m = ⟨start, text.extract start stop⟩ := by
  simp only [runs, List.mem_map, List.mem_filter, List.mem_range, startsRun_iff]
  constructor
  · rintro ⟨start, ⟨hstart, ⟨x, hx, hhas⟩, hbefore⟩, rfl⟩
    obtain ⟨stop, hle, hstop, hall, hbehind⟩ := exists_stretch_behind P text (Nat.le_of_lt hstart)
    have hne : start ≠ stop := by
      rintro rfl
      rw [hbehind x hx] at hhas
      exact absurd hhas Bool.false_ne_true
    refine ⟨start, stop, ⟨Nat.lt_of_le_of_ne hle hne, hstop, hall, hbefore, hbehind⟩, ?_⟩
    rw [takeWhile_drop_eq_extract hle hall hbehind]
  · rintro ⟨start, stop, run, rfl⟩
    have hstart : start < text.length := Nat.lt_of_lt_of_le run.nonempty run.inside
    have hget : text[start]? = some text[start] := List.getElem?_eq_getElem hstart
    have hhas : P text[start] = true := run.all _ _ (Nat.le_refl _) run.nonempty hget
    refine ⟨start, ⟨hstart, ⟨_, hget, hhas⟩, run.before⟩, ?_⟩
    rw [takeWhile_drop_eq_extract (Nat.le_of_lt run.nonempty) run.all run.behind]

/-- The list goes from left to right. -/
theorem runs_sorted (P : Char → Bool) (text : List Char) :
    (runs P text).Pairwise fun m n => m.start < n.start :=
  List.pairwise_map.mpr (List.pairwise_lt_range.filter _)

/-- No run of a line starts before the one in front of it has ended. -/
theorem runs_apart (P : Char → Bool) (text : List Char) :
    (runs P text).Pairwise fun m n => m.stop ≤ n.start := by
  refine (runs_sorted P text).imp_of_mem ?_
  intro m n hm hn hlt
  obtain ⟨start, stop, run, rfl⟩ := mem_runs_iff.mp hm
  obtain ⟨start', stop', run', rfl⟩ := mem_runs_iff.mp hn
  rw [stop_extract (Nat.le_of_lt run.nonempty) run.inside]
  refine Nat.le_of_not_lt fun hinside => ?_
  obtain ⟨rfl, -⟩ := run.unique run' ⟨Nat.le_of_lt hlt, hinside⟩ ⟨Nat.le_refl _, run'.nonempty⟩
  exact absurd hlt (Nat.lt_irrefl _)

end PrologTokens.Pattern
