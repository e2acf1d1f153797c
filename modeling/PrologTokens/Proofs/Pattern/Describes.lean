import PrologTokens.Proofs.Pattern.Completeness

/-!
# The spans that a pattern describes

Whether a pattern describes a span of a line is said here in terms of the positions and
characters of the line: one law for each way to build a pattern, as far as such laws hold for
all spans, and two facts about whole patterns. `Over` bounds the characters of a span by those
that occur in the pattern; `canBeEmpty` tells the patterns that describe an empty span.
-/

set_option autoImplicit false

namespace PrologTokens.Pattern

/-- Every character between two positions of a line has the property. -/
def AllBetween (P : Char → Prop) (text : List Char) (start stop : Nat) : Prop :=
  ∀ i x, start ≤ i → i < stop → text[i]? = some x → P x

theorem AllBetween.empty {P : Char → Prop} {text : List Char} {position : Nat} :
    AllBetween P text position position := by
  intro i x hi hi' _
  exact absurd hi (Nat.not_le.mpr hi')

theorem AllBetween.single {P : Char → Prop} {text : List Char} {position : Nat} :
    AllBetween P text position (position + 1) ↔ ∀ x, text[position]? = some x → P x := by
  constructor
  · intro h x hx
    exact h position x (Nat.le_refl _) (Nat.lt_succ_self _) hx
  · intro h i x hi hi' hx
    obtain rfl : i = position := Nat.le_antisymm (Nat.le_of_lt_succ hi') hi
    exact h x hx

theorem AllBetween.of_char {P : Char → Prop} {text : List Char} {position : Nat} {x : Char}
    (hx : text[position]? = some x) (h : P x) : AllBetween P text position (position + 1) := by
  refine AllBetween.single.mpr fun y hy => ?_
  rw [hx, Option.some.injEq] at hy
  exact hy ▸ h

theorem AllBetween.mono {P : Char → Prop} {text : List Char} {start stop start' stop' : Nat}
    (h : AllBetween P text start stop) (hstart : start ≤ start') (hstop : stop' ≤ stop) :
    AllBetween P text start' stop' := by
  intro i x hi hi' hx
  exact h i x (Nat.le_trans hstart hi) (Nat.lt_of_lt_of_le hi' hstop) hx

theorem AllBetween.append {P : Char → Prop} {text : List Char} {start middle stop : Nat}
    (h : AllBetween P text start middle) (h' : AllBetween P text middle stop) :
    AllBetween P text start stop := by
  intro i x hi hi' hx
  rcases Nat.lt_or_ge i middle with hlt | hge
  · exact h i x hi hlt hx
  · exact h' i x hge hi' hx

/-- The characters between two positions are those of the span. -/
theorem mem_extract_iff {text : List Char} {start stop : Nat} {x : Char} :
    x ∈ text.extract start stop ↔ ∃ i, start ≤ i ∧ i < stop ∧ text[i]? = some x := by
  rw [List.extract_eq_take_drop, List.mem_iff_getElem?]
  simp only [List.getElem?_take, List.getElem?_drop, Option.ite_none_right_eq_some]
  constructor
  · rintro ⟨i, hi, hx⟩
    exact ⟨start + i, Nat.le_add_right _ _, by omega, hx⟩
  · rintro ⟨i, hle, hlt, hx⟩
    refine ⟨i - start, by omega, ?_⟩
    rw [Nat.add_sub_cancel' hle]
    exact hx

theorem AllBetween.of_mem_extract {P : Char → Prop} {text : List Char} {start stop : Nat}
    (h : AllBetween P text start stop) {x : Char} (hx : x ∈ text.extract start stop) : P x := by
  obtain ⟨i, hle, hlt, hget⟩ := mem_extract_iff.mp hx
  exact h i x hle hlt hget

/-- The pattern describes the characters between two positions of a line. -/
def Describes (p : Pattern) (text : List Char) (start stop : Nat) : Prop :=
  start ≤ text.length ∧ p.Matches (.ofPosition text start) (.ofPosition text stop)

variable {p q : Pattern} {text : List Char} {start stop : Nat}

/-- A span lies inside the line. -/
theorem Describes.bounds (h : p.Describes text start stop) : start ≤ stop ∧ stop ≤ text.length := by
  obtain ⟨stop', hle, hstop, heq⟩ := h.2.exists_ofPosition text rfl h.1
  obtain rfl : stop = stop' := congrArg Cursor.position heq
  exact ⟨hle, hstop⟩

/-! ## Laws -/

theorem describes_chars {set : CharSet} :
    (chars set).Describes text start stop ↔
      stop = start + 1 ∧ ∃ x, text[start]? = some x ∧ set.contains x = true := by
  constructor
  · rintro ⟨-, hmatches⟩
    generalize hd : Cursor.ofPosition text stop = d at hmatches
    obtain _ | @⟨_, _, x, rest, ahead, mem⟩ := hmatches
    refine ⟨congrArg Cursor.position hd, x, ?_, mem⟩
    have hdrop : text.drop start = x :: rest := ahead
    rw [← List.head?_drop, hdrop, List.head?_cons]
  · rintro ⟨rfl, x, hx, hset⟩
    obtain ⟨hlength, hget⟩ := List.getElem?_eq_some_iff.mp hx
    have hdrop : text.drop start = x :: text.drop (start + 1) := by
      rw [List.drop_eq_getElem_cons hlength, hget]
    refine ⟨Nat.le_of_lt hlength, ?_⟩
    rw [← Cursor.pass_ofPosition hdrop]
    exact .chars hdrop hset

theorem describes_literal {c : Char} :
    (literal c).Describes text start stop ↔ stop = start + 1 ∧ text[start]? = some c := by
  simp only [literal, describes_chars, CharSet.contains_singleton, decide_eq_true_eq,
    exists_eq_right]

theorem describes_anchor {a : Anchor} :
    (anchor a).Describes text start stop ↔
      stop = start ∧ start ≤ text.length ∧ a.holds (.ofPosition text start) = true := by
  constructor
  · rintro ⟨hstart, hmatches⟩
    generalize hd : Cursor.ofPosition text stop = d at hmatches
    cases hmatches with
    | anchor holds => exact ⟨congrArg Cursor.position hd, hstart, holds⟩
  · rintro ⟨rfl, hstart, hholds⟩
    exact ⟨hstart, .anchor hholds⟩

theorem describes_seq :
    (seq p q).Describes text start stop ↔
      ∃ middle, p.Describes text start middle ∧ q.Describes text middle stop := by
  constructor
  · rintro ⟨hstart, hmatches⟩
    cases hmatches with
    | seq first second =>
      obtain ⟨middle, -, hmiddle, rfl⟩ := first.exists_ofPosition text rfl hstart
      exact ⟨middle, ⟨hstart, first⟩, hmiddle, second⟩
  · rintro ⟨middle, hfirst, hsecond⟩
    exact ⟨hfirst.1, .seq hfirst.2 hsecond.2⟩

theorem describes_alt :
    (alt p q).Describes text start stop ↔
      p.Describes text start stop ∨ q.Describes text start stop := by
  constructor
  · rintro ⟨hstart, hmatches⟩
    cases hmatches with
    | altLeft left => exact .inl ⟨hstart, left⟩
    | altRight right => exact .inr ⟨hstart, right⟩
  · rintro (hleft | hright)
    · exact ⟨hleft.1, .altLeft hleft.2⟩
    · exact ⟨hright.1, .altRight hright.2⟩

/-- Repetition of a set describes every stretch of its characters. The induction is over the
length of the stretch. -/
theorem describes_star_of_allBetween {set : CharSet} {greedy : Bool} (hle : start ≤ stop)
    (hstop : stop ≤ text.length) (h : AllBetween (set.contains · = true) text start stop) :
    (star (chars set) greedy).Describes text start stop := by
  induction hlength : stop - start generalizing start with
  | zero =>
    obtain rfl : start = stop := by omega
    exact ⟨hstop, .starNone _⟩
  | succ length ih =>
    have hget : text[start]? = some text[start] := List.getElem?_eq_getElem (by omega)
    have hfirst : (chars set).Describes text start (start + 1) :=
      describes_chars.mpr ⟨rfl, _, hget, h start _ (Nat.le_refl _) (by omega) hget⟩
    have hmore : (star (chars set) greedy).Describes text (start + 1) stop :=
      ih (by omega) (fun i x hi => h i x (by omega)) (by omega)
    exact ⟨by omega, .starMore hfirst.2 hmore.2⟩

/-! ## Characters of a span -/

/-- Every set in the pattern holds only characters with the property. -/
def Over (P : Char → Prop) : Pattern → Prop
  | empty => True
  | chars set => ∀ x, set.contains x = true → P x
  | anchor _ => True
  | seq p q => p.Over P ∧ q.Over P
  | alt p q => p.Over P ∧ q.Over P
  | star p _ => p.Over P
  | plus p _ => p.Over P

theorem over_literal {P : Char → Prop} {c : Char} : (literal c).Over P ↔ P c := by
  simp only [literal, Over, CharSet.contains_singleton, decide_eq_true_eq, forall_eq]

theorem over_sequence {P : Char → Prop} {ps : List Pattern} (h : ∀ p ∈ ps, p.Over P) :
    (sequence ps).Over P := by
  fun_induction sequence ps with
  | case1 => trivial
  | case2 p => exact h p List.mem_cons_self
  | case3 p q ps ih =>
    obtain ⟨hp, hps⟩ := List.forall_mem_cons.mp h
    exact ⟨hp, ih hps⟩

/-- Whether a set in the pattern holds the character. -/
def mentions (c : Char) : Pattern → Bool
  | empty => false
  | chars set => set.contains c
  | anchor _ => false
  | seq p q => p.mentions c || q.mentions c
  | alt p q => p.mentions c || q.mentions c
  | star p _ => p.mentions c
  | plus p _ => p.mentions c

theorem over_of_mentions_eq_false {c : Char} (h : p.mentions c = false) : p.Over (· ≠ c) := by
  induction p with
  | empty => trivial
  | chars set =>
    rintro x hx rfl
    exact absurd (h.symm.trans hx) Bool.false_ne_true
  | anchor a => trivial
  | seq p q ihp ihq =>
    rw [mentions, Bool.or_eq_false_iff] at h
    exact ⟨ihp h.1, ihq h.2⟩
  | alt p q ihp ihq =>
    rw [mentions, Bool.or_eq_false_iff] at h
    exact ⟨ihp h.1, ihq h.2⟩
  | star p greedy ih => exact ih h
  | plus p greedy ih => exact ih h

/-- A match takes up only characters that occur in the pattern. The induction is over the match. -/
theorem Matches.over {P : Char → Prop} {c e : Cursor} (h : p.Matches c e) (text : List Char) :
    ∀ {start : Nat}, c = .ofPosition text start → start ≤ text.length → p.Over P →
      AllBetween P text start e.position := by
  have hempty : ∀ {c : Cursor} {start : Nat}, c = .ofPosition text start →
      AllBetween P text start c.position := by
    rintro c start rfl
    exact AllBetween.empty
  induction h with
  | empty c =>
    intro start hc _ _
    exact hempty hc
  | @chars set c y rest ahead mem =>
    intro start hc _ hp
    subst hc
    refine AllBetween.single.mpr fun x hx => ?_
    have hdrop : text.drop start = y :: rest := ahead
    rw [← List.head?_drop, hdrop, List.head?_cons, Option.some.injEq] at hx
    exact hx ▸ hp y mem
  | anchor _ =>
    intro start hc _ _
    exact hempty hc
  | seq first _ ihFirst ihSecond =>
    intro start hc hstart hp
    obtain ⟨middle, -, hmiddle, rfl⟩ := first.exists_ofPosition text hc hstart
    exact (ihFirst hc hstart hp.1).append (ihSecond rfl hmiddle hp.2)
  | altLeft _ ih =>
    intro start hc hstart hp
    exact ih hc hstart hp.1
  | altRight _ ih =>
    intro start hc hstart hp
    exact ih hc hstart hp.2
  | starNone c =>
    intro start hc _ _
    exact hempty hc
  | starMore first _ ihFirst ihMore =>
    intro start hc hstart hp
    obtain ⟨middle, -, hmiddle, rfl⟩ := first.exists_ofPosition text hc hstart
    exact (ihFirst hc hstart hp).append (ihMore rfl hmiddle hp)
  | plus first _ ihFirst ihMore =>
    intro start hc hstart hp
    obtain ⟨middle, -, hmiddle, rfl⟩ := first.exists_ofPosition text hc hstart
    exact (ihFirst hc hstart hp).append (ihMore rfl hmiddle hp)

theorem Describes.over {P : Char → Prop} (h : p.Describes text start stop) (hp : p.Over P) :
    AllBetween P text start stop :=
  h.2.over text rfl h.1 hp

/-! ## Empty spans -/

/-- A pattern that cannot take up nothing goes on to the right. -/
theorem Matches.lt_of_canBeEmpty {c e : Cursor} (h : p.Matches c e) :
    p.canBeEmpty = false → c.position < e.position := by
  -- A match never goes back.
  have hle : ∀ {p : Pattern} {c e : Cursor}, p.Matches c e → c.position ≤ e.position := by
    intro p c e h
    rcases h.eq_or_lt with rfl | ⟨hlt, -⟩
    · exact Nat.le_refl _
    · exact Nat.le_of_lt hlt
  induction h with
  | empty c =>
    intro hp
    exact absurd hp (by simp [canBeEmpty])
  | chars _ _ =>
    intro _
    exact Nat.lt_succ_self _
  | anchor _ =>
    intro hp
    exact absurd hp (by simp [canBeEmpty])
  | seq first second ihFirst ihSecond =>
    intro hp
    rw [canBeEmpty, Bool.and_eq_false_iff] at hp
    rcases hp with hp | hq
    · exact Nat.lt_of_lt_of_le (ihFirst hp) (hle second)
    · exact Nat.lt_of_le_of_lt (hle first) (ihSecond hq)
  | altLeft _ ih =>
    intro hp
    rw [canBeEmpty, Bool.or_eq_false_iff] at hp
    exact ih hp.1
  | altRight _ ih =>
    intro hp
    rw [canBeEmpty, Bool.or_eq_false_iff] at hp
    exact ih hp.2
  | starNone c =>
    intro hp
    exact absurd hp (by simp [canBeEmpty])
  | starMore _ _ _ _ =>
    intro hp
    exact absurd hp (by simp [canBeEmpty])
  | plus first more ihFirst _ =>
    intro hp
    exact Nat.lt_of_lt_of_le (ihFirst hp) (hle more)

/-! ## Runs of a set and literal texts -/

theorem describes_star_chars {set : CharSet} {greedy : Bool} :
    (star (chars set) greedy).Describes text start stop ↔
      start ≤ stop ∧ stop ≤ text.length ∧ AllBetween (set.contains · = true) text start stop := by
  constructor
  · intro h
    exact ⟨h.bounds.1, h.bounds.2, h.over fun _ hset => hset⟩
  · rintro ⟨hle, hstop, hall⟩
    exact describes_star_of_allBetween hle hstop hall

theorem describes_plus_chars {set : CharSet} {greedy : Bool} :
    (plus (chars set) greedy).Describes text start stop ↔
      start < stop ∧ stop ≤ text.length ∧ AllBetween (set.contains · = true) text start stop := by
  constructor
  · intro h
    have hall := h.over fun _ hset => hset
    obtain ⟨hstart, hmatches⟩ := h
    cases hmatches with
    | plus first more =>
      have hlt := first.lt_of_canBeEmpty rfl
      obtain ⟨middle, -, hmiddle, rfl⟩ := first.exists_ofPosition text rfl hstart
      have hbounds := Describes.bounds ⟨hmiddle, more⟩
      exact ⟨Nat.lt_of_lt_of_le hlt hbounds.1, hbounds.2, hall⟩
  · rintro ⟨hlt, hstop, hall⟩
    have hget : text[start]? = some text[start] := List.getElem?_eq_getElem (by omega)
    have hfirst : (chars set).Describes text start (start + 1) :=
      describes_chars.mpr ⟨rfl, _, hget, hall start _ (Nat.le_refl _) hlt hget⟩
    have hmore : (star (chars set) greedy).Describes text (start + 1) stop :=
      describes_star_of_allBetween hlt hstop (hall.mono (Nat.le_succ _) (Nat.le_refl _))
    exact ⟨hfirst.1, .plus hfirst.2 hmore.2⟩

theorem describes_sequence_cons {ps : List Pattern} (hps : ps ≠ []) :
    (sequence (p :: ps)).Describes text start stop ↔
      ∃ middle, p.Describes text start middle ∧ (sequence ps).Describes text middle stop := by
  cases ps with
  | nil => exact absurd rfl hps
  | cons q ps => exact describes_seq

/-- The characters between two positions, the first one apart. -/
theorem extract_eq_cons_iff {c : Char} {cs : List Char} :
    text.extract start stop = c :: cs ↔
      start < stop ∧ text[start]? = some c ∧ text.extract (start + 1) stop = cs := by
  simp only [List.extract_eq_take_drop]
  constructor
  · intro h
    have hlt : start < stop := by
      refine Nat.lt_of_not_le fun hle => ?_
      rw [Nat.sub_eq_zero_of_le hle, List.take_zero] at h
      exact absurd h (by simp)
    obtain ⟨length, hlength⟩ : ∃ length, stop - start = length + 1 := ⟨stop - start - 1, by omega⟩
    have hnext : stop - (start + 1) = length := by omega
    rw [hlength] at h
    cases hdrop : text.drop start with
    | nil =>
      rw [hdrop, List.take_nil] at h
      exact absurd h (by simp)
    | cons d ds =>
      rw [hdrop, List.take_succ_cons, List.cons.injEq] at h
      rw [hnext, ← List.head?_drop, ← List.tail_drop, hdrop]
      exact ⟨hlt, congrArg some h.1, h.2⟩
  · rintro ⟨hlt, hc, rfl⟩
    obtain ⟨hlength, hget⟩ := List.getElem?_eq_some_iff.mp hc
    have hsize : stop - start = stop - (start + 1) + 1 := by omega
    rw [List.drop_eq_getElem_cons hlength, hget, hsize, List.take_succ_cons]

/-- The characters between a position and the next one. -/
theorem extract_char {c : Char} (h : text[start]? = some c) :
    text.extract start (start + 1) = [c] :=
  extract_eq_cons_iff.mpr ⟨Nat.lt_succ_self start, h, by simp [List.extract_eq_take_drop]⟩

/-- The first character of a span stands at its start. -/
theorem head?_extract (h : start < stop) : (text.extract start stop).head? = text[start]? := by
  rw [List.extract_eq_take_drop, List.head?_take, if_neg (Nat.sub_ne_zero_of_lt h), List.head?_drop]

/-- A span is cut in two at a position inside it. -/
theorem extract_append_extract {middle : Nat} (hle : start ≤ middle) (hle' : middle ≤ stop) :
    text.extract start middle ++ text.extract middle stop = text.extract start stop := by
  have hlength : stop - start = (middle - start) + (stop - middle) := by omega
  simp only [List.extract_eq_take_drop]
  rw [hlength, List.take_add, List.drop_drop, Nat.add_sub_cancel' hle]

/-- Literal characters, and a pattern behind them. -/
theorem describes_sequence_literals {cs : List Char} :
    (sequence (cs.map literal ++ [p])).Describes text start stop ↔
      ∃ middle, start ≤ middle ∧ text.extract start middle = cs ∧ p.Describes text middle stop := by
  induction cs generalizing start with
  | nil =>
    constructor
    · intro h
      exact ⟨start, Nat.le_refl _, by simp [List.extract_eq_take_drop], h⟩
    · rintro ⟨middle, hle, hnone, h⟩
      have hlength := length_extract start h.1
      rw [hnone, List.length_nil] at hlength
      obtain rfl : start = middle := by omega
      exact h
  | cons c cs ih =>
    have hps : cs.map literal ++ [p] ≠ [] := by simp
    rw [List.map_cons, List.cons_append, describes_sequence_cons hps]
    simp only [describes_literal, ih, extract_eq_cons_iff]
    constructor
    · rintro ⟨_, ⟨rfl, hc⟩, middle, hle, hcs, h⟩
      exact ⟨middle, Nat.le_of_succ_le hle, ⟨hle, hc, hcs⟩, h⟩
    · rintro ⟨middle, -, ⟨hlt, hc, hcs⟩, h⟩
      exact ⟨_, ⟨rfl, hc⟩, middle, hlt, hcs, h⟩

end PrologTokens.Pattern
