import PrologTokens.Proofs.Rule.Occurrences

/-!
# Clauses and lists

The rules for facts, rules, queries and lists report all that has the shape of one. Each part of
these shapes ends where the next one begins, so from a given start there is at most one way to
go through a shape; and inside of one no other of the same kind starts, so a search behind a
match misses none.

Facts and rules start with a name. They are looked for from the start of the line or behind the full
stop of another one, so the name is never a part of a longer word.

The main statement is `scan_clauses`.
-/

set_option autoImplicit false

namespace PrologTokens

open Pattern

variable {text : List Char} {start stop : Nat}

namespace Pattern

/-- Characters with a property, at least one of them. -/
structure IsStretch (P : Char → Bool) (text : List Char) (start stop : Nat) : Prop where
  /-- There is a character in it. -/
  nonempty : start < stop
  /-- Its characters have the property. -/
  all : AllBetween (P · = true) text start stop

/-- No word goes on at the position. -/
def AtWordStart (text : List Char) (start : Nat) : Prop :=
  ∀ x, 0 < start → text[start - 1]? = some x → Text.isWord x = false

/-- Characters with a property go on to a single place where a certain one without it stands. -/
theorem AllBetween.end_unique {P : Char → Prop} {stop' : Nat} {c : Char}
    (h : AllBetween P text start stop) (h' : AllBetween P text start stop') (hle : start ≤ stop)
    (hle' : start ≤ stop') (hc : text[stop]? = some c) (hc' : text[stop']? = some c)
    (hnot : ¬ P c) : stop = stop' := by
  rcases Nat.lt_trichotomy stop stop' with hlt | heq | hgt
  · exact absurd (h' stop c hle hlt hc) hnot
  · exact heq
  · exact absurd (h stop' c hle' hgt hc') hnot

theorem IsStretch.end_unique {P : Char → Bool} {stop' : Nat} {c : Char}
    (h : IsStretch P text start stop) (h' : IsStretch P text start stop')
    (hc : text[stop]? = some c) (hc' : text[stop']? = some c) (hnot : P c = false) : stop = stop' :=
  h.all.end_unique h'.all (Nat.le_of_lt h.nonempty) (Nat.le_of_lt h'.nonempty) hc hc'
    (Bool.not_eq_true _ ▸ hnot)

end Pattern

namespace RuleTable.Prolog

/-! ## Shapes -/

/-- A name and arguments in parentheses: `name(arguments)`. -/
structure IsHead (text : List Char) (start opening closing : Nat) : Prop where
  /-- The name. -/
  name : IsStretch Text.isWord text start opening
  /-- The parenthesis behind it. -/
  opens : text[opening]? = some '('
  /-- The arguments. -/
  arguments : IsStretch isArgument text (opening + 1) closing
  /-- The parenthesis behind them. -/
  closes : text[closing]? = some ')'

/-- A body and a full stop. -/
structure IsBody (text : List Char) (start dot : Nat) : Prop where
  /-- The body. -/
  body : IsStretch isBody text start dot
  /-- The full stop. -/
  ends : text[dot]? = some '.'

/-- A fact: `name(arguments).`, where blanks may stand before the full stop. -/
inductive IsFact (text : List Char) (start : Nat) : (stop : Nat) → Prop where
  /-- The parts of the fact. -/
  | parts {opening closing dot : Nat} (head : IsHead text start opening closing)
      (behind : closing < dot) (gap : AllBetween (· ∈ blanks) text (closing + 1) dot)
      (ends : text[dot]? = some '.') : IsFact text start (dot + 1)

/-- A rule: `name(arguments) :- body.` -/
inductive IsRule (text : List Char) (start : Nat) : (stop : Nat) → Prop where
  /-- The parts of the rule. -/
  | parts {opening closing dot : Nat} (head : IsHead text start opening closing)
      (neck : text.extract (closing + 1) (closing + 5) = [' ', ':', '-', ' '])
      (body : IsBody text (closing + 5) dot) : IsRule text start (dot + 1)

/-- A query: `?- body.` -/
inductive IsQuery (text : List Char) (start : Nat) : (stop : Nat) → Prop where
  /-- The parts of the query. -/
  | parts {dot : Nat} (opens : text.extract start (start + 3) = ['?', '-', ' '])
      (body : IsBody text (start + 3) dot) : IsQuery text start (dot + 1)

/-- A list: `[arguments]` -/
inductive IsList (text : List Char) (start : Nat) : (stop : Nat) → Prop where
  /-- The parts of the list. -/
  | parts {closing : Nat} (opens : text[start]? = some '[')
      (arguments : IsStretch isArgument text (start + 1) closing)
      (closes : text[closing]? = some ']') : IsList text start (closing + 1)

/-! ## Shapes and patterns -/

theorem describes_run1 {set : CharSet} {P : Char → Bool} (hset : ∀ x, set.contains x = P x) :
    (run1 set).Describes text start stop ↔ IsStretch P text start stop ∧ stop ≤ text.length := by
  have hpattern : run1 set = plus (chars set) true := rfl
  simp only [hpattern, describes_plus_chars, hset]
  constructor
  · rintro ⟨hlt, hstop, hall⟩
    exact ⟨⟨hlt, hall⟩, hstop⟩
  · rintro ⟨⟨hlt, hall⟩, hstop⟩
    exact ⟨hlt, hstop, hall⟩

/-- A run of characters in front of a character is a stretch of them. -/
theorem describes_run1_literal {set : CharSet} {P : Char → Bool} {c : Char} {q : Pattern}
    (hset : ∀ x, set.contains x = P x) :
    (seq (run1 set) (seq (literal c) q)).Describes text start stop ↔
      ∃ middle, IsStretch P text start middle ∧ text[middle]? = some c ∧
        q.Describes text (middle + 1) stop := by
  simp only [describes_seq, describes_run1 hset, describes_literal]
  constructor
  · rintro ⟨middle, ⟨hstretch, -⟩, _, ⟨rfl, hc⟩, hq⟩
    exact ⟨middle, hstretch, hc, hq⟩
  · rintro ⟨middle, hstretch, hc, hq⟩
    have hlength : middle < text.length := (List.getElem?_eq_some_iff.mp hc).1
    exact ⟨middle, ⟨hstretch, Nat.le_of_lt hlength⟩, _, ⟨rfl, hc⟩, hq⟩

/-- A name with arguments, and a pattern behind it. -/
theorem describes_head {q : Pattern} :
    (seq (run1 wordSet) (seq (literal '(') (seq (run1 argumentSet)
      (seq (literal ')') q)))).Describes text start stop ↔
      ∃ opening closing, IsHead text start opening closing ∧
        q.Describes text (closing + 1) stop := by
  simp only [describes_run1_literal contains_wordSet, describes_run1_literal contains_argumentSet]
  constructor
  · rintro ⟨opening, name, opens, closing, arguments, closes, hq⟩
    exact ⟨opening, closing, ⟨name, opens, arguments, closes⟩, hq⟩
  · rintro ⟨opening, closing, ⟨name, opens, arguments, closes⟩, hq⟩
    exact ⟨opening, name, opens, closing, arguments, closes, hq⟩

/-- A body with its full stop. -/
theorem describes_body :
    (seq (run1 bodySet) (literal '.')).Describes text start stop ↔
      ∃ dot, IsBody text start dot ∧ stop = dot + 1 := by
  rw [describes_seq]
  simp only [describes_run1 contains_bodySet, describes_literal]
  constructor
  · rintro ⟨dot, ⟨body, -⟩, rfl, ends⟩
    exact ⟨dot, ⟨body, ends⟩, rfl⟩
  · rintro ⟨dot, ⟨body, ends⟩, rfl⟩
    have hlength : dot < text.length := (List.getElem?_eq_some_iff.mp ends).1
    exact ⟨dot, ⟨body, Nat.le_of_lt hlength⟩, rfl, ends⟩

/-- Literal characters, and a body with its full stop behind them. -/
theorem describes_literals_body {cs : List Char} :
    (sequence (cs.map literal ++ [seq (run1 bodySet) (literal '.')])).Describes text start stop ↔
      text.extract start (start + cs.length) = cs ∧
        ∃ dot, IsBody text (start + cs.length) dot ∧ stop = dot + 1 := by
  simp only [describes_sequence_literals, describes_body]
  constructor
  · rintro ⟨middle, hle, hcs, dot, hbody, hstop⟩
    have hdot : dot < text.length := (List.getElem?_eq_some_iff.mp hbody.ends).1
    have hmiddle : middle ≤ text.length := by
      have := hbody.body.nonempty
      omega
    have hlength := length_extract start hmiddle
    obtain rfl : middle = start + cs.length := by
      rw [hcs] at hlength
      omega
    exact ⟨hcs, dot, hbody, hstop⟩
  · rintro ⟨hcs, dot, hbody, hstop⟩
    exact ⟨_, Nat.le_add_right _ _, hcs, dot, hbody, hstop⟩

theorem describes_fact : fact.pattern.Describes text start stop ↔ IsFact text start stop := by
  have hpattern : fact.pattern = seq (run1 wordSet) (seq (literal '(') (seq (run1 argumentSet)
      (seq (literal ')') (seq (run0 gapSet) (literal '.'))))) := rfl
  have hgap : run0 gapSet = star (chars gapSet) true := rfl
  rw [hpattern, describes_head]
  simp only [describes_seq, hgap, describes_star_chars, describes_literal, contains_gapSet,
    decide_eq_true_eq]
  constructor
  · rintro ⟨opening, closing, head, dot, ⟨behind, -, gap⟩, rfl, ends⟩
    exact .parts head behind gap ends
  · rintro ⟨head, behind, gap, ends⟩
    have hlength := (List.getElem?_eq_some_iff.mp ends).1
    exact ⟨_, _, head, _, ⟨behind, Nat.le_of_lt hlength, gap⟩, rfl, ends⟩

theorem describes_rule : rule.pattern.Describes text start stop ↔ IsRule text start stop := by
  have hpattern : rule.pattern = seq (run1 wordSet) (seq (literal '(') (seq (run1 argumentSet)
      (seq (literal ')') (sequence ([' ', ':', '-', ' '].map literal ++
        [seq (run1 bodySet) (literal '.')]))))) := rfl
  rw [hpattern, describes_head]
  simp only [describes_literals_body]
  constructor
  · rintro ⟨opening, closing, head, neck, dot, body, rfl⟩
    exact .parts head neck body
  · rintro ⟨head, neck, body⟩
    exact ⟨_, _, head, neck, _, body, rfl⟩

theorem describes_query : query.pattern.Describes text start stop ↔ IsQuery text start stop := by
  have hpattern : query.pattern = sequence (['?', '-', ' '].map literal ++
      [seq (run1 bodySet) (literal '.')]) := rfl
  rw [hpattern, describes_literals_body]
  constructor
  · rintro ⟨opens, dot, body, rfl⟩
    exact .parts opens body
  · rintro ⟨opens, body⟩
    exact ⟨opens, _, body, rfl⟩

theorem describes_list : list.pattern.Describes text start stop ↔ IsList text start stop := by
  have hpattern : list.pattern = seq (literal '[') (seq (run1 argumentSet) (literal ']')) := rfl
  rw [hpattern]
  simp only [describes_seq, describes_literal, describes_run1 contains_argumentSet]
  constructor
  · rintro ⟨_, ⟨rfl, opens⟩, closing, ⟨arguments, -⟩, rfl, closes⟩
    exact .parts opens arguments closes
  · rintro ⟨opens, arguments, closes⟩
    have hlength := (List.getElem?_eq_some_iff.mp closes).1
    exact ⟨_, ⟨rfl, opens⟩, _, ⟨arguments, Nat.le_of_lt hlength⟩, rfl, closes⟩

/-! ## Parts of a shape -/

section

variable {opening closing start' stop' opening' closing' : Nat}

/-- From a given start there is at most one name with arguments. -/
theorem IsHead.unique (h : IsHead text start opening closing)
    (h' : IsHead text start opening' closing') : opening = opening' ∧ closing = closing' := by
  obtain rfl := h.name.end_unique h'.name h.opens h'.opens (by decide)
  exact ⟨rfl, h.arguments.end_unique h'.arguments h.closes h'.closes (by decide)⟩

theorem IsHead.exists_first (h : IsHead text start opening closing) :
    ∃ x, text[start]? = some x ∧ Text.isWord x = true := by
  have hlength : start < text.length :=
    Nat.lt_trans h.name.nonempty (List.getElem?_eq_some_iff.mp h.opens).1
  have hget : text[start]? = some text[start] := List.getElem?_eq_getElem hlength
  exact ⟨_, hget, h.name.all start _ (Nat.le_refl _) h.name.nonempty hget⟩

/-- What may stand in a name or in arguments may stand in a body. -/
theorem IsHead.allBetween_isBody (h : IsHead text start opening closing) :
    AllBetween (isBody · = true) text start (closing + 1) := by
  have hname : AllBetween (isBody · = true) text start opening := by
    intro i x hi hi' hx
    rw [isBody, h.name.all i x hi hi' hx, Bool.true_or]
  have harguments : AllBetween (isBody · = true) text (opening + 1) closing := by
    intro i x hi hi' hx
    have hargument : isArgument x = true := h.arguments.all i x hi hi' hx
    rw [isArgument, Bool.or_eq_true, decide_eq_true_eq] at hargument
    rcases hargument with hword | rfl
    · rw [isBody, hword, Bool.true_or]
    · rfl
  exact ((hname.append (.of_char h.opens rfl)).append harguments).append (.of_char h.closes rfl)

/-- In a name with arguments no other one starts, except in the middle of the word. -/
theorem IsHead.closing_lt (h : IsHead text start opening closing)
    (h' : IsHead text start' opening' closing') (hword : AtWordStart text start')
    (hlt : start < start') : closing < start' := by
  have hlength := (List.getElem?_eq_some_iff.mp h.opens).1
  have hopening : opening < start' := by
    refine Nat.lt_of_not_le fun hle => ?_
    have hget : text[start' - 1]? = some text[start' - 1] := List.getElem?_eq_getElem (by omega)
    have hname : Text.isWord text[start' - 1] = true := h.name.all _ _ (by omega) (by omega) hget
    rw [hword _ (by omega) hget] at hname
    exact absurd hname Bool.false_ne_true
  -- From there on there are only arguments up to the closing parenthesis, and no opening one.
  refine Nat.lt_of_not_le fun hle => ?_
  have hname' := h'.name.nonempty
  rcases Nat.lt_trichotomy opening' closing with hbefore | rfl | hbehind
  · exact absurd (h.arguments.all opening' _ (by omega) hbefore h'.opens) (by decide)
  · exact absurd (h.closes.symm.trans h'.opens) (by decide)
  · exact absurd (h'.name.all closing _ hle hbehind h.closes) (by decide)

/-- From a given start there is at most one body with a full stop. -/
theorem IsBody.unique {dot dot' : Nat} (h : IsBody text start dot) (h' : IsBody text start dot') :
    dot = dot' :=
  h.body.end_unique h'.body h.ends h'.ends (by decide)

/-! ## One way through a shape, and no other one inside -/

theorem IsFact.unique (h : IsFact text start stop) (h' : IsFact text start stop') :
    stop = stop' := by
  obtain ⟨head, behind, gap, ends⟩ := h
  obtain ⟨head', behind', gap', ends'⟩ := h'
  obtain ⟨rfl, rfl⟩ := head.unique head'
  rw [gap.end_unique gap' behind behind' ends ends' (by decide)]

theorem IsFact.not_inside (h : IsFact text start stop) (hword : AtWordStart text start)
    (h' : IsFact text start' stop') (hlt : start' < start) : stop' ≤ start := by
  obtain ⟨head, -, -, -⟩ := h
  obtain @⟨_, closing', dot', head', -, gap', ends'⟩ := h'
  have hclosing := head'.closing_lt head hword hlt
  -- Behind the arguments there are blanks and the full stop, but no name.
  obtain ⟨x, hx, hisWord⟩ := head.exists_first
  refine Nat.lt_of_not_le fun hle => ?_
  rcases Nat.lt_or_eq_of_le hle with hdot | rfl
  · rw [isWord_eq_false_of_mem_blanks (gap' start x hclosing hdot hx)] at hisWord
    exact absurd hisWord Bool.false_ne_true
  · rw [ends', Option.some.injEq] at hx
    exact absurd (hx ▸ hisWord) (by decide)

theorem IsRule.unique (h : IsRule text start stop) (h' : IsRule text start stop') :
    stop = stop' := by
  obtain ⟨head, -, body⟩ := h
  obtain ⟨head', -, body'⟩ := h'
  obtain ⟨rfl, rfl⟩ := head.unique head'
  rw [body.unique body']

theorem IsRule.not_inside (h : IsRule text start stop) (hword : AtWordStart text start)
    (h' : IsRule text start' stop') (hlt : start' < start) : stop' ≤ start := by
  obtain @⟨_, closing, _, head, neck, -⟩ := h
  obtain @⟨_, closing', dot', head', neck', body'⟩ := h'
  have hclosing := head'.closing_lt head hword hlt
  refine Nat.lt_of_not_le fun hle => ?_
  rcases Nat.lt_or_ge start (closing' + 5) with hneck | hbody
  · -- There is no name in the neck.
    obtain ⟨x, hx, hisWord⟩ := head.exists_first
    have hmem : x ∈ text.extract (closing' + 1) (closing' + 5) :=
      mem_extract_iff.mpr ⟨start, hclosing, hneck, hx⟩
    rw [neck'] at hmem
    have hnone : ([' ', ':', '-', ' '].all fun c => !Text.isWord c) = true := by decide
    rw [(Bool.not_eq_true' _).mp (List.all_eq_true.mp hnone x hmem)] at hisWord
    exact absurd hisWord Bool.false_ne_true
  · -- The neck of a rule in the body would stand in the body too, where no blank is allowed.
    obtain ⟨-, hblank, -⟩ := extract_eq_cons_iff.mp neck
    have hstart := head.name.nonempty
    rcases Nat.lt_trichotomy (closing + 1) dot' with hbefore | rfl | hbehind
    · have harguments := head.arguments.nonempty
      exact absurd (body'.body.all _ _ (by omega) hbefore hblank) (by decide)
    · exact absurd (hblank.symm.trans body'.ends) (by decide)
    · exact absurd (head.allBetween_isBody dot' _ hle hbehind body'.ends) (by decide)

/-- What starts like a rule is no fact. -/
theorem IsFact.not_isRule (h : IsFact text start stop) : ¬ IsRule text start stop' := by
  intro h'
  obtain @⟨_, closing, dot, head, behind, gap, ends⟩ := h
  obtain ⟨head', neck, -⟩ := h'
  obtain ⟨rfl, rfl⟩ := head.unique head'
  simp only [extract_eq_cons_iff] at neck
  obtain ⟨-, hblank, -, hcolon, -⟩ := neck
  -- The colon stands where there are only blanks up to the full stop.
  rcases Nat.lt_trichotomy (closing + 2) dot with hbefore | rfl | hbehind
  · exact absurd (gap _ _ (Nat.le_succ _) hbefore hcolon) (by decide)
  · exact absurd (hcolon.symm.trans ends) (by decide)
  · obtain rfl : dot = closing + 1 := by omega
    exact absurd (hblank.symm.trans ends) (by decide)

theorem IsQuery.unique (h : IsQuery text start stop) (h' : IsQuery text start stop') :
    stop = stop' := by
  obtain ⟨-, body⟩ := h
  obtain ⟨-, body'⟩ := h'
  rw [body.unique body']

theorem IsQuery.not_inside (h : IsQuery text start stop) (h' : IsQuery text start' stop')
    (hlt : start' < start) : stop' ≤ start := by
  obtain ⟨opens, -⟩ := h
  obtain @⟨dot', opens', body'⟩ := h'
  obtain ⟨-, hmark, -⟩ := extract_eq_cons_iff.mp opens
  simp only [extract_eq_cons_iff] at opens'
  obtain ⟨-, -, -, hdash, -, hblank, -⟩ := opens'
  -- Behind its first character a query has no question mark.
  have hrest : AllBetween (· ≠ '?') text (start' + 1) (dot' + 1) := by
    have hbody : AllBetween (· ≠ '?') text (start' + 3) dot' := by
      rintro i _ hi hi' hx rfl
      exact absurd (body'.body.all i _ hi hi' hx) (by decide)
    exact (((AllBetween.of_char hdash (by decide)).append (.of_char hblank (by decide))).append
      hbody).append (.of_char body'.ends (by decide))
  exact Nat.le_of_not_lt fun hin => hrest start _ hlt hin hmark rfl

theorem IsList.unique (h : IsList text start stop) (h' : IsList text start stop') :
    stop = stop' := by
  obtain ⟨-, arguments, closes⟩ := h
  obtain ⟨-, arguments', closes'⟩ := h'
  rw [arguments.end_unique arguments' closes closes' (by decide)]

theorem IsList.not_inside (h : IsList text start stop) (h' : IsList text start' stop')
    (hlt : start' < start) : stop' ≤ start := by
  obtain ⟨opens, -, -⟩ := h
  obtain @⟨closing', -, arguments', closes'⟩ := h'
  refine Nat.lt_of_not_le fun hle => ?_
  rcases Nat.lt_or_eq_of_le hle with hbefore | rfl
  · exact absurd (arguments'.all start _ hlt hbefore opens) (by decide)
  · exact absurd (opens.symm.trans closes') (by decide)

end

/-! ## Reported spans -/

/-- A rule whose matches start with a name and end with a full stop does not cut words: a longer
name would have been found earlier, and the full stop of the match in front is no part of a
word. -/
theorem atWordStart_of_reports {clause : Rule} (hscope : clause.scope = .all)
    (hempty : clause.pattern.canBeEmpty = false)
    (hends : ∀ {start stop}, clause.pattern.Describes text start stop → text[stop - 1]? = some '.')
    (hlonger : ∀ {start stop x}, clause.pattern.Describes text (start + 1) stop →
      text[start]? = some x → Text.isWord x = true → clause.pattern.Describes text start stop)
    (h : clause.Reports text start stop) : AtWordStart text start := by
  intro x hpos hx
  refine eq_false_of_ne_true fun hword => ?_
  obtain ⟨i, hi, hprevious, hnone⟩ := h.exists_previous hscope hempty
  rcases Nat.lt_or_eq_of_le hi with hbefore | rfl
  · have hdescribes := h.describes
    obtain ⟨first, rfl⟩ : ∃ first, start = first + 1 := ⟨start - 1, by omega⟩
    exact hnone first stop (Nat.le_of_lt_succ hbefore) (Nat.lt_succ_self _)
      (hlonger hdescribes hx hword)
  · rcases hprevious with rfl | ⟨first, hfirst⟩
    · exact absurd hpos (Nat.lt_irrefl 0)
    · rw [hends hfirst.describes, Option.some.injEq] at hx
      exact absurd (hx ▸ hword) (by decide)

/-- A name with a word character in front is a name. -/
theorem IsHead.longer {opening closing : Nat} {x : Char}
    (h : IsHead text (start + 1) opening closing) (hx : text[start]? = some x)
    (hword : Text.isWord x = true) : IsHead text start opening closing where
  name := ⟨Nat.lt_of_succ_lt h.name.nonempty, (AllBetween.of_char hx hword).append h.name.all⟩
  opens := h.opens
  arguments := h.arguments
  closes := h.closes

/-! ## The four rules -/

theorem reports_fact_iff :
    fact.Reports text start stop ↔ IsFact text start stop ∧ AtWordStart text start := by
  refine Rule.reports_iff_of_unique
    (fun start stop => IsFact text start stop ∧ AtWordStart text start) rfl rfl ?_ ?_ ?_ ?_
  · intro start stop h
    refine ⟨describes_fact.mp h.describes, atWordStart_of_reports rfl rfl ?_ ?_ h⟩
    · intro start stop h
      obtain ⟨-, -, -, ends⟩ := describes_fact.mp h
      exact ends
    · intro start stop x h hx hword
      obtain ⟨head, behind, gap, ends⟩ := describes_fact.mp h
      exact describes_fact.mpr (.parts (head.longer hx hword) behind gap ends)
  · rintro start stop ⟨h, -⟩
    exact ⟨stop, describes_fact.mpr h⟩
  · rintro start stop stop' ⟨h, -⟩ ⟨h', -⟩
    exact h.unique h'
  · rintro start stop start' stop' ⟨h, hword⟩ ⟨h', -⟩ hlt
    exact h.not_inside hword h' hlt

theorem reports_rule_iff :
    rule.Reports text start stop ↔ IsRule text start stop ∧ AtWordStart text start := by
  refine Rule.reports_iff_of_unique
    (fun start stop => IsRule text start stop ∧ AtWordStart text start) rfl rfl ?_ ?_ ?_ ?_
  · intro start stop h
    refine ⟨describes_rule.mp h.describes, atWordStart_of_reports rfl rfl ?_ ?_ h⟩
    · intro start stop h
      obtain ⟨-, -, body⟩ := describes_rule.mp h
      exact body.ends
    · intro start stop x h hx hword
      obtain ⟨head, neck, body⟩ := describes_rule.mp h
      exact describes_rule.mpr (.parts (head.longer hx hword) neck body)
  · rintro start stop ⟨h, -⟩
    exact ⟨stop, describes_rule.mpr h⟩
  · rintro start stop stop' ⟨h, -⟩ ⟨h', -⟩
    exact h.unique h'
  · rintro start stop start' stop' ⟨h, hword⟩ ⟨h', -⟩ hlt
    exact h.not_inside hword h' hlt

theorem reports_query_iff : query.Reports text start stop ↔ IsQuery text start stop :=
  Rule.reports_iff_of_unique (IsQuery text) rfl rfl (fun h => describes_query.mp h.describes)
    (fun h => ⟨_, describes_query.mpr h⟩) IsQuery.unique IsQuery.not_inside

theorem reports_list_iff : list.Reports text start stop ↔ IsList text start stop :=
  Rule.reports_iff_of_unique (IsList text) rfl rfl (fun h => describes_list.mp h.describes)
    (fun h => ⟨_, describes_list.mpr h⟩) IsList.unique IsList.not_inside

theorem lists_fact (text : List Char) :
    fact.Lists text fun start stop => IsFact text start stop ∧ AtWordStart text start :=
  Rule.lists_of_reports_iff reports_fact_iff

theorem lists_rule (text : List Char) :
    rule.Lists text fun start stop => IsRule text start stop ∧ AtWordStart text start :=
  Rule.lists_of_reports_iff reports_rule_iff

theorem lists_query (text : List Char) : query.Lists text (IsQuery text) :=
  Rule.lists_of_reports_iff reports_query_iff

theorem lists_list (text : List Char) : list.Lists text (IsList text) :=
  Rule.lists_of_reports_iff reports_list_iff

/-- The table has one rule for each of facts, rules, queries and lists. -/
theorem mem_clauses_iff {pass : Rule} :
    pass ∈ prolog ∧ pass.category ∈ [.fact, .rule, .query, .list] ↔
      pass ∈ [fact, rule, query, list] := by
  refine mem_and_category_iff ?_
  rw [prolog_eq]
  rfl

/-- The rules of the table for facts, rules, queries and lists report all that has the shape of
one, from left to right, and no two of the same shape have a character in common. Facts and
rules are those whose name is no part of a longer word, and no fact starts where a rule does. -/
theorem scan_clauses (text : List Char) :
    (∀ pass, pass ∈ prolog ∧ pass.category ∈ [.fact, .rule, .query, .list] ↔
      pass ∈ [fact, rule, query, list]) ∧
      fact.Lists text (fun start stop => IsFact text start stop ∧ AtWordStart text start) ∧
      rule.Lists text (fun start stop => IsRule text start stop ∧ AtWordStart text start) ∧
      query.Lists text (IsQuery text) ∧ list.Lists text (IsList text) ∧
      ∀ m ∈ fact.findAll text, ∀ n ∈ rule.findAll text, m.start ≠ n.start := by
  refine ⟨fun pass => mem_clauses_iff, lists_fact text, lists_rule text, lists_query text,
    lists_list text, ?_⟩
  intro m hm n hn
  obtain ⟨start, stop, hfact, rfl⟩ := Rule.mem_findAll_iff.mp hm
  obtain ⟨start', stop', hrule, rfl⟩ := Rule.mem_findAll_iff.mp hn
  rintro rfl
  exact (describes_fact.mp hfact.describes).not_isRule (describes_rule.mp hrule.describes)

-- A fact may stand at the end of a rule: only spans of the same shape lie apart.
example : rule.scan "x(y) :- z(y).".toList = ["x(y) :- z(y)."] ∧
    fact.scan "x(y) :- z(y).".toList = ["z(y)."] := by
  constructor <;> cbv

end RuleTable.Prolog
end PrologTokens
