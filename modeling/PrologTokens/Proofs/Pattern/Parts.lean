import PrologTokens.Proofs.Pattern.Places

/-!
# Parts of a line

A part of a line is looked at as a line of its own. What a pattern describes there it describes
in the line as well, as long as its conditions on places cannot tell the ends of the part from
places in the line: they must be boundaries of words, and the part must not cut a word in two.
For the same reason a run of word characters of the part is one of the line.

The other way round, what a pattern describes inside the part it describes in the part taken by
itself, if it has no conditions on places at all.

The main statements are `Describes.of_extract`, `Describes.extract` and `IsRun.of_extract`.
-/

set_option autoImplicit false

namespace PrologTokens.Pattern

variable {text : List Char} {first last start stop : Nat}

/-! ## Characters of a part -/

theorem getElem?_extract_eq_some_iff {i : Nat} {x : Char} :
    (text.extract first last)[i]? = some x ↔ first + i < last ∧ text[first + i]? = some x := by
  rw [List.extract_eq_take_drop, List.getElem?_take, Option.ite_none_right_eq_some,
    List.getElem?_drop]
  exact and_congr_left fun _ => by omega

/-- A part of a part is a part of the line. -/
theorem extract_extract (hstop : first + stop ≤ last) :
    (text.extract first last).extract start stop = text.extract (first + start) (first + stop) := by
  refine List.ext_getElem? fun i => Option.ext fun x => ?_
  simp only [getElem?_extract_eq_some_iff]
  rw [Nat.add_assoc first start i, ← and_assoc]
  exact and_congr_left fun _ => by omega

theorem AllBetween.of_extract {P : Char → Prop} (hstop : first + stop ≤ last)
    (h : AllBetween P (text.extract first last) start stop) :
    AllBetween P text (first + start) (first + stop) := by
  intro i x hi hi' hx
  refine h (i - first) x (by omega) (by omega) (getElem?_extract_eq_some_iff.mpr ?_)
  rw [Nat.add_sub_cancel' (Nat.le_of_add_right_le hi)]
  exact ⟨by omega, hx⟩

theorem before_extract_iff {P : Char → Bool} {i : Nat} (hi : 0 < i) (hlast : first + i ≤ last) :
    Before P (text.extract first last) i ↔ Before P text (first + i) := by
  simp only [Before, getElem?_extract_eq_some_iff, Nat.add_sub_assoc hi first, hi,
    Nat.add_pos_right first hi]
  have hlt : first + (i - 1) < last := by omega
  simp only [hlt, true_and]

theorem behind_extract_iff {P : Char → Bool} {i : Nat} :
    Behind P (text.extract first last) i ↔ first + i < last ∧ Behind P text (first + i) := by
  simp only [Behind, getElem?_extract_eq_some_iff, and_assoc, exists_and_left]

/-! ## Parts that cut no word -/

/-- No word goes on from one side of the position to the other. -/
def SplitsNoWord (text : List Char) (i : Nat) : Prop :=
  Before Text.isWord text i → ¬ Behind Text.isWord text i

theorem splitsNoWord_of_before {x : Char} {i : Nat} (hx : text[i]? = some x)
    (hword : Text.isWord x = false) : SplitsNoWord text (i + 1) := by
  rintro ⟨y, -, hy, hyWord⟩
  rw [Nat.add_sub_cancel, hx, Option.some.injEq] at hy
  rw [← hy, hword] at hyWord
  exact absurd hyWord Bool.false_ne_true

theorem splitsNoWord_of_behind {x : Char} {i : Nat} (hx : text[i]? = some x)
    (hword : Text.isWord x = false) : SplitsNoWord text i := by
  rintro - ⟨y, hy, hyWord⟩
  rw [hx, Option.some.injEq] at hy
  rw [← hy, hword] at hyWord
  exact absurd hyWord Bool.false_ne_true

/-- A part of a line that cuts no word in two. -/
structure IsWhole (text : List Char) (first last : Nat) : Prop where
  /-- The part lies inside the line. -/
  inside : first ≤ last ∧ last ≤ text.length
  /-- No word goes over its start. -/
  front : SplitsNoWord text first
  /-- No word goes over its end. -/
  back : SplitsNoWord text last

/-- The boundaries of words in a part are boundaries in the line, also at the ends of the part. -/
theorem IsWhole.wordBoundary (h : IsWhole text first last) {i : Nat} (hi : first + i ≤ last)
    (hholds : Anchor.wordBoundary.HoldsAt (text.extract first last) i) :
    Anchor.wordBoundary.HoldsAt text (first + i) := by
  unfold Anchor.HoldsAt at hholds ⊢
  rw [behind_extract_iff] at hholds
  rcases Nat.eq_zero_or_pos i with rfl | hpos
  · -- At the start of the part no character stands in front, so one of a word follows.
    have hnone : ¬ Before Text.isWord (text.extract first last) 0 := by
      rintro ⟨_, hpos, -⟩
      exact Nat.lt_irrefl 0 hpos
    have hbehind : Behind Text.isWord text (first + 0) := by
      simp only [hnone, false_iff, Classical.not_not] at hholds
      exact hholds.2
    exact fun hiff => h.front (hiff.mpr hbehind) hbehind
  · rw [before_extract_iff hpos hi] at hholds
    rcases Nat.lt_or_eq_of_le hi with hlt | rfl
    · simpa only [hlt, true_and] using hholds
    · -- At the end of the part nothing follows, so a word character stands in front.
      have hbefore : Before Text.isWord text (first + i) := by
        simpa only [Nat.lt_irrefl, false_and, iff_false, Classical.not_not] using hholds
      exact fun hiff => h.back hbefore (hiff.mp hbefore)

/-! ## Patterns in a part -/

/-- Whether all conditions on places in the pattern are boundaries of words. -/
def boundariesOnly : Pattern → Bool
  | empty => true
  | chars _ => true
  | anchor a => a = .wordBoundary
  | seq p q => p.boundariesOnly && q.boundariesOnly
  | alt p q => p.boundariesOnly && q.boundariesOnly
  | star p _ => p.boundariesOnly
  | plus p _ => p.boundariesOnly

/-- What a pattern describes in a part it describes in the line. The induction is over the match. -/
theorem Matches.of_extract {p : Pattern} {c e : Cursor} (h : p.Matches c e)
    (hwhole : IsWhole text first last) :
    ∀ {start : Nat}, c = .ofPosition (text.extract first last) start →
      start ≤ (text.extract first last).length → p.boundariesOnly = true →
      p.Describes text (first + start) (first + e.position) := by
  have hlength := length_extract first hwhole.inside.2
  have hinside := hwhole.inside
  have hhere : ∀ {start : Nat}, start ≤ (text.extract first last).length →
      first + start ≤ text.length := by omega
  induction h with
  | empty c =>
    rintro start rfl hstart -
    exact ⟨hhere hstart, .empty _⟩
  | @chars set c x rest ahead mem =>
    rintro start rfl hstart -
    have hdrop : (text.extract first last).drop start = x :: rest := ahead
    have hx : (text.extract first last)[start]? = some x := by
      rw [← List.head?_drop, hdrop, List.head?_cons]
    exact describes_chars.mpr ⟨rfl, x, (getElem?_extract_eq_some_iff.mp hx).2, mem⟩
  | @anchor a c holds =>
    rintro start rfl hstart honly
    obtain rfl := of_decide_eq_true honly
    have hboundary := (Anchor.holds_ofPosition_iff hstart _).mp holds
    have hholds := hwhole.wordBoundary (by omega) hboundary
    exact describes_anchor.mpr
      ⟨rfl, hhere hstart, (Anchor.holds_ofPosition_iff (hhere hstart) _).mpr hholds⟩
  | seq first _ ihFirst ihSecond =>
    intro start hc hstart honly
    rw [boundariesOnly, Bool.and_eq_true] at honly
    obtain ⟨middle, -, hmiddle, rfl⟩ := first.exists_ofPosition _ hc hstart
    exact describes_seq.mpr ⟨_, ihFirst hc hstart honly.1, ihSecond rfl hmiddle honly.2⟩
  | altLeft _ ih =>
    intro start hc hstart honly
    rw [boundariesOnly, Bool.and_eq_true] at honly
    exact describes_alt.mpr (.inl (ih hc hstart honly.1))
  | altRight _ ih =>
    intro start hc hstart honly
    rw [boundariesOnly, Bool.and_eq_true] at honly
    exact describes_alt.mpr (.inr (ih hc hstart honly.2))
  | starNone c =>
    rintro start rfl hstart -
    exact ⟨hhere hstart, .starNone _⟩
  | starMore first _ ihFirst ihMore =>
    intro start hc hstart honly
    obtain ⟨middle, -, hmiddle, rfl⟩ := first.exists_ofPosition _ hc hstart
    obtain ⟨hle, hfirst⟩ := ihFirst hc hstart honly
    exact ⟨hle, .starMore hfirst (ihMore rfl hmiddle honly).2⟩
  | plus first _ ihFirst ihMore =>
    intro start hc hstart honly
    obtain ⟨middle, -, hmiddle, rfl⟩ := first.exists_ofPosition _ hc hstart
    obtain ⟨hle, hfirst⟩ := ihFirst hc hstart honly
    exact ⟨hle, .plus hfirst (ihMore rfl hmiddle honly).2⟩

theorem Describes.of_extract {p : Pattern} (hwhole : IsWhole text first last)
    (honly : p.boundariesOnly = true) (h : p.Describes (text.extract first last) start stop) :
    p.Describes text (first + start) (first + stop) :=
  h.2.of_extract hwhole rfl h.1 honly

/-- Whether there is no condition on places in the pattern. -/
def unanchored : Pattern → Bool
  | empty => true
  | chars _ => true
  | anchor _ => false
  | seq p q => p.unanchored && q.unanchored
  | alt p q => p.unanchored && q.unanchored
  | star p _ => p.unanchored
  | plus p _ => p.unanchored

/-- Where one match ends and another one starts that ends no further than the part, there is a
place of the part. -/
theorem Matches.exists_between {p q : Pattern} {c d e : Cursor} (hp : p.Matches c d)
    (hq : q.Matches d e) (hlast : last ≤ text.length) (hc : c = .ofPosition text (first + start))
    (hstart : first + start ≤ last) (he : e.position ≤ last) :
    ∃ middle, d = .ofPosition text (first + middle) ∧ first + middle ≤ last := by
  obtain ⟨middle, hle, hmiddle, rfl⟩ := hp.exists_ofPosition text hc (Nat.le_trans hstart hlast)
  obtain ⟨stop, hle', -, rfl⟩ := hq.exists_ofPosition text rfl hmiddle
  have he : stop ≤ last := he
  obtain ⟨offset, rfl⟩ : ∃ offset, middle = first + offset := ⟨middle - first, by omega⟩
  exact ⟨offset, rfl, by omega⟩

/-- A match inside a part is one in the part taken by itself. The induction is over the match;
what is matched in between ends no further than the whole, so it lies inside the part too. -/
theorem Matches.extract {p : Pattern} {c e : Cursor} (h : p.Matches c e)
    (hlast : last ≤ text.length) :
    ∀ {start : Nat}, c = .ofPosition text (first + start) → first + start ≤ last →
      e.position ≤ last → p.unanchored = true →
      p.Describes (text.extract first last) start (e.position - first) := by
  have hlength := length_extract first hlast
  have hempty :
      ∀ {start : Nat}, (Cursor.ofPosition text (first + start)).position - first = start :=
    Nat.add_sub_cancel_left ..
  have hbehind :
      ∀ {middle : Nat}, (Cursor.ofPosition text (first + middle)).position = first + middle :=
    rfl
  induction h with
  | empty c =>
    rintro start rfl hstart - -
    rw [hempty]
    exact ⟨by omega, .empty _⟩
  | @chars set c x rest ahead mem =>
    rintro start rfl hstart hstop -
    have hdrop : text.drop (first + start) = x :: rest := ahead
    have hx : text[first + start]? = some x := by
      rw [← List.head?_drop, hdrop, List.head?_cons]
    have hstop : first + start + 1 ≤ last := hstop
    refine describes_chars.mpr ⟨?_, x, getElem?_extract_eq_some_iff.mpr ⟨hstop, hx⟩, mem⟩
    simp only [Cursor.pass, hbehind]
    omega
  | anchor holds =>
    rintro start - - - h
    exact absurd h Bool.false_ne_true
  | seq first second ihFirst ihSecond =>
    intro start hc hstart hstop h
    rw [unanchored, Bool.and_eq_true] at h
    obtain ⟨middle, rfl, hin⟩ := first.exists_between second hlast hc hstart hstop
    have hfirst := ihFirst hc hstart hin h.1
    rw [hempty] at hfirst
    exact describes_seq.mpr ⟨middle, hfirst, ihSecond rfl hin hstop h.2⟩
  | altLeft _ ih =>
    intro start hc hstart hstop h
    rw [unanchored, Bool.and_eq_true] at h
    exact describes_alt.mpr (.inl (ih hc hstart hstop h.1))
  | altRight _ ih =>
    intro start hc hstart hstop h
    rw [unanchored, Bool.and_eq_true] at h
    exact describes_alt.mpr (.inr (ih hc hstart hstop h.2))
  | starNone c =>
    rintro start rfl hstart - -
    rw [hempty]
    exact ⟨by omega, .starNone _⟩
  | starMore first more ihFirst ihMore =>
    intro start hc hstart hstop h
    obtain ⟨middle, rfl, hin⟩ := first.exists_between more hlast hc hstart hstop
    have hfirst := ihFirst hc hstart hin h
    rw [hempty] at hfirst
    exact ⟨hfirst.1, .starMore hfirst.2 (ihMore rfl hin hstop h).2⟩
  | plus first more ihFirst ihMore =>
    intro start hc hstart hstop h
    obtain ⟨middle, rfl, hin⟩ := first.exists_between more hlast hc hstart hstop
    have hfirst := ihFirst hc hstart hin h
    rw [hempty] at hfirst
    exact ⟨hfirst.1, .plus hfirst.2 (ihMore rfl hin hstop h).2⟩

/-- A span that a pattern without conditions on places describes is described as a whole when it
is taken by itself. -/
theorem Describes.extract {p : Pattern} (hp : p.unanchored = true)
    (h : p.Describes text first last) : p.Describes (text.extract first last) 0 (last - first) :=
  h.2.extract h.bounds.2 rfl h.bounds.1 (Nat.le_refl last) hp

/-! ## Runs in a part -/

/-- A run of word characters of some kind in a part is one of the line. -/
theorem IsRun.of_extract {P : Char → Bool} (hwhole : IsWhole text first last)
    (hP : ∀ x, P x = true → Text.isWord x = true)
    (h : IsRun P (text.extract first last) start stop) :
    IsRun P text (first + start) (first + stop) := by
  have hlength := length_extract first hwhole.inside.2
  obtain ⟨hnonempty, hinside, hall, hbefore, hbehind⟩ := h
  have hbounds := hwhole.inside
  have hallText := hall.of_extract (by omega)
  refine ⟨by omega, by omega, hallText, fun x hpos hx => ?_, fun x hx => ?_⟩
  · rcases Nat.eq_zero_or_pos start with rfl | hstart
    · -- The run starts with the part, and a word would go over the start of it.
      have hget : text[first]? = some text[first] := List.getElem?_eq_getElem (by omega)
      have hfirst : P text[first] = true := hallText first _ (Nat.le_refl _) (by omega) hget
      exact eq_false_of_ne_true fun hx' =>
        hwhole.front ⟨x, hpos, hx, hP x hx'⟩ ⟨_, hget, hP _ hfirst⟩
    · refine hbefore x hstart (getElem?_extract_eq_some_iff.mpr ⟨by omega, ?_⟩)
      rw [← Nat.add_sub_assoc hstart]
      exact hx
  · rcases Nat.lt_or_ge (first + stop) last with hlt | hge
    · exact hbehind x (getElem?_extract_eq_some_iff.mpr ⟨hlt, hx⟩)
    · -- The run ends with the part, and a word would go over the end of it.
      obtain rfl : first + stop = last := by omega
      have hget : text[first + stop - 1]? = some text[first + stop - 1] :=
        List.getElem?_eq_getElem (by omega)
      have hlast : P text[first + stop - 1] = true := hallText _ _ (by omega) (by omega) hget
      exact eq_false_of_ne_true fun hx' =>
        hwhole.back ⟨_, by omega, hget, hP _ hlast⟩ ⟨x, hx, hP x hx'⟩

/-- A run of the line, taken by itself, is one run. -/
theorem IsRun.extract {P : Char → Bool} (h : IsRun P text first last) :
    IsRun P (text.extract first last) 0 (last - first) := by
  have hlength := length_extract first h.inside
  have hnonempty := h.nonempty
  refine ⟨by omega, by omega, fun i x _ hi hx => ?_, fun x hpos => absurd hpos (Nat.lt_irrefl 0),
    fun x hx => ?_⟩
  · exact h.all _ x (Nat.le_add_right _ _) (by omega) (getElem?_extract_eq_some_iff.mp hx).2
  · -- Behind its end the part has no character.
    have hlt := (getElem?_extract_eq_some_iff.mp hx).1
    omega

end PrologTokens.Pattern
