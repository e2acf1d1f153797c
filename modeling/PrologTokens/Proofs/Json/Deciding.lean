import PrologTokens.Proofs.Json.Skipping

/-!
# Values that are taken up or refused

A reader of values of one kind takes up the texts of such values, each as what it means, and
refuses every other value there can be. This holds for strings and for natural numbers below a
bound.
-/

set_option autoImplicit false

namespace PrologTokens.Json

variable {α γ : Type}

/-- The reader refuses the text, whatever comes behind it. -/
def Refuses (read : Reader α) (text : List Char) : Prop :=
  ∀ rest, Delimited rest → ∃ fault, read (text.map some ++ rest) = .error fault

theorem Accepts.unique {read : Reader α} {text : List Char} {value value' : α}
    (h : Accepts read text value) (h' : Accepts read text value') : value = value' := by
  have hread := h [] delimited_nil
  rw [h' [] delimited_nil] at hread
  exact (Prod.mk.inj (Except.ok.inj hread)).1.symm

theorem Refuses.not_accepts {read : Reader α} {text : List Char} {value : α}
    (h : Refuses read text) : ¬ Accepts read text value := by
  intro haccepts
  obtain ⟨fault, hread⟩ := h [] delimited_nil
  rw [haccepts [] delimited_nil] at hread
  cases hread

/-- A reader that ignores blanks goes right to the text of a part. -/
theorem IgnoresBlanks.read_written {read : Reader α} (h : IgnoresBlanks read) (part : Padded)
    (rest : Input) :
    read (part.written.map some ++ rest) =
      read (part.text.map some ++ (part.behind.map some ++ rest)) := by
  rw [part.written_append, ← h, skipBlanks_append part.before_blank, h]

/-- The reader takes up the texts that mean something, each as what it means, and refuses all other
values. -/
structure Decides (read : Reader γ) (Means : List Char → γ → Prop) : Prop where
  ignoresBlanks : IgnoresBlanks read
  accepts : ∀ {text : List Char} {value : γ}, Means text value → Accepts read text value
  refuses : ∀ {text : List Char}, IsValue text → (∀ value, ¬ Means text value) → Refuses read text

/-- No text means two things. -/
theorem Decides.means_unique {read : Reader γ} {Means : List Char → γ → Prop}
    (h : Decides read Means) {text : List Char} {value value' : γ} (hvalue : Means text value)
    (hvalue' : Means text value') :
    value = value' :=
  (h.accepts hvalue).unique (h.accepts hvalue')

theorem refuse_eq_error (expected : String) (input : Input) :
    ∃ fault, (Read.refuse expected input : Except Fault (γ × Input)) = .error fault := by
  unfold Read.refuse
  cases Read.found input with
  | error fault => exact ⟨fault, rfl⟩
  | ok what => exact ⟨.mismatch [] (.wrongKind what expected), rfl⟩

/-! ## Strings -/

theorem text_eq_error {c : Char} (hblank : Read.isBlank (some c) = false) (hquote : c ≠ '"')
    (rest : Input) : ∃ fault, Read.text (some c :: rest) = .error fault := by
  rw [Read.text, skipBlanks_cons hblank]
  split
  · rename_i heq
    exact absurd (Option.some.inj (List.cons.inj heq).1) hquote
  · exact refuse_eq_error _ _

theorem decides_text : Decides Read.text IsText where
  ignoresBlanks := ignoresBlanks_text
  accepts := by
    rintro text s ⟨body, rfl, hbody⟩ rest -
    have hread := textBody_isTextBody hbody rest
    simp only [List.cons_append, List.map_append, List.map_cons, List.map_nil, List.append_assoc,
      List.nil_append]
    rw [Read.text, skipBlanks_cons rfl]
    simp only [hread, ok_bind, String.ofList_toList, pure_eq_ok]
  refuses := by
    intro text htext hno rest _
    rcases htext.kinds with hnumber | ⟨s, hs⟩ | ⟨c, more, rfl, hc⟩
    · obtain ⟨c, more, rfl, rfl | hc⟩ := hnumber.eq_cons
      · exact text_eq_error rfl (by decide) _
      · exact text_eq_error (of_isDigit hc).1 (ne_of_isDigit hc rfl) _
    · exact absurd hs (hno s)
    · obtain ⟨hblank, -, -, hquote, -⟩ := of_mem_valueSigns hc
      exact text_eq_error hblank hquote _

/-! ## Numbers -/

/-- If all digits are taken up, the number is the one that they make. -/
theorem ofDigitChars_of_absorb {digits : List Char} {m : Nat} :
    ∀ {n : Nat}, Read.absorb n (digits.map digitValue) = (m, []) →
      Nat.ofDigitChars 10 digits n = m := by
  induction digits with
  | nil =>
    intro n h
    rw [Nat.ofDigitChars_nil]
    exact (Prod.mk.inj h).1
  | cons c digits ih =>
    intro n h
    rw [List.map_cons, Read.absorb] at h
    split at h
    · rw [Nat.ofDigitChars_cons]
      exact ih h
    · cases (Prod.mk.inj h).2

theorem floating_ne_integer (negative : Bool) (m? : Option Decimal.Magnitude) (i : Int) :
    Read.Numeral.value.floating negative m? ≠ .ok (.integer i) := by
  cases m? with
  | none => exact fun h => by cases h
  | some m => exact fun h => by cases h

/-- A number stays whole only if it has neither a fraction nor an exponent. -/
theorem value_eq_integer {n : Read.Numeral} {negative : Bool} {i : Int}
    (h : n.value negative = .ok (.integer i)) :
    n.fraction = [] ∧ n.exponent = none ∧ ∃ m, Read.absorb 0 n.whole = (m, []) ∧
      if negative then i < 0 else i = m := by
  unfold Read.Numeral.value at h
  split at h
  · rename_i m habsorb hfraction hexponent
    refine ⟨hfraction, hexponent, m, habsorb, ?_⟩
    cases negative with
    | false =>
      simp only [Bool.not_false, if_true, Except.ok.injEq, Read.Number.integer.injEq] at h
      simp [h]
    | true =>
      simp only [Bool.not_true, Bool.false_eq_true, if_false] at h
      split at h
      · rename_i hrange
        simp only [Except.ok.injEq, Read.Number.integer.injEq] at h
        simp only [if_true]
        omega
      · exact absurd h (floating_ne_integer true _ i)
  · exact absurd h (floating_ne_integer negative _ i)

theorem check_eq_error {bound : Nat} {typeName : String} {n : Read.Number}
    (h : ∀ i, n = .integer i → ¬ (0 ≤ i ∧ i < (bound : Int))) (rest : Input) :
    ∃ fault, Read.natural.check bound typeName n rest = .error fault := by
  cases n with
  | floating x => exact ⟨_, rfl⟩
  | integer i => exact ⟨_, by rw [Read.natural.check, if_neg (h i rfl)]⟩

/-- A number behind its sign is read, or it is too large. -/
theorem number_isNumber {whole fraction exponent : List Char} (negative : Bool)
    (hwhole : IsWhole whole) (hfraction : IsFraction fraction) (hexponent : IsExponent exponent)
    {rest : Input} (hrest : Delimited rest) :
    (∃ n, Read.number negative ((whole ++ fraction ++ exponent).map some ++ rest) = .ok (n, rest) ∧
      ∀ i, n = .integer i → fraction = [] ∧ exponent = [] ∧
        if negative then i < 0 else i = Nat.ofDigitChars 10 whole 0) ∨
    ∃ fault, Read.number negative ((whole ++ fraction ++ exponent).map some ++ rest) =
      .error fault := by
  obtain ⟨n, hread, hdigits, hfraction', hexponent'⟩ :=
    numeral_isNumber hwhole hfraction hexponent hrest
  simp only [Read.number, hread, ok_bind]
  cases hvalue : n.value negative with
  | error fault => exact .inr ⟨fault, rfl⟩
  | ok value =>
    refine .inl ⟨value, rfl, ?_⟩
    rintro i rfl
    obtain ⟨hnone, hnone', m, habsorb, hi⟩ := value_eq_integer hvalue
    rw [hdigits] at habsorb
    rw [← ofDigitChars_of_absorb habsorb] at hi
    exact ⟨hfraction'.mp hnone, hexponent'.mp hnone', hi⟩

theorem natural_sign (bound : Nat) (typeName : String) (input : Input) :
    Read.natural bound typeName (some '-' :: input) =
      Read.number true input >>= fun read => Read.natural.check bound typeName read.1 read.2 := by
  rw [Read.natural, skipBlanks_cons rfl]
  rfl

theorem natural_digit (bound : Nat) (typeName : String) {c : Char} (hc : c.isDigit = true)
    (input : Input) :
    Read.natural bound typeName (some c :: input) =
      Read.number false (some c :: input) >>= fun read =>
        Read.natural.check bound typeName read.1 read.2 := by
  obtain ⟨hblank, hminus, -⟩ := of_isDigit hc
  rw [Read.natural, skipBlanks_cons hblank]
  simp [hc]

theorem natural_eq_error (bound : Nat) (typeName : String) {c : Char}
    (hblank : Read.isBlank (some c) = false) (hminus : c ≠ '-') (hdigit : c.isDigit = false)
    (rest : Input) : ∃ fault, Read.natural bound typeName (some c :: rest) = .error fault := by
  rw [Read.natural, skipBlanks_cons hblank]
  simp [hdigit, refuse_eq_error]

/-- A number is refused if it has a sign and if its text is not that of a natural number below
the bound. -/
theorem checked_eq_error {bound : Nat} (typeName : String) (negative : Bool)
    {whole fraction exponent : List Char} (hwhole : IsWhole whole) (hfraction : IsFraction fraction)
    (hexponent : IsExponent exponent)
    (hno : negative = false → ∀ n, ¬ (IsDecimal (whole ++ fraction ++ exponent) n ∧ n < bound))
    {rest : Input} (hrest : Delimited rest) :
    ∃ fault,
      (Read.number negative ((whole ++ fraction ++ exponent).map some ++ rest) >>= fun read =>
        Read.natural.check bound typeName read.1 read.2) = .error fault := by
  rcases number_isNumber negative hwhole hfraction hexponent hrest with
    ⟨n, hread, hn⟩ | ⟨fault, hread⟩
  · rw [hread, ok_bind]
    apply check_eq_error
    rintro i rfl ⟨hpos, hlt⟩
    obtain ⟨rfl, rfl, hi⟩ := hn i rfl
    cases negative with
    | false =>
      simp only [Bool.false_eq_true, if_false] at hi
      rw [List.append_nil, List.append_nil] at hno
      exact hno rfl _ ⟨⟨hwhole, rfl⟩, by omega⟩
    | true =>
      simp only [if_true] at hi
      omega
  · exact ⟨fault, by rw [hread]; rfl⟩

theorem decides_natural {bound : Nat} (typeName : String) (hbound : bound ≤ Nat.pow 2 64) :
    Decides (Read.natural bound typeName) fun text n => IsDecimal text n ∧ n < bound where
  ignoresBlanks := ignoresBlanks_natural bound typeName
  accepts := fun ⟨hdecimal, hn⟩ => accepts_decimal typeName hdecimal hn hbound
  refuses := by
    intro text htext hno rest hrest
    rcases htext.kinds with hnumber | ⟨s, body, rfl, -⟩ | ⟨c, more, rfl, hc⟩
    · obtain @⟨sign, whole, fraction, exponent, hsign, hwhole, hfraction, hexponent⟩ := hnumber
      simp only [List.mem_cons, List.not_mem_nil, or_false] at hsign
      rcases hsign with rfl | rfl
      · obtain ⟨fault, hrefused⟩ :=
          checked_eq_error typeName false hwhole hfraction hexponent (fun _ => hno) hrest
        obtain ⟨c, digits, rfl, hc⟩ := hwhole.eq_cons
        exact ⟨fault, (natural_digit bound typeName hc _).trans hrefused⟩
      · rw [List.append_assoc, List.append_assoc, List.singleton_append, List.map_cons,
          List.cons_append, natural_sign, ← List.append_assoc]
        exact checked_eq_error typeName true hwhole hfraction hexponent (fun h => by cases h) hrest
    · exact natural_eq_error bound typeName rfl (by decide) rfl _
    · obtain ⟨hblank, hdigit, hminus, -, -⟩ := of_mem_valueSigns hc
      exact natural_eq_error bound typeName hblank hminus hdigit _

end PrologTokens.Json
