import PrologTokens.Json.Read
import PrologTokens.Json.Value
import PrologTokens.Proofs.Except

/-!
# Reading back strings and numbers

A reader accepts a text for a value if it takes up exactly that text and gives that value, whatever
comes behind it; only digits and the other characters that go on with a number must not come right
behind. The quoted text of a string, with every character escaped as it has to be, is accepted for
the string, and the decimal digits of a number for the number as long as it is within its bound.
-/

set_option autoImplicit false

namespace PrologTokens.Json

/-! ## Accepted texts -/

/-- No number goes on at the start of the input. -/
def Delimited (rest : Input) : Prop :=
  ∀ c, rest.head? = some (some c) → c.isDigit = false ∧ c ≠ '.' ∧ c ≠ 'e' ∧ c ≠ 'E'

/-- The reader takes up exactly the text and gives the value. Stated with an arbitrary input behind
the text, so that it composes through concatenation. -/
def Accepts {α : Type} (read : Reader α) (text : List Char) (value : α) : Prop :=
  ∀ rest, Delimited rest → read (text.map some ++ rest) = .ok (value, rest)

/-- All characters of the text are blanks between the parts of a document. -/
def AllBlank (text : List Char) : Prop := ∀ c ∈ text, Read.isBlank (some c) = true

/-- Blanks in front make no difference to the reader. -/
def IgnoresBlanks {α : Type} (read : Reader α) : Prop :=
  ∀ input, read (Read.skipBlanks input) = read input

theorem delimited_nil : Delimited [] := by
  intro c h
  simp at h

theorem delimited_cons {c : Char} {rest : Input}
    (h : c.isDigit = false ∧ c ≠ '.' ∧ c ≠ 'e' ∧ c ≠ 'E') : Delimited (some c :: rest) := by
  intro d hd
  simp only [List.head?_cons, Option.some.injEq] at hd
  exact hd ▸ h

/-! ## Blanks -/

theorem allBlank_nil : AllBlank [] := fun _ hc => absurd hc List.not_mem_nil

theorem skipBlanks_cons {c : Char} {rest : Input} (h : Read.isBlank (some c) = false) :
    Read.skipBlanks (some c :: rest) = some c :: rest := by
  simp [Read.skipBlanks, h]

theorem skipBlanks_append {text : List Char} (h : AllBlank text) (rest : Input) :
    Read.skipBlanks (text.map some ++ rest) = Read.skipBlanks rest := by
  induction text with
  | nil => rfl
  | cons c text ih =>
    have hc : Read.isBlank (some c) = true := h c List.mem_cons_self
    have htext : AllBlank text := fun d hd => h d (List.mem_cons_of_mem c hd)
    rw [List.map_cons, List.cons_append, Read.skipBlanks, List.dropWhile_cons_of_pos hc]
    exact ih htext

theorem skipBlanks_skipBlanks (input : Input) :
    Read.skipBlanks (Read.skipBlanks input) = Read.skipBlanks input := by
  induction input with
  | nil => rfl
  | cons c input ih =>
    cases hc : Read.isBlank c with
    | true =>
      simp only [Read.skipBlanks, List.dropWhile_cons_of_pos hc] at ih ⊢
      exact ih
    | false =>
      have hstop : Read.skipBlanks (c :: input) = c :: input := by simp [Read.skipBlanks, hc]
      rw [hstop, hstop]

/-- Blanks are no part of a number. -/
theorem delimited_blank_append {text : List Char} (h : AllBlank text) {rest : Input}
    (hrest : Delimited rest) : Delimited (text.map some ++ rest) := by
  cases text with
  | nil => exact hrest
  | cons c text =>
    have hc : Read.isBlank (some c) = true := h c List.mem_cons_self
    apply delimited_cons
    simp only [Read.isBlank, Option.some.injEq, Bool.or_eq_true, decide_eq_true_eq] at hc
    rcases hc with ((rfl | rfl) | rfl) | rfl <;> decide

/-- An accepted text stays accepted with blanks in front of it. -/
theorem Accepts.blank_append {α : Type} {read : Reader α} {text blanks : List Char} {value : α}
    (h : Accepts read text value) (hread : IgnoresBlanks read) (hblanks : AllBlank blanks) :
    Accepts read (blanks ++ text) value := by
  intro rest hrest
  rw [List.map_append, List.append_assoc, ← hread, skipBlanks_append hblanks, hread]
  exact h rest hrest

/-- A document that is accepted up to blanks at its end is decoded. -/
theorem decode_of_accepts {α : Type} {read : Reader α} {text blanks : List Char} {value : α}
    (h : Accepts read text value) (hblanks : AllBlank blanks) :
    decode read (.ofString (String.ofList (text ++ blanks))) = .ok value := by
  have hrest := delimited_blank_append hblanks delimited_nil
  have hread :
      read (text.map some ++ (blanks.map some ++ [])) = .ok (value, blanks.map some ++ []) :=
    h _ hrest
  have hend : Read.skipBlanks (blanks.map some ++ []) = [] := skipBlanks_append hblanks []
  rw [decode, Input.ofString, String.toList_ofList, List.map_append]
  rw [List.append_nil] at hread hend
  rw [hread]
  simp only [ok_bind, hend, pure_eq_ok]

/-! ## Strings -/

/-- A character that may stand for itself between quotation marks. -/
def IsPlain (c : Char) : Prop := c ≠ '"' ∧ c ≠ '\\' ∧ 0x20 ≤ c.toNat

theorem hexValue?_hexDigit : ∀ d, d < 16 → Text.hexValue? (hexDigit d) = some d := by decide

/-- The three ways in which a character is written: by a letter or sign behind a backslash, by its
code, and as itself. -/
theorem escapeChar_cases (c : Char) :
    (∃ letter, Read.escaped? letter = some c ∧ escapeChar c = ['\\', letter]) ∨
    (c.toNat < 0x20 ∧ escapeChar c =
      ['\\', 'u', '0', '0', hexDigit (c.toNat / 16), hexDigit (c.toNat % 16)]) ∨
    (IsPlain c ∧ escapeChar c = [c]) := by
  unfold escapeChar
  split
  · exact .inl ⟨'"', by simp [Read.escaped?, *], rfl⟩
  split
  · exact .inl ⟨'\\', by simp [Read.escaped?, *], rfl⟩
  split
  · exact .inl ⟨'b', by simp [Read.escaped?, *], rfl⟩
  split
  · exact .inl ⟨'f', by simp [Read.escaped?, *], rfl⟩
  split
  · exact .inl ⟨'n', by simp [Read.escaped?, *], rfl⟩
  split
  · exact .inl ⟨'r', by simp [Read.escaped?, *], rfl⟩
  split
  · exact .inl ⟨'t', by simp [Read.escaped?, *], rfl⟩
  split
  · rename_i hcontrol
    exact .inr (.inl ⟨hcontrol, rfl⟩)
  · rename_i hquote hbackslash _ _ _ _ _ hcontrol
    exact .inr (.inr ⟨⟨hquote, hbackslash, Nat.le_of_not_lt hcontrol⟩, rfl⟩)

theorem textBody_letter {letter c : Char} (h : Read.escaped? letter = some c) (rest : Input) :
    Read.textBody (some '\\' :: some letter :: rest) =
      (Read.textBody rest).bind fun read => .ok (c :: read.1, read.2) := by
  have hu : letter ≠ 'u' := by
    rintro rfl
    cases h
  rw [Read.textBody, h]
  · rfl
  · intro _ _ _ _ _ _ hletter
    exact absurd hletter hu

theorem textBody_plain {c : Char} (h : IsPlain c) (rest : Input) :
    Read.textBody (some c :: rest) =
      (Read.textBody rest).bind fun read => .ok (c :: read.1, read.2) := by
  obtain ⟨hquote, hbackslash, hcode⟩ := h
  have hrefused : ¬ (decide (c = '\\') || decide (c.toNat < 0x20)) = true := by
    simp [hbackslash, hcode]
  rw [Read.textBody, if_neg hrefused]
  · rfl
  · exact hquote
  · intro _ _ _ _ _ _ hc
    exact absurd hc hbackslash
  · intro _ _ _ hc
    exact absurd hc hbackslash

/-- The code of a character is no half of a pair. -/
theorem not_half (c : Char) : Read.isHighHalf c.toNat = false ∧ Read.isLowHalf c.toNat = false := by
  have hvalid : c.toNat < 0xd800 ∨ 0xdfff < c.toNat := c.valid.imp_right And.left
  simp only [Read.isHighHalf, Read.isLowHalf, Bool.and_eq_false_iff, decide_eq_false_iff_not]
  omega

theorem textBody_code {d₁ d₂ d₃ d₄ : Option Char} {c : Char}
    (h : Read.hex4? d₁ d₂ d₃ d₄ = some c.toNat) (rest : Input) :
    Read.textBody (some '\\' :: some 'u' :: d₁ :: d₂ :: d₃ :: d₄ :: rest) =
      (Read.textBody rest).bind fun read => .ok (c :: read.1, read.2) := by
  rw [Read.textBody]
  simp only [h, not_half, Bool.false_eq_true, if_false, Char.ofNat_toNat]
  rfl

theorem hex4?_control {c : Char} (h : c.toNat < 0x20) :
    Read.hex4? (some '0') (some '0') (some (hexDigit (c.toNat / 16)))
      (some (hexDigit (c.toNat % 16))) = some c.toNat := by
  have hhigh := hexValue?_hexDigit (c.toNat / 16) (by omega)
  have hlow := hexValue?_hexDigit (c.toNat % 16) (by omega)
  have hzero : Text.hexValue? '0' = some 0 := by decide
  simp only [Read.hex4?, Option.bind_some, hhigh, hlow, hzero, Option.bind_eq_bind, Option.pure_def,
    Option.some.injEq]
  omega

theorem textBody_escapeChar (c : Char) (rest : Input) :
    Read.textBody ((escapeChar c).map some ++ rest) =
      (Read.textBody rest).bind fun read => .ok (c :: read.1, read.2) := by
  rcases escapeChar_cases c with ⟨letter, hletter, hesc⟩ | ⟨hcontrol, hesc⟩ | ⟨hplain, hesc⟩
  · rw [hesc]
    exact textBody_letter hletter rest
  · rw [hesc]
    exact textBody_code (hex4?_control hcontrol) rest
  · rw [hesc]
    exact textBody_plain hplain rest

/-- The characters of a string are read back up to its closing quotation mark. -/
theorem textBody_escaped (text : List Char) (rest : Input) :
    Read.textBody ((text.flatMap escapeChar).map some ++ some '"' :: rest) = .ok (text, rest) := by
  induction text with
  | nil => rfl
  | cons c text ih =>
    rw [List.flatMap_cons, List.map_append, List.append_assoc, textBody_escapeChar, ih]
    rfl

theorem quote_map_append (s : String) (rest : Input) :
    (quote s).map some ++ rest =
      some '"' :: ((s.toList.flatMap escapeChar).map some ++ some '"' :: rest) := by
  simp [quote]

theorem accepts_text (s : String) : Accepts Read.text (quote s) s := by
  intro rest _
  rw [quote_map_append, Read.text, skipBlanks_cons rfl]
  simp only [textBody_escaped, ok_bind, String.ofList_toList, pure_eq_ok]

theorem ignoresBlanks_text : IgnoresBlanks Read.text := by
  intro input
  rw [Read.text, Read.text, skipBlanks_skipBlanks]

/-- The name of a thing is accepted for the thing that is found under it. -/
theorem accepts_choice {α : Type} {find? : String → Option α} {allowed : List String}
    {name : String} {value : α} (h : find? name = some value) :
    Accepts (Read.choice find? allowed) (quote name) value := by
  intro rest _
  rw [quote_map_append, Read.choice, skipBlanks_cons rfl]
  simp only [textBody_escaped, ok_bind, String.ofList_toList, Read.named, h, pure_eq_ok]

theorem ignoresBlanks_choice {α : Type} (find? : String → Option α) (allowed : List String) :
    IgnoresBlanks (Read.choice find? allowed) := by
  intro input
  rw [Read.choice, Read.choice, skipBlanks_skipBlanks]

/-! ## Numbers -/

/-- The value of a decimal digit. -/
def digitValue (c : Char) : Nat := c.toNat - '0'.toNat

/-- No digit stands at the start of the input. -/
def DigitsEnd (rest : Input) : Prop := ∀ c, rest.head? = some (some c) → c.isDigit = false

theorem Delimited.digitsEnd {rest : Input} (h : Delimited rest) : DigitsEnd rest :=
  fun c hc => (h c hc).1

theorem digits_append {text : List Char} (h : ∀ c ∈ text, c.isDigit = true) {rest : Input}
    (hrest : DigitsEnd rest) :
    Read.digits (text.map some ++ rest) = (text.map digitValue, rest) := by
  induction text with
  | nil =>
    cases rest with
    | nil => rfl
    | cons c rest =>
      cases c with
      | none => rfl
      | some c => simp [Read.digits, hrest c rfl]
  | cons c text ih =>
    have hc : c.isDigit = true := h c List.mem_cons_self
    have htext : ∀ d ∈ text, d.isDigit = true := fun d hd => h d (List.mem_cons_of_mem c hd)
    simp [Read.digits, hc, ih htext, digitValue]

theorem fractionPart_of_ne {rest : Input} (h : rest.head? ≠ some (some '.')) :
    Read.fractionPart rest = .ok ([], rest) := by
  rw [Read.fractionPart.eq_def]
  split
  · exact absurd rfl h
  · rfl

theorem Delimited.head?_ne_point {rest : Input} (h : Delimited rest) :
    rest.head? ≠ some (some '.') :=
  fun hpoint => (h '.' hpoint).2.1 rfl

theorem exponentPart_delimited {rest : Input} (h : Delimited rest) :
    Read.exponentPart rest = .ok (none, rest) := by
  rw [Read.exponentPart.eq_def]
  split
  · rename_i c rest
    obtain ⟨-, -, he, hE⟩ := h c rfl
    simp [he, hE]
  · rfl

/-- Digits are all taken up as long as the number they make stays below `2 ^ 64`; that it does at
the end is enough, since it never shrinks. -/
theorem absorb_eq {digits : List Char} :
    ∀ {n : Nat}, Nat.ofDigitChars 10 digits n < Nat.pow 2 64 →
      Read.absorb n (digits.map digitValue) = (Nat.ofDigitChars 10 digits n, []) := by
  have hgrows : ∀ (digits : List Char) (n : Nat), n ≤ Nat.ofDigitChars 10 digits n := by
    intro digits
    induction digits with
    | nil =>
      intro n
      exact Nat.le_of_eq Nat.ofDigitChars_nil.symm
    | cons c digits ih =>
      intro n
      rw [Nat.ofDigitChars_cons]
      have := ih (10 * n + (c.toNat - '0'.toNat))
      omega
  induction digits with
  | nil =>
    intro n h
    rw [Nat.ofDigitChars_nil]
    rfl
  | cons c digits ih =>
    intro n h
    rw [Nat.ofDigitChars_cons] at h ⊢
    have hstep : 10 * n + digitValue c < Nat.pow 2 64 := Nat.lt_of_le_of_lt (hgrows digits _) h
    rw [List.map_cons, Read.absorb, if_pos hstep]
    exact ih h

/-- The decimal digits of a number other than zero do not start with a zero. -/
theorem head?_toDigits {n : Nat} (h : n ≠ 0) : (Nat.toDigits 10 n).head? ≠ some '0' := by
  induction n using Nat.strongRecOn with
  | ind n ih =>
    rw [Nat.toDigits_eq_if (by decide)]
    split
    · rename_i hlt
      have hdigit : ∀ d, d < 10 → d ≠ 0 → [Nat.digitChar d].head? ≠ some '0' := by decide
      exact hdigit n hlt h
    · rename_i hge
      have htail := ih (n / 10) (by omega) (by omega)
      cases hdigits : Nat.toDigits 10 (n / 10) with
      | nil => exact absurd hdigits Nat.toDigits_ne_nil
      | cons c digits =>
        rw [hdigits] at htail
        simpa using htail

theorem isDigit_of_mem_toDigits {n : Nat} {c : Char} (h : c ∈ Nat.toDigits 10 n) :
    c.isDigit = true :=
  Nat.isDigit_of_mem_toDigits (by decide) (by decide) h

theorem eq_zero_of_digitValue {c : Char} (hdigit : c.isDigit = true) (h : digitValue c = 0) :
    c = '0' := by
  simp only [Char.isDigit, Bool.and_eq_true, decide_eq_true_eq, ge_iff_le,
    UInt32.le_iff_toNat_le] at hdigit
  have hcode : c.val.toNat = c.toNat := rfl
  simp only [digitValue, ← hcode] at h
  apply Char.ext
  apply UInt32.toNat_inj.mp
  exact Nat.le_antisymm (Nat.le_of_sub_eq_zero h) hdigit.1

/-- Digits, at least one. -/
def IsDigits (text : List Char) : Prop := text ≠ [] ∧ ∀ c ∈ text, c.isDigit = true

/-- The digits of a whole number: only zero itself starts with a zero. -/
def IsWhole (text : List Char) : Prop := IsDigits text ∧ (text.head? = some '0' → text = ['0'])

theorem isWhole_toDigits (n : Nat) : IsWhole (Nat.toDigits 10 n) := by
  refine ⟨⟨Nat.toDigits_ne_nil, fun c => isDigit_of_mem_toDigits⟩, fun hzero => ?_⟩
  by_cases hn : n = 0
  · rw [hn, Nat.toDigits_zero]
  · exact absurd hzero (head?_toDigits hn)

/-- A number is read from its whole part, then its fraction and its exponent. -/
theorem numeral_append {whole : List Char} (h : IsWhole whole) {rest : Input}
    (hrest : DigitsEnd rest) : Read.numeral (whole.map some ++ rest) = (do
      let (fraction, rest) ← Read.fractionPart rest
      let (exponent, rest) ← Read.exponentPart rest
      return (⟨whole.map digitValue, fraction, exponent⟩, rest)) := by
  obtain ⟨⟨hne, hdigits⟩, hzero⟩ := h
  rw [Read.numeral, digits_append hdigits hrest]
  split
  · rename_i hnil
    simp only [Prod.mk.injEq, List.map_eq_nil_iff] at hnil
    exact absurd hnil.1 hne
  · rename_i second others rest' hpair
    -- A leading zero with a digit behind it.
    have hmap : whole.map digitValue = 0 :: second :: others := (Prod.mk.inj hpair).1
    obtain ⟨c, digits, rfl, hc, hothers⟩ := List.map_eq_cons_iff.mp hmap
    obtain rfl := eq_zero_of_digitValue (hdigits c List.mem_cons_self) hc
    obtain rfl : digits = [] := (List.cons.inj (hzero rfl)).2
    cases hothers
  · rename_i whole' rest' _ hpair
    obtain ⟨rfl, rfl⟩ := Prod.mk.inj hpair
    rfl

theorem numeral_whole {whole : List Char} (h : IsWhole whole) {rest : Input}
    (hrest : Delimited rest) :
    Read.numeral (whole.map some ++ rest) = .ok (⟨whole.map digitValue, [], none⟩, rest) := by
  rw [numeral_append h hrest.digitsEnd]
  simp only [fractionPart_of_ne hrest.head?_ne_point, exponentPart_delimited hrest,
    ok_bind, pure_eq_ok]

/-- The digits of a natural number, without a sign. -/
def IsDecimal (text : List Char) (n : Nat) : Prop := IsWhole text ∧ Nat.ofDigitChars 10 text 0 = n

theorem isDecimal_toDigits (n : Nat) : IsDecimal (Nat.toDigits 10 n) n :=
  ⟨isWhole_toDigits n, Nat.ofDigitChars_ten_toDigits⟩

theorem number_decimal {text : List Char} {n : Nat} (h : IsDecimal text n) (hn : n < Nat.pow 2 64)
    {rest : Input} (hrest : Delimited rest) :
    Read.number false (text.map some ++ rest) = .ok (.integer n, rest) := by
  obtain ⟨hwhole, rfl⟩ := h
  simp [Read.number, numeral_whole hwhole hrest, Read.Numeral.value, absorb_eq hn]

/-- What stands at the start of a whole number. -/
theorem IsWhole.eq_cons {text : List Char} (h : IsWhole text) :
    ∃ c digits, text = c :: digits ∧ c.isDigit = true := by
  obtain ⟨c, digits, rfl⟩ := List.exists_cons_of_ne_nil h.1.1
  exact ⟨c, digits, rfl, h.1.2 c List.mem_cons_self⟩

/-- A digit is neither a blank nor a sign nor the start of a word. -/
theorem of_isDigit {c : Char} (h : c.isDigit = true) :
    Read.isBlank (some c) = false ∧ c ≠ '-' ∧ c ≠ 'n' := by
  refine ⟨?_, ?_, ?_⟩
  · rw [Read.isBlank]
    simp only [Bool.or_eq_false_iff, decide_eq_false_iff_not, Option.some.injEq]
    refine ⟨⟨⟨?_, ?_⟩, ?_⟩, ?_⟩ <;> · rintro rfl; exact absurd h (by decide)
  · rintro rfl
    exact absurd h (by decide)
  · rintro rfl
    exact absurd h (by decide)

/-- The digits of a number are accepted for it if it is within the bound. -/
theorem accepts_decimal {bound n : Nat} (typeName : String) {text : List Char}
    (h : IsDecimal text n) (hn : n < bound) (hbound : bound ≤ Nat.pow 2 64) :
    Accepts (Read.natural bound typeName) text n := by
  intro rest hrest
  obtain ⟨c, digits, rfl, hc⟩ := h.1.eq_cons
  obtain ⟨hblank, hminus, -⟩ := of_isDigit hc
  have hnumber := number_decimal h (Nat.lt_of_lt_of_le hn hbound) hrest
  have hcheck : Read.natural.check bound typeName (.integer n) rest = .ok (n, rest) := by
    have hrange : (0 : Int) ≤ n ∧ (n : Int) < bound := by omega
    simp [Read.natural.check, hrange]
  rw [List.map_cons, List.cons_append] at hnumber ⊢
  rw [Read.natural, skipBlanks_cons hblank]
  split
  · rename_i rest' heq
    simp only [List.cons.injEq, Option.some.injEq] at heq
    exact absurd heq.1 hminus
  · rename_i d rest' _ heq
    obtain ⟨hd, rfl⟩ := List.cons.inj heq
    obtain rfl := Option.some.inj hd
    simp only [hc, if_true, hnumber, ok_bind]
    exact hcheck
  · rename_i hnot
    exact absurd rfl (hnot c _)

theorem accepts_natural {bound n : Nat} (typeName : String) (hn : n < bound)
    (hbound : bound ≤ Nat.pow 2 64) : Accepts (Read.natural bound typeName) (Nat.toDigits 10 n) n :=
  accepts_decimal typeName (isDecimal_toDigits n) hn hbound

theorem ignoresBlanks_natural (bound : Nat) (typeName : String) :
    IgnoresBlanks (Read.natural bound typeName) := by
  intro input
  rw [Read.natural, Read.natural, skipBlanks_skipBlanks]

/-- A number may stand where a number or nothing is expected. -/
theorem accepts_optional_natural {bound n : Nat} (typeName : String) (hn : n < bound)
    (hbound : bound ≤ Nat.pow 2 64) :
    Accepts (Read.optional (Read.natural bound typeName)) (Nat.toDigits 10 n) (some n) := by
  intro rest hrest
  obtain ⟨c, digits, hdigits, hc⟩ := (isWhole_toDigits n).eq_cons
  obtain ⟨hblank, -, hnull⟩ := of_isDigit hc
  have hread := accepts_natural typeName hn hbound rest hrest
  rw [hdigits, List.map_cons, List.cons_append] at hread ⊢
  rw [Read.optional, skipBlanks_cons hblank]
  split
  · rename_i rest' heq
    simp only [List.cons.injEq, Option.some.injEq] at heq
    exact absurd heq.1 hnull
  · simp only [hread, ok_bind, pure_eq_ok]

theorem ignoresBlanks_optional {α : Type} (read : Reader α) :
    IgnoresBlanks (Read.optional read) := by
  intro input
  rw [Read.optional, Read.optional, skipBlanks_skipBlanks]

end PrologTokens.Json
