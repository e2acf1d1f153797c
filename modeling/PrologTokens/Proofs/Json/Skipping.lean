import PrologTokens.Proofs.Json.Grammar
import PrologTokens.Proofs.Json.Layout

/-!
# Well-formed texts are taken up

The readers take up what the grammar describes: a string is read as the characters that are
meant, a number as its parts, and any value at all is skipped, however deep its arrays and
objects are nested. The main statement is `skip_isValue`.
-/

set_option autoImplicit false

namespace PrologTokens.Json

/-! ## Strings -/

theorem hex4?_of_isCode {digits : List Char} {code : Nat} (h : IsCode digits code) :
    ∃ a b c d, digits = [a, b, c, d] ∧ Read.hex4? (some a) (some b) (some c) (some d) =
      some code := by
  obtain ⟨hlength, values, hvalues, rfl⟩ := h
  match digits, hlength with
  | [a, b, c, d], _ =>
    refine ⟨a, b, c, d, rfl, ?_⟩
    simp only [List.mapM_cons, List.mapM_nil, Option.pure_def, Option.bind_eq_bind,
      Option.bind_eq_some_iff, Option.some.injEq] at hvalues
    obtain ⟨va, ha, _, ⟨vb, hb, _, ⟨vc, hc, _, ⟨vd, hd, _, rfl, rfl⟩, rfl⟩, rfl⟩, rfl⟩ := hvalues
    simp only [Read.hex4?, Option.bind_some, ha, hb, hc, hd, Option.bind_eq_bind, Option.pure_def,
      Text.digitsValue, List.foldl_cons, List.foldl_nil, Option.some.injEq]
    omega

theorem escaped?_of_mem_letterEscapes {letter c : Char} (h : (letter, c) ∈ letterEscapes) :
    Read.escaped? letter = some c := by
  have hall : ∀ pair ∈ letterEscapes, Read.escaped? pair.1 = some pair.2 := by decide
  exact hall (letter, c) h

theorem textBody_pair {d₁ d₂ d₃ d₄ d₅ d₆ d₇ d₈ : Option Char} {high low : Nat} {c : Char}
    (hfirst : Read.hex4? d₁ d₂ d₃ d₄ = some (0xd800 + high)) (hhigh : high < 0x400)
    (hsecond : Read.hex4? d₅ d₆ d₇ d₈ = some (0xdc00 + low)) (hlow : low < 0x400)
    (hc : c.toNat = 0x10000 + 0x400 * high + low) (rest : Input) :
    Read.textBody (some '\\' :: some 'u' :: d₁ :: d₂ :: d₃ :: d₄ ::
        some '\\' :: some 'u' :: d₅ :: d₆ :: d₇ :: d₈ :: rest) =
      (Read.textBody rest).bind fun read => .ok (c :: read.1, read.2) := by
  have hjoin : Read.joinHalves (0xd800 + high) (0xdc00 + low) = c := by
    have hsum : (0xd800 + high - 0xd800) * 0x400 + (0xdc00 + low - 0xdc00) + 0x10000 = c.toNat := by
      omega
    rw [Read.joinHalves, hsum, Char.ofNat_toNat]
  have hishigh : Read.isHighHalf (0xd800 + high) = true := by
    simp only [Read.isHighHalf, Bool.and_eq_true, decide_eq_true_eq]
    omega
  have hislow : Read.isLowHalf (0xdc00 + low) = true := by
    simp only [Read.isLowHalf, Bool.and_eq_true, decide_eq_true_eq]
    omega
  rw [Read.textBody]
  simp only [hfirst, hishigh, if_true, hsecond, hislow, hjoin]
  rfl

/-- The characters that are meant are read up to the closing quotation mark. -/
theorem textBody_isTextBody {written meant : List Char} (h : IsTextBody written meant)
    (rest : Input) :
    Read.textBody (written.map some ++ some '"' :: rest) = .ok (meant, rest) := by
  induction h with
  | nil => rfl
  | plain hplain _ ih =>
    rw [List.map_cons, List.cons_append, textBody_plain hplain, ih]
    rfl
  | letter hletter _ ih =>
    rw [List.map_cons, List.map_cons, List.cons_append, List.cons_append,
      textBody_letter (escaped?_of_mem_letterEscapes hletter), ih]
    rfl
  | code hcode _ ih =>
    obtain ⟨a, b, c, d, rfl, hhex⟩ := hex4?_of_isCode hcode
    simp only [List.map_cons, List.cons_append, List.nil_append]
    rw [textBody_code hhex, ih]
    rfl
  | pair hfirst hhigh hsecond hlow hc _ ih =>
    obtain ⟨a, b, c, d, rfl, hhex⟩ := hex4?_of_isCode hfirst
    obtain ⟨e, f, g, h, rfl, hhex'⟩ := hex4?_of_isCode hsecond
    simp only [List.map_cons, List.cons_append, List.nil_append]
    rw [textBody_pair hhex hhigh hhex' hlow hc, ih]
    rfl

theorem skipText_plain {c : Char} (h : IsPlain c) (rest : Input) :
    Read.skipText (some c :: rest) = Read.skipText rest := by
  obtain ⟨hquote, hbackslash, hcode⟩ := h
  have hrefused : ¬ (decide (c = '\\') || decide (c.toNat < 0x20)) = true := by
    simp [hbackslash, hcode]
  rw [Read.skipText, if_neg hrefused]
  · exact hquote
  · intro _ _ _ _ _ _ hc
    exact absurd hc hbackslash
  · intro _ _ _ hc
    exact absurd hc hbackslash

theorem skipText_letter {letter c : Char} (h : Read.escaped? letter = some c) (rest : Input) :
    Read.skipText (some '\\' :: some letter :: rest) = Read.skipText rest := by
  have hu : letter ≠ 'u' := by
    rintro rfl
    cases h
  rw [Read.skipText, h]
  · rfl
  · intro _ _ _ _ _ _ hletter
    exact absurd hletter hu

/-- A string is skipped up to its closing quotation mark. -/
theorem skipText_isTextBody {written meant : List Char} (h : IsTextBody written meant)
    (rest : Input) : Read.skipText (written.map some ++ some '"' :: rest) = .ok rest := by
  have hcode : ∀ {d₁ d₂ d₃ d₄ : Option Char} {code : Nat} (input : Input),
      Read.hex4? d₁ d₂ d₃ d₄ = some code →
        Read.skipText (some '\\' :: some 'u' :: d₁ :: d₂ :: d₃ :: d₄ :: input) =
          Read.skipText input := by
    intro d₁ d₂ d₃ d₄ code input hhex
    rw [Read.skipText, hhex]
    rfl
  induction h with
  | nil => rfl
  | plain hplain _ ih =>
    rw [List.map_cons, List.cons_append, skipText_plain hplain, ih]
  | letter hletter _ ih =>
    rw [List.map_cons, List.map_cons, List.cons_append, List.cons_append,
      skipText_letter (escaped?_of_mem_letterEscapes hletter), ih]
  | code h _ ih =>
    obtain ⟨a, b, c, d, rfl, hhex⟩ := hex4?_of_isCode h
    simp only [List.map_cons, List.cons_append, List.nil_append]
    rw [hcode _ hhex, ih]
  | pair hfirst _ hsecond _ _ _ ih =>
    obtain ⟨a, b, c, d, rfl, hhex⟩ := hex4?_of_isCode hfirst
    obtain ⟨e, f, g, h, rfl, hhex'⟩ := hex4?_of_isCode hsecond
    simp only [List.map_cons, List.cons_append, List.nil_append]
    rw [hcode _ hhex, hcode _ hhex', ih]

/-! ## Numbers -/

theorem fractionPart_isFraction {fraction : List Char} (h : IsFraction fraction) {rest : Input}
    (hrest : DigitsEnd rest) (hpoint : rest.head? ≠ some (some '.')) :
    ∃ digits, Read.fractionPart (fraction.map some ++ rest) = .ok (digits, rest) ∧
      (digits = [] ↔ fraction = []) := by
  cases h with
  | none => exact ⟨[], fractionPart_of_ne hpoint, by simp⟩
  | @some digits h =>
    obtain ⟨d, digits, rfl⟩ := List.exists_cons_of_ne_nil h.1
    refine ⟨(d :: digits).map digitValue, ?_, by simp⟩
    rw [List.map_cons, List.cons_append, Read.fractionPart, digits_append h.2 hrest]
    rfl

theorem exponentPart_isExponent {exponent : List Char} (h : IsExponent exponent) {rest : Input}
    (hrest : Delimited rest) :
    ∃ part, Read.exponentPart (exponent.map some ++ rest) = .ok (part, rest) ∧
      (part = none ↔ exponent = []) := by
  cases h with
  | none => exact ⟨none, exponentPart_delimited hrest, by simp⟩
  | @some letter sign digits hletter hsign h =>
    have hdigits := digits_append h.2 hrest.digitsEnd
    obtain ⟨d, digits, rfl⟩ := List.exists_cons_of_ne_nil h.1
    have hd := h.2 d List.mem_cons_self
    have hletter' : (decide (letter = 'e') || decide (letter = 'E')) = true := by
      simpa using hletter
    simp only [List.mem_cons, List.not_mem_nil, or_false] at hsign
    rcases hsign with rfl | rfl | rfl
    · refine ⟨some (false, (d :: digits).map digitValue), ?_, by simp⟩
      have hplus : d ≠ '+' := by
        rintro rfl
        cases hd
      have hminus : d ≠ '-' := by
        rintro rfl
        cases hd
      simp only [List.map_cons, List.nil_append, List.cons_append] at hdigits ⊢
      simp [Read.exponentPart, hletter', hplus, hminus, hdigits]
    · refine ⟨some (false, (d :: digits).map digitValue), ?_, by simp⟩
      simp only [List.map_cons, List.nil_append, List.cons_append] at hdigits ⊢
      simp only [Read.exponentPart, hletter', if_true, hdigits]
    · refine ⟨some (true, (d :: digits).map digitValue), ?_, by simp⟩
      simp only [List.map_cons, List.nil_append, List.cons_append] at hdigits ⊢
      simp only [Read.exponentPart, hletter', if_true, hdigits]

/-- What a number starts with behind its whole part goes on with no digit. -/
theorem numeral_isNumber {whole fraction exponent : List Char} (hwhole : IsWhole whole)
    (hfraction : IsFraction fraction) (hexponent : IsExponent exponent) {rest : Input}
    (hrest : Delimited rest) :
    ∃ n : Read.Numeral, Read.numeral ((whole ++ fraction ++ exponent).map some ++ rest) =
      .ok (n, rest) ∧ n.whole = whole.map digitValue ∧ (n.fraction = [] ↔ fraction = []) ∧
      (n.exponent = none ↔ exponent = []) := by
  have hbehind : DigitsEnd (exponent.map some ++ rest) ∧
      (exponent.map some ++ rest).head? ≠ some (some '.') := by
    cases hexponent with
    | none => exact ⟨hrest.digitsEnd, hrest.head?_ne_point⟩
    | some hletter _ _ =>
      simp only [List.mem_cons, List.not_mem_nil, or_false] at hletter
      rcases hletter with rfl | rfl <;> simp [DigitsEnd]
  have hnext : DigitsEnd (fraction.map some ++ (exponent.map some ++ rest)) := by
    cases hfraction with
    | none => exact hbehind.1
    | some _ => simp [DigitsEnd]
  obtain ⟨digits, hread, hdigits⟩ := fractionPart_isFraction hfraction hbehind.1 hbehind.2
  obtain ⟨part, hread', hpart⟩ := exponentPart_isExponent hexponent hrest
  refine ⟨⟨whole.map digitValue, digits, part⟩, ?_, rfl, hdigits, hpart⟩
  rw [List.map_append, List.map_append, List.append_assoc, List.append_assoc,
    numeral_append hwhole hnext]
  simp only [hread, hread', ok_bind, pure_eq_ok]

/-! ## Parts of a document -/

theorem delimited_closed {closing : Char} (hclosing : closing ∈ [']', '\x7d'])
    (parts : List (List Char)) (rest : Input) :
    Delimited ((closed closing parts).map some ++ rest) := by
  cases parts with
  | nil => exact delimited_cons (of_mem_closing hclosing).2
  | cons part parts => exact delimited_cons (by decide)

/-- What a number at the end of a part has behind it. -/
theorem Padded.delimited_behind (part : Padded) {rest : Input} (hrest : Delimited rest) :
    Delimited (part.behind.map some ++ rest) :=
  delimited_blank_append part.behind_blank hrest

theorem Padded.written_append (part : Padded) (rest : Input) :
    part.written.map some ++ rest =
      part.before.map some ++ (part.text.map some ++ (part.behind.map some ++ rest)) := by
  simp [Padded.written]

/-- The parts of a member, with what is written between the quotation marks of its name. -/
theorem Member.written_append (member : Member) :
    ∃ body, IsTextBody body member.key.toList ∧ ∀ rest : Input, member.written.map some ++ rest =
      member.name.before.map some ++ some '"' :: (body.map some ++ some '"' ::
        (member.name.behind.map some ++ some ':' :: (member.value.written.map some ++ rest))) := by
  obtain ⟨body, hname, hbody⟩ := member.name_isText
  refine ⟨body, hbody, fun rest => ?_⟩
  simp only [Member.written, List.map_append, List.append_assoc, member.name.written_append, hname]
  simp

/-! ## Values -/

/-- Two units of fuel for each character are enough for skipping the text. -/
def IsSkipped (text : List Char) : Prop :=
  ∀ (fuel : Nat) (rest : Input), Delimited rest → 2 * text.length ≤ fuel →
    Read.skipValue fuel (text.map some ++ rest) = .ok rest

/-- Blanks in front make no difference to what is skipped. -/
theorem skip_skipBlanks (fuel : Nat) (input : Input) :
    Read.skipValue fuel (Read.skipBlanks input) = Read.skipValue fuel input ∧
    Read.skipItems fuel (Read.skipBlanks input) = Read.skipItems fuel input ∧
    Read.skipMembers fuel (Read.skipBlanks input) = Read.skipMembers fuel input := by
  have hvalue :
      ∀ fuel, Read.skipValue fuel (Read.skipBlanks input) = Read.skipValue fuel input := by
    intro fuel
    cases fuel with
    | zero => simp only [Read.skipValue]
    | succ fuel => simp only [Read.skipValue, skipBlanks_skipBlanks]
  refine ⟨hvalue fuel, ?_, ?_⟩
  · cases fuel with
    | zero => simp only [Read.skipItems]
    | succ fuel => simp only [Read.skipItems, hvalue]
  · cases fuel with
    | zero => simp only [Read.skipMembers]
    | succ fuel => simp only [Read.skipMembers, skipBlanks_skipBlanks]

/-- A value is skipped with the blanks in front of it, but not those behind. -/
theorem IsSkipped.padded {part : Padded} (h : IsSkipped part.text) (fuel : Nat)
    (hfuel : 2 * part.written.length ≤ fuel) {rest : Input} (hrest : Delimited rest) :
    Read.skipValue fuel (part.written.map some ++ rest) = .ok (part.behind.map some ++ rest) := by
  have hlength : part.text.length ≤ part.written.length := by
    simp only [Padded.written, List.length_append]
    omega
  rw [part.written_append, ← (skip_skipBlanks fuel _).1, skipBlanks_append part.before_blank,
    (skip_skipBlanks fuel _).1]
  exact h fuel _ (part.delimited_behind hrest) (by omega)

/-- What is found behind a part, where the next one follows or the closing bracket. -/
theorem skipBlanks_closed {blanks : List Char} (hblanks : AllBlank blanks) {closing : Char}
    (hclosing : closing ∈ [']', '\x7d']) (parts : List (List Char)) (rest : Input) :
    Read.skipBlanks (blanks.map some ++ ((closed closing parts).map some ++ rest)) =
      (closed closing parts).map some ++ rest := by
  rw [skipBlanks_append hblanks]
  cases parts with
  | nil => exact skipBlanks_cons (of_mem_closing hclosing).1
  | cons part parts => exact skipBlanks_cons (by decide)

/-- Behind an item the reader goes on with the next one or stops. -/
theorem skipItems_item {item : Padded} (h : IsSkipped item.text)
    {parts : List (List Char)} {fuel : Nat}
    (hfuel : 2 * (item.written ++ closed ']' parts).length ≤ fuel) (rest : Input) :
    Read.skipItems (fuel + 1) ((item.written ++ closed ']' parts).map some ++ rest) =
      match (closed ']' parts).map some ++ rest with
      | some ',' :: rest => Read.skipItems fuel rest
      | some ']' :: rest => .ok rest
      | _ => .error .malformed := by
  have hbracket : ']' ∈ [']', '\x7d'] := List.mem_cons_self
  rw [List.length_append] at hfuel
  have hskip := h.padded fuel (by omega) (delimited_closed hbracket parts rest)
  have hnext := skipBlanks_closed item.behind_blank hbracket parts rest
  rw [List.map_append, List.append_assoc, Read.skipItems, hskip]
  simp only [ok_bind, hnext]
  rfl

/-- The items of an array are skipped one after the other. The induction is over the items to
come. -/
theorem skipItems_closed (items : List Padded) :
    ∀ {item : Padded} {fuel : Nat} (rest : Input), (∀ i ∈ item :: items, IsSkipped i.text) →
      2 * (item.written ++ closed ']' (items.map Padded.written)).length < fuel →
        Read.skipItems fuel ((item.written ++ closed ']' (items.map Padded.written)).map some ++
          rest) = .ok rest := by
  induction items with
  | nil =>
    intro item fuel rest h hfuel
    obtain ⟨fuel, rfl⟩ := Nat.exists_eq_add_one.mpr (Nat.lt_of_le_of_lt (Nat.zero_le _) hfuel)
    exact skipItems_item (h item List.mem_cons_self) (Nat.le_of_lt_succ hfuel) rest
  | cons next items ih =>
    intro item fuel rest h hfuel
    obtain ⟨fuel, rfl⟩ := Nat.exists_eq_add_one.mpr (Nat.lt_of_le_of_lt (Nat.zero_le _) hfuel)
    rw [skipItems_item (h item List.mem_cons_self) (Nat.le_of_lt_succ hfuel) rest]
    refine ih rest (fun i hi => h i (List.mem_cons_of_mem item hi)) ?_
    simp only [List.map_cons, closed, List.length_append, List.length_cons] at hfuel ⊢
    omega

/-- Behind a member the reader goes on with the next one or stops. -/
theorem skipMembers_member {member : Member} (h : IsSkipped member.value.text)
    {parts : List (List Char)} {fuel : Nat}
    (hfuel : 2 * (member.written ++ closed '\x7d' parts).length ≤ fuel) (rest : Input) :
    Read.skipMembers (fuel + 1) ((member.written ++ closed '\x7d' parts).map some ++ rest) =
      match (closed '\x7d' parts).map some ++ rest with
      | some ',' :: rest => Read.skipMembers fuel rest
      | some '\x7d' :: rest => .ok rest
      | _ => .error .malformed := by
  have hbracket : '\x7d' ∈ [']', '\x7d'] := by decide
  simp only [Member.written, List.length_append, List.length_cons] at hfuel
  obtain ⟨body, hbody, hwritten⟩ := member.written_append
  have hskip := h.padded fuel (by omega) (delimited_closed hbracket parts rest)
  have hnext := skipBlanks_closed member.value.behind_blank hbracket parts rest
  rw [List.map_append, List.append_assoc, hwritten, Read.skipMembers,
    skipBlanks_append member.name.before_blank, skipBlanks_cons rfl]
  simp only [skipText_isTextBody hbody, ok_bind, skipBlanks_append member.name.behind_blank,
    skipBlanks_cons (c := ':') rfl, hskip, hnext]
  rfl

/-- The members of an object are skipped one after the other. -/
theorem skipMembers_closed (members : List Member) :
    ∀ {member : Member} {fuel : Nat} (rest : Input),
      (∀ m ∈ member :: members, IsSkipped m.value.text) →
      2 * (member.written ++ closed '\x7d' (members.map Member.written)).length < fuel →
        Read.skipMembers fuel
            ((member.written ++ closed '\x7d' (members.map Member.written)).map some ++ rest) =
          .ok rest := by
  induction members with
  | nil =>
    intro member fuel rest h hfuel
    obtain ⟨fuel, rfl⟩ := Nat.exists_eq_add_one.mpr (Nat.lt_of_le_of_lt (Nat.zero_le _) hfuel)
    exact skipMembers_member (h member List.mem_cons_self) (Nat.le_of_lt_succ hfuel) rest
  | cons next members ih =>
    intro member fuel rest h hfuel
    obtain ⟨fuel, rfl⟩ := Nat.exists_eq_add_one.mpr (Nat.lt_of_le_of_lt (Nat.zero_le _) hfuel)
    rw [skipMembers_member (h member List.mem_cons_self) (Nat.le_of_lt_succ hfuel) rest]
    refine ih rest (fun m hm => h m (List.mem_cons_of_mem member hm)) ?_
    simp only [List.map_cons, closed, List.length_append, List.length_cons] at hfuel ⊢
    omega

/-- A value that is neither an array nor an object is skipped by its first character. -/
theorem isSkipped_scalar {c : Char} {more : List Char} (hblank : Read.isBlank (some c) = false)
    (harray : c ≠ '[') (hobject : c ≠ '\x7b')
    (h : ∀ rest, Delimited rest → Read.skipScalar c (more.map some ++ rest) = .ok rest) :
    IsSkipped (c :: more) := by
  intro fuel rest hrest hfuel
  obtain ⟨fuel, rfl⟩ : ∃ n, fuel = n + 1 :=
    Nat.exists_eq_add_one.mpr (by rw [List.length_cons] at hfuel; omega)
  rw [List.map_cons, List.cons_append, Read.skipValue, skipBlanks_cons hblank]
  split
  · rename_i heq
    exact absurd (Option.some.inj (List.cons.inj heq).1) harray
  · rename_i heq
    exact absurd (Option.some.inj (List.cons.inj heq).1) hobject
  · rename_i heq
    obtain ⟨hc, rfl⟩ := List.cons.inj heq
    rw [← Option.some.inj hc, h rest hrest]
  · rename_i hnone
    exact absurd rfl (hnone c _)

/-- A digit is none of the signs that a value of another kind starts with. -/
theorem ne_of_isDigit {c d : Char} (hc : c.isDigit = true) (hd : d.isDigit = false) : c ≠ d := by
  rintro rfl
  rw [hc] at hd
  cases hd

theorem isSkipped_number {text : List Char} (h : IsNumber text) : IsSkipped text := by
  obtain @⟨sign, whole, fraction, exponent, hsign, hwhole, hfraction, hexponent⟩ := h
  simp only [List.mem_cons, List.not_mem_nil, or_false] at hsign
  rcases hsign with rfl | rfl
  · obtain ⟨c, digits, rfl⟩ := List.exists_cons_of_ne_nil hwhole.1.1
    have hc := hwhole.1.2 c List.mem_cons_self
    refine isSkipped_scalar (of_isDigit hc).1 (ne_of_isDigit hc rfl) (ne_of_isDigit hc rfl)
      fun rest hrest => ?_
    obtain ⟨n, hread, -⟩ := numeral_isNumber hwhole hfraction hexponent hrest
    rw [Read.skipScalar, if_neg (ne_of_isDigit hc rfl), if_neg (ne_of_isDigit hc rfl),
      if_neg (ne_of_isDigit hc rfl), if_neg (ne_of_isDigit hc rfl), if_neg (ne_of_isDigit hc rfl),
      if_pos hc]
    exact congrArg (Except.map (·.2)) hread
  · refine isSkipped_scalar rfl (by decide) (by decide) fun rest hrest => ?_
    obtain ⟨n, hread, -⟩ := numeral_isNumber hwhole hfraction hexponent hrest
    exact congrArg (Except.map (·.2)) hread

/-- An array that does not end at once is skipped by its items. -/
theorem skipValue_array {input : Input} (h : ∀ rest, Read.skipBlanks input ≠ some ']' :: rest)
    (fuel : Nat) : Read.skipValue (fuel + 1) (some '[' :: input) = Read.skipItems fuel input := by
  have hopen : Read.skipBlanks (some '[' :: input) = some '[' :: input := rfl
  simp only [Read.skipValue, hopen]
  exact (skip_skipBlanks fuel input).2.1

/-- An object that does not end at once is skipped by its members. -/
theorem skipValue_object {input : Input} (h : ∀ rest, Read.skipBlanks input ≠ some '\x7d' :: rest)
    (fuel : Nat) :
    Read.skipValue (fuel + 1) (some '\x7b' :: input) = Read.skipMembers fuel input := by
  have hopen : Read.skipBlanks (some '\x7b' :: input) = some '\x7b' :: input := rfl
  simp only [Read.skipValue, hopen]
  exact (skip_skipBlanks fuel input).2.2

/-- A number starts with a minus sign or a digit. -/
theorem IsNumber.eq_cons {text : List Char} (h : IsNumber text) :
    ∃ c more, text = c :: more ∧ (c = '-' ∨ c.isDigit = true) := by
  obtain @⟨sign, whole, fraction, exponent, hsign, hwhole, -, -⟩ := h
  simp only [List.mem_cons, List.not_mem_nil, or_false] at hsign
  rcases hsign with rfl | rfl
  · obtain ⟨c, digits, rfl, hc⟩ := hwhole.eq_cons
    exact ⟨c, _, rfl, .inr hc⟩
  · exact ⟨'-', _, rfl, .inl rfl⟩

/-- The signs that words, arrays and objects start with. -/
def valueSigns : List Char := ['n', 't', 'f', '[', '\x7b']

theorem of_mem_valueSigns {c : Char} (h : c ∈ valueSigns) :
    Read.isBlank (some c) = false ∧ c.isDigit = false ∧ c ≠ '-' ∧ c ≠ '"' ∧ c ≠ ']' := by
  simp only [valueSigns, List.mem_cons, List.not_mem_nil, or_false] at h
  rcases h with rfl | rfl | rfl | rfl | rfl <;> decide

/-- A value that is neither a number nor a string is a word, an array or an object. -/
theorem IsValue.kinds {text : List Char} (h : IsValue text) :
    IsNumber text ∨ (∃ s, IsText text s) ∨ ∃ c more, text = c :: more ∧ c ∈ valueSigns := by
  have hbracketed : ∀ {opening closing : Char} {blanks : List Char} (parts : List (List Char)),
      ∃ more, bracketed opening closing blanks parts = opening :: more := by
    intro opening closing blanks parts
    cases parts with
    | nil => exact ⟨_, rfl⟩
    | cons part parts => exact ⟨_, rfl⟩
  cases h with
  | word h =>
    simp only [valueWords, List.mem_cons, List.not_mem_nil, or_false] at h
    rcases h with rfl | rfl | rfl <;> exact .inr (.inr ⟨_, _, rfl, by decide⟩)
  | number h => exact .inl h
  | text h => exact .inr (.inl ⟨_, h⟩)
  | array _ _ =>
    obtain ⟨more, heq⟩ := hbracketed _
    exact .inr (.inr ⟨'[', more, heq, by decide⟩)
  | object _ _ =>
    obtain ⟨more, heq⟩ := hbracketed _
    exact .inr (.inr ⟨'\x7b', more, heq, by decide⟩)

/-- A value is told from the end of the array that it stands in. -/
theorem IsValue.startsItem {text : List Char} (h : IsValue text) : StartsItem text := by
  rcases h.kinds with hnumber | ⟨s, body, rfl, -⟩ | ⟨c, more, rfl, hc⟩
  · obtain ⟨c, more, rfl, rfl | hc⟩ := hnumber.eq_cons
    · exact ⟨'-', more, rfl, rfl, by decide⟩
    · exact ⟨c, more, rfl, (of_isDigit hc).1, ne_of_isDigit hc rfl⟩
  · exact ⟨'"', _, rfl, rfl, by decide⟩
  · obtain ⟨hblank, -, -, -, hclosing⟩ := of_mem_valueSigns hc
    exact ⟨c, more, rfl, hblank, hclosing⟩

/-- No array ends where a padded value stands. -/
theorem Padded.not_closing {part : Padded} (h : StartsItem part.text) (more : List Char)
    (rest : Input) :
    ∀ behind, Read.skipBlanks ((part.written ++ more).map some ++ rest) ≠ some ']' :: behind := by
  obtain ⟨c, input, hc, -, hskip⟩ := h.skipBlanks_gap part.before_blank (part.behind ++ more) rest
  intro behind heq
  have hsame : part.before.map some ++ ((part.text ++ (part.behind ++ more)).map some ++ rest) =
      (part.written ++ more).map some ++ rest := by simp [Padded.written]
  rw [hsame, heq] at hskip
  exact hc (Option.some.inj (List.cons.inj hskip).1).symm

/-- No object ends where a member stands. -/
theorem Member.not_closing (member : Member) (more : List Char) (rest : Input) :
    ∀ behind, Read.skipBlanks ((member.written ++ more).map some ++ rest) ≠
      some '\x7d' :: behind := by
  obtain ⟨body, -, hwritten⟩ := member.written_append
  intro behind heq
  rw [List.map_append, List.append_assoc, hwritten, skipBlanks_append member.name.before_blank,
    skipBlanks_cons rfl] at heq
  cases heq

/-- Every value is skipped. The induction is over the value. -/
theorem IsValue.isSkipped {text : List Char} (h : IsValue text) : IsSkipped text := by
  induction h with
  | word h =>
    simp only [valueWords, List.mem_cons, List.not_mem_nil, or_false] at h
    rcases h with rfl | rfl | rfl
    · exact isSkipped_scalar rfl (by decide) (by decide) fun rest _ => rfl
    · exact isSkipped_scalar rfl (by decide) (by decide) fun rest _ => rfl
    · exact isSkipped_scalar rfl (by decide) (by decide) fun rest _ => rfl
  | number h => exact isSkipped_number h
  | text h =>
    obtain ⟨body, rfl, hbody⟩ := h
    rw [List.cons_append]
    refine isSkipped_scalar rfl (by decide) (by decide) fun rest _ => ?_
    rw [List.map_append, List.append_assoc]
    exact skipText_isTextBody hbody rest
  | @array blanks items hblanks hitems ih =>
    intro fuel rest _ hfuel
    cases items with
    | nil =>
      rw [List.map_nil, bracketed, List.length_append] at hfuel
      obtain ⟨fuel, rfl⟩ : ∃ n, fuel = n + 1 := Nat.exists_eq_add_one.mpr (by simp at hfuel; omega)
      simp only [List.map_nil, bracketed, List.map_append, List.map_cons, List.append_assoc,
        List.cons_append, List.nil_append]
      rw [Read.skipValue, skipBlanks_cons rfl]
      simp only [skipBlanks_append hblanks, skipBlanks_cons (c := ']') rfl]
    | cons item items =>
      rw [List.map_cons, bracketed, List.cons_append, List.length_cons] at hfuel
      obtain ⟨fuel, rfl⟩ : ∃ n, fuel = n + 1 := Nat.exists_eq_add_one.mpr (by omega)
      have hstarts := (hitems item List.mem_cons_self).startsItem
      rw [List.map_cons, bracketed, List.cons_append, List.map_cons, List.cons_append,
        skipValue_array (Padded.not_closing hstarts _ rest)]
      exact skipItems_closed items rest ih (by omega)
  | @object blanks members hblanks _ ih =>
    intro fuel rest _ hfuel
    cases members with
    | nil =>
      rw [List.map_nil, bracketed, List.length_append] at hfuel
      obtain ⟨fuel, rfl⟩ : ∃ n, fuel = n + 1 := Nat.exists_eq_add_one.mpr (by simp at hfuel; omega)
      simp only [List.map_nil, bracketed, List.map_append, List.map_cons, List.append_assoc,
        List.cons_append, List.nil_append]
      rw [Read.skipValue, skipBlanks_cons rfl]
      simp only [skipBlanks_append hblanks, skipBlanks_cons (c := '\x7d') rfl]
    | cons member members =>
      rw [List.map_cons, bracketed, List.cons_append, List.length_cons] at hfuel
      obtain ⟨fuel, rfl⟩ : ∃ n, fuel = n + 1 := Nat.exists_eq_add_one.mpr (by omega)
      rw [List.map_cons, bracketed, List.cons_append, List.map_cons, List.cons_append,
        skipValue_object (member.not_closing _ rest)]
      exact skipMembers_closed members rest ih (by omega)

/-- A value that is not needed is skipped, whatever it is. -/
theorem skip_isValue {part : Padded} (h : IsValue part.text) {rest : Input}
    (hrest : Delimited rest) :
    Read.skip (part.written.map some ++ rest) = .ok (part.behind.map some ++ rest) := by
  refine h.isSkipped.padded _ ?_ hrest
  rw [List.length_append, List.length_map]
  omega

end PrologTokens.Json
