import Mathlib.Data.List.Basic
import Mathlib.Data.Option.Basic
import PrologTokens.Server.Address

/-!
# Numerals in addresses

An address is made of numbers: decimal ones for the parts of an IPv4 address, for scopes and
ports, and hexadecimal ones for the groups of an IPv6 address. Each is read from the digits at
the start of a text, as many as there are.

A reader gives what it has read together with the rest. It is `Sound` if what it has taken up
means what it gives, and `Complete` if it takes up whatever means something, with any rest
behind it that does not go on with the same. The part of an IPv4 address is read only as it is
written: without zeros in front.
-/

set_option autoImplicit false

namespace PrologTokens.Server.Address

/-! ## Readers -/

section

variable {α : Type} (Means : List Char → α → Prop) (read : List Char → Option (α × List Char))

/-- What the reader takes up means what it gives. -/
def Sound : Prop :=
  ∀ text value rest, read text = some (value, rest) →
    ∃ front, text = front ++ rest ∧ Means front value

/-- The reader takes up what means something, if the rest behind it is as it should be. -/
def Complete (Rest : List Char → Prop) : Prop :=
  ∀ front value rest, Means front value → Rest rest → read (front ++ rest) = some (value, rest)

end

/-! ## Digits -/

/-- No digit of the base stands at the start of the text. -/
def NoDigit (base : Nat) (text : List Char) : Prop := ∀ c ∈ text.head?, digit? base c = none

theorem noDigit_nil {base : Nat} : NoDigit base [] := fun _ hc => absurd hc (Option.not_mem_none _)

theorem noDigit_cons {base : Nat} {c : Char} {text : List Char} (h : digit? base c = none) :
    NoDigit base (c :: text) := by
  intro d hd
  cases hd
  exact h

/-- A decimal digit is a hexadecimal one with the same value. -/
theorem digit?_hexadecimal {c : Char} {d : Nat} (h : digit? 10 c = some d) :
    digit? 16 c = some d := by
  obtain ⟨hvalue, hd⟩ := Option.filter_eq_some_iff.mp h
  have hlt : d < 16 := Nat.lt_trans (of_decide_eq_true hd) (by decide)
  exact Option.filter_eq_some_iff.mpr ⟨hvalue, decide_eq_true hlt⟩

theorem NoDigit.decimal {text : List Char} (h : NoDigit 16 text) : NoDigit 10 text := by
  intro c hc
  refine Option.eq_none_iff_forall_ne_some.mpr fun d hd => ?_
  exact Option.some_ne_none d ((digit?_hexadecimal hd).symm.trans (h c hc))

/-- The characters are digits with the given values. -/
def AreDigits (base : Nat) (text : List Char) (ds : List Nat) : Prop :=
  text.map (digit? base) = ds.map some

theorem areDigits_cons {base d : Nat} {c : Char} {text : List Char} {ds : List Nat} :
    AreDigits base (c :: text) (d :: ds) ↔ digit? base c = some d ∧ AreDigits base text ds := by
  rw [AreDigits, List.map_cons, List.map_cons, List.cons.injEq, AreDigits]

theorem AreDigits.length_eq {base : Nat} {text : List Char} {ds : List Nat}
    (h : AreDigits base text ds) : text.length = ds.length := by
  have hlength := congrArg List.length h
  rwa [List.length_map, List.length_map] at hlength

theorem AreDigits.append {base : Nat} {text text' : List Char} {ds ds' : List Nat}
    (h : AreDigits base text ds) (h' : AreDigits base text' ds') :
    AreDigits base (text ++ text') (ds ++ ds') := by
  rw [AreDigits, List.map_append, List.map_append, h, h']

/-- Decimal digits are hexadecimal ones with the same values. -/
theorem AreDigits.hexadecimal {text : List Char} {ds : List Nat} (h : AreDigits 10 text ds) :
    AreDigits 16 text ds := by
  induction text generalizing ds with
  | nil => exact h
  | cons c text ih =>
    cases ds with
    | nil => cases h
    | cons d ds =>
      obtain ⟨hc, htext⟩ := areDigits_cons.mp h
      exact areDigits_cons.mpr ⟨digit?_hexadecimal hc, ih htext⟩

/-- Digits have one list of values only. -/
theorem AreDigits.unique {base : Nat} {text : List Char} {ds ds' : List Nat}
    (h : AreDigits base text ds) (h' : AreDigits base text ds') : ds = ds' :=
  List.map_injective_iff.mpr (Option.some_injective Nat) (h.symm.trans h')

/-- Digits are taken up as far as they go. -/
theorem digits_append {base : Nat} {front rest : List Char} {ds : List Nat}
    (h : AreDigits base front ds) (hrest : NoDigit base rest) :
    digits base (front ++ rest) = (ds, rest) := by
  induction front generalizing ds with
  | nil =>
    obtain rfl : ds = [] := List.map_eq_nil_iff.mp h.symm
    cases rest with
    | nil => rfl
    | cons c rest => rw [List.nil_append, digits, hrest c rfl]
  | cons c front ih =>
    cases ds with
    | nil => cases h
    | cons d ds =>
      obtain ⟨hc, hfront⟩ := areDigits_cons.mp h
      rw [List.cons_append, digits, hc]
      simp only [ih hfront]

theorem digits_of_noDigit {base : Nat} {text : List Char} (h : NoDigit base text) :
    digits base text = ([], text) := by
  have hnone : AreDigits base [] [] := rfl
  exact digits_append hnone h

/-- What is taken up are digits, and none is left over. -/
theorem exists_of_digits {base : Nat} {text rest : List Char} {ds : List Nat}
    (h : digits base text = (ds, rest)) :
    ∃ front, text = front ++ rest ∧ AreDigits base front ds ∧ NoDigit base rest := by
  induction text generalizing ds with
  | nil =>
    cases h
    exact ⟨[], rfl, rfl, noDigit_nil⟩
  | cons c text ih =>
    rw [digits] at h
    split at h
    · rename_i hnone
      cases h
      exact ⟨[], rfl, rfl, noDigit_cons hnone⟩
    · rename_i d hd
      obtain ⟨rfl, hrest⟩ := Prod.mk.inj h
      obtain ⟨front, hfront, hdigits, hend⟩ := ih (Prod.ext rfl hrest)
      exact ⟨c :: front, congrArg (c :: ·) hfront, areDigits_cons.mpr ⟨hd, hdigits⟩, hend⟩

/-! ## Numbers -/

/-- Digits that write a number in the base, at most `width` of them where it is given. -/
def IsNumeral (base : Nat) (width : Option Nat) (text : List Char) (n : Nat) : Prop :=
  ∃ ds, AreDigits base text ds ∧ ds ≠ [] ∧ (∀ w ∈ width, ds.length ≤ w) ∧
    Text.digitsValue base ds = n

/-- A numeral writes one number only. -/
theorem IsNumeral.unique {base n n' : Nat} {width width' : Option Nat} {text : List Char}
    (h : IsNumeral base width text n) (h' : IsNumeral base width' text n') : n = n' := by
  obtain ⟨ds, hdigits, -, -, rfl⟩ := h
  obtain ⟨ds', hdigits', -, -, rfl⟩ := h'
  rw [hdigits.unique hdigits']

/-- When a number is read. -/
theorem number?_eq_some_iff {base bound n : Nat} {width : Option Nat} {text rest : List Char} :
    number? base width bound text = some (n, rest) ↔
      ∃ ds, digits base text = (ds, rest) ∧ ds ≠ [] ∧ (∀ w ∈ width, ds.length ≤ w) ∧
        Text.digitsValue base ds = n ∧ n < bound := by
  cases hdigits : digits base text with
  | mk ds rest' =>
    have hwidth : width.any (· < ds.length) = true ↔ ¬ ∀ w ∈ width, ds.length ≤ w := by
      simp [Option.any_eq_true]
    simp only [number?, hdigits, Option.ite_none_left_eq_some, Option.some.injEq, Prod.mk.injEq,
      Bool.or_eq_true, List.isEmpty_iff, hwidth, decide_eq_true_eq, not_or, not_not, Nat.not_le]
    constructor
    · rintro ⟨⟨⟨hne, hlength⟩, hbound⟩, rfl, rfl⟩
      exact ⟨ds, ⟨rfl, rfl⟩, hne, hlength, rfl, hbound⟩
    · rintro ⟨_, ⟨rfl, rfl⟩, hne, hlength, rfl, hbound⟩
      exact ⟨⟨⟨hne, hlength⟩, hbound⟩, rfl, rfl⟩

theorem number?_sound (base : Nat) (width : Option Nat) (bound : Nat) :
    Sound (fun text n => IsNumeral base width text n ∧ n < bound) (number? base width bound) := by
  intro text n rest h
  obtain ⟨ds, hdigits, hne, hlength, hvalue, hbound⟩ := number?_eq_some_iff.mp h
  obtain ⟨front, hfront, hare, -⟩ := exists_of_digits hdigits
  exact ⟨front, hfront, ⟨ds, hare, hne, hlength, hvalue⟩, hbound⟩

theorem number?_complete (base : Nat) (width : Option Nat) (bound : Nat) :
    Complete (fun text n => IsNumeral base width text n ∧ n < bound) (number? base width bound)
      (NoDigit base) := by
  rintro front n rest ⟨⟨ds, hare, hne, hlength, hvalue⟩, hbound⟩ hrest
  exact number?_eq_some_iff.mpr ⟨ds, digits_append hare hrest, hne, hlength, hvalue, hbound⟩

/-! ## Decimal numbers as they are written -/

/-- The decimal digits and their values. -/
theorem digit?_ten_eq_some_iff {c : Char} {d : Nat} :
    digit? 10 c = some d ↔ d < 10 ∧ c = Nat.digitChar d := by
  constructor
  · intro h
    obtain ⟨hvalue, hd⟩ := Option.filter_eq_some_iff.mp h
    have hd : d < 10 := of_decide_eq_true hd
    refine ⟨hd, Char.toNat_inj.mp ?_⟩
    rw [Nat.toNat_digitChar_of_lt_ten hd]
    unfold Text.hexValue? at hvalue
    split at hvalue
    · rename_i hbetween
      rw [Bool.and_eq_true, decide_eq_true_eq, decide_eq_true_eq] at hbetween
      have hlow : 48 ≤ c.toNat := hbetween.1
      have hcode : c.toNat - 48 = d := Option.some.inj hvalue
      omega
    · -- A letter stands for ten or more.
      split at hvalue
      · have := Option.some.inj hvalue
        omega
      · split at hvalue
        · have := Option.some.inj hvalue
          omega
        · cases hvalue
  · rintro ⟨hd, rfl⟩
    have hall : ∀ d, d < 10 → digit? 10 (Nat.digitChar d) = some d := by decide
    exact hall d hd

/-- Decimal digits that follow those of a number make a number that is written with both. -/
theorem toDigits_append_digits {text : List Char} {ds : List Nat} {n : Nat} (hn : 0 < n)
    (h : AreDigits 10 text ds) :
    Nat.toDigits 10 n ++ text = Nat.toDigits 10 (ds.foldl (fun n d => 10 * n + d) n) := by
  induction text generalizing ds n with
  | nil =>
    obtain rfl : ds = [] := List.map_eq_nil_iff.mp h.symm
    rw [List.append_nil, List.foldl_nil]
  | cons c text ih =>
    cases ds with
    | nil => cases h
    | cons d ds =>
      obtain ⟨hc, htext⟩ := areDigits_cons.mp h
      obtain ⟨hd, rfl⟩ := digit?_ten_eq_some_iff.mp hc
      have hlonger : Nat.toDigits 10 n ++ [Nat.digitChar d] = Nat.toDigits 10 (10 * n + d) := by
        rw [← Nat.toDigits_append_toDigits (by decide) hn hd, Nat.toDigits_of_lt_base hd]
      rw [List.foldl_cons, ← ih (by omega) htext, ← hlonger, List.append_assoc,
        List.singleton_append]

/-- Decimal digits without a zero in front are those that are written for their number. -/
theorem eq_toDigits {text : List Char} {ds : List Nat} (h : AreDigits 10 text ds) (hne : ds ≠ [])
    (hzero : ∀ d others, ds ≠ 0 :: d :: others) :
    text = Nat.toDigits 10 (Text.digitsValue 10 ds) := by
  obtain ⟨d, others, rfl⟩ := List.exists_cons_of_ne_nil hne
  cases text with
  | nil => cases h
  | cons c text =>
    obtain ⟨hc, htext⟩ := areDigits_cons.mp h
    obtain ⟨hd, rfl⟩ := digit?_ten_eq_some_iff.mp hc
    have hfirst : Nat.toDigits 10 d = [Nat.digitChar d] := Nat.toDigits_of_lt_base hd
    rcases Nat.eq_zero_or_pos d with rfl | hpos
    · cases others with
      | nil =>
        obtain rfl : text = [] := List.map_eq_nil_iff.mp htext
        exact hfirst.symm
      | cons next others => exact absurd rfl (hzero next others)
    · calc Nat.digitChar d :: text
          = Nat.toDigits 10 d ++ text := by rw [hfirst, List.singleton_append]
        _ = Nat.toDigits 10 (others.foldl (fun n d => 10 * n + d) d) :=
          toDigits_append_digits hpos htext
        _ = Nat.toDigits 10 (Text.digitsValue 10 (d :: others)) := by
          rw [Text.digitsValue, List.foldl_cons, Nat.mul_zero, Nat.zero_add]

/-- The digits that are written for a number are decimal digits without a zero in front that
make the number. -/
theorem exists_digits_toDigits (n : Nat) :
    ∃ ds, AreDigits 10 (Nat.toDigits 10 n) ds ∧ ds ≠ [] ∧ (∀ d others, ds ≠ 0 :: d :: others) ∧
      Text.digitsValue 10 ds = n := by
  induction n using Nat.strongRecOn with
  | ind n ih =>
    have hlast {d : Nat} (hd : d < 10) : AreDigits 10 [Nat.digitChar d] [d] :=
      areDigits_cons.mpr ⟨digit?_ten_eq_some_iff.mpr ⟨hd, rfl⟩, rfl⟩
    rw [Nat.toDigits_eq_if (by decide)]
    split
    · rename_i hlt
      exact ⟨[n], hlast hlt, List.cons_ne_nil _ _, by simp, by simp [Text.digitsValue]⟩
    · obtain ⟨ds, hare, hne, hzero, hvalue⟩ := ih (n / 10) (by omega)
      refine ⟨ds ++ [n % 10], hare.append (hlast (Nat.mod_lt n (by decide))), by simp, ?_, ?_⟩
      · intro d others heq
        match ds, hne, heq with
        | [first], _, heq =>
          -- The digits in front are those of a number other than zero.
          obtain rfl : first = 0 := (List.cons.inj heq).1
          simp only [Text.digitsValue, List.foldl_cons, List.foldl_nil] at hvalue
          omega
        | first :: second :: more, _, heq =>
          obtain rfl : first = 0 := (List.cons.inj heq).1
          exact hzero second more rfl
      · rw [Text.digitsValue, List.foldl_append]
        change 10 * Text.digitsValue 10 ds + n % 10 = n
        rw [hvalue]
        exact Nat.div_add_mod n 10

/-- The digits that are written for a number are a numeral. -/
theorem isNumeral_toDigits (n : Nat) : IsNumeral 10 none (Nat.toDigits 10 n) n := by
  obtain ⟨ds, hare, hne, -, hvalue⟩ := exists_digits_toDigits n
  exact ⟨ds, hare, hne, fun w hw => absurd hw (Option.not_mem_none w), hvalue⟩

/-! ## Bytes and groups -/

/-- The digits that are written for a byte. -/
def IsByte (text : List Char) (byte : UInt8) : Prop := text = Nat.toDigits 10 byte.toNat

theorem byte?_sound : Sound IsByte byte? := by
  intro text byte rest h
  unfold byte? at h
  split at h
  · cases h
  · rename_i hzero
    obtain ⟨⟨n, rest'⟩, hnumber, heq⟩ := Option.map_eq_some_iff.mp h
    obtain ⟨ds, hdigits, hne, -, hvalue, hbound⟩ := number?_eq_some_iff.mp hnumber
    obtain ⟨front, hfront, hare, -⟩ := exists_of_digits hdigits
    obtain ⟨rfl, rfl⟩ := Prod.mk.inj heq
    refine ⟨front, hfront, ?_⟩
    have hfirst : ∀ d others, ds ≠ 0 :: d :: others := by
      rintro d others rfl
      exact hzero d others rest' hdigits
    rw [IsByte, UInt8.toNat_ofNat_of_lt' hbound, ← hvalue]
    exact eq_toDigits hare hne hfirst

theorem byte?_complete : Complete IsByte byte? (NoDigit 10) := by
  rintro _ byte rest rfl hrest
  obtain ⟨ds, hare, hne, hzero, hvalue⟩ := exists_digits_toDigits byte.toNat
  have hdigits := digits_append hare hrest
  have hlength : (Nat.toDigits 10 byte.toNat).length ≤ 3 :=
    (Nat.length_toDigits_le_iff (by decide) (by decide)).mpr
      (Nat.lt_trans byte.toNat_lt (by decide))
  have hnumber : number? 10 (some 3) 256 (Nat.toDigits 10 byte.toNat ++ rest) =
      some (byte.toNat, rest) := by
    refine number?_eq_some_iff.mpr ⟨ds, hdigits, hne, fun w hw => ?_, hvalue, byte.toNat_lt⟩
    cases hw
    rwa [← hare.length_eq]
  unfold byte?
  split
  · rename_i d others rest' hpair
    rw [hdigits] at hpair
    exact absurd (Prod.mk.inj hpair).1 (hzero d others)
  · simp only [hnumber, Option.map_some, UInt8.ofNat_toNat]

/-- Four hexadecimal digits at most, with letters of either size, and the group that they write. -/
def IsGroup (text : List Char) (group : UInt16) : Prop := IsNumeral 16 (some 4) text group.toNat

theorem group?_sound : Sound IsGroup group? := by
  intro text group rest h
  obtain ⟨⟨n, rest'⟩, hnumber, heq⟩ := Option.map_eq_some_iff.mp h
  obtain ⟨rfl, rfl⟩ := Prod.mk.inj heq
  obtain ⟨front, hfront, hnumeral, hbound⟩ := number?_sound 16 (some 4) 65536 _ _ _ hnumber
  refine ⟨front, hfront, ?_⟩
  rwa [IsGroup, UInt16.toNat_ofNat_of_lt' hbound]

theorem group?_complete : Complete IsGroup group? (NoDigit 16) := by
  intro front group rest h hrest
  have hnumber := number?_complete 16 (some 4) 65536 _ _ _ ⟨h, group.toNat_lt⟩ hrest
  simp only [group?, hnumber, Option.map_some, UInt16.ofNat_toNat]

end PrologTokens.Server.Address
