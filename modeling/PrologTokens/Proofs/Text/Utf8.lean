import PrologTokens.Text.Utf8

/-!
# Bytes of a text and back

The bytes of a text in UTF-8 are decoded into its characters, none of them broken, and no bytes
decode into more characters than there are bytes.
-/

set_option autoImplicit false

namespace PrologTokens.Text.Utf8

/-- The bytes of a text. -/
def encode (s : String) : List UInt8 := s.toUTF8.data.toList

theorem encode_eq_flatMap (s : String) : encode s = s.toList.flatMap String.utf8EncodeChar := by
  rw [encode, String.toUTF8_eq_toByteArray, ← String.utf8Encode_toList, List.utf8Encode,
    List.toList_data_toByteArray]

/-! ## One character -/

theorem continuation?_eq_some {b : UInt8} {x : Nat} (hb : b.toNat = x + 0x80) (hx : x < 64) :
    continuation? b = some x := by
  have hrange : (0x80 : UInt8) ≤ b ∧ b ≤ 0xbf := by
    rw [UInt8.le_iff_toNat_le, UInt8.le_iff_toNat_le, hb]
    exact ⟨Nat.le_add_left 128 x, by simp; omega⟩
  simp [continuation?, hrange, hb]

theorem scalar?_eq_some {c : Char} {least code : Nat} (hcode : code = c.toNat)
    (hleast : least ≤ code) : scalar? least code = some c := by
  subst hcode
  have hvalid : c.toNat.isValidChar := c.valid
  simp [scalar?, hleast, hvalid]

section Lengths

variable {c : Char} {a b₁ b₂ b₃ : UInt8} {x₀ x₁ x₂ x₃ : Nat} (rest : List UInt8)

theorem first_of_two (ha : a.toNat = x₀ + 0xc0) (hx₀ : x₀ < 32) (h₁ : b₁.toNat = x₁ + 0x80)
    (hx₁ : x₁ < 64) (hc : x₀ * 64 + x₁ = c.toNat) (hleast : 0x80 ≤ c.toNat) :
    first a (b₁ :: rest) = some (c, 1) := by
  have hlead : ¬ a < 0x80 ∧ 0xc0 ≤ a ∧ a < 0xe0 := by
    simp only [UInt8.lt_iff_toNat_lt, UInt8.le_iff_toNat_le, ha, UInt8.reduceToNat]
    omega
  have hscalar : scalar? 0x80 ((a.toNat - 0xc0) * 64 + x₁) = some c :=
    scalar?_eq_some (by omega) (by omega)
  simp [first, hlead, continuation?_eq_some h₁ hx₁, hscalar]

theorem first_of_three (ha : a.toNat = x₀ + 0xe0) (hx₀ : x₀ < 16) (h₁ : b₁.toNat = x₁ + 0x80)
    (hx₁ : x₁ < 64) (h₂ : b₂.toNat = x₂ + 0x80) (hx₂ : x₂ < 64)
    (hc : (x₀ * 64 + x₁) * 64 + x₂ = c.toNat) (hleast : 0x800 ≤ c.toNat) :
    first a (b₁ :: b₂ :: rest) = some (c, 2) := by
  have hlead : ¬ a < 0x80 ∧ ¬ a < 0xe0 ∧ 0xe0 ≤ a ∧ a < 0xf0 := by
    simp only [UInt8.lt_iff_toNat_lt, UInt8.le_iff_toNat_le, ha, UInt8.reduceToNat]
    omega
  have hscalar : scalar? 0x800 (((a.toNat - 0xe0) * 64 + x₁) * 64 + x₂) = some c :=
    scalar?_eq_some (by omega) (by omega)
  simp [first, hlead, continuation?_eq_some h₁ hx₁, continuation?_eq_some h₂ hx₂, hscalar]

theorem first_of_four (ha : a.toNat = x₀ + 0xf0) (hx₀ : x₀ < 8) (h₁ : b₁.toNat = x₁ + 0x80)
    (hx₁ : x₁ < 64) (h₂ : b₂.toNat = x₂ + 0x80) (hx₂ : x₂ < 64) (h₃ : b₃.toNat = x₃ + 0x80)
    (hx₃ : x₃ < 64) (hc : ((x₀ * 64 + x₁) * 64 + x₂) * 64 + x₃ = c.toNat)
    (hleast : 0x10000 ≤ c.toNat) : first a (b₁ :: b₂ :: b₃ :: rest) = some (c, 3) := by
  have hlead : ¬ a < 0x80 ∧ ¬ a < 0xe0 ∧ ¬ a < 0xf0 ∧ 0xf0 ≤ a ∧ a < 0xf8 := by
    simp only [UInt8.lt_iff_toNat_lt, UInt8.le_iff_toNat_le, ha, UInt8.reduceToNat]
    omega
  have hscalar : scalar? 0x10000 ((((a.toNat - 0xf0) * 64 + x₁) * 64 + x₂) * 64 + x₃) = some c :=
    scalar?_eq_some (by omega) (by omega)
  simp [first, hlead, continuation?_eq_some h₁ hx₁, continuation?_eq_some h₂ hx₂,
    continuation?_eq_some h₃ hx₃, hscalar]

end Lengths

/-- A byte below its bound keeps its value. -/
theorem toNat_ofNat_of_lt {n : Nat} (h : n < 256) : (UInt8.ofNat n).toNat = n := by
  rw [UInt8.toNat_ofNat']
  exact Nat.mod_eq_of_lt h

/-- The bytes of a character are decoded into it, whatever follows. The cases are the four lengths
that a character can have. -/
theorem decodeFrom_utf8EncodeChar (c : Char) (rest : List UInt8) :
    decodeFrom 0 (String.utf8EncodeChar c ++ rest) = some c :: decodeFrom 0 rest := by
  have hval : c.val.toNat = c.toNat := rfl
  have hmax : c.toNat < 0x110000 := by
    have hvalid : c.toNat.isValidChar := c.valid
    simp only [Nat.isValidChar] at hvalid
    omega
  simp only [String.utf8EncodeChar, hval]
  split
  · rename_i h₁
    have ha : (UInt8.ofNat c.toNat).toNat = c.toNat := toNat_ofNat_of_lt (by omega)
    have hlead : UInt8.ofNat c.toNat < 0x80 := by
      rw [UInt8.lt_iff_toNat_lt, ha]
      exact Nat.lt_succ_of_le h₁
    simp only [List.cons_append, List.nil_append, decodeFrom, first, hlead, if_true, ha,
      Char.ofNat_toNat]
  · split
    · have hfirst := first_of_two (c := c) rest
        (toNat_ofNat_of_lt (n := c.toNat / 64 % 0x20 + 0xc0) (by omega)) (by omega)
        (toNat_ofNat_of_lt (n := c.toNat % 0x40 + 0x80) (by omega)) (by omega) (by omega)
        (by omega)
      simp only [List.cons_append, List.nil_append, decodeFrom, hfirst]
    · split
      · have hfirst := first_of_three (c := c) rest
          (toNat_ofNat_of_lt (n := c.toNat / 4096 % 0x10 + 0xe0) (by omega)) (by omega)
          (toNat_ofNat_of_lt (n := c.toNat / 64 % 0x40 + 0x80) (by omega)) (by omega)
          (toNat_ofNat_of_lt (n := c.toNat % 0x40 + 0x80) (by omega)) (by omega) (by omega)
          (by omega)
        simp only [List.cons_append, List.nil_append, decodeFrom, hfirst]
      · have hfirst := first_of_four (c := c) rest
          (toNat_ofNat_of_lt (n := c.toNat / 262144 % 0x08 + 0xf0) (by omega)) (by omega)
          (toNat_ofNat_of_lt (n := c.toNat / 4096 % 0x40 + 0x80) (by omega)) (by omega)
          (toNat_ofNat_of_lt (n := c.toNat / 64 % 0x40 + 0x80) (by omega)) (by omega)
          (toNat_ofNat_of_lt (n := c.toNat % 0x40 + 0x80) (by omega)) (by omega) (by omega)
          (by omega)
        simp only [List.cons_append, List.nil_append, decodeFrom, hfirst]

/-! ## Whole texts -/

/-- The bytes of a text are decoded into its characters. -/
theorem decode_encode (s : String) : decode (encode s) = s.toList.map some := by
  rw [encode_eq_flatMap, decode]
  induction s.toList with
  | nil => rfl
  | cons c text ih => rw [List.flatMap_cons, decodeFrom_utf8EncodeChar, ih, List.map_cons]

theorem text?_encode (s : String) : text? (encode s) = some s := by
  have hmap : (s.toList.map some).mapM id = some s.toList := by
    induction s.toList with
    | nil => rfl
    | cons c text ih => simp [List.mapM_cons, ih]
  rw [text?, decode_encode, hmap, Option.map_some, String.ofList_toList]

theorem length_decodeFrom_le (bytes : List UInt8) :
    ∀ taken, (decodeFrom taken bytes).length ≤ bytes.length := by
  induction bytes with
  | nil =>
    intro taken
    simp [decodeFrom]
  | cons a bytes ih =>
    intro taken
    cases taken with
    | succ taken => exact Nat.le_succ_of_le (ih taken)
    | zero =>
      rw [decodeFrom]
      split
      · exact Nat.succ_le_succ (ih _)
      · exact Nat.succ_le_succ (ih 0)

/-- Bytes hold no more characters, broken ones included, than there are bytes. -/
theorem length_decode_le (bytes : List UInt8) : (decode bytes).length ≤ bytes.length :=
  length_decodeFrom_le bytes 0

end PrologTokens.Text.Utf8
