import PrologTokens.Proofs.Json.Scalar

/-!
# The grammar of JSON

Which texts are JSON, and what their strings and their whole numbers stand for, said without
reading them. Blanks may stand around every part. The escapes in a string stand for characters:
a code that is half of a pair has the other half behind it.

A document is kept as the list of the members of its object, with the blanks around them.
Members keep their order, and any number of them may have the same name.
-/

set_option autoImplicit false

namespace PrologTokens.Json

/-! ## Strings -/

/-- The letters and signs that stand for a character behind a backslash, each with that
character. -/
def letterEscapes : List (Char × Char) :=
  [('"', '"'), ('\\', '\\'), ('/', '/'), ('b', '\x08'), ('f', '\x0c'), ('n', '\n'), ('r', '\r'),
    ('t', '\t')]

/-- Four hexadecimal digits and the code that they stand for. -/
def IsCode (digits : List Char) (code : Nat) : Prop :=
  digits.length = 4 ∧ ∃ values, digits.mapM Text.hexValue? = some values ∧
    Text.digitsValue 16 values = code

/-- What is written between the quotation marks of a string, and the characters that are meant. -/
inductive IsTextBody : List Char → List Char → Prop where
  | nil : IsTextBody [] []
  | plain {c : Char} {written meant : List Char} (h : IsPlain c) (more : IsTextBody written meant) :
      IsTextBody (c :: written) (c :: meant)
  | letter {letter c : Char} {written meant : List Char} (h : (letter, c) ∈ letterEscapes)
      (more : IsTextBody written meant) : IsTextBody ('\\' :: letter :: written) (c :: meant)
  | code {digits : List Char} {c : Char} {written meant : List Char} (h : IsCode digits c.toNat)
      (more : IsTextBody written meant) :
      IsTextBody ('\\' :: 'u' :: (digits ++ written)) (c :: meant)
  /-- A character beyond the first plane, given by the two halves of its code. -/
  | pair {first second : List Char} {high low : Nat} {c : Char} {written meant : List Char}
      (hfirst : IsCode first (0xd800 + high)) (hhigh : high < 0x400)
      (hsecond : IsCode second (0xdc00 + low)) (hlow : low < 0x400)
      (hc : c.toNat = 0x10000 + 0x400 * high + low) (more : IsTextBody written meant) :
      IsTextBody ('\\' :: 'u' :: (first ++ '\\' :: 'u' :: (second ++ written))) (c :: meant)

/-- A string in quotation marks. -/
def IsText (written : List Char) (s : String) : Prop :=
  ∃ body, written = '"' :: body ++ ['"'] ∧ IsTextBody body s.toList

theorem isCode_control {c : Char} (h : c.toNat < 0x20) :
    IsCode ['0', '0', hexDigit (c.toNat / 16), hexDigit (c.toNat % 16)] c.toNat := by
  have hhigh := hexValue?_hexDigit (c.toNat / 16) (by omega)
  have hlow := hexValue?_hexDigit (c.toNat % 16) (by omega)
  have hzero : Text.hexValue? '0' = some 0 := by decide
  refine ⟨rfl, [0, 0, c.toNat / 16, c.toNat % 16], by simp [hhigh, hlow, hzero], ?_⟩
  simp only [Text.digitsValue, List.foldl_cons, List.foldl_nil]
  omega

theorem mem_letterEscapes {letter c : Char} (h : Read.escaped? letter = some c) :
    (letter, c) ∈ letterEscapes := by
  unfold Read.escaped? at h
  split at h
  all_goals cases h
  all_goals simp [letterEscapes]

/-- The text that is written for a string is a string with this meaning. -/
theorem isText_quote (s : String) : IsText (quote s) s := by
  refine ⟨s.toList.flatMap escapeChar, rfl, ?_⟩
  induction s.toList with
  | nil => exact .nil
  | cons c text ih =>
    rw [List.flatMap_cons]
    rcases escapeChar_cases c with
      ⟨letter, hletter, hescape⟩ | ⟨hcontrol, hescape⟩ | ⟨hplain, hescape⟩
    · rw [hescape]
      exact .letter (mem_letterEscapes hletter) ih
    · rw [hescape]
      exact .code (isCode_control hcontrol) ih
    · rw [hescape]
      exact .plain hplain ih

/-! ## Numbers -/

/-- Digits behind a point, or nothing. -/
inductive IsFraction : List Char → Prop where
  | none : IsFraction []
  | some {digits : List Char} (h : IsDigits digits) : IsFraction ('.' :: digits)

/-- A power of ten, or nothing. -/
inductive IsExponent : List Char → Prop where
  | none : IsExponent []
  | some {letter : Char} {sign digits : List Char} (hletter : letter ∈ ['e', 'E'])
      (hsign : sign ∈ [[], ['+'], ['-']]) (h : IsDigits digits) :
      IsExponent (letter :: (sign ++ digits))

/-- A number. -/
inductive IsNumber : List Char → Prop where
  | parts {sign whole fraction exponent : List Char} (hsign : sign ∈ [[], ['-']])
      (hwhole : IsWhole whole) (hfraction : IsFraction fraction) (hexponent : IsExponent exponent) :
      IsNumber (sign ++ whole ++ fraction ++ exponent)

/-- The digits of a whole number are a number. -/
theorem IsWhole.isNumber {text : List Char} (h : IsWhole text) : IsNumber text := by
  have hnumber := IsNumber.parts (List.mem_cons_self : [] ∈ [[], ['-']]) h .none .none
  rwa [List.nil_append, List.append_nil, List.append_nil] at hnumber

/-! ## Arrays and objects -/

/-- A part of a document and the blanks around it. -/
structure Padded where
  /-- The blanks in front. -/
  before : List Char
  /-- The part itself. -/
  text : List Char
  /-- The blanks behind. -/
  behind : List Char
  before_blank : AllBlank before
  behind_blank : AllBlank behind

/-- The part with its blanks. -/
def Padded.written (part : Padded) : List Char := part.before ++ part.text ++ part.behind

/-- A part without blanks around it. -/
def Padded.bare (text : List Char) : Padded := ⟨[], text, [], allBlank_nil, allBlank_nil⟩

/-- A member of an object. -/
structure Member where
  /-- The name that is meant. -/
  key : String
  /-- The name as it is written. -/
  name : Padded
  /-- The value as it is written. -/
  value : Padded
  name_isText : IsText name.text key

/-- The text of a member. -/
def Member.written (member : Member) : List Char :=
  member.name.written ++ ':' :: member.value.written

/-- What stands behind the first part: the other parts, each after a comma, and the closing
bracket. -/
def closed (closing : Char) : List (List Char) → List Char
  | [] => [closing]
  | part :: parts => ',' :: part ++ closed closing parts

/-- Parts between brackets, or blanks if there are none. -/
def bracketed (opening closing : Char) (blanks : List Char) : List (List Char) → List Char
  | [] => opening :: blanks ++ [closing]
  | part :: parts => opening :: part ++ closed closing parts

/-- The words that are values. -/
def valueWords : List (List Char) :=
  [['n', 'u', 'l', 'l'], ['t', 'r', 'u', 'e'], ['f', 'a', 'l', 's', 'e']]

/-- The text of a value. -/
inductive IsValue : List Char → Prop where
  | word {text : List Char} (h : text ∈ valueWords) : IsValue text
  | number {text : List Char} (h : IsNumber text) : IsValue text
  | text {written : List Char} {s : String} (h : IsText written s) : IsValue written
  | array {blanks : List Char} {items : List Padded} (hblanks : AllBlank blanks)
      (hitems : ∀ item ∈ items, IsValue item.text) :
      IsValue (bracketed '[' ']' blanks (items.map Padded.written))
  | object {blanks : List Char} {members : List Member} (hblanks : AllBlank blanks)
      (hmembers : ∀ member ∈ members, IsValue member.value.text) :
      IsValue (bracketed '\x7b' '\x7d' blanks (members.map Member.written))

/-- A document that is an object. -/
structure Document where
  /-- The members of the object, in order. -/
  members : List Member
  /-- The blanks in front of the object. -/
  before : List Char
  /-- The blanks between the braces if there are no members. -/
  between : List Char
  /-- The blanks behind the object. -/
  behind : List Char
  members_isValue : ∀ member ∈ members, IsValue member.value.text
  before_blank : AllBlank before
  between_blank : AllBlank between
  behind_blank : AllBlank behind

namespace Document

/-- The text of the object. -/
def object (document : Document) : List Char :=
  bracketed '\x7b' '\x7d' document.between (document.members.map Member.written)

/-- The text of the document. -/
def text (document : Document) : String :=
  String.ofList (document.before ++ document.object ++ document.behind)

/-- The values, as they are written, of the members that go by one of the given names. -/
def valuesOf (document : Document) (names : List String) : List (List Char) :=
  (document.members.filter fun member => member.key ∈ names).map (·.value.text)

end Document
end PrologTokens.Json
