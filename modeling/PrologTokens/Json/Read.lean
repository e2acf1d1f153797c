import PrologTokens.Json.Fault
import PrologTokens.Text.Digit
import PrologTokens.Text.Utf8

/-!
# Reading JSON

Documents are read from left to right, and the first fault met is the result. A reader takes the
input from some place on and gives a value and the input behind it. Values that are not needed are
skipped: they are checked for being JSON, but their strings are not decoded and their numbers are
not evaluated.
-/

set_option autoImplicit false

namespace PrologTokens.Json

/-- The characters of a document, with `none` for each byte that belongs to no character. -/
abbrev Input := List (Option Char)

/-- The input that consists of the characters of a text. -/
def Input.ofString (s : String) : Input := s.toList.map some

/-- The input given by bytes. -/
def Input.ofBytes (bytes : List UInt8) : Input := Text.Utf8.decode bytes

/-- A reader of values of some type. -/
abbrev Reader (α : Type) := Input → Except Fault (α × Input)

namespace Read

/-- Space, tab, line feed and carriage return. -/
def isBlank (c : Option Char) : Bool :=
  c = some ' ' || c = some '\t' || c = some '\n' || c = some '\r'

/-- The input behind the blanks at its start. -/
def skipBlanks (input : Input) : Input := input.dropWhile isBlank

/-- The input behind a given word. -/
def word : (expected : List Char) → Input → Except Fault Input
  | [], input => .ok input
  | c :: expected, some d :: rest => if c = d then word expected rest else .error .malformed
  | _ :: _, _ => .error .malformed

/-! ## Strings -/

/-- The value of four hexadecimal digits. -/
def hex4? (a b c d : Option Char) : Option Nat := do
  let a ← a.bind Text.hexValue?
  let b ← b.bind Text.hexValue?
  let c ← c.bind Text.hexValue?
  let d ← d.bind Text.hexValue?
  return ((a * 16 + b) * 16 + c) * 16 + d

/-- The character that a letter or sign behind a backslash stands for. -/
def escaped? : Char → Option Char
  | '"' => some '"'
  | '\\' => some '\\'
  | '/' => some '/'
  | 'b' => some '\x08'
  | 'f' => some '\x0c'
  | 'n' => some '\n'
  | 'r' => some '\r'
  | 't' => some '\t'
  | _ => none

/-- Whether a code is the first half of a pair that stands for one character. -/
def isHighHalf (n : Nat) : Bool := 0xd800 ≤ n && n < 0xdc00

/-- Whether a code is the second half of a pair that stands for one character. -/
def isLowHalf (n : Nat) : Bool := 0xdc00 ≤ n && n < 0xe000

/-- The character that two halves stand for. -/
def joinHalves (high low : Nat) : Char :=
  Char.ofNat ((high - 0xd800) * 0x400 + (low - 0xdc00) + 0x10000)

/-- The characters of a string behind its opening quotation mark. Control characters, broken bytes
and halves of a pair that stand alone are refused. -/
def textBody : Reader (List Char)
  | [] => .error .malformed
  | none :: _ => .error .malformed
  | some '"' :: rest => .ok ([], rest)
  | some '\\' :: some 'u' :: a :: b :: c :: d :: rest =>
    match hex4? a b c d with
    | none => .error .malformed
    | some n =>
      if isHighHalf n then
        match rest with
        | some '\\' :: some 'u' :: e :: f :: g :: h :: rest =>
          match hex4? e f g h with
          | none => .error .malformed
          | some m =>
            if isLowHalf m then do
              let (more, rest) ← textBody rest
              return (joinHalves n m :: more, rest)
            else .error .malformed
        | _ => .error .malformed
      else if isLowHalf n then .error .malformed
      else do
        let (more, rest) ← textBody rest
        return (Char.ofNat n :: more, rest)
  | some '\\' :: some c :: rest =>
    match escaped? c with
    | none => .error .malformed
    | some c => do
      let (more, rest) ← textBody rest
      return (c :: more, rest)
  | some c :: rest =>
    if c = '\\' || c.toNat < 0x20 then .error .malformed
    else do
      let (more, rest) ← textBody rest
      return (c :: more, rest)

/-- The input behind a string that is skipped, from behind its opening quotation mark. Broken bytes
and halves of a pair may stand in it. -/
def skipText : Input → Except Fault Input
  | [] => .error .malformed
  | some '"' :: rest => .ok rest
  | some '\\' :: some 'u' :: a :: b :: c :: d :: rest =>
    if (hex4? a b c d).isSome then skipText rest else .error .malformed
  | some '\\' :: some c :: rest =>
    if (escaped? c).isSome then skipText rest else .error .malformed
  | some c :: rest => if c = '\\' || c.toNat < 0x20 then .error .malformed else skipText rest
  | none :: rest => skipText rest

/-! ## Numbers -/

/-- A number as it is kept: whole numbers from `-2 ^ 63` to `2 ^ 64 - 1` stay whole, except for
minus zero. -/
inductive Number where
  /-- A whole number. -/
  | integer (value : Int)
  /-- Any other number. -/
  | floating (value : Decimal.Double)
  deriving DecidableEq, Repr, Inhabited

/-- The digits at the start of the input. -/
def digits : Input → List Nat × Input
  | some c :: rest =>
    if c.isDigit then
      let (more, rest) := digits rest
      ((c.toNat - '0'.toNat) :: more, rest)
    else ([], some c :: rest)
  | input => ([], input)

/-- The written parts of a number. -/
structure Numeral where
  /-- The digits before the point. -/
  whole : List Nat
  /-- The digits behind the point. -/
  fraction : List Nat
  /-- Whether the exponent is negative, and its digits; `none` if there is no exponent. -/
  exponent : Option (Bool × List Nat)
  deriving DecidableEq, Repr, Inhabited

/-- The exponent of a number, if there is one. -/
def exponentPart : Reader (Option (Bool × List Nat))
  | some c :: rest =>
    if c = 'e' || c = 'E' then
      let (negative, rest) := match rest with
        | some '+' :: rest => (false, rest)
        | some '-' :: rest => (true, rest)
        | rest => (false, rest)
      match digits rest with
      | ([], _) => .error .malformed
      | (ds, rest) => .ok (some (negative, ds), rest)
    else .ok (none, some c :: rest)
  | input => .ok (none, input)

/-- The fraction of a number; no digits if there is none. -/
def fractionPart : Reader (List Nat)
  | some '.' :: rest =>
    match digits rest with
    | ([], _) => .error .malformed
    | (ds, rest) => .ok (ds, rest)
  | input => .ok ([], input)

/-- The parts of a number behind its sign. Only zero itself starts with a zero. -/
def numeral : Reader Numeral := fun input =>
  match digits input with
  | ([], _) => .error .malformed
  | (0 :: _ :: _, _) => .error .malformed
  | (whole, rest) => do
    let (fraction, rest) ← fractionPart rest
    let (exponent, rest) ← exponentPart rest
    return (⟨whole, fraction, exponent⟩, rest)

/-- Appends digits to a number as long as it stays below `2 ^ 64`, and gives the digits left
over. -/
def absorb : Nat → List Nat → Nat × List Nat
  | n, [] => (n, [])
  | n, d :: ds => if 10 * n + d < Nat.pow 2 64 then absorb (10 * n + d) ds else (n, d :: ds)

/-- The floating-point number nearest to a power of ten. Up to the 308th power there is one. -/
def powerOfTen? (n : Nat) : Option Decimal.Magnitude := Decimal.Magnitude.ofNat? (Nat.pow 10 n)

/-- The number `m * 10 ^ exponent`, computed by rounded products and quotients with powers of ten
up to the 308th. After three turns at most the number is zero or the exponent small enough. -/
def scale? : (turns : Nat) → (m : Decimal.Magnitude) → (exponent : Int) → Option Decimal.Magnitude
  | 0, m, _ => some m
  | turns + 1, m, exponent =>
    if exponent.natAbs ≤ 308 then do
      let power ← powerOfTen? exponent.natAbs
      if 0 ≤ exponent then m.mul? power else m.div? power
    else if m.isZero then some m
    else if 0 ≤ exponent then none
    else do
      let power ← powerOfTen? 308
      let m ← m.div? power
      scale? turns m (exponent + 308)

/-- The exponents that are taken at their value; larger ones make a number zero or too large. -/
def exponentLimit : Nat := Nat.pow 2 31

/-- The floating-point number with the given digits. The significand takes as many digits as fit
below `2 ^ 64`; whole digits left over raise the exponent, and digits of the fraction left over are
dropped. -/
def Numeral.magnitude? (n : Numeral) : Option Decimal.Magnitude := do
  let (significand, dropped) := absorb 0 n.whole
  let (significand, ignored) := absorb significand n.fraction
  let shift := (dropped.length : Int) - ((n.fraction.length - ignored.length : Nat) : Int)
  let m ← Decimal.Magnitude.ofNat? significand
  match n.exponent with
  | none => scale? 4 m shift
  | some (negative, ds) =>
    let exponent := Text.digitsValue 10 ds
    if exponentLimit ≤ exponent then
      if significand ≠ 0 && !negative then none else Decimal.Magnitude.ofNat? 0
    else scale? 4 m (if negative then shift - (exponent : Int) else shift + (exponent : Int))

/-- The value of a number with the given sign. -/
def Numeral.value (n : Numeral) (negative : Bool) : Except Fault Number :=
  match absorb 0 n.whole, n.fraction, n.exponent with
  | (significand, []), [], none =>
    if !negative then .ok (.integer significand)
    else if 0 < significand ∧ significand ≤ Nat.pow 2 63 then .ok (.integer (-(significand : Int)))
    else floating negative n.magnitude?
  | _, _, _ => floating negative n.magnitude?
where
  /-- The floating-point number of the given magnitude. -/
  floating (negative : Bool) : Option Decimal.Magnitude → Except Fault Number
    | some m => .ok (.floating ⟨negative, m⟩)
    | none => .error .malformed

/-- A number behind its sign. -/
def number (negative : Bool) : Reader Number := fun input => do
  let (n, rest) ← numeral input
  let value ← n.value negative
  return (value, rest)

/-! ## Skipping -/

/-- The input behind a value that starts with the given character and is neither an array nor an
object. -/
def skipScalar (c : Char) (rest : Input) : Except Fault Input :=
  if c = 'n' then word ['u', 'l', 'l'] rest
  else if c = 't' then word ['r', 'u', 'e'] rest
  else if c = 'f' then word ['a', 'l', 's', 'e'] rest
  else if c = '"' then skipText rest
  else if c = '-' then (numeral rest).map (·.2)
  else if c.isDigit then (numeral (some c :: rest)).map (·.2)
  else .error .malformed

mutual

/-- The input behind a value. Two units of `fuel` are enough for each character. -/
def skipValue : (fuel : Nat) → Input → Except Fault Input
  | 0, _ => .error .malformed
  | fuel + 1, input =>
    match skipBlanks input with
    | some '[' :: rest =>
      match skipBlanks rest with
      | some ']' :: rest => .ok rest
      | rest => skipItems fuel rest
    | some '\x7b' :: rest =>
      match skipBlanks rest with
      | some '\x7d' :: rest => .ok rest
      | rest => skipMembers fuel rest
    | some c :: rest => skipScalar c rest
    | _ => .error .malformed

/-- The input behind an array, from the start of one of its items on. -/
def skipItems : (fuel : Nat) → Input → Except Fault Input
  | 0, _ => .error .malformed
  | fuel + 1, input => do
    let rest ← skipValue fuel input
    match skipBlanks rest with
    | some ',' :: rest => skipItems fuel rest
    | some ']' :: rest => return rest
    | _ => throw .malformed

/-- The input behind an object, from the start of one of its members on. -/
def skipMembers : (fuel : Nat) → Input → Except Fault Input
  | 0, _ => .error .malformed
  | fuel + 1, input =>
    match skipBlanks input with
    | some '"' :: rest => do
      let rest ← skipText rest
      match skipBlanks rest with
      | some ':' :: rest =>
        let rest ← skipValue fuel rest
        match skipBlanks rest with
        | some ',' :: rest => skipMembers fuel rest
        | some '\x7d' :: rest => return rest
        | _ => throw .malformed
      | _ => throw .malformed
    | _ => .error .malformed

end

/-- The input behind a value that is not needed. -/
def skip (input : Input) : Except Fault Input := skipValue (2 * input.length + 2) input

/-! ## Values of a given kind -/

/-- What stands at the start of the input, which holds no blanks there. -/
def found : Input → Except Fault Found
  | some '[' :: _ => .ok .array
  | some '\x7b' :: _ => .ok .object
  | some '"' :: rest => (textBody rest).map fun (s, _) => .text (String.ofList s)
  | some 'n' :: rest => (word ['u', 'l', 'l'] rest).map fun _ => .null
  | some 't' :: rest => (word ['r', 'u', 'e'] rest).map fun _ => .bool true
  | some 'f' :: rest => (word ['a', 'l', 's', 'e'] rest).map fun _ => .bool false
  | some '-' :: rest => (number true rest).map fun (n, _) => ofNumber n
  | some c :: rest =>
    if c.isDigit then (number false (some c :: rest)).map fun (n, _) => ofNumber n
    else .error .malformed
  | _ => .error .malformed
where
  /-- A number as what was found. -/
  ofNumber : Number → Found
    | .integer n => .integer n
    | .floating x => .floating x

/-- The fault of a value that is not of the expected kind. If it is no value at all, that comes
first. -/
def refuse {α : Type} (expected : String) (input : Input) : Except Fault α := do
  let what ← found input
  throw (.mismatch [] (.wrongKind what expected))

/-- A string. -/
def text : Reader String := fun input =>
  match skipBlanks input with
  | some '"' :: rest => do
    let (s, rest) ← textBody rest
    return (String.ofList s, rest)
  | input => refuse "a string" input

/-- A whole number of the given type, from zero up to below `bound`. -/
def natural (bound : Nat) (typeName : String) : Reader Nat := fun input =>
  match skipBlanks input with
  | some '-' :: rest => do
    let (n, rest) ← number true rest
    check n rest
  | some c :: rest =>
    if c.isDigit then do
      let (n, rest) ← number false (some c :: rest)
      check n rest
    else refuse typeName (some c :: rest)
  | input => refuse typeName input
where
  /-- Refuses floating-point numbers and whole ones out of range. -/
  check (n : Number) (rest : Input) : Except Fault (Nat × Input) :=
    match n with
    | .floating x => .error (.mismatch [] (.wrongKind (.floating x) typeName))
    | .integer n =>
      if 0 ≤ n ∧ n < (bound : Int) then .ok (n.toNat, rest)
      else .error (.mismatch [] (.outOfRange (.integer n) typeName))

/-- The absent value, which is all that may stand here. -/
def unit : Reader Unit := fun input =>
  match skipBlanks input with
  | some 'n' :: rest => do
    let rest ← word ['u', 'l', 'l'] rest
    return ((), rest)
  | input => refuse "unit" input

/-- The absent value or one that the reader accepts. -/
def optional {α : Type} (read : Reader α) : Reader (Option α) := fun input =>
  match skipBlanks input with
  | some 'n' :: rest => do
    let rest ← word ['u', 'l', 'l'] rest
    return (none, rest)
  | input => do
    let (value, rest) ← read input
    return (some value, rest)

/-- The input behind the colon between a name and its value. -/
def colon (input : Input) : Except Fault Input :=
  match skipBlanks input with
  | some ':' :: rest => .ok rest
  | _ => .error .malformed

/-- The thing with the given name. -/
def named {α : Type} (find? : String → Option α) (allowed : List String) (name : String) :
    Except Fault α :=
  match find? name with
  | some value => .ok value
  | none => .error (.mismatch [] (.unknownName name allowed))

/-- One of several things that have names: its name, or an object with that name as its only member
and the absent value. The name is judged before what follows it is read. -/
def choice {α : Type} (find? : String → Option α) (allowed : List String) : Reader α :=
  fun input =>
    match skipBlanks input with
    | some '"' :: rest => do
      let (name, rest) ← textBody rest
      let value ← named find? allowed (String.ofList name)
      return (value, rest)
    | some '\x7b' :: rest =>
      match skipBlanks rest with
      | some '"' :: rest => do
        let (name, rest) ← textBody rest
        let value ← named find? allowed (String.ofList name)
        let rest ← colon rest
        let ((), rest) ← unit rest
        match skipBlanks rest with
        | some '\x7d' :: rest => return (value, rest)
        | _ => throw .malformed
      | _ => .error .malformed
    | _ => .error .malformed

/-- The items of an array from the start of one of them on, the next of which has the given
index. Every item takes a character, so `fuel` is enough when it is the length of the input. -/
def items {α : Type} (read : Reader α) : (fuel : Nat) → (index : Nat) → Reader (List α)
  | 0, _, _ => .error .malformed
  | fuel + 1, index, input => do
    let (value, rest) ← (read input).mapError (Fault.within (.element index))
    match skipBlanks rest with
    | some ',' :: rest =>
      match skipBlanks rest with
      | some ']' :: _ => throw .malformed
      | rest =>
        let (more, rest) ← items read fuel (index + 1) rest
        return (value :: more, rest)
    | some ']' :: rest => return ([value], rest)
    | _ => throw .malformed

/-- An array of values that the reader accepts. -/
def list {α : Type} (read : Reader α) : Reader (List α) := fun input =>
  match skipBlanks input with
  | some '[' :: rest =>
    match skipBlanks rest with
    | some ']' :: rest => .ok ([], rest)
    | rest => items read rest.length 0 rest
  | input => refuse "a sequence" input

end Read

/-- The value of a whole document. Behind it only blanks may stand. -/
def decode {α : Type} (read : Reader α) (input : Input) : Except Fault α := do
  let (value, rest) ← read input
  match Read.skipBlanks rest with
  | [] => return value
  | _ => throw .malformed

end PrologTokens.Json
