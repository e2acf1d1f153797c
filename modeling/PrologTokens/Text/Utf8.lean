/-!
# Texts given by bytes

UTF-8 with the faults kept in place: bytes are cut into characters, and a byte that belongs to no
well-formed character stands as `none` among them. Since ASCII bytes are never part of a longer
character, a fault hides no ASCII character behind it.
-/

set_option autoImplicit false

namespace PrologTokens.Text.Utf8

/-- The six bits of a byte that continues a character. -/
def continuation? (b : UInt8) : Option Nat :=
  if 0x80 ≤ b && b ≤ 0xbf then some (b.toNat - 0x80) else none

/-- The character with the given code, if there is one and it needs a sequence of this length. -/
def scalar? (least code : Nat) : Option Char :=
  if least ≤ code && code.isValidChar then some (Char.ofNat code) else none

/-- The character at the start of some bytes, and how many bytes it takes behind the first one. -/
def first (a : UInt8) (rest : List UInt8) : Option (Char × Nat) :=
  if a < 0x80 then some (Char.ofNat a.toNat, 0)
  else if 0xc0 ≤ a && a < 0xe0 then
    match rest with
    | b :: _ => do
      let x ← continuation? b
      let c ← scalar? 0x80 ((a.toNat - 0xc0) * 64 + x)
      return (c, 1)
    | _ => none
  else if 0xe0 ≤ a && a < 0xf0 then
    match rest with
    | b :: c :: _ => do
      let x ← continuation? b
      let y ← continuation? c
      let c ← scalar? 0x800 (((a.toNat - 0xe0) * 64 + x) * 64 + y)
      return (c, 2)
    | _ => none
  else if 0xf0 ≤ a && a < 0xf8 then
    match rest with
    | b :: c :: d :: _ => do
      let x ← continuation? b
      let y ← continuation? c
      let z ← continuation? d
      let c ← scalar? 0x10000 ((((a.toNat - 0xf0) * 64 + x) * 64 + y) * 64 + z)
      return (c, 3)
    | _ => none
  else none

/-- The characters of some bytes, of which the first `taken` ones have been accounted for. -/
def decodeFrom : (taken : Nat) → List UInt8 → List (Option Char)
  | _, [] => []
  | taken + 1, _ :: rest => decodeFrom taken rest
  | 0, a :: rest =>
    match first a rest with
    | some (c, more) => some c :: decodeFrom more rest
    | none => none :: decodeFrom 0 rest

/-- The characters of some bytes, with `none` for each byte that belongs to no character. -/
def decode (bytes : List UInt8) : List (Option Char) := decodeFrom 0 bytes

/-- The text of some bytes, if they are UTF-8 throughout. -/
def text? (bytes : List UInt8) : Option String := ((decode bytes).mapM id).map String.ofList

end PrologTokens.Text.Utf8
