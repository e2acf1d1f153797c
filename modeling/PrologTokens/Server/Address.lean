import PrologTokens.Text.Digit

/-!
# Addresses to listen at

An address is an IP address and a port. An IPv4 address is written as four decimal numbers with
full stops between them, none with a zero in front. An IPv6 address is written in brackets: eight
hexadecimal groups with colons between them, where `::` stands for one or more groups of zeros and
the last two groups may be written as an IPv4 address; a percent sign and a number may name a
scope.
-/

set_option autoImplicit false

namespace PrologTokens.Server

/-- An IPv4 address. -/
structure Ipv4 where
  /-- The first byte. -/
  a : UInt8
  /-- The second byte. -/
  b : UInt8
  /-- The third byte. -/
  c : UInt8
  /-- The fourth byte. -/
  d : UInt8
  deriving DecidableEq, Repr, Inhabited

/-- An IP address. -/
inductive Ip where
  /-- Four bytes. -/
  | v4 (address : Ipv4)
  /-- Eight groups of sixteen bits, and a scope. -/
  | v6 (groups : List UInt16) (scope : UInt32)
  deriving DecidableEq, Repr, Inhabited

/-- An IP address and a port. -/
structure Address where
  /-- The IP address. -/
  ip : Ip
  /-- The port. -/
  port : UInt16
  deriving DecidableEq, Repr, Inhabited

namespace Address

/-- The value of a digit of the given base, ten or sixteen. -/
def digit? (base : Nat) (c : Char) : Option Nat := (Text.hexValue? c).filter (· < base)

/-- The digits at the start of a text. -/
def digits (base : Nat) : List Char → List Nat × List Char
  | [] => ([], [])
  | c :: rest =>
    match digit? base c with
    | none => ([], c :: rest)
    | some d =>
      let (more, rest) := digits base rest
      (d :: more, rest)

/-- A number below `bound`. Where `width` is given, it has at most that many digits. -/
def number? (base : Nat) (width : Option Nat) (bound : Nat) (text : List Char) :
    Option (Nat × List Char) :=
  let (ds, rest) := digits base text
  let value := Text.digitsValue base ds
  if ds.isEmpty || width.any (· < ds.length) || bound ≤ value then none else some (value, rest)

/-- One of the four numbers of an IPv4 address. -/
def byte? (text : List Char) : Option (UInt8 × List Char) :=
  match digits 10 text with
  | (0 :: _ :: _, _) => none
  | _ => (number? 10 (some 3) 256 text).map fun (n, rest) => (UInt8.ofNat n, rest)

/-- The text behind a given character. -/
def behind? (c : Char) : List Char → Option (List Char)
  | d :: rest => if c = d then some rest else none
  | [] => none

/-- An IPv4 address. -/
def ipv4? (text : List Char) : Option (Ipv4 × List Char) := do
  let (a, rest) ← byte? text
  let (b, rest) ← byte? (← behind? '.' rest)
  let (c, rest) ← byte? (← behind? '.' rest)
  let (d, rest) ← byte? (← behind? '.' rest)
  return (⟨a, b, c, d⟩, rest)

/-- An IPv4 address as two groups of an IPv6 address. -/
def Ipv4.groups (ip : Ipv4) : List UInt16 :=
  [UInt16.ofNat (ip.a.toNat * 256 + ip.b.toNat), UInt16.ofNat (ip.c.toNat * 256 + ip.d.toNat)]

/-- One group of an IPv6 address. -/
def group? (text : List Char) : Option (UInt16 × List Char) :=
  (number? 16 (some 4) 65536 text).map fun (n, rest) => (UInt16.ofNat n, rest)

/-- As many groups as there are, at most `left` of them, with colons between them. An IPv4 address
ends the groups; it counts for two. -/
def groups : (left : Nat) → (atStart : Bool) → List Char → (List UInt16 × Bool) × List Char
  | 0, _, text => (([], false), text)
  | left + 1, atStart, text =>
    let start? := if atStart then some text else behind? ':' text
    match (if 0 < left then start?.bind ipv4? else none) with
    | some (ip, rest) => ((Ipv4.groups ip, true), rest)
    | none =>
      match start?.bind group? with
      | none => (([], false), text)
      | some (g, rest) =>
        let ((more, ended), rest) := groups left false rest
        ((g :: more, ended), rest)

/-- The groups of an IPv6 address. -/
def ipv6? (text : List Char) : Option (List UInt16 × List Char) := do
  let ((head, ended), rest) := groups 8 true text
  if head.length = 8 then return (head, rest)
  if ended then none
  let rest ← behind? ':' rest
  let rest ← behind? ':' rest
  let ((tail, _), rest) := groups (7 - head.length) true rest
  return (head ++ List.replicate (8 - head.length - tail.length) 0 ++ tail, rest)

/-- The scope of an IPv6 address, zero if there is none. -/
def scope (text : List Char) : UInt32 × List Char :=
  match (behind? '%' text).bind (number? 10 none (Nat.pow 2 32)) with
  | some (n, rest) => (UInt32.ofNat n, rest)
  | none => (0, text)

/-- An IP address as it stands in front of a port. -/
def ip? (text : List Char) : Option (Ip × List Char) :=
  match behind? '[' text with
  | none => (ipv4? text).map fun (ip, rest) => (.v4 ip, rest)
  | some rest => do
    let (gs, rest) ← ipv6? rest
    let (id, rest) := scope rest
    let rest ← behind? ']' rest
    return (.v6 gs id, rest)

/-- A port behind its colon. -/
def port? (text : List Char) : Option (UInt16 × List Char) := do
  let rest ← behind? ':' text
  let (n, rest) ← number? 10 none 65536 rest
  return (UInt16.ofNat n, rest)

/-- The address that a text denotes as a whole. -/
def parse? (text : String) : Option Address := do
  let (ip, rest) ← ip? text.toList
  let (port, rest) ← port? rest
  if rest.isEmpty then return ⟨ip, port⟩ else none

end Address
end PrologTokens.Server
