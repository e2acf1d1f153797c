import PrologTokens.Proofs.Server.Numerals

/-!
# Literals for IP addresses

How IP addresses are written, said without reading them. An IPv4 address is written in one way
only. An IPv6 address stands in brackets, as eight groups with colons between them or as fewer
groups around two colons, and the last two groups may be written like an IPv4 address; a scope
may stand behind it.

The readers of addresses are sound and complete for this grammar: `ip?_sound` and
`ip?_complete`. A reader of groups goes as far as it can and tries an IPv4 address first, so
what stands behind a literal must not go on with it: `Past` says what this takes.
-/

set_option autoImplicit false

namespace PrologTokens.Server

/-- The text of an IPv4 address: four decimal numbers with full stops between them. -/
def Ipv4.written (ip : Ipv4) : String := s!"{ip.a.toNat}.{ip.b.toNat}.{ip.c.toNat}.{ip.d.toNat}"

namespace Address

/-! ## The grammar -/

/-- The text of the address. -/
def IsIpv4 (text : List Char) (ip : Ipv4) : Prop := text = ip.written.toList

/-- The colon in front of a group, which the first one does not have. -/
def colon (atStart : Bool) : List Char := if atStart then [] else [':']

/-- Groups with colons in front of them, or nothing. If `mixed`, the last two may be written as
an IPv4 address. -/
inductive IsStretch (mixed : Bool) : (atStart : Bool) → List Char → List UInt16 → Prop where
  /-- No groups. -/
  | nothing {atStart : Bool} : IsStretch mixed atStart [] []
  /-- A group and what follows. -/
  | group {atStart : Bool} {text behind : List Char} {g : UInt16} {gs : List UInt16}
      (h : IsGroup text g) (more : IsStretch mixed false behind gs) :
      IsStretch mixed atStart (colon atStart ++ text ++ behind) (g :: gs)
  /-- An IPv4 address at the end. -/
  | ipv4 {atStart : Bool} {text : List Char} {ip : Ipv4} (allowed : mixed = true)
      (h : IsIpv4 text ip) : IsStretch mixed atStart (colon atStart ++ text) (Ipv4.groups ip)

/-- An IPv6 address without its brackets. -/
inductive IsIpv6 : List Char → List UInt16 → Prop where
  /-- Eight groups. -/
  | full {text : List Char} {gs : List UInt16} (h : IsStretch true true text gs)
      (eight : gs.length = 8) : IsIpv6 text gs
  /-- Fewer groups, with two colons in place of groups of zeros. -/
  | compressed {before behind : List Char} {head tail : List UInt16}
      (hbefore : IsStretch false true before head) (hbehind : IsStretch true true behind tail)
      (fewer : head.length + tail.length < 8) :
      IsIpv6 (before ++ ':' :: ':' :: behind)
        (head ++ List.replicate (8 - head.length - tail.length) 0 ++ tail)

/-- The scope of an IPv6 address: zero if there is none, a number behind a percent sign
otherwise. -/
inductive IsScope : List Char → UInt32 → Prop where
  /-- No scope. -/
  | none : IsScope [] 0
  /-- A decimal number. -/
  | number {digits : List Char} {scope : UInt32} (h : IsNumeral 10 .none digits scope.toNat) :
      IsScope ('%' :: digits) scope

/-- A literal for an IP address. -/
inductive IsIp : List Char → Ip → Prop where
  /-- An IPv4 address. -/
  | v4 {text : List Char} {ip : Ipv4} (h : IsIpv4 text ip) : IsIp text (.v4 ip)
  /-- An IPv6 address in brackets, with its scope. -/
  | v6 {text zone : List Char} {gs : List UInt16} {scope : UInt32} (h : IsIpv6 text gs)
      (hzone : IsScope zone scope) : IsIp ('[' :: (text ++ (zone ++ [']']))) (.v6 gs scope)

/-! ## IPv4 addresses -/

theorem behind?_eq_some_iff {c : Char} {text rest : List Char} :
    behind? c text = some rest ↔ text = c :: rest := by
  cases text with
  | nil => simp [behind?]
  | cons d text => simp [behind?, eq_comm]

theorem toList_written (ip : Ipv4) :
    ip.written.toList = Nat.toDigits 10 ip.a.toNat ++ '.' :: (Nat.toDigits 10 ip.b.toNat ++
      '.' :: (Nat.toDigits 10 ip.c.toNat ++ '.' :: Nat.toDigits 10 ip.d.toNat)) := by
  have hstop : (toString ".").toList = ['.'] := rfl
  simp [Ipv4.written, hstop]

theorem ipv4?_sound : Sound IsIpv4 ipv4? := by
  intro text ip rest h
  simp only [ipv4?, Option.bind_eq_bind, Option.bind_eq_some_iff, Prod.exists, behind?_eq_some_iff,
    Option.pure_def, Option.some.injEq, Prod.mk.injEq] at h
  obtain ⟨a, _, ha, _, rfl, b, _, hb, _, rfl, c, _, hc, _, rfl, d, _, hd, rfl, rfl⟩ := h
  obtain ⟨_, rfl, rfl⟩ := byte?_sound _ _ _ ha
  obtain ⟨_, rfl, rfl⟩ := byte?_sound _ _ _ hb
  obtain ⟨_, rfl, rfl⟩ := byte?_sound _ _ _ hc
  obtain ⟨_, rfl, rfl⟩ := byte?_sound _ _ _ hd
  refine ⟨Ipv4.written ⟨a, b, c, d⟩ |>.toList, ?_, rfl⟩
  simp only [toList_written, List.append_assoc, List.cons_append]

theorem ipv4?_complete : Complete IsIpv4 ipv4? (NoDigit 10) := by
  rintro _ ip rest rfl hrest
  have hstop {text : List Char} : NoDigit 10 ('.' :: text) := noDigit_cons (by decide)
  simp only [ipv4?, toList_written, List.append_assoc, List.cons_append, Option.bind_eq_bind,
    byte?_complete _ _ _ rfl hstop, byte?_complete _ _ _ rfl hrest, Option.bind_some, behind?,
      if_true,
    Option.pure_def]

/-- An IPv4 address starts with digits, and behind these stands a full stop. -/
theorem exists_digits_of_ipv4? {text rest : List Char} {ip : Ipv4}
    (h : ipv4? text = some (ip, rest)) :
    ∃ ds behind, ds ≠ [] ∧ digits 16 text = (ds, '.' :: behind) := by
  obtain ⟨_, rfl, rfl⟩ := ipv4?_sound _ _ _ h
  obtain ⟨ds, hare, hne, -⟩ := exists_digits_toDigits ip.a.toNat
  rw [toList_written, List.append_assoc, List.cons_append]
  exact ⟨ds, _, hne, digits_append hare.hexadecimal (noDigit_cons (by decide))⟩

/-- Without a digit in front there is no address. -/
theorem ipv4?_of_noDigit {text : List Char} (h : NoDigit 16 text) : ipv4? text = none := by
  refine Option.eq_none_iff_forall_ne_some.mpr fun ⟨ip, rest⟩ hip => ?_
  obtain ⟨ds, behind, hne, hdigits⟩ := exists_digits_of_ipv4? hip
  rw [digits_of_noDigit h] at hdigits
  exact hne (Prod.mk.inj hdigits).1.symm

/-- Digits without a full stop behind them are no address. -/
theorem ipv4?_of_areDigits {front rest : List Char} {ds : List Nat} (h : AreDigits 16 front ds)
    (hrest : NoDigit 16 rest) (hstop : rest.head? ≠ some '.') : ipv4? (front ++ rest) = none := by
  refine Option.eq_none_iff_forall_ne_some.mpr fun ⟨ip, rest'⟩ hip => ?_
  obtain ⟨ds', behind, -, hdigits⟩ := exists_digits_of_ipv4? hip
  rw [digits_append h hrest] at hdigits
  exact hstop (congrArg List.head? (Prod.mk.inj hdigits).2)

/-- Without a digit in front there is no group. -/
theorem group?_of_noDigit {text : List Char} (h : NoDigit 16 text) : group? text = none := by
  simp [group?, number?, digits_of_noDigit h]

/-! ## Stretches of groups -/

theorem IsStretch.mono {mixed atStart : Bool} {text : List Char} {gs : List UInt16}
    (h : IsStretch mixed atStart text gs) : IsStretch true atStart text gs := by
  induction h with
  | nothing => exact .nothing
  | group h _ ih => exact .group h ih
  | ipv4 _ h => exact .ipv4 rfl h

/-- The colon in front of a group is passed. -/
theorem startOf_eq_some_iff {atStart : Bool} {text rest : List Char} :
    (if atStart then some text else behind? ':' text) = some rest ↔
      text = colon atStart ++ rest := by
  cases atStart with
  | true => exact Option.some_inj
  | false => exact behind?_eq_some_iff

/-- The groups that are taken up are a stretch, no longer than allowed, with an IPv4 address in
it only if it has ended with one. -/
theorem exists_of_groups (left : Nat) :
    ∀ {atStart ended : Bool} {text rest : List Char} {gs : List UInt16},
      groups left atStart text = ((gs, ended), rest) →
      ∃ front, text = front ++ rest ∧ IsStretch ended atStart front gs ∧ gs.length ≤ left := by
  induction left with
  | zero =>
    intro atStart ended text rest gs h
    cases h
    exact ⟨[], rfl, .nothing, Nat.le_refl 0⟩
  | succ left ih =>
    intro atStart ended text rest gs h
    simp only [groups] at h
    split at h
    · rename_i ip _ haddress
      cases h
      obtain ⟨hleft, haddress⟩ := Option.ite_none_right_eq_some.mp haddress
      obtain ⟨_, hstart, hip⟩ := Option.bind_eq_some_iff.mp haddress
      obtain rfl := startOf_eq_some_iff.mp hstart
      obtain ⟨front, rfl, hfront⟩ := ipv4?_sound _ _ _ hip
      refine ⟨colon atStart ++ front, (List.append_assoc ..).symm, .ipv4 rfl hfront, ?_⟩
      exact Nat.succ_le_succ hleft
    · split at h
      · cases h
        exact ⟨[], rfl, .nothing, Nat.zero_le _⟩
      · rename_i g _ hgroup
        obtain ⟨_, hstart, hg⟩ := Option.bind_eq_some_iff.mp hgroup
        obtain rfl := startOf_eq_some_iff.mp hstart
        obtain ⟨front, rfl, hfront⟩ := group?_sound _ _ _ hg
        cases h
        obtain ⟨behind, hbehind, hmore, hlength⟩ := ih (Prod.ext (Prod.ext rfl rfl) rfl)
        refine ⟨colon atStart ++ front ++ behind, ?_, .group hfront hmore, Nat.succ_le_succ hlength⟩
        rw [List.append_assoc, List.append_assoc, ← hbehind]

/-- The text does not go on with a literal in front of it: neither a digit nor a full stop comes
first, nor a digit behind a colon. -/
structure Past (text : List Char) : Prop where
  digit : NoDigit 16 text
  stop : text.head? ≠ some '.'
  colon : ∀ rest, text = ':' :: rest → NoDigit 16 rest

/-- Behind its colon, a group or an address is taken up, or nothing is. -/
theorem groups_succ (left : Nat) (atStart : Bool) (text : List Char) :
    groups (left + 1) atStart (colon atStart ++ text) =
      match (if 0 < left then ipv4? text else none) with
      | some (ip, rest) => ((Ipv4.groups ip, true), rest)
      | none =>
        match group? text with
        | none => (([], false), colon atStart ++ text)
        | some (g, rest) =>
          ((g :: (groups left false rest).1.1, (groups left false rest).1.2),
            (groups left false rest).2) := by
  have hstart : (if atStart then some (colon atStart ++ text) else
      behind? ':' (colon atStart ++ text)) = some text := startOf_eq_some_iff.mpr rfl
  rw [groups]
  generalize
    (if atStart then some (colon atStart ++ text) else behind? ':' (colon atStart ++ text)) =
      start? at hstart ⊢
  subst hstart
  rfl

/-- Nothing is taken up where no digit stands behind the colon. -/
theorem groups_eq_nothing {atStart : Bool} {text : List Char} (left : Nat)
    (h : ∀ more, text = colon atStart ++ more → NoDigit 16 more) :
    groups left atStart text = (([], false), text) := by
  cases left with
  | zero => rfl
  | succ left =>
    cases hstart : (if atStart then some text else behind? ':' text) with
    | none => simp only [groups, hstart, Option.bind_none, ite_self]
    | some more =>
      obtain rfl := startOf_eq_some_iff.mp hstart
      have hmore := h more rfl
      simp only [groups_succ, ipv4?_of_noDigit hmore, group?_of_noDigit hmore, ite_self]

/-- Behind a stretch without an IPv4 address, in front of which stands a group, it goes on with
a colon or with the rest. -/
theorem IsStretch.past {mixed : Bool} {text rest : List Char} {gs : List UInt16}
    (h : IsStretch mixed false text gs) (hrest : Past rest) :
    NoDigit 16 (text ++ rest) ∧ (text ++ rest).head? ≠ some '.' := by
  have hcolon {text : List Char} : NoDigit 16 (':' :: text) := noDigit_cons (by decide)
  cases h with
  | nothing => exact ⟨hrest.digit, hrest.stop⟩
  | group _ _ => exact ⟨hcolon, by simp [Address.colon]⟩
  | ipv4 _ _ => exact ⟨hcolon, by simp [Address.colon]⟩

/-- A stretch that is not too long is taken up as a whole, if the rest does not go on with it. -/
theorem groups_append {mixed atStart : Bool} {front rest : List Char} {gs : List UInt16}
    (h : IsStretch mixed atStart front gs) (hrest : Past rest) :
    ∀ {left : Nat}, gs.length ≤ left → ∃ ended, (ended = true → mixed = true) ∧
      groups left atStart (front ++ rest) = ((gs, ended), rest) := by
  induction h with
  | @nothing atStart =>
    intro left _
    refine ⟨false, fun hended => (Bool.false_ne_true hended).elim, ?_⟩
    refine groups_eq_nothing left fun more hmore => ?_
    cases atStart with
    | true =>
      obtain rfl : rest = more := hmore
      exact hrest.digit
    | false => exact hrest.colon more hmore
  | @group atStart text behind g gs h more ih =>
    intro left hlength
    obtain ⟨left, rfl⟩ := Nat.exists_eq_add_of_lt (Nat.lt_of_lt_of_le (Nat.succ_pos _) hlength)
    rw [Nat.zero_add] at hlength ⊢
    obtain ⟨ended, hended, hgroups⟩ := ih (Nat.le_of_succ_le_succ hlength)
    obtain ⟨hdigit, hstop⟩ := more.past hrest
    obtain ⟨ds, hare, -⟩ := id h
    refine ⟨ended, hended, ?_⟩
    simp only [List.append_assoc, groups_succ, ipv4?_of_areDigits hare hdigit hstop, ite_self,
      group?_complete _ _ _ h hdigit, hgroups]
  | @ipv4 atStart text ip allowed h =>
    intro left hlength
    have htwo : 2 ≤ left := hlength
    obtain ⟨left, rfl⟩ := Nat.exists_eq_add_of_le' htwo
    refine ⟨true, fun _ => allowed, ?_⟩
    have hleft : 0 < left + 1 := Nat.succ_pos left
    simp only [List.append_assoc, groups_succ, if_pos hleft,
      ipv4?_complete _ _ _ h hrest.digit.decimal]

/-! ## IPv6 addresses -/

/-- Eight groups are an address. -/
theorem ipv6?_of_eight {text rest : List Char} {gs : List UInt16} {ended : Bool}
    (h : groups 8 true text = ((gs, ended), rest)) (eight : gs.length = 8) :
    ipv6? text = some (gs, rest) := by
  simp only [ipv6?, h, eight, if_true]
  rfl

/-- Behind fewer groups have to stand two colons, and no IPv4 address in front of them. -/
theorem ipv6?_of_fewer {text middle rest : List Char} {head gs : List UInt16} {ended : Bool}
    (h : groups 8 true text = ((head, ended), middle)) (fewer : head.length ≠ 8) :
    ipv6? text = some (gs, rest) ↔ ended = false ∧
      ∃ behind tail ended', middle = ':' :: ':' :: behind ∧
        groups (7 - head.length) true behind = ((tail, ended'), rest) ∧
        gs = head ++ List.replicate (8 - head.length - tail.length) 0 ++ tail := by
  simp only [ipv6?, h, if_neg fewer, Option.bind_eq_bind]
  cases ended with
  | true => simp
  | false =>
    simp only [Bool.false_eq_true, if_false, Option.bind_eq_some_iff, behind?_eq_some_iff,
      Option.pure_def, Option.some.injEq, Prod.mk.injEq, true_and]
    constructor
    · rintro ⟨_, rfl, behind, rfl, rfl, rfl⟩
      exact ⟨behind, _, _, rfl, rfl, rfl⟩
    · rintro ⟨behind, tail, ended', rfl, htail, rfl⟩
      exact ⟨_, rfl, behind, rfl, by rw [htail], by rw [htail]⟩

theorem ipv6?_sound : Sound IsIpv6 ipv6? := by
  intro text gs rest h
  rcases hhead : groups 8 true text with ⟨⟨head, ended⟩, middle⟩
  obtain ⟨before, rfl, hbefore, hlength⟩ := exists_of_groups 8 hhead
  by_cases height : head.length = 8
  · obtain ⟨rfl, rfl⟩ := Prod.mk.inj (Option.some.inj ((ipv6?_of_eight hhead height).symm.trans h))
    exact ⟨before, rfl, .full hbefore.mono height⟩
  · obtain ⟨rfl, behind, tail, _, rfl, htail, rfl⟩ := (ipv6?_of_fewer hhead height).mp h
    obtain ⟨front, rfl, hfront, htail⟩ := exists_of_groups _ htail
    refine ⟨before ++ ':' :: ':' :: front, ?_, .compressed hbefore hfront.mono (by omega)⟩
    simp only [List.append_assoc, List.cons_append]

theorem ipv6?_complete : Complete IsIpv6 ipv6? Past := by
  intro front gs rest h hrest
  cases h with
  | full h eight =>
    obtain ⟨_, -, hgroups⟩ := groups_append h hrest (Nat.le_of_eq eight)
    exact ipv6?_of_eight hgroups eight
  | @compressed before behind head tail hbefore hbehind fewer =>
    have hcolon {text : List Char} : NoDigit 16 (':' :: text) := noDigit_cons (by decide)
    have hmiddle : Past (':' :: ':' :: (behind ++ rest)) := by
      refine ⟨hcolon, by simp, fun more hmore => ?_⟩
      cases hmore
      exact hcolon
    obtain ⟨ended, hended, hhead⟩ := groups_append hbefore hmiddle (show head.length ≤ 8 by omega)
    obtain rfl : ended = false := Bool.eq_false_iff.mpr fun h => Bool.false_ne_true (hended h)
    obtain ⟨_, -, htail⟩ :=
      groups_append hbehind hrest (show tail.length ≤ 7 - head.length by omega)
    rw [List.append_assoc, List.cons_append, List.cons_append]
    exact (ipv6?_of_fewer hhead (by omega)).mpr ⟨rfl, _, _, _, rfl, htail, rfl⟩

/-! ## Scopes -/

/-- What is taken up in front of the closing bracket is a scope. -/
theorem exists_of_scope {text rest : List Char} {id : UInt32} (h : scope text = (id, ']' :: rest)) :
    ∃ front, text = front ++ ']' :: rest ∧ IsScope front id := by
  unfold scope at h
  split at h
  · rename_i n rest' hnumber
    obtain ⟨more, hmore, hn⟩ := Option.bind_eq_some_iff.mp hnumber
    obtain rfl := behind?_eq_some_iff.mp hmore
    obtain ⟨digits, rfl, hdigits, hbound⟩ := number?_sound _ _ _ _ _ _ hn
    obtain ⟨rfl, rfl⟩ := Prod.mk.inj h
    refine ⟨'%' :: digits, rfl, .number ?_⟩
    rwa [UInt32.toNat_ofNat_of_lt' hbound]
  · obtain ⟨rfl, rfl⟩ := Prod.mk.inj h
    exact ⟨[], rfl, .none⟩

theorem scope_append {front rest : List Char} {id : UInt32} (h : IsScope front id) :
    scope (front ++ ']' :: rest) = (id, ']' :: rest) := by
  cases h with
  | none => rfl
  | @number digits _ h =>
    have hnumber := number?_complete 10 none (Nat.pow 2 32) _ _ (']' :: rest) ⟨h, id.toNat_lt⟩
      (noDigit_cons (by decide))
    simp only [scope, List.cons_append, behind?, if_true, Option.bind_some, hnumber,
      UInt32.ofNat_toNat]

/-- A scope and the closing bracket do not go on with the groups in front of them. -/
theorem IsScope.past {zone : List Char} {id : UInt32} (h : IsScope zone id) (rest : List Char) :
    Past (zone ++ ']' :: rest) := by
  cases h with
  | none => exact ⟨noDigit_cons (by decide), by simp, fun more hmore => by simp at hmore⟩
  | number _ => exact ⟨noDigit_cons (by decide), by simp, fun more hmore => by simp at hmore⟩

/-! ## IP addresses -/

/-- An IPv4 address does not start with a bracket. -/
theorem behind?_of_ipv4? {text rest : List Char} {ip : Ipv4} (h : ipv4? text = some (ip, rest)) :
    behind? '[' text = none := by
  refine Option.eq_none_iff_forall_ne_some.mpr fun more hmore => ?_
  obtain rfl := behind?_eq_some_iff.mp hmore
  rw [ipv4?_of_noDigit (noDigit_cons (by decide))] at h
  cases h

theorem ip?_sound : Sound IsIp ip? := by
  intro text ip rest h
  unfold ip? at h
  split at h
  · obtain ⟨⟨address, rest'⟩, haddress, heq⟩ := Option.map_eq_some_iff.mp h
    obtain ⟨rfl, rfl⟩ := Prod.mk.inj heq
    obtain ⟨front, hfront, hmeans⟩ := ipv4?_sound _ _ _ haddress
    exact ⟨front, hfront, .v4 hmeans⟩
  · rename_i inside hinside
    obtain rfl := behind?_eq_some_iff.mp hinside
    simp only [Option.bind_eq_bind, Option.bind_eq_some_iff, Prod.exists, behind?_eq_some_iff,
      Option.pure_def, Option.some.injEq, Prod.mk.injEq] at h
    obtain ⟨gs, behind, hgs, rest', hclosing, rfl, rfl⟩ := h
    obtain ⟨front, rfl, hfront⟩ := ipv6?_sound _ _ _ hgs
    obtain ⟨zone, hzone, hscope⟩ := exists_of_scope (Prod.ext rfl hclosing)
    refine ⟨_, ?_, .v6 hfront hscope⟩
    simp only [hzone, List.append_assoc, List.cons_append, List.nil_append]

theorem ip?_complete : Complete IsIp ip? (NoDigit 10) := by
  intro front ip rest h hrest
  cases h with
  | v4 h =>
    have hip := ipv4?_complete _ _ _ h hrest
    simp only [ip?, behind?_of_ipv4? hip, hip, Option.map_some]
  | v6 h hzone =>
    have hgroups := ipv6?_complete _ _ _ h (hzone.past rest)
    simp only [ip?, List.append_assoc, List.cons_append, List.nil_append, behind?, if_true,
      Option.bind_eq_bind, hgroups, Option.bind_some, scope_append hzone, Option.pure_def]

end Address
end PrologTokens.Server
