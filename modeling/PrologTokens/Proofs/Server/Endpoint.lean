import PrologTokens.Proofs.Server.Literals
import PrologTokens.Server.Start

/-!
# The address of a configuration

The server writes host and port of its configuration together and reads the whole as an address.
A host may hold colons of its own, so the text could be divided in more than one way. It is not:
a port is made of digits, so it stands behind the last colon, and what stands in front of it is
the host.

`Config.address_eq_ok_iff_isIp` says that the host alone decides. There is an address exactly if
the host is a literal for an IP address, and it is that one with the port that is configured.
-/

set_option autoImplicit false

namespace PrologTokens.Server

namespace Address

/-! ## Addresses as a whole -/

/-- A literal denotes one address only. -/
theorem IsIp.unique {text : List Char} {ip ip' : Ip} (h : IsIp text ip) (h' : IsIp text ip') :
    ip = ip' := by
  have hread := ip?_complete _ _ _ h noDigit_nil
  rw [ip?_complete _ _ _ h' noDigit_nil] at hread
  exact (Prod.mk.inj (Option.some.inj hread)).1.symm

/-- A colon and the digits of a port behind it. -/
def IsPort (text : List Char) (port : UInt16) : Prop :=
  ∃ digits, text = ':' :: digits ∧ IsNumeral 10 none digits port.toNat

theorem port?_sound : Sound IsPort port? := by
  intro text port rest h
  simp only [port?, Option.bind_eq_bind, Option.bind_eq_some_iff, Prod.exists, behind?_eq_some_iff,
    Option.pure_def, Option.some.injEq, Prod.mk.injEq] at h
  obtain ⟨_, rfl, n, _, hnumber, rfl, rfl⟩ := h
  obtain ⟨digits, rfl, hdigits, hbound⟩ := number?_sound _ _ _ _ _ _ hnumber
  refine ⟨':' :: digits, rfl, digits, rfl, ?_⟩
  rwa [UInt16.toNat_ofNat_of_lt' hbound]

theorem port?_complete : Complete IsPort port? (NoDigit 10) := by
  rintro _ port rest ⟨digits, rfl, hdigits⟩ hrest
  have hnumber := number?_complete 10 none 65536 _ _ _ ⟨hdigits, port.toNat_lt⟩ hrest
  simp only [port?, List.cons_append, behind?, if_true, Option.bind_eq_bind, Option.bind_some,
    hnumber, Option.pure_def, UInt16.ofNat_toNat]

/-- A text is an address if it is a literal with a port behind it. -/
theorem parse?_eq_some_iff {text : String} {address : Address} :
    parse? text = some address ↔
      ∃ front behind, text.toList = front ++ behind ∧ IsIp front address.ip ∧
        IsPort behind address.port := by
  constructor
  · intro h
    simp only [parse?, Option.bind_eq_bind, Option.bind_eq_some_iff, Prod.exists,
      Option.ite_none_right_eq_some, List.isEmpty_iff, Option.pure_def, Option.some.injEq] at h
    obtain ⟨ip, _, hip, port, _, hport, rfl, rfl⟩ := h
    obtain ⟨front, hfront, hmeans⟩ := ip?_sound _ _ _ hip
    obtain ⟨behind, rfl, hbehind⟩ := port?_sound _ _ _ hport
    rw [List.append_nil] at hfront
    exact ⟨front, behind, hfront, hmeans, hbehind⟩
  · rintro ⟨front, behind, htext, hip, hport⟩
    have hread := port?_complete _ _ _ hport noDigit_nil
    obtain ⟨digits, rfl, -⟩ := hport
    have hcolon : NoDigit 10 (':' :: digits) := noDigit_cons (by decide)
    rw [List.append_nil] at hread
    simp only [parse?, htext, ip?_complete _ _ _ hip hcolon, hread, Option.bind_eq_bind,
      Option.bind_some, List.isEmpty_nil, if_true, Option.pure_def]

/-! ## The last colon -/

/-- There is no colon among digits. -/
theorem colon_notMem {text : List Char} {width : Option Nat} {n : Nat}
    (h : IsNumeral 10 width text n) : ':' ∉ text := by
  intro hmem
  obtain ⟨ds, hdigits, -⟩ := h
  have hnone : none ∈ text.map (digit? 10) := List.mem_map.mpr ⟨':', hmem, by decide⟩
  rw [hdigits] at hnone
  simp at hnone

/-- Nothing stands in front of the last colon in a text that starts with it. -/
theorem eq_nil_of_colon {front behind behind' : List Char}
    (h : ':' :: behind = front ++ ':' :: behind') (hbehind : ':' ∉ behind) : front = [] := by
  cases front with
  | nil => rfl
  | cons c front =>
    obtain ⟨-, rfl⟩ := List.cons.inj h
    exact absurd (List.mem_append_right front List.mem_cons_self) hbehind

/-- A text is divided at its last colon in one way only. -/
theorem eq_of_append_colon {front front' behind behind' : List Char}
    (h : front ++ ':' :: behind = front' ++ ':' :: behind') (hbehind : ':' ∉ behind)
    (hbehind' : ':' ∉ behind') : front = front' ∧ behind = behind' := by
  have hsame : front = front' := by
    rcases List.append_eq_append_iff.mp h with ⟨more, rfl, hmore⟩ | ⟨more, rfl, hmore⟩
    · rw [eq_nil_of_colon hmore hbehind, List.append_nil]
    · rw [eq_nil_of_colon hmore hbehind', List.append_nil]
  subst hsame
  exact ⟨rfl, (List.cons.inj (List.append_cancel_left h)).2⟩

end Address

namespace Config

open Address

/-- The host, a colon and the digits of the port. -/
theorem toList_endpoint (config : Config) :
    config.endpoint.toList = config.host.toList ++ ':' :: Nat.toDigits 10 config.port.toNat := by
  have hhost : toString config.host = config.host := rfl
  have hcolon : (toString ":").toList = [':'] := rfl
  simp [endpoint, hhost, hcolon]

/-- The port that is configured is written behind the host. -/
theorem parse?_endpoint_eq_some_iff (config : Config) (address : Address) :
    parse? config.endpoint = some address ↔
      IsIp config.host.toList address.ip ∧ address.port = config.port := by
  have hport := isNumeral_toDigits config.port.toNat
  rw [parse?_eq_some_iff, toList_endpoint]
  constructor
  · rintro ⟨front, _, htext, hip, digits, rfl, hdigits⟩
    obtain ⟨rfl, rfl⟩ := eq_of_append_colon htext (colon_notMem hport) (colon_notMem hdigits)
    exact ⟨hip, UInt16.toNat_inj.mp (hdigits.unique hport)⟩
  · rintro ⟨hip, hsame⟩
    exact ⟨_, _, rfl, hip, _, rfl, hsame ▸ hport⟩

/-- The host alone decides whether there is an address to listen at, whatever the port. It has
to be a literal for an IP address, and the server listens there, at the port that is configured.
-/
theorem address_eq_ok_iff_isIp (config : Config) :
    (∀ address, config.address = .ok address ↔
      IsIp config.host.toList address.ip ∧ address.port = config.port) ∧
    ((∃ address, config.address = .ok address) ↔ ∃ ip, IsIp config.host.toList ip) ∧
    ∀ port, (∃ address, { config with port }.address = .ok address) ↔
      ∃ address, config.address = .ok address := by
  have haddress (config : Config) (address : Address) : config.address = .ok address ↔
      IsIp config.host.toList address.ip ∧ address.port = config.port := by
    rw [← parse?_endpoint_eq_some_iff, Config.address]
    cases parse? config.endpoint <;> simp
  have hexists (config : Config) :
      (∃ address, config.address = .ok address) ↔ ∃ ip, IsIp config.host.toList ip := by
    constructor
    · rintro ⟨address, h⟩
      exact ⟨address.ip, ((haddress config address).mp h).1⟩
    · rintro ⟨ip, h⟩
      exact ⟨⟨ip, config.port⟩, (haddress config _).mpr ⟨h, rfl⟩⟩
  exact ⟨haddress config, hexists config, fun port => (hexists _).trans (hexists config).symm⟩

example : (Config.mk "[fe80::1.2.3.4%7]" 3000 65536).address =
    .ok ⟨.v6 [0xfe80, 0, 0, 0, 0, 0, 0x102, 0x304] 7, 3000⟩ := by decide +kernel

example : (Config.mk "127.0.0.1:80" 3000 65536).address = .error .invalidAddress := by
  decide +kernel

example : (Config.mk "::1" 3000 65536).address = .error .invalidAddress := by decide +kernel

end Config
end PrologTokens.Server
