import PrologTokens.Proofs.Json.FieldValues
import PrologTokens.Proofs.Json.RoundTrip

/-!
# Which documents are loaded

Of the documents that are objects, those that are loaded as a request or as a configuration are
told by the members that go by the names of the fields: how many there are and what their values
are. The order of the members, the blanks between them, the way in which strings are written and
all members with other names make no difference.

A request has one field with two names, which has to be given once; the two names count together. A
configuration has three fields, each of which may be left out and then has its default.
-/

set_option autoImplicit false

namespace PrologTokens.Server

open Json

/-- A document is loaded as what is read from it. -/
theorem loadText_eq_ok {α : Type} {read : Reader α} {text : String} {value : α} :
    loadText read text = .ok value ↔ decode read (.ofString text) = .ok value :=
  mapError_eq_ok

/-- A document that is not loaded has a fault. -/
theorem loadText_faulty_iff {α : Type} {read : Reader α} {text : String} :
    (∃ fault, loadText read text = .error (.faulty fault)) ↔
      ¬ ∃ value, loadText read text = .ok value := by
  rw [loadText]
  cases decode read (.ofString text) with
  | error fault => simp
  | ok value => simp

/-! ## Requests -/

namespace AnalyzeRequest

theorem shape_decisive : ∀ field ∈ shape.fields, field.Decisive := by
  intro field hfield
  rw [List.mem_singleton.mp hfield]
  exact decides_text.decisive _ _ _ _

theorem shape_namesApart : shape.NamesApart := by
  rw [Shape.NamesApart]
  decide

theorem shows_code :
    shape.Shows (.of "code" ["codigoProlog"] true Read.text fun code _ => ⟨code⟩) IsText code := by
  refine .of decides_text List.mem_cons_self (fun _ _ => rfl) fun other hother hne => ?_
  rw [List.mem_singleton.mp hother] at hne
  exact absurd rfl hne

/-- A request is read if there is one source text. -/
theorem exists_decode (document : Document) :
    (∃ request, decode AnalyzeRequest.read (.ofString document.text) = .ok request) ↔
      ∃ text s, document.valuesOf ["code", "codigoProlog"] = [text] ∧ IsText text s := by
  refine (Shape.exists_decode_iff shape_decisive shape_namesApart document).trans ?_
  simp only [shape, List.forall_mem_singleton]
  refine (or_iff_right ?_).trans (decides_text.exists_accepts_iff document)
  rintro ⟨-, hoptional⟩
  cases hoptional

/-- A document is loaded as a request exactly if one member of it in all goes by one of the two
names, and the value of this member is a string: the source text. Otherwise it is at fault,
whether there is no such member, more than one, or one with another kind of value. -/
theorem loadText_request (document : Document) :
    (∀ request : AnalyzeRequest, loadText AnalyzeRequest.read document.text = .ok request ↔
      ∃ text, document.valuesOf ["code", "codigoProlog"] = [text] ∧ IsText text request.code) ∧
    ((∃ fault, loadText AnalyzeRequest.read document.text = .error (.faulty fault)) ↔
      document.valuesOf ["code", "codigoProlog"] = [] ∨
      2 ≤ (document.valuesOf ["code", "codigoProlog"]).length ∨
      ∃ text, document.valuesOf ["code", "codigoProlog"] = [text] ∧ ∀ s, ¬ IsText text s) := by
  have hsettles : ∀ {request : AnalyzeRequest},
      decode AnalyzeRequest.read (.ofString document.text) = .ok request →
        ∃ text, document.valuesOf ["code", "codigoProlog"] = [text] ∧ IsText text request.code := by
    intro request hdecode
    obtain ⟨text, s, hone, -⟩ := (exists_decode document).mp ⟨request, hdecode⟩
    have hcode := shows_code.decode_settles shape_decisive shape_namesApart hdecode
    rw [Field.valuesIn_eq, hone] at hcode
    cases hcode with
    | given h => exact ⟨text, hone, h⟩
  refine ⟨fun request => ?_, ?_⟩
  · rw [loadText_eq_ok]
    refine ⟨hsettles, ?_⟩
    rintro ⟨text, hone, hcode⟩
    obtain ⟨request', hdecode⟩ := (exists_decode document).mpr ⟨text, request.code, hone, hcode⟩
    obtain ⟨text', hone', hcode'⟩ := hsettles hdecode
    obtain rfl := (List.cons.inj (hone.symm.trans hone')).1
    have hsame : request' = request := by
      cases request
      cases request'
      exact congrArg AnalyzeRequest.mk (decides_text.means_unique hcode' hcode)
    rw [← hsame]
    exact hdecode
  · simp only [loadText_faulty_iff, loadText_eq_ok, exists_decode document]
    cases document.valuesOf ["code", "codigoProlog"] with
    | nil => simp
    | cons text texts =>
      cases texts with
      | nil => simp
      | cons _ _ => simp

/-- A character beyond the first plane, written with a pair of escapes. -/
theorem isText_pair :
    IsText ['"', '\\', 'u', 'd', '8', '3', 'd', '\\', 'u', 'D', 'E', '0', '0', '"'] "😀" := by
  refine ⟨['\\', 'u', 'd', '8', '3', 'd', '\\', 'u', 'D', 'E', '0', '0'], rfl, ?_⟩
  have hfirst : IsCode ['d', '8', '3', 'd'] (0xd800 + 0x3d) :=
    ⟨rfl, [0xd, 8, 3, 0xd], by decide, rfl⟩
  have hsecond : IsCode ['D', 'E', '0', '0'] (0xdc00 + 0x200) :=
    ⟨rfl, [0xd, 0xe, 0, 0], by decide, rfl⟩
  exact .pair hfirst (by decide) hsecond (by decide) (by decide) .nil

/-- A document with the older name of the field, behind a member with another name in whose
value the newer name occurs. -/
def olderDocument : Document where
  members :=
    let inside : Member :=
      ⟨"code", .bare (quote "code"), .bare ['n', 'u', 'l', 'l'], isText_quote _⟩
    [⟨"x", .bare (quote "x"), .bare (bracketed '\x7b' '\x7d' [] [inside.written]), isText_quote _⟩,
      ⟨"codigoProlog", .bare (quote "codigoProlog"),
        .bare ['"', '\\', 'u', 'd', '8', '3', 'd', '\\', 'u', 'D', 'E', '0', '0', '"'],
        isText_quote _⟩]
  before := []
  between := []
  behind := newline 0
  members_isValue := by
    intro member hmember
    simp only [List.mem_cons, List.not_mem_nil, or_false] at hmember
    rcases hmember with rfl | rfl
    · refine @IsValue.object [] [_] allBlank_nil fun member hmember => ?_
      rw [List.mem_singleton.mp hmember]
      exact .word (by decide)
    · exact .text isText_pair
  before_blank := allBlank_nil
  between_blank := allBlank_nil
  behind_blank := allBlank_newline 0

/-- The document above is loaded. -/
theorem loadText_request_older :
    olderDocument.text =
      "\x7b\"x\":\x7b\"code\":null\x7d,\"codigoProlog\":\"\\ud83d\\uDE00\"\x7d\n" ∧
    loadText AnalyzeRequest.read olderDocument.text = .ok ⟨"😀"⟩ := by
  have hone : olderDocument.valuesOf ["code", "codigoProlog"] =
      [['"', '\\', 'u', 'd', '8', '3', 'd', '\\', 'u', 'D', 'E', '0', '0', '"']] := by
        decide +kernel
  exact ⟨by decide +kernel, ((loadText_request olderDocument).1 ⟨"😀"⟩).mpr ⟨_, hone, isText_pair⟩⟩

end AnalyzeRequest

/-! ## Configurations -/

namespace Config

/-- A port is taken up as the number that its digits make, which is below `2 ^ 16`. -/
theorem decides_port : Decides readPort fun text port => IsDecimal text port.toNat where
  ignoresBlanks := ignoresBlanks_port
  accepts := accepts_port
  refuses := by
    intro text htext hno rest hrest
    have hnatural : ∀ n, ¬ (IsDecimal text n ∧ n < Nat.pow 2 16) := by
      rintro n ⟨hdecimal, hn⟩
      refine hno (UInt16.ofNat n) ?_
      rwa [UInt16.toNat_ofNat_of_lt' hn]
    obtain ⟨fault, hread⟩ := (decides_natural "u16" (by decide)).refuses htext hnatural rest hrest
    exact ⟨fault, by rw [readPort, hread]; rfl⟩

theorem decides_size : Decides readSize fun text n => IsDecimal text n ∧ n < sizeBound :=
  decides_natural "usize" (Nat.le_refl _)

theorem shape_decisive : ∀ field ∈ shape.fields, field.Decisive := by
  intro field hfield
  simp only [shape, List.mem_cons, List.not_mem_nil, or_false] at hfield
  rcases hfield with rfl | rfl | rfl
  · exact decides_text.decisive _ _ _ _
  · exact decides_port.decisive _ _ _ _
  · exact decides_size.decisive _ _ _ _

theorem shape_namesApart : shape.NamesApart := by
  rw [Shape.NamesApart]
  decide

/-- Setting one field leaves the others as they are. -/
theorem preserves_of_ne {γ : Type} {get : Config → γ} {name : String}
    (hhost : "host" ≠ name → ∀ host config, get { config with host } = get config)
    (hport : "port" ≠ name → ∀ port config, get { config with port } = get config)
    (hmax : "max_body_bytes" ≠ name → ∀ maxBodyBytes config,
      get { config with maxBodyBytes } = get config) :
    ∀ other ∈ shape.fields, other.name ≠ name → other.Preserves get := by
  intro other hother hne
  simp only [shape, List.mem_cons, List.not_mem_nil, or_false] at hother
  rcases hother with rfl | rfl | rfl
  · exact Field.preserves_of (hhost hne)
  · exact Field.preserves_of (hport hne)
  · exact Field.preserves_of (hmax hne)

theorem shows_host :
    shape.Shows (.of "host" [] false Json.Read.text fun host config => { config with host }) IsText
      host :=
  .of decides_text (.head _) (fun _ _ => rfl)
    (preserves_of_ne (absurd rfl) (fun _ _ _ => rfl) (fun _ _ _ => rfl))

theorem shows_port :
    shape.Shows (.of "port" [] false readPort fun port config => { config with port })
      (fun text port => IsDecimal text port.toNat) port :=
  .of decides_port (.tail _ (.head _)) (fun _ _ => rfl)
    (preserves_of_ne (fun _ _ _ => rfl) (absurd rfl) (fun _ _ _ => rfl))

theorem shows_maxBodyBytes :
    shape.Shows (.of "max_body_bytes" [] false readSize fun maxBodyBytes config =>
        { config with maxBodyBytes })
      (fun text n => IsDecimal text n ∧ n < sizeBound) maxBodyBytes :=
  .of decides_size (.tail _ (.tail _ (.head _))) (fun _ _ => rfl)
    (preserves_of_ne (fun _ _ _ => rfl) (fun _ _ _ => rfl) (absurd rfl))

/-- A configuration is read if each field is given once at most, and then with a value of its
kind. -/
theorem exists_decode (document : Document) :
    (∃ config, decode Config.read (.ofString document.text) = .ok config) ↔
      (document.valuesOf ["host"] = [] ∨
        ∃ text s, document.valuesOf ["host"] = [text] ∧ IsText text s) ∧
      (document.valuesOf ["port"] = [] ∨ ∃ text, ∃ port : UInt16,
        document.valuesOf ["port"] = [text] ∧ IsDecimal text port.toNat) ∧
      (document.valuesOf ["max_body_bytes"] = [] ∨ ∃ text n,
        document.valuesOf ["max_body_bytes"] = [text] ∧ IsDecimal text n ∧ n < sizeBound) := by
  refine (Shape.exists_decode_iff shape_decisive shape_namesApart document).trans ?_
  simp only [shape, List.forall_mem_cons, List.not_mem_nil, IsEmpty.forall_iff,
    implies_true, and_true]
  refine and_congr ?_ (and_congr ?_ ?_)
  · rw [decides_text.exists_accepts_iff document, Field.valuesIn_eq]
    exact or_congr_left (and_iff_left rfl)
  · rw [decides_port.exists_accepts_iff document, Field.valuesIn_eq]
    exact or_congr_left (and_iff_left rfl)
  · rw [decides_size.exists_accepts_iff document, Field.valuesIn_eq]
    exact or_congr_left (and_iff_left rfl)

/-- A configuration that is read has what the document says of each field. -/
theorem decode_settles {document : Document} {config : Config}
    (h : decode Config.read (.ofString document.text) = .ok config) :
    Settles IsText default.host (document.valuesOf ["host"]) config.host ∧
    Settles (fun text port => IsDecimal text port.toNat) default.port (document.valuesOf ["port"])
      config.port ∧
    Settles (fun text n => IsDecimal text n ∧ n < sizeBound) default.maxBodyBytes
      (document.valuesOf ["max_body_bytes"]) config.maxBodyBytes := by
  have hhost := shows_host.decode_settles shape_decisive shape_namesApart h
  have hport := shows_port.decode_settles shape_decisive shape_namesApart h
  have hmax := shows_maxBodyBytes.decode_settles shape_decisive shape_namesApart h
  rw [Field.valuesIn_eq] at hhost hport hmax
  exact ⟨hhost, hport, hmax⟩

/-- A document is loaded as a configuration exactly if each of the three fields is given at most
once, the host as a string and the numbers by digits that make a number in range. The
configuration has in each field the value that is given, or the default if none is. -/
theorem loadText_config (document : Document) :
    ((∃ config, loadText Config.read document.text = .ok config) ↔
      (document.valuesOf ["host"] = [] ∨
        ∃ text s, document.valuesOf ["host"] = [text] ∧ IsText text s) ∧
      (document.valuesOf ["port"] = [] ∨
        ∃ text n, document.valuesOf ["port"] = [text] ∧ IsDecimal text n ∧ n < Nat.pow 2 16) ∧
      (document.valuesOf ["max_body_bytes"] = [] ∨
        ∃ text n, document.valuesOf ["max_body_bytes"] = [text] ∧
          IsDecimal text n ∧ n < Nat.pow 2 64)) ∧
    ∀ config : Config, loadText Config.read document.text = .ok config ↔
      Settles IsText default.host (document.valuesOf ["host"]) config.host ∧
      Settles (fun text port => IsDecimal text port.toNat) default.port (document.valuesOf ["port"])
        config.port ∧
      Settles (fun text n => IsDecimal text n ∧ n < sizeBound) default.maxBodyBytes
        (document.valuesOf ["max_body_bytes"]) config.maxBodyBytes := by
  refine ⟨?_, fun config => ?_⟩
  · simp only [loadText_eq_ok]
    refine (exists_decode document).trans (and_congr_right fun _ => and_congr_left fun _ => ?_)
    refine or_congr_right (exists_congr fun text => ⟨?_, ?_⟩)
    · rintro ⟨port, hone, hport⟩
      exact ⟨port.toNat, hone, hport, port.toNat_lt⟩
    · rintro ⟨n, hone, hdecimal, hn⟩
      refine ⟨UInt16.ofNat n, hone, ?_⟩
      rwa [UInt16.toNat_ofNat_of_lt' hn]
  · rw [loadText_eq_ok]
    refine ⟨decode_settles, ?_⟩
    rintro ⟨hhost, hport, hmax⟩
    obtain ⟨config', hdecode⟩ := (exists_decode document).mpr
      ⟨hhost.exists_means, hport.exists_means, hmax.exists_means⟩
    obtain ⟨hhost', hport', hmax'⟩ := decode_settles hdecode
    have hsame : config' = config := by
      obtain ⟨host, port, maxBodyBytes⟩ := config
      obtain ⟨host', port', maxBodyBytes'⟩ := config'
      obtain rfl := hhost'.unique hhost fun _ _ _ => decides_text.means_unique
      obtain rfl := hport'.unique hport fun _ _ _ => decides_port.means_unique
      obtain rfl := hmax'.unique hmax fun _ _ _ => decides_size.means_unique
      rfl
    rw [← hsame]
    exact hdecode

/-- A document with the largest numbers there can be, and a member whose name differs from that
of a field in one letter. -/
def limitsDocument : Document where
  members := [
    ⟨"max_body_bytes", .bare (quote "max_body_bytes"), .bare (Nat.toDigits 10 (sizeBound - 1)),
      isText_quote _⟩,
    ⟨"Host", .bare (quote "Host"), .bare ['f', 'a', 'l', 's', 'e'], isText_quote _⟩,
    ⟨"port", .bare (quote "port"), .bare (Nat.toDigits 10 65535), isText_quote _⟩]
  before := newline 1
  between := []
  behind := []
  members_isValue := by
    -- Stated of any number, since no proof should write out the digits of the largest one.
    have hdigits : ∀ n, IsValue (Padded.bare (Nat.toDigits 10 n)).text :=
      fun n => .number (isWhole_toDigits n).isNumber
    intro member hmember
    simp only [List.mem_cons, List.not_mem_nil, or_false] at hmember
    rcases hmember with rfl | rfl | rfl
    · exact hdigits (sizeBound - 1)
    · exact .word (by decide)
    · exact hdigits 65535
  before_blank := allBlank_newline 1
  between_blank := allBlank_nil
  behind_blank := allBlank_nil

/-- The document above is loaded, with the default of the field that it does not give. -/
theorem loadText_config_limits :
    loadText Config.read limitsDocument.text = .ok ⟨"127.0.0.1", 65535, sizeBound - 1⟩ := by
  have hhost : limitsDocument.valuesOf ["host"] = [] := by decide +kernel
  have hport : limitsDocument.valuesOf ["port"] = [Nat.toDigits 10 65535] := by decide +kernel
  have hmax : limitsDocument.valuesOf ["max_body_bytes"] = [Nat.toDigits 10 (sizeBound - 1)] := by
    decide +kernel
  refine ((loadText_config limitsDocument).2 _).mpr ?_
  rw [hhost, hport, hmax]
  exact ⟨.absent, .given (isDecimal_toDigits _), .given ⟨isDecimal_toDigits _, by decide⟩⟩

end Config
end PrologTokens.Server
