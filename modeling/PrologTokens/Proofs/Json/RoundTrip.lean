import PrologTokens.Proofs.Json.Documents
import PrologTokens.Server.Config

/-!
# Written documents are loaded unchanged

What the library writes it can load again: the report on a list of tokens, laid out in lines, and
the compact document of each type of records that goes over the wire. The texts in them may hold any
characters; the numbers have to be of the width that the field has.

Loading gives back what was written, so different lists of tokens never have the same report.
-/

set_option autoImplicit false

namespace PrologTokens

open Json

/-- A document that is decoded is loaded. -/
theorem Server.loadText_of_decode {α : Type} {read : Reader α} {text : String} {value : α}
    (h : decode read (.ofString text) = .ok value) : Server.loadText read text = .ok value := by
  rw [Server.loadText, h]
  rfl

/-! ## Reports -/

namespace Report

/-- The report on tokens in JSON is loaded as these tokens, and it is the report on no others. -/
theorem loadText_render (tokens : List Token) (h : ∀ token ∈ tokens, token.line < sizeBound) :
    Server.loadText Token.readList (render .json tokens) = .ok tokens ∧
    ∀ others : List Token, (∀ token ∈ others, token.line < sizeBound) →
      render .json others = render .json tokens → others = tokens := by
  refine ⟨Server.loadText_of_decode (Token.decode_report h), ?_⟩
  intro others hothers hrender
  have hdecode := Token.decode_report hothers
  rw [hrender, Token.decode_report h] at hdecode
  exact (Except.ok.inj hdecode).symm

/-- An empty lexeme on line 0, and one of a quotation mark, a backslash, a control character, a line
feed and a character beyond the first plane on the last line that there can be. -/
theorem loadText_render_escapes :
    (∀ token ∈ [(⟨"", .fact, 0⟩ : Token), ⟨"\"\\\x01\n😀", .unrecognized, sizeBound - 1⟩],
      token.line < sizeBound) ∧
    Server.loadText Token.readList
        (render .json [⟨"", .fact, 0⟩, ⟨"\"\\\x01\n😀", .unrecognized, sizeBound - 1⟩]) =
      .ok [⟨"", .fact, 0⟩, ⟨"\"\\\x01\n😀", .unrecognized, sizeBound - 1⟩] :=
  ⟨by decide, (loadText_render _ (by decide)).1⟩

end Report

/-! ## Records -/

theorem Token.compact_toJson (token : Token) :
    token.toJson.compact = Layout.compact.object
      (tokenMembers token.lexeme token.category.name token.line) := by
  rw [toJson, compact_object]
  simp [tokenMembers, Category.toJson, Json.compact]

theorem Token.decode_document {token : Token} (h : token.line < sizeBound) :
    decode Token.read (.ofString token.toJson.compactString) = .ok token := by
  apply Server.decode_compactString
  rw [compact_toJson]
  exact accepts _ h

namespace Server

theorem TokenView.decode_document {view : TokenView} (h : view.line < sizeBound) :
    decode TokenView.read (.ofString view.toJson.compactString) = .ok view := by
  apply decode_compactString
  rw [compact_toJson]
  exact accepts _ h

namespace Config

/-- The digits of a port are accepted for it, since they are those of a number below `2 ^ 16`. -/
theorem accepts_port {text : List Char} {port : UInt16} (h : IsDecimal text port.toNat) :
    Accepts readPort text port := by
  intro rest hrest
  have hnumber := accepts_decimal "u16" h port.toNat_lt (by decide) rest hrest
  rw [readPort]
  have hbound : Nat.pow 2 16 = 2 ^ 16 := rfl
  rw [hbound, hnumber]
  simp only [Except.map, UInt16.ofNat_toNat]

theorem ignoresBlanks_port : IgnoresBlanks readPort := by
  intro input
  simp only [readPort, ignoresBlanks_natural _ _ input]

/-- The members of the document of a configuration. -/
def members (config : Config) : List (String × List Char) :=
  [("host", quote config.host), ("port", Nat.toDigits 10 config.port.toNat),
    ("max_body_bytes", Nat.toDigits 10 config.maxBodyBytes)]

theorem accepts (layout : Layout) {config : Config} (h : config.maxBodyBytes < sizeBound) :
    Accepts Config.read (layout.object config.members) config := by
  have hfills : shape.Fills shape.draft config.members
      ⟨config, ["max_body_bytes", "port", "host"]⟩ := by
    apply Shape.Fills.member rfl rfl (Field.accepts_of (accepts_text _))
      (Field.ignoresBlanks_of ignoresBlanks_text)
    apply Shape.Fills.member rfl rfl (Field.accepts_of (accepts_port (isDecimal_toDigits _)))
      (Field.ignoresBlanks_of ignoresBlanks_port)
    apply Shape.Fills.member rfl rfl (Field.accepts_of (accepts_size h))
      (Field.ignoresBlanks_of ignoresBlanks_size)
    exact .done _
  exact accepts_object layout hfills rfl

theorem compact_toJson (config : Config) :
    config.toJson.compact = Layout.compact.object config.members := by
  rw [toJson, compact_object]
  simp [members, Json.compact]

theorem decode_document {config : Config} (h : config.maxBodyBytes < sizeBound) :
    decode Config.read (.ofString config.toJson.compactString) = .ok config := by
  apply decode_compactString
  rw [compact_toJson]
  exact accepts _ h

end Config

/-- A record of any type that goes over the wire is loaded unchanged from its compact document. A
failure without a line is written without one, and comes back without one; a request is written
under the first of the two names that its field has. -/
theorem loadText_compactString :
    (∀ config : Config, config.maxBodyBytes < sizeBound →
      loadText Config.read config.toJson.compactString = .ok config) ∧
    (∀ request : AnalyzeRequest,
      loadText AnalyzeRequest.read request.toJson.compactString = .ok request) ∧
    (∀ view : TokenView, view.line < sizeBound →
      loadText TokenView.read view.toJson.compactString = .ok view) ∧
    (∀ response : ErrorResponse, (∀ line ∈ response.line, line < sizeBound) →
      loadText ErrorResponse.read response.toJson.compactString = .ok response) ∧
    (∀ token : Token, token.line < sizeBound →
      loadText Token.read token.toJson.compactString = .ok token) := by
  refine ⟨?_, ?_, ?_, ?_, ?_⟩
  · intro config h
    exact loadText_of_decode (Config.decode_document h)
  · intro request
    exact loadText_of_decode (AnalyzeRequest.decode_document request)
  · intro view h
    exact loadText_of_decode (TokenView.decode_document h)
  · intro response h
    exact loadText_of_decode (ErrorResponse.decode_document h)
  · intro token h
    exact loadText_of_decode (Token.decode_document h)

/-- The largest numbers that the fields hold, a failure without a line, and texts with characters
that are escaped. -/
theorem loadText_compactString_limits :
    loadText Config.read (Config.toJson ⟨"[::1]\t", 65535, sizeBound - 1⟩).compactString =
      .ok ⟨"[::1]\t", 65535, sizeBound - 1⟩ ∧
    loadText AnalyzeRequest.read (AnalyzeRequest.toJson ⟨"p(\"\\\").\n"⟩).compactString =
      .ok ⟨"p(\"\\\").\n"⟩ ∧
    loadText TokenView.read (TokenView.toJson ⟨"😀", "\x00", sizeBound - 1⟩).compactString =
      .ok ⟨"😀", "\x00", sizeBound - 1⟩ ∧
    loadText ErrorResponse.read (ErrorResponse.toJson ⟨"", none⟩).compactString = .ok ⟨"", none⟩ ∧
    loadText ErrorResponse.read (ErrorResponse.toJson ⟨"\x7f", some 0⟩).compactString =
      .ok ⟨"\x7f", some 0⟩ ∧
    loadText Token.read (Token.toJson ⟨"", .atom, sizeBound - 1⟩).compactString =
      .ok ⟨"", .atom, sizeBound - 1⟩ := by
  obtain ⟨hconfig, hrequest, hview, hresponse, htoken⟩ := loadText_compactString
  exact ⟨hconfig _ (by decide), hrequest _, hview _ (by decide), hresponse _ (by simp),
    hresponse _ (by decide), htoken _ (by decide)⟩

end Server
end PrologTokens
