import PrologTokens.Proofs.Json.Layout
import PrologTokens.Proofs.Text.Utf8
import PrologTokens.Report
import PrologTokens.Server.Message

/-!
# Reading back the documents

Tokens, token views, requests and descriptions of failures come back unchanged when their texts are
read, in either layout. Line numbers have to be below the bound on what a line number can be.
-/

set_option autoImplicit false

namespace PrologTokens

open Json

theorem accepts_size {n : Nat} (h : n < sizeBound) : Accepts readSize (Nat.toDigits 10 n) n :=
  accepts_natural "usize" h (Nat.le_refl _)

theorem ignoresBlanks_size : IgnoresBlanks readSize := ignoresBlanks_natural sizeBound "usize"

/-- Objects are told from the end of the array that they stand in. -/
theorem Json.Layout.startsItem_object (layout : Layout) (entries : List (String × List Char)) :
    StartsItem (layout.object entries) := by
  cases entries with
  | nil => exact ⟨_, _, rfl, by decide, by decide⟩
  | cons entry entries => exact ⟨_, _, rfl, by decide, by decide⟩

/-! ## Tokens -/

/-- The members of the document of a token. -/
def tokenMembers (lexeme category : String) (line : Nat) : List (String × List Char) :=
  [("lexeme", quote lexeme), ("category", quote category), ("line", Nat.toDigits 10 line)]

namespace Token

theorem accepts (layout : Layout) {token : Token} (h : token.line < sizeBound) :
    Accepts Token.read
      (layout.object (tokenMembers token.lexeme token.category.name token.line)) token := by
  have hfills : shape.Fills shape.draft
      (tokenMembers token.lexeme token.category.name token.line)
      ⟨token, ["line", "category", "lexeme"]⟩ := by
    apply Shape.Fills.member rfl rfl (Field.accepts_of (accepts_text _))
      (Field.ignoresBlanks_of ignoresBlanks_text)
    apply Shape.Fills.member rfl rfl
      (Field.accepts_of (accepts_choice (Category.ofName?_name token.category)))
      (Field.ignoresBlanks_of (ignoresBlanks_choice _ _))
    apply Shape.Fills.member rfl rfl (Field.accepts_of (accepts_size h))
      (Field.ignoresBlanks_of ignoresBlanks_size)
    exact .done _
  exact accepts_object layout hfills rfl

theorem pretty_toJson (level : Nat) (token : Token) :
    token.toJson.pretty level = (Layout.lines level).object
      (tokenMembers token.lexeme token.category.name token.line) := by
  rw [toJson, pretty_object]
  simp [tokenMembers, Category.toJson, pretty]

/-- The report in JSON is read back as the tokens that it is about. -/
theorem decode_report {tokens : List Token} (h : ∀ token ∈ tokens, token.line < sizeBound) :
    decode Token.readList (.ofString (Report.render .json tokens)) = .ok tokens := by
  have hitems : ∀ token ∈ tokens,
      Accepts Token.read (token.toJson.pretty 1) token ∧ StartsItem (token.toJson.pretty 1) := by
    intro token htoken
    rw [pretty_toJson]
    exact ⟨accepts _ (h token htoken), Layout.startsItem_object _ _⟩
  have harray := accepts_array (Layout.lines 0) tokens hitems
  have hend : AllBlank ['\n'] := by
    intro c hc
    rw [List.mem_singleton.mp hc]
    decide
  have hdocument : Report.document tokens =
      (Layout.lines 0).array (tokens.map fun token => token.toJson.pretty 1) ++ ['\n'] := by
    rw [Report.document, listToJson, pretty_array, List.map_map]
    rfl
  rw [Report.render, hdocument]
  exact decode_of_accepts harray hend

end Token

namespace Server

/-- A compact document that is accepted is decoded. -/
theorem decode_compactString {α : Type} {read : Reader α} {value : Json} {result : α}
    (h : Accepts read value.compact result) :
    decode read (.ofString value.compactString) = .ok result := by
  have hdecode := decode_of_accepts h allBlank_nil
  rwa [List.append_nil] at hdecode

namespace TokenView

theorem accepts (layout : Layout) {view : TokenView} (h : view.line < sizeBound) :
    Accepts TokenView.read (layout.object (tokenMembers view.lexeme view.category view.line))
      view := by
  have hfills : shape.Fills shape.draft (tokenMembers view.lexeme view.category view.line)
      ⟨view, ["line", "category", "lexeme"]⟩ := by
    apply Shape.Fills.member rfl rfl (Field.accepts_of (accepts_text _))
      (Field.ignoresBlanks_of ignoresBlanks_text)
    apply Shape.Fills.member rfl rfl (Field.accepts_of (accepts_text _))
      (Field.ignoresBlanks_of ignoresBlanks_text)
    apply Shape.Fills.member rfl rfl (Field.accepts_of (accepts_size h))
      (Field.ignoresBlanks_of ignoresBlanks_size)
    exact .done _
  exact accepts_object layout hfills rfl

theorem compact_toJson (view : TokenView) :
    view.toJson.compact =
      Layout.compact.object (tokenMembers view.lexeme view.category view.line) := by
  rw [toJson, compact_object]
  simp [tokenMembers, Json.compact]

theorem decode_list {views : List TokenView} (h : ∀ view ∈ views, view.line < sizeBound) :
    decode readList (.ofString (listToJson views).compactString) = .ok views := by
  have hitems : ∀ view ∈ views,
      Accepts TokenView.read view.toJson.compact view ∧ StartsItem view.toJson.compact := by
    intro view hview
    rw [compact_toJson]
    exact ⟨accepts _ (h view hview), Layout.startsItem_object _ _⟩
  have harray := accepts_array Layout.compact views hitems
  apply decode_compactString
  rw [listToJson, compact_array, List.map_map]
  exact harray

end TokenView

namespace AnalyzeRequest

theorem accepts (layout : Layout) (request : AnalyzeRequest) :
    Accepts AnalyzeRequest.read (layout.object [("code", quote request.code)]) request := by
  have hfills : shape.Fills shape.draft [("code", quote request.code)] ⟨request, ["code"]⟩ := by
    apply Shape.Fills.member rfl rfl (Field.accepts_of (accepts_text _))
      (Field.ignoresBlanks_of ignoresBlanks_text)
    exact .done _
  exact accepts_object layout hfills rfl

theorem compact_toJson (request : AnalyzeRequest) :
    request.toJson.compact = Layout.compact.object [("code", quote request.code)] := by
  rw [toJson, compact_object]
  simp [Json.compact]

theorem decode_document (request : AnalyzeRequest) :
    decode AnalyzeRequest.read (.ofString request.toJson.compactString) = .ok request := by
  apply decode_compactString
  rw [compact_toJson]
  exact accepts _ request

/-- A request is read back from the bytes of its document. -/
theorem decode_bytes (request : AnalyzeRequest) :
    decode AnalyzeRequest.read (.ofBytes (Text.Utf8.encode request.toJson.compactString)) =
      .ok request := by
  rw [Input.ofBytes, Text.Utf8.decode_encode]
  exact decode_document request

end AnalyzeRequest

namespace ErrorResponse

/-- The members of the document of a failure. -/
def members (response : ErrorResponse) : List (String × List Char) :=
  ("error", quote response.error) ::
    (response.line.map fun line => ("line", Nat.toDigits 10 line)).toList

theorem accepts (layout : Layout) {response : ErrorResponse}
    (h : ∀ line, response.line = some line → line < sizeBound) :
    Accepts ErrorResponse.read (layout.object response.members) response := by
  obtain ⟨error, line⟩ := response
  cases line with
  | none =>
    have hfills : shape.Fills shape.draft [("error", quote error)] ⟨⟨error, none⟩, ["error"]⟩ := by
      apply Shape.Fills.member rfl rfl (Field.accepts_of (accepts_text _))
        (Field.ignoresBlanks_of ignoresBlanks_text)
      exact .done _
    exact accepts_object layout hfills rfl
  | some line =>
    have hfills : shape.Fills shape.draft
        [("error", quote error), ("line", Nat.toDigits 10 line)]
        ⟨⟨error, some line⟩, ["line", "error"]⟩ := by
      apply Shape.Fills.member rfl rfl (Field.accepts_of (accepts_text _))
        (Field.ignoresBlanks_of ignoresBlanks_text)
      apply Shape.Fills.member rfl rfl
        (Field.accepts_of (accepts_optional_natural "usize" (h line rfl) (Nat.le_refl _)))
        (Field.ignoresBlanks_of (ignoresBlanks_optional _))
      exact .done _
    exact accepts_object layout hfills rfl

theorem compact_toJson (response : ErrorResponse) :
    response.toJson.compact = Layout.compact.object response.members := by
  rw [toJson, compact_object, members]
  cases response.line <;> simp [Json.compact]

/-- A description of a failure comes back with its line, or without one if it has none. -/
theorem decode_document {response : ErrorResponse}
    (h : ∀ line, response.line = some line → line < sizeBound) :
    decode ErrorResponse.read (.ofString response.toJson.compactString) = .ok response := by
  apply decode_compactString
  rw [compact_toJson]
  exact accepts _ h

end ErrorResponse
end Server
end PrologTokens
