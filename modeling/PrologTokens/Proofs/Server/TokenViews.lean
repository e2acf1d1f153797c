import PrologTokens.Proofs.Json.Mirror
import PrologTokens.Proofs.Json.RoundTrip

/-!
# Token views mirror tokens

Clients see tokens through views, in which the category is any text. On the wire the two cannot
be told apart: a list of tokens has the same document as the list of their views. The other way
round, a document that is loaded as a view is loaded as the token that it is the view of. Only
where the view has a category that does not exist is there no such token, and then the document
is refused for that.
-/

set_option autoImplicit false

namespace PrologTokens

open Json

/-- Where a string stands, the thing of that name is read, or the name is refused. -/
theorem Json.choice_of_text {α : Type} (find? : String → Option α) (allowed : List String)
    {input rest : Input} {name : String} (h : Read.text input = .ok (name, rest)) :
    Read.choice find? allowed input =
      (Read.named find? allowed name).map fun value => (value, rest) := by
  unfold Read.text at h
  unfold Read.choice
  split at h
  · rename_i hquote
    obtain ⟨⟨body, behind⟩, hbody, h⟩ := bind_eq_ok.mp h
    cases h
    simp only [hquote, hbody, ok_bind]
    cases Read.named find? allowed (String.ofList body) <;> rfl
  · obtain ⟨_, -, h⟩ := bind_eq_ok.mp h
    cases h

namespace Server.TokenView

/-- The category of a token is read along with that of a view, where it exists. -/
theorem category_follows {InStep : List String → TokenView → Token → Prop}
    {Refused : String → Mismatch → TokenView → Prop}
    (hstep : ∀ given view token category, InStep given view token →
      InStep ("category" :: given) { view with category := category.name } { token with category })
    (hrefused : ∀ (view : TokenView) category, Category.ofName? category = none →
      Refused "category" (.unknownName category Category.names) { view with category }) :
    Field.Follows InStep Refused
      (.of "category" [] true Read.text fun category view => { view with category })
      (.of "category" [] true Category.read fun category token => { token with category }) where
  name_eq := rfl
  aliases_eq := rfl
  required_eq := rfl
  read := by
    intro input rest change hread
    obtain ⟨name, hname, rfl⟩ := Field.of_read_eq_ok.mp hread
    have hchoice := choice_of_text Category.ofName? Category.names hname
    cases hfind : Category.ofName? name with
    | some category =>
      refine .inl ⟨fun token => { token with category },
        Field.of_read_eq_ok.mpr ⟨category, ?_, rfl⟩, ?_⟩
      · rw [Category.read, hchoice, Read.named, hfind]
        rfl
      · intro given view token h
        rw [← Category.name_of_ofName? hfind]
        exact hstep given view token category h
    | none =>
      refine .inr ⟨.unknownName name Category.names, ?_, fun view => hrefused view name hfind⟩
      simp only [Field.of, Category.read, hchoice, Read.named, hfind]
      rfl

/-- Tokens are read along with token views. The categories agree as soon as they are given. -/
def mirror : Mirror shape Token.shape where
  InStep given view token :=
    token.lexeme = view.lexeme ∧ token.line = view.line ∧
      ("category" ∈ given → token.category.name = view.category)
  Refused name mismatch view :=
    name = "category" ∧ Category.ofName? view.category = none ∧
      mismatch = .unknownName view.category Category.names
  blank := ⟨rfl, rfl, fun h => absurd h List.not_mem_nil⟩
  fields := by
    refine .cons (Field.follows_of ?_)
      (.cons (category_follows ?_ ?_) (.cons (Field.follows_of ?_) .nil))
    · rintro given view token lexeme ⟨-, hline, hcategory⟩
      exact ⟨rfl, hline, fun h => hcategory (by simpa using h)⟩
    · rintro given view token category ⟨hlexeme, hline, -⟩
      exact ⟨hlexeme, hline, fun _ => rfl⟩
    · intro view category hnone
      exact ⟨rfl, hnone, rfl⟩
    · rintro given view token line ⟨hlexeme, -, hcategory⟩
      exact ⟨hlexeme, rfl, fun h => hcategory (by simpa using h)⟩
  names_nodup := by decide
  kept := by
    intro field hfield input rest change hread name mismatch view hne
    rintro ⟨rfl, hnone, hmismatch⟩
    simp only [shape, List.mem_cons, List.not_mem_nil, or_false] at hfield
    rcases hfield with rfl | rfl | rfl
    · obtain ⟨lexeme, -, rfl⟩ := Field.of_read_eq_ok.mp hread
      exact ⟨rfl, hnone, hmismatch⟩
    · exact absurd rfl hne
    · obtain ⟨line, -, rfl⟩ := Field.of_read_eq_ok.mp hread
      exact ⟨rfl, hnone, hmismatch⟩

/-- A document that is loaded as a view is loaded as the token of which it is the view, or it is
refused for its category. -/
theorem loadText_token {text : String} {view : TokenView}
    (h : loadText TokenView.read text = .ok view) :
    (∃ category : Category, category.name = view.category ∧
      loadText Token.read text = .ok ⟨view.lexeme, category, view.line⟩) ∨
    (Category.ofName? view.category = none ∧ ∃ step, loadText Token.read text =
      .error (.faulty (.mismatch [step] (.unknownName view.category Category.names)))) := by
  obtain ⟨⟨_, rest⟩, hread, h⟩ := bind_eq_ok.mp (mapError_eq_ok.mp h)
  simp only at h
  split at h
  · rename_i hend
    cases h
    obtain ⟨given, hgiven, ⟨⟨lexeme, category, line⟩, htoken, rfl, rfl, hcategory⟩ |
      ⟨step, _, _, hrefused, -, hnone, rfl⟩⟩ := mirror.read hread
    · refine .inl ⟨category, hcategory (hgiven _ (.tail _ (.head _)) rfl), ?_⟩
      rw [loadText, decode, Token.read, htoken]
      simp only [ok_bind, hend]
      rfl
    · refine .inr ⟨hnone, step, ?_⟩
      rw [loadText, decode, Token.read, hrefused]
      rfl
  · cases h

/-- Token views mirror tokens: lists of both have the same document, and a document that is
loaded as a view is loaded as the token of which it is the view if there is such a token, and is
else refused. -/
theorem mirrors_token :
    (∀ tokens : List Token,
      (listToJson (tokens.map ofToken)).compactString = (Token.listToJson tokens).compactString) ∧
    ∀ (text : String) (view : TokenView), loadText TokenView.read text = .ok view →
      (∀ category : Category, category.name = view.category →
        loadText Token.read text = .ok ⟨view.lexeme, category, view.line⟩ ∧
          ofToken ⟨view.lexeme, category, view.line⟩ = view) ∧
      ((∀ category : Category, category.name ≠ view.category) →
        ∃ step, loadText Token.read text =
          .error (.faulty (.mismatch [step] (.unknownName view.category Category.names)))) := by
  refine ⟨fun tokens => ?_, fun text view h => ⟨fun category hcategory => ?_, fun hno => ?_⟩⟩
  · have hitem : ∀ token : Token, (ofToken token).toJson.compact = token.toJson.compact := by
      intro token
      rw [compact_toJson, Token.compact_toJson, ofToken]
    rw [Json.compactString, Json.compactString, listToJson, Token.listToJson, compact_array,
      compact_array, List.map_map, List.map_map, List.map_map]
    simp only [Function.comp_def, hitem]
  · refine ⟨?_, by rw [ofToken, hcategory]⟩
    rcases loadText_token h with ⟨category', hcategory', htoken⟩ | ⟨hnone, -⟩
    · rw [htoken, Category.name_injective (hcategory'.trans hcategory.symm)]
    · rw [← hcategory, Category.ofName?_name] at hnone
      cases hnone
  · rcases loadText_token h with ⟨category, hcategory, -⟩ | ⟨-, hrefused⟩
    · exact absurd hcategory (hno category)
    · exact hrefused

/-- A document with its members in another order, an unknown one among them and escapes in names
and values. -/
def shuffledDocument : String :=
  "\x7b \"lin\\u0065\" : 18446744073709551615,\n\"x\":[\x7b\"line\":1\x7d,-0.5e3], " ++
    "\"category\":\"R\\u0075le\",\"lexeme\":\"\\ud83d\\ude00\\n\"\x7d"

/-- The document above, and an array with a category that does not exist. -/
theorem mirrors_token_shuffled :
    loadText TokenView.read shuffledDocument = .ok ⟨"😀\n", "Rule", sizeBound - 1⟩ ∧
    loadText Token.read shuffledDocument = .ok ⟨"😀\n", .rule, sizeBound - 1⟩ ∧
    loadText TokenView.read "[\"p\", \"Clause\", 0]" = .ok ⟨"p", "Clause", 0⟩ ∧
    ∃ step, loadText Token.read "[\"p\", \"Clause\", 0]" =
      .error (.faulty (.mismatch [step] (.unknownName "Clause" Category.names))) := by
  have hobject : loadText TokenView.read shuffledDocument = .ok ⟨"😀\n", "Rule", sizeBound - 1⟩ := by
    decide +kernel
  have harray : loadText TokenView.read "[\"p\", \"Clause\", 0]" = .ok ⟨"p", "Clause", 0⟩ := by
    decide +kernel
  have hclause : ∀ category : Category, category.name ≠ "Clause" := by
    intro category
    cases category <;> decide
  exact ⟨hobject, ((mirrors_token.2 _ _ hobject).1 .rule rfl).1, harray,
    (mirrors_token.2 _ _ harray).2 hclause⟩

end Server.TokenView
end PrologTokens
