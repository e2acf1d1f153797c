import PrologTokens.Proofs.Analysis.Joining
import PrologTokens.Proofs.Analysis.Provenance
import PrologTokens.Report

/-!
# Reading the text report

A report in rows escapes nothing, so for lists of tokens at large it cannot be read back: a line
feed in a lexeme would look like the end of a row. No analysis gives such a token, and neither a
line number nor the name of a category holds a tab. So the report on an analysis falls into rows
at its line feeds, and each row into its three fields at its first two tabs, whatever else the
lexeme holds.

The main statement is `Report.render_text_unambiguous`.
-/

set_option autoImplicit false

namespace PrologTokens

namespace RuleTable

/-- No token of an analysis goes over the end of a line. -/
theorem newline_not_mem_of_analyze {table : RuleTable} {source : String} {tokens : List Token}
    (h : table.analyze source = .ok tokens) {token : Token} (htoken : token ∈ tokens) :
    '\n' ∉ token.lexeme.toList :=
  (well_formed_of_analyze h htoken).2.2.2

end RuleTable

namespace Report

/-! ## Cutting a report -/

/-- The rows of a report. Each of them is ended by a line feed, so behind the last one nothing
stands. -/
def rowsOf (report : List Char) : List (List Char) := (Text.lines report).dropLast

/-- What stands in front of the first tab, and what stands behind it. -/
def cutAtTab? (text : List Char) : Option (List Char × List Char) :=
  match text.dropWhile (· ≠ '\t') with
  | [] => none
  | _ :: behind => some (text.takeWhile (· ≠ '\t'), behind)

/-- The texts that a row is made of. -/
structure Fields where
  /-- The number of the line in decimal digits. -/
  number : List Char
  /-- The name of the category. -/
  category : List Char
  /-- The lexeme. -/
  lexeme : List Char
  deriving DecidableEq, Repr, Inhabited

/-- The fields of a row, which end at its first two tabs. -/
def fields? (row : List Char) : Option Fields := do
  let (number, others) ← cutAtTab? row
  let (category, lexeme) ← cutAtTab? others
  return ⟨number, category, lexeme⟩

/-- The token with the given fields, if they name a category. -/
def Fields.token? (fields : Fields) : Option Token := do
  let category ← Category.ofName? (String.ofList fields.category)
  return ⟨String.ofList fields.lexeme, category, Nat.ofDigitChars 10 fields.number 0⟩

/-- The tokens of a report, read row by row. -/
def tokens? (report : List Char) : Option (List Token) :=
  (rowsOf report).mapM fun row => fields? row >>= Fields.token?

/-! ## Rows of tokens -/

/-- The fields of the row of a token. -/
def fieldsOf (token : Token) : Fields :=
  ⟨Nat.toDigits 10 token.line, token.category.name.toList, token.lexeme.toList⟩

/-- A character that is no digit stands in no line number. -/
theorem not_mem_toDigits {c : Char} (h : c.isDigit = false) (n : Nat) : c ∉ Nat.toDigits 10 n := by
  intro hmem
  rw [Nat.isDigit_of_mem_toDigits (by decide) (by decide) hmem] at h
  exact absurd h (by simp)

theorem tab_not_mem_name (category : Category) : '\t' ∉ category.name.toList := by
  cases category <;> decide

theorem newline_not_mem_name (category : Category) : '\n' ∉ category.name.toList := by
  cases category <;> decide

/-- The row of a token holds a line feed only if the lexeme does. -/
theorem newline_not_mem_row {token : Token} (h : '\n' ∉ token.lexeme.toList) :
    '\n' ∉ token.row := by
  have hnumber := not_mem_toDigits (c := '\n') (by decide) token.line
  have hname := newline_not_mem_name token.category
  simp [Token.row, hnumber, hname, h]

/-- A text is cut in two at its first tab. -/
theorem cutAtTab?_append {front : List Char} (h : '\t' ∉ front) (behind : List Char) :
    cutAtTab? (front ++ '\t' :: behind) = some (front, behind) := by
  have hfront : ∀ c ∈ front, decide (c ≠ '\t') = true := by
    intro c hc
    exact decide_eq_true fun htab => h (htab ▸ hc)
  have htake : (front ++ '\t' :: behind).takeWhile (· ≠ '\t') = front := by
    rw [List.takeWhile_append_of_pos hfront]
    simp
  have hdrop : (front ++ '\t' :: behind).dropWhile (· ≠ '\t') = '\t' :: behind := by
    rw [List.dropWhile_append_of_pos hfront]
    simp
  rw [cutAtTab?, hdrop, htake]

/-- The row of a token is cut into its fields, also where the lexeme holds tabs. -/
theorem fields?_row (token : Token) : fields? token.row = some (fieldsOf token) := by
  have hrow : token.row = Nat.toDigits 10 token.line ++ '\t' ::
      (token.category.name.toList ++ '\t' :: token.lexeme.toList) := by
    simp [Token.row]
  have hnumber := not_mem_toDigits (c := '\t') (by decide) token.line
  rw [fields?, hrow, cutAtTab?_append hnumber, Option.bind_eq_bind, Option.bind_some]
  simp only [cutAtTab?_append (tab_not_mem_name token.category), Option.bind_some]
  rfl

/-- The fields of a token tell the token. -/
theorem token?_fieldsOf (token : Token) : (fieldsOf token).token? = some token := by
  simp [Fields.token?, fieldsOf, String.ofList_toList, Nat.ofDigitChars_ten_toDigits]

/-- The lines of a report are the rows of its tokens and, behind the last line feed, an empty
one. -/
theorem lines_rows {tokens : List Token} (h : ∀ token ∈ tokens, '\n' ∉ token.lexeme.toList) :
    Text.lines (rows tokens) = tokens.map Token.row ++ [[]] := by
  induction tokens with
  | nil => rfl
  | cons token tokens ih =>
    obtain ⟨htoken, htokens⟩ := List.forall_mem_cons.mp h
    have hrows : rows (token :: tokens) = token.row ++ '\n' :: rows tokens := by
      simp [rows]
    rw [hrows, Text.lines_append_newline, Text.lines_of_not_mem (newline_not_mem_row htoken),
      ih htokens]
    rfl

theorem rowsOf_rows {tokens : List Token} (h : ∀ token ∈ tokens, '\n' ∉ token.lexeme.toList) :
    rowsOf (rows tokens) = tokens.map Token.row := by
  rw [rowsOf, lines_rows h, List.dropLast_concat]

/-- What is read from the rows of tokens are these tokens. -/
theorem tokens?_rows {tokens : List Token} (h : ∀ token ∈ tokens, '\n' ∉ token.lexeme.toList) :
    tokens? (rows tokens) = some tokens := by
  have hread :
      ((fun row => fields? row >>= Fields.token?) ∘ Token.row) = fun token => pure token := by
    funext token
    rw [Function.comp_apply, fields?_row, Option.bind_eq_bind, Option.bind_some, token?_fieldsOf]
    rfl
  rw [tokens?, rowsOf_rows h, List.mapM_map, hread, List.mapM_pure, List.map_id']
  rfl

/-- The text report on an analysis holds one line feed for each token. Cut at the line feeds,
and each row at its first two tabs, it gives back the line number, the name of the category and
the lexeme of each token, and so the tokens. No other list of tokens that an analysis gives has
the same report. -/
theorem render_text_unambiguous (table : RuleTable) (source : String) (tokens : List Token)
    (h : table.analyze source = .ok tokens) :
    let report := render .text tokens
    report.toList.count '\n' = tokens.length ∧
    Text.lines report.toList = rowsOf report.toList ++ [[]] ∧
    (rowsOf report.toList).map fields? = tokens.map (fun token => some
      ⟨Nat.toDigits 10 token.line, token.category.name.toList, token.lexeme.toList⟩) ∧
    tokens? report.toList = some tokens ∧
    ∀ (table' : RuleTable) (source' : String) (tokens' : List Token),
      table'.analyze source' = .ok tokens' → render .text tokens' = report → tokens' = tokens := by
  intro report
  have hnewline : ∀ token ∈ tokens, '\n' ∉ token.lexeme.toList := fun _ htoken =>
    RuleTable.newline_not_mem_of_analyze h htoken
  have hreport : report.toList = rows tokens := String.toList_ofList
  have hrows := rowsOf_rows hnewline
  have hlines := lines_rows hnewline
  rw [hreport, hrows, tokens?_rows hnewline]
  refine ⟨?_, hlines, ?_, rfl, ?_⟩
  · have hcount := Text.length_lines (rows tokens)
    rw [hlines, List.length_append, List.length_map, List.length_singleton] at hcount
    omega
  · rw [List.map_map]
    exact List.map_congr_left fun token _ => fields?_row token
  · intro table' source' tokens' h' hsame
    have hnewline' : ∀ token ∈ tokens', '\n' ∉ token.lexeme.toList := fun _ htoken =>
      RuleTable.newline_not_mem_of_analyze h' htoken
    have hsameRows : rows tokens' = rows tokens := String.ofList_injective hsame
    have hread := tokens?_rows hnewline'
    rw [hsameRows, tokens?_rows hnewline] at hread
    exact (Option.some.inj hread).symm

/-- Two facts with tabs and a carriage return in front of their full stops. -/
theorem render_text_unambiguous_tabs :
    let tokens : List Token := [⟨"p(a)\t\r.", .fact, 1⟩, ⟨"q(b)\t\t.", .fact, 3⟩]
    RuleTable.analyze [RuleTable.Prolog.fact] "p(a)\t\r.\n\n q(b)\t\t. " = .ok tokens ∧
    (render .text tokens).toList.count '\n' = 2 ∧
    tokens? (render .text tokens).toList = some tokens := by
  intro tokens
  have h : RuleTable.analyze [RuleTable.Prolog.fact] "p(a)\t\r.\n\n q(b)\t\t. " = .ok tokens := by
    cbv
  obtain ⟨hcount, -, -, hread, -⟩ := render_text_unambiguous _ _ _ h
  exact ⟨h, hcount, hread⟩

end Report
end PrologTokens
