import PrologTokens.Command.Analyze
import PrologTokens.Proofs.Server.Statuses

/-!
# The program and the server agree

The same source gives the same analysis from the command line and over the network, although it is
carried in different documents both ways: as it is to the one and inside a JSON string to the other,
and back as a report laid out in lines or as a compact list of views.
-/

set_option autoImplicit false

namespace PrologTokens

namespace Command.Analyze

/-- What stands where the settings take the source from; the standard input is always there. -/
def Settings.source (settings : Settings) (input : List UInt8) (files : String → FileState) :
    FileState :=
  match settings.file with
  | none => .file input
  | some path => files path

theorem report_eq (settings : Settings) (input : List UInt8) (files : String → FileState) :
    report settings input files = (do
      let source ← readSource (settings.source input files)
      let tokens ← (analyze source).mapError Error.message
      return Report.render settings.format tokens) := by
  obtain ⟨file, format⟩ := settings
  cases file <;> rfl

/-- Every run of the program that reads the bytes of the source ends in the given way: without
arguments, with the option for JSON, and with any other arguments that are understood, from the
standard input or from a file. -/
structure Ends (source : String) (outcome : ReportFormat → Outcome) : Prop where
  plain : ∀ files, run [] (Text.Utf8.encode source) files = outcome .text
  json : ∀ files, run ["--json"] (Text.Utf8.encode source) files = outcome .json
  every : ∀ arguments wanted input files, settings arguments = .ok wanted →
    wanted.source input files = .file (Text.Utf8.encode source) →
    run arguments input files = outcome wanted.format

theorem ends_of_every {source : String} {outcome : ReportFormat → Outcome}
    (h : ∀ arguments wanted input files, settings arguments = .ok wanted →
      wanted.source input files = .file (Text.Utf8.encode source) →
      run arguments input files = outcome wanted.format) : Ends source outcome where
  plain := fun files => h [] ⟨none, .text⟩ _ files rfl rfl
  json := fun files => h ["--json"] ⟨none, .json⟩ _ files rfl rfl
  every := h

theorem report_of_source {source : String} {settings : Settings} {input : List UInt8}
    {files : String → FileState}
    (h : settings.source input files = .file (Text.Utf8.encode source)) :
    report settings input files =
      ((analyze source).mapError Error.message).map (Report.render settings.format) := by
  have hsource : readSource (.file (Text.Utf8.encode source)) = .ok source := by
    rw [readSource, decodeSource, Text.Utf8.text?_encode]
  rw [report_eq, h, hsource, ok_bind]
  cases analyze source with
  | error error => rfl
  | ok tokens => rfl

theorem ends_of_ok {source : String} {tokens : List Token} (h : analyze source = .ok tokens) :
    Ends source fun format => ⟨0, Report.render format tokens, ""⟩ := by
  apply ends_of_every
  intro arguments wanted input files hsettings hsource
  have hreport := report_of_source hsource
  rw [h] at hreport
  rw [run, hsettings]
  simp only [hreport]
  rfl

theorem ends_of_error {source : String} {error : Error} (h : analyze source = .error error) :
    Ends source fun _ => ⟨1, "", s!"Error: {error.message}\n"⟩ := by
  apply ends_of_every
  intro arguments wanted input files hsettings hsource
  have hreport := report_of_source hsource
  rw [h] at hreport
  rw [run, hsettings]
  simp only [hreport]
  rfl

end Command.Analyze

namespace Server

/-- For a source whose request is not too long, the program succeeds exactly when the server answers
with tokens, and they give the same tokens; or both of them fail with the same message and the line
that it names. -/
theorem run_agrees_respond (config : Config) (source : String)
    (hlines : (Text.lines source.toList).length < sizeBound) (request : Request)
    (hmethod : request.method = "POST") (hpath : request.path = "/api/v1/analyze")
    (hannounced : request.header? "content-type" = some "application/json")
    (hbody : request.body = Text.Utf8.encode (AnalyzeRequest.toJson ⟨source⟩).compactString)
    (hlimit : request.body.length ≤ config.maxBodyBytes) :
    let response := respond config request
    (∃ tokens,
      Command.Analyze.Ends source (fun format => ⟨0, Report.render format tokens, ""⟩) ∧
      response.status = 200 ∧
      (∀ files, Json.decode Token.readList
        (.ofString (Command.Analyze.run ["--json"] (Text.Utf8.encode source) files).output) =
          .ok tokens) ∧
      Json.decode TokenView.readList (.ofString response.body) =
        .ok (tokens.map TokenView.ofToken)) ∨
    (∃ number message,
      message = s!"Unterminated string literal on line {number}" ∧
      Command.Analyze.Ends source (fun _ => ⟨1, "", s!"Error: {message}\n"⟩) ∧
      response.status = 422 ∧
      Json.decode ErrorResponse.read (.ofString response.body) = .ok ⟨message, some number⟩) := by
  have hread : readRequest config request = .ok ⟨source⟩ := by
    have hjson : request.Announced := by
      rw [Request.Announced, hannounced]
      decide
    rw [readRequest_of_announced hjson hlimit, hbody, AnalyzeRequest.decode_bytes]
    rfl
  have hresponse : respond config request = { respondAnalysis config request with
      headers := originHeaders ++ (respondAnalysis config request).headers } :=
    respond_eq hmethod (by rw [hpath]; decide)
  rw [hresponse]
  rcases respondAnalysis_of_ok hread hlines with
    ⟨tokens, hok, -, hstatus, hdecode⟩ | ⟨number, herror, -, hstatus, hdecode⟩
  · have hbounds : ∀ token ∈ tokens, token.line < sizeBound := by
      intro token htoken
      exact Nat.lt_of_le_of_lt (RuleTable.line_le_of_analyze hok htoken) hlines
    have hends := Command.Analyze.ends_of_ok hok
    refine .inl ⟨tokens, hends, hstatus, ?_, hdecode⟩
    intro files
    rw [hends.json]
    exact Token.decode_report hbounds
  · have hends := Command.Analyze.ends_of_error herror
    have hmessage : (Error.unterminatedString number).message =
        s!"Unterminated string literal on line {number}" := rfl
    exact .inr ⟨number, (Error.unterminatedString number).message, hmessage, hends, hstatus,
      hdecode⟩

/-- A source with quotation marks, which are escaped on the way to the server and back. -/
theorem run_agrees_respond_quoted :
    let body := Text.Utf8.encode (AnalyzeRequest.toJson ⟨"\"p\"."⟩).compactString
    let response := respond .default
      ⟨"POST", "/api/v1/analyze", [("content-type", "application/json")], body⟩
    ∃ tokens,
      Command.Analyze.Ends "\"p\"." (fun format => ⟨0, Report.render format tokens, ""⟩) ∧
      response.status = 200 ∧
      Json.decode TokenView.readList (.ofString response.body) =
        .ok (tokens.map TokenView.ofToken) := by
  intro body response
  have hagree := run_agrees_respond .default "\"p\"." (by decide)
    ⟨"POST", "/api/v1/analyze", [("content-type", "application/json")], body⟩ rfl (by decide)
    (by decide) rfl (by decide)
  rcases hagree with ⟨tokens, hends, hstatus, -, hdecode⟩ | ⟨number, message, -, hends, -⟩
  · exact ⟨tokens, hends, hstatus, hdecode⟩
  · -- The quotation marks come in a pair, so the program does not fail.
    rcases RuleTable.analyze_cases RuleTable.prolog "\"p\"." with
      ⟨tokens, hok, -⟩ | ⟨_, -, ⟨⟨line, -, hline, hodd⟩, -⟩, -⟩
    · have hplain := (hends.plain fun _ => .missing).symm.trans
        ((Command.Analyze.ends_of_ok hok).plain fun _ => .missing)
      exact absurd (congrArg Command.Outcome.exitCode hplain) (by decide : (1 : UInt8) ≠ 0)
    · have heven : ∀ line ∈ Text.lines "\"p\".".toList, Even (line.count '"') := by decide
      exact absurd (heven line (List.mem_of_getElem? hline)) (Nat.not_even_iff_odd.mpr hodd)

end Server
end PrologTokens
