import PrologTokens.Proofs.Analysis.Provenance
import PrologTokens.Proofs.Json.Documents
import PrologTokens.Proofs.Json.Extent
import PrologTokens.Server.Service

/-!
# How requests for an analysis are answered

A request for an analysis is answered by one of four status codes, and the body of the response can
be read back whichever it is: the tokens as they were found, or the description of the failure. Line
numbers fit into the documents because a source is shorter than the body that it came in, and the
length of a body is limited.
-/

set_option autoImplicit false

namespace PrologTokens

/-! ## Lengths -/

theorem Text.length_lines_le (text : List Char) : (Text.lines text).length ≤ text.length + 1 := by
  induction text with
  | nil => exact Nat.le_refl _
  | cons c text ih =>
    rw [Text.lines]
    split
    · exact Nat.succ_le_succ ih
    · split
      · exact Nat.succ_le_succ (Nat.zero_le _)
      · rename_i hlines
        rw [hlines] at ih
        exact Nat.le_succ_of_le ih

namespace Server

/-- A source has no more lines than the body that it came in has bytes. The empty source of a
request before any field is read is the one exception. -/
theorem AnalyzeRequest.length_lines_le {body : List UInt8} {request : AnalyzeRequest}
    (h : Json.decode AnalyzeRequest.read (.ofBytes body) = .ok request) :
    (Text.lines request.code.toList).length ≤ max body.length 1 := by
  obtain ⟨⟨value, rest⟩, hread, h⟩ := bind_eq_ok.mp h
  have hvalue : value = request := by
    simp only at h
    split at h
    · exact Except.ok.inj h
    · cases h
  let input : Json.Input := .ofBytes body
  have hfields : ∀ field ∈ AnalyzeRequest.shape.fields,
      field.Keeps (fun request => request.code.toList.length ≤ input.length - 1) input.length := by
    intro field hfield input' change rest' hle hchange
    obtain rfl := List.mem_singleton.mp hfield
    obtain ⟨⟨code, behind⟩, htext, heq⟩ := map_eq_ok.mp hchange
    have := Json.length_text htext
    cases heq
    exact ⟨by omega, fun _ _ => by simp only; omega⟩
  have hcode := Json.Shape.read_keeps hfields (Nat.zero_le _) (Nat.le_refl _) hread
  have hinput : input.length ≤ body.length := Text.Utf8.length_decode_le body
  have hlines := Text.length_lines_le value.code.toList
  rw [← hvalue]
  omega

/-! ## Responses -/

/-- The paths that a request for an analysis can be posted to. -/
def analysisPaths : List String := ["/", "/api/v1/analyze"]

/-- Both paths lead to the same resource, and the path plays no part in what it gives. -/
theorem respond_eq {config : Config} {request : Request} (hmethod : request.method = "POST")
    (hpath : request.path ∈ analysisPaths) :
    respond config request =
      let response := respondAnalysis config request
      { response with headers := originHeaders ++ response.headers } := by
  have hroute : ∃ route, Route.at? request.path = some route ∧ route.post? = some .analysis := by
    rcases List.mem_cons.mp hpath with hroot | hapi
    · rw [hroot]
      exact ⟨_, rfl, rfl⟩
    · rw [List.mem_singleton.mp hapi]
      exact ⟨_, rfl, rfl⟩
  obtain ⟨route, hat, hpost⟩ := hroute
  have hinner : respondInner config request = respondAnalysis config request := by
    simp [respondInner, hmethod, hat, Route.respond, hpost, Resource.respond]
  rw [respond, hinner]

theorem respondAnalysis_target (config : Config) (request : Request) (target : String) :
    respondAnalysis config { request with target } = respondAnalysis config request := rfl

/-- The response has the given status code and describes a failure that points at no line. -/
def Response.Refuses (status : Nat) (response : Response) : Prop :=
  response.status = status ∧
    ∃ message, Json.decode ErrorResponse.read (.ofString response.body) = .ok ⟨message, none⟩

theorem Failure.decode_respond {failure : Failure}
    (h : ∀ line, failure.line? = some line → line < sizeBound) :
    Json.decode ErrorResponse.read (.ofString failure.respond.body) =
      .ok ⟨failure.message, failure.line?⟩ :=
  ErrorResponse.decode_document h

/-- A request that is not understood is refused. -/
theorem respondAnalysis_of_error {config : Config} {request : Request} {failure : Failure}
    (h : readRequest config request = .error failure) (hline : failure.line? = none) :
    (respondAnalysis config request).Refuses failure.status := by
  have hresponse : respondAnalysis config request = failure.respond := by
    simp [respondAnalysis, analyzeRequest, h, bind, Except.bind]
  have hdecode : Json.decode ErrorResponse.read (.ofString failure.respond.body) =
      .ok ⟨failure.message, failure.line?⟩ :=
    Failure.decode_respond (by simp [hline])
  rw [hline] at hdecode
  rw [hresponse]
  exact ⟨rfl, failure.message, hdecode⟩

/-- The two answers to a request that is understood, and what is read back from them. -/
theorem respondAnalysis_of_ok {config : Config} {request : Request} {body : AnalyzeRequest}
    (h : readRequest config request = .ok body)
    (hlines : (Text.lines body.code.toList).length < sizeBound) :
    (∃ tokens, analyze body.code = .ok tokens ∧
      (∀ line ∈ Text.lines body.code.toList, Even (line.count '"')) ∧
      (respondAnalysis config request).status = 200 ∧
      Json.decode TokenView.readList (.ofString (respondAnalysis config request).body) =
        .ok (tokens.map TokenView.ofToken)) ∨
    (∃ number, analyze body.code = .error (.unterminatedString number) ∧
      IsLeast (RuleTable.unpairedLines body.code) number ∧
      (respondAnalysis config request).status = 422 ∧
      Json.decode ErrorResponse.read (.ofString (respondAnalysis config request).body) =
        .ok ⟨(Error.unterminatedString number).message, some number⟩) := by
  rcases RuleTable.analyze_cases RuleTable.prolog body.code with
    ⟨tokens, htokens, heven⟩ | ⟨number, hnumber, hleast, hbound⟩
  · have hok : analyze body.code = .ok tokens := htokens
    have hresponse : respondAnalysis config request =
        .json 200 (TokenView.listToJson (tokens.map TokenView.ofToken)).compactString := by
      simp [respondAnalysis, analyzeRequest, h, hok, bind, Except.bind, pure,
        Except.pure]
    have hviews : ∀ view ∈ tokens.map TokenView.ofToken, view.line < sizeBound := by
      intro view hview
      obtain ⟨token, htoken, rfl⟩ := List.mem_map.mp hview
      exact Nat.lt_of_le_of_lt (RuleTable.line_le_of_analyze htokens htoken) hlines
    rw [hresponse]
    exact .inl ⟨tokens, hok, heven, rfl, TokenView.decode_list hviews⟩
  · have herror : analyze body.code = .error (.unterminatedString number) := hnumber
    have hresponse : respondAnalysis config request =
        (Failure.analysis (.unterminatedString number)).respond := by
      simp [respondAnalysis, analyzeRequest, h, herror, bind, Except.bind]
    have hline : ∀ line, some number = some line → line < sizeBound := by
      rintro line ⟨⟩
      exact Nat.lt_of_le_of_lt hbound hlines
    rw [hresponse]
    exact .inr ⟨number, herror, hleast, rfl, Failure.decode_respond hline⟩

/-- The response answers a request for the analysis of the source: with the tokens if the quotation
marks of every line come in pairs, and with the least line where they do not otherwise. -/
structure Response.Answers (source : String) (response : Response) : Prop where
  status_ok_iff : response.status = 200 ↔
    ∀ line ∈ Text.lines source.toList, Even (line.count '"')
  status_unprocessable_iff : response.status = 422 ↔
    ∃ line ∈ Text.lines source.toList, Odd (line.count '"')
  tokens : response.status = 200 → ∃ tokens, analyze source = .ok tokens ∧
    Json.decode TokenView.readList (.ofString response.body) = .ok (tokens.map TokenView.ofToken)
  line : response.status = 422 → ∃ number,
    IsLeast (RuleTable.unpairedLines source) number ∧
    Json.decode ErrorResponse.read (.ofString response.body) =
      .ok ⟨(Error.unterminatedString number).message, some number⟩

theorem respondAnalysis_answers_of_ok {config : Config} {request : Request} {body : AnalyzeRequest}
    (h : readRequest config request = .ok body)
    (hlines : (Text.lines body.code.toList).length < sizeBound) :
    (respondAnalysis config request).Answers body.code := by
  rcases respondAnalysis_of_ok h hlines with
    ⟨tokens, hok, heven, hstatus, hdecode⟩ | ⟨number, -, hleast, hstatus, hdecode⟩
  · have hnone : ¬ ∃ line ∈ Text.lines body.code.toList, Odd (line.count '"') := by
      rintro ⟨line, hline, hodd⟩
      exact Nat.not_even_iff_odd.mpr hodd (heven line hline)
    constructor
    · exact ⟨fun _ => heven, fun _ => hstatus⟩
    · simp only [hstatus, hnone]
      decide
    · intro _
      exact ⟨tokens, hok, hdecode⟩
    · intro h422
      rw [hstatus] at h422
      cases h422
  · obtain ⟨line, -, hat, hodd⟩ := hleast.1
    have hsome : ∃ line ∈ Text.lines body.code.toList, Odd (line.count '"') :=
      ⟨line, List.mem_of_getElem? hat, hodd⟩
    have hnotAll : ¬ ∀ line ∈ Text.lines body.code.toList, Even (line.count '"') := by
      intro hall
      exact Nat.not_even_iff_odd.mpr hodd (hall line (List.mem_of_getElem? hat))
    constructor
    · simp only [hstatus, hnotAll]
      decide
    · simp only [hstatus, hsome]
    · intro h200
      rw [hstatus] at h200
      cases h200
    · intro _
      exact ⟨number, hleast, hdecode⟩

theorem Response.Answers.withHeaders {source : String} {response : Response}
    (h : response.Answers source) (headers : List Header) :
    ({ response with headers } : Response).Answers source :=
  ⟨h.status_ok_iff, h.status_unprocessable_iff, h.tokens, h.line⟩

theorem Response.Answers.status_eq {source : String} {response : Response}
    (h : response.Answers source) : response.status = 200 ∨ response.status = 422 := by
  by_cases heven : ∀ line ∈ Text.lines source.toList, Even (line.count '"')
  · exact .inl (h.status_ok_iff.mpr heven)
  · push Not at heven
    obtain ⟨line, hline, hodd⟩ := heven
    exact .inr (h.status_unprocessable_iff.mpr ⟨line, hline, Nat.not_even_iff_odd.mp hodd⟩)

/-! ## The checks, in their order -/

section Checks

variable {config : Config} {request : Request}

/-- The request says that its body is JSON. -/
def Request.Announced (request : Request) : Prop :=
  (request.header? "content-type").any announcesJson = true

instance (request : Request) : Decidable request.Announced :=
  inferInstanceAs (Decidable ((request.header? "content-type").any announcesJson = true))

theorem respondAnalysis_of_not_announced (h : ¬ request.Announced) :
    (respondAnalysis config request).Refuses 400 := by
  have hread : readRequest config request =
      .error (.badRequest "Expected request with `Content-Type: application/json`") := by
    rw [readRequest, if_pos (by simpa [Request.Announced] using h)]
  exact respondAnalysis_of_error hread rfl

theorem respondAnalysis_of_long (h : request.Announced)
    (hlong : config.maxBodyBytes < request.body.length) :
    (respondAnalysis config request).Refuses 413 := by
  have hread : readRequest config request =
      .error (.payloadTooLarge "Failed to buffer the request body: length limit exceeded") := by
    rw [readRequest, h, if_neg (by decide), if_pos hlong]
  exact respondAnalysis_of_error hread rfl

theorem readRequest_of_announced (h : request.Announced)
    (hshort : request.body.length ≤ config.maxBodyBytes) :
    readRequest config request =
      (Json.decode AnalyzeRequest.read (.ofBytes request.body)).mapError fun fault =>
        .badRequest (faultMessage fault) := by
  rw [readRequest, h, if_neg (by decide), if_neg (Nat.not_lt.mpr hshort)]

theorem respondAnalysis_of_fault (h : request.Announced)
    (hshort : request.body.length ≤ config.maxBodyBytes) {fault : Json.Fault}
    (hdecode : Json.decode AnalyzeRequest.read (.ofBytes request.body) = .error fault) :
    (respondAnalysis config request).Refuses 400 := by
  have hread := readRequest_of_announced h hshort
  rw [hdecode] at hread
  exact respondAnalysis_of_error hread rfl

theorem respondAnalysis_answers (hlimit : config.maxBodyBytes < sizeBound) (h : request.Announced)
    (hshort : request.body.length ≤ config.maxBodyBytes) {body : AnalyzeRequest}
    (hdecode : Json.decode AnalyzeRequest.read (.ofBytes request.body) = .ok body) :
    (respondAnalysis config request).Answers body.code := by
  have hread := readRequest_of_announced h hshort
  rw [hdecode] at hread
  have hlines := AnalyzeRequest.length_lines_le hdecode
  have hone : 1 < sizeBound := by decide
  exact respondAnalysis_answers_of_ok hread (by omega)

/-- No other status code is possible, since the checks leave no request out. -/
theorem respondAnalysis_status_mem (hlimit : config.maxBodyBytes < sizeBound) :
    (respondAnalysis config request).status ∈ [200, 400, 413, 422] := by
  by_cases hannounced : request.Announced
  · rcases Nat.lt_or_ge config.maxBodyBytes request.body.length with hlong | hshort
    · simp [(respondAnalysis_of_long hannounced hlong).1]
    · cases hdecode : Json.decode AnalyzeRequest.read (.ofBytes request.body) with
      | error fault => simp [(respondAnalysis_of_fault hannounced hshort hdecode).1]
      | ok body =>
        have hanswers := respondAnalysis_answers hlimit hannounced hshort hdecode
        rcases hanswers.status_eq with hstatus | hstatus <;> simp [hstatus]
  · simp [(@respondAnalysis_of_not_announced config request hannounced).1]

end Checks

/-- Every request that is posted to one of the two paths is answered in the same way on both, and
never by a failure of the server. It is refused if its body is not announced as JSON, then if its
body is too long, then if its body is no request for an analysis; else it is answered. All that is
said of the configuration is that its limit is a size. -/
theorem respond_post (config : Config) (hlimit : config.maxBodyBytes < sizeBound)
    (request : Request) (hmethod : request.method = "POST")
    (hpath : request.path ∈ analysisPaths) :
    let response := respond config request
    let decoded := Json.decode AnalyzeRequest.read (.ofBytes request.body)
    (∀ target, ({ request with target } : Request).path ∈ analysisPaths →
      respond config { request with target } = response) ∧
    response.status ∈ [200, 400, 413, 422] ∧
    (¬ request.Announced → response.Refuses 400) ∧
    (request.Announced → config.maxBodyBytes < request.body.length → response.Refuses 413) ∧
    (request.Announced → request.body.length ≤ config.maxBodyBytes →
      (∀ fault, decoded = .error fault → response.Refuses 400) ∧
      ∀ body, decoded = .ok body → response.Answers body.code) := by
  have hmoved : ∀ target, ({ request with target } : Request).path ∈ analysisPaths →
      respond config { request with target } = respond config request := by
    intro target htarget
    have hpost : ({ request with target } : Request).method = "POST" := hmethod
    rw [respond_eq hpost htarget, respond_eq hmethod hpath, respondAnalysis_target]
  rw [respond_eq hmethod hpath] at hmoved ⊢
  refine ⟨hmoved, respondAnalysis_status_mem hlimit, respondAnalysis_of_not_announced,
    respondAnalysis_of_long, fun hannounced hshort => ⟨?_, ?_⟩⟩
  · intro fault hdecode
    exact respondAnalysis_of_fault hannounced hshort hdecode
  · intro body hdecode
    exact (respondAnalysis_answers hlimit hannounced hshort hdecode).withHeaders _

/-- A fact that is posted to the form page is answered with its tokens. -/
theorem respond_post_fact :
    let body := Text.Utf8.encode (AnalyzeRequest.toJson ⟨"p(X)."⟩).compactString
    let response := respond .default ⟨"POST", "/", [("Content-Type", "application/json")], body⟩
    response.status = 200 ∧ ∃ tokens, analyze "p(X)." = .ok tokens ∧
      Json.decode TokenView.readList (.ofString response.body) =
        .ok (tokens.map TokenView.ofToken) := by
  intro body response
  have hpost := respond_post .default (by decide)
    ⟨"POST", "/", [("Content-Type", "application/json")], body⟩ rfl (by decide)
  have hanswers : response.Answers "p(X)." :=
    (hpost.2.2.2.2 (by decide) (by decide)).2 ⟨"p(X)."⟩ (AnalyzeRequest.decode_bytes _)
  have hstatus : response.status = 200 := hanswers.status_ok_iff.mpr (by decide)
  exact ⟨hstatus, hanswers.tokens hstatus⟩

end Server
end PrologTokens
