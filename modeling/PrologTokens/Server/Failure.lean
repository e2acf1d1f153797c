import PrologTokens.Error
import PrologTokens.Server.Http
import PrologTokens.Server.Message

/-!
# Failed requests

Every failure has a status code and is described to the client by a JSON document.
-/

set_option autoImplicit false

namespace PrologTokens.Server

/-- Why a request was not answered with tokens. -/
inductive Failure where
  /-- The source could not be analysed. -/
  | analysis (error : Error)
  /-- The body is not a request for an analysis. -/
  | badRequest (message : String)
  /-- The body is too long. -/
  | payloadTooLarge (message : String)
  deriving DecidableEq, Repr

namespace Failure

/-- The status code of a failure. A fault in a rule is the server's own. -/
def status : Failure → Nat
  | analysis (.unterminatedString _) => 422
  | analysis (.invalidPattern _ _) => 500
  | badRequest _ => 400
  | payloadTooLarge _ => 413

/-- Whether a failure has the given status code. -/
def hasStatus (failure : Failure) (code : Nat) : Bool := failure.status = code

/-- What is said about a failure. -/
def message : Failure → String
  | analysis error => error.message
  | badRequest text => text
  | payloadTooLarge text => text

/-- The source line that a failure points at. -/
def line? : Failure → Option Nat
  | analysis error => error.line?
  | badRequest _ => none
  | payloadTooLarge _ => none

/-- The description of a failure. -/
def describe (failure : Failure) : ErrorResponse := ⟨failure.message, failure.line?⟩

/-- The response to a request that failed. -/
def respond (failure : Failure) : Response :=
  .json failure.status failure.describe.toJson.compactString

end Failure
end PrologTokens.Server
