import PrologTokens.Server.Address
import PrologTokens.Server.Config

/-!
# Starting the server
-/

set_option autoImplicit false

namespace PrologTokens.Server

/-- Why the server did not start. -/
inductive StartError where
  /-- Host and port of the configuration make no address. -/
  | invalidAddress
  deriving DecidableEq, Repr, Inhabited

/-- The description of a failure to start. -/
def StartError.message : StartError → String
  | invalidAddress => "invalid socket address syntax"

namespace Config

/-- Host and port as they are written together. -/
def endpoint (config : Config) : String := s!"{config.host}:{config.port.toNat}"

/-- The address at which a server with this configuration listens. -/
def address (config : Config) : Except StartError Address :=
  match Address.parse? config.endpoint with
  | some address => .ok address
  | none => .error .invalidAddress

end Config
end PrologTokens.Server
