import PrologTokens.File
import PrologTokens.Token.Document

/-!
# Server configuration

Where the server listens and how long a request may be. A configuration is kept in a JSON file;
every field of it may be left out.
-/

set_option autoImplicit false

namespace PrologTokens.Server

/-- The configuration of the server. -/
structure Config where
  /-- The address to listen at. -/
  host : String
  /-- The port to listen at. -/
  port : UInt16
  /-- The length in bytes of the longest request body that is accepted. -/
  maxBodyBytes : Nat
  deriving DecidableEq, Repr

namespace Config

/-- The configuration where nothing is said otherwise. -/
def default : Config := ⟨"127.0.0.1", 3000, 65536⟩

instance : Inhabited Config := ⟨default⟩

/-- Reads a port. -/
def readPort : Json.Reader UInt16 := fun input =>
  (Json.Read.natural (Nat.pow 2 16) "u16" input).map fun (n, rest) => (UInt16.ofNat n, rest)

/-- How configurations are read. -/
def shape : Json.Shape Config where
  name := "ServerConfig"
  blank := default
  fields :=
    [.of "host" [] false Json.Read.text fun host config => { config with host },
      .of "port" [] false readPort fun port config => { config with port },
      .of "max_body_bytes" [] false readSize fun maxBodyBytes config =>
        { config with maxBodyBytes }]

/-- Reads a configuration. -/
def read : Json.Reader Config := shape.read

/-- A configuration as a JSON object. -/
def toJson (config : Config) : Json :=
  .object [("host", .text config.host), ("port", .number config.port.toNat),
    ("max_body_bytes", .number config.maxBodyBytes)]

end Config

/-- Why a document could not be loaded. -/
inductive LoadError where
  /-- There is no file at the path. -/
  | notFound (path : String)
  /-- What stands at the path cannot be read. -/
  | unreadable
  /-- The document has a fault. -/
  | faulty (fault : Json.Fault)
  deriving DecidableEq, Repr

namespace LoadError

/-- The description of a failure. Of a fault in the document it leaves out what only the reader
of the text knows: why the text is not JSON, and the line and column of the fault. -/
def message : LoadError → String
  | notFound path => s!"Failed to open config file {path}: {notFoundMessage}"
  | unreadable => s!"Failed to parse config: {isDirectoryMessage}"
  | faulty (.mismatch _ m) => s!"Failed to parse config: {m.message}"
  | faulty .malformed => "Failed to parse config: the text is not JSON"

end LoadError

/-- Loads a document from a text. -/
def loadText {α : Type} (read : Json.Reader α) (text : String) : Except LoadError α :=
  (Json.decode read (.ofString text)).mapError .faulty

/-- Loads a document from what stands at a path. -/
def loadFile {α : Type} (read : Json.Reader α) (path : String) : FileState → Except LoadError α
  | .missing => .error (.notFound path)
  | .directory => .error .unreadable
  | .file bytes => (Json.decode read (.ofBytes bytes)).mapError .faulty

end PrologTokens.Server
