import PrologTokens.Command.Outcome
import PrologTokens.Server.Start

/-!
# The server program

Takes the configuration of the server from its options or, with the subcommand `config`, from a
file, says where it is going to listen, and starts the server.
-/

set_option autoImplicit false

namespace PrologTokens.Command.Serve

open Server

/-- The option for the address. -/
def hostOption : OptionSpec := ⟨"host", some 'H', .value "HOST" .text⟩

/-- The option for the port. -/
def portOption : OptionSpec := ⟨"port", some 'p', .value "PORT" .port⟩

/-- The option for the amount of logging. -/
def logLevelOption : OptionSpec := ⟨"log-level", some 'l', .value "LOG_LEVEL" .text⟩

/-- The option of the subcommand for the configuration file. -/
def fileOption : OptionSpec := ⟨"file", some 'f', .value "FILE" .path⟩

/-- The option that asks for help. -/
def helpOption : OptionSpec := ⟨"help", some 'h', .help⟩

/-- The arguments that the program understands. -/
def grammar : Grammar where
  options := [hostOption, portOption, logLevelOption, helpOption,
    ⟨"version", some 'V', .version⟩]
  operand := none
  subcommands := ["config", "help"]

/-- The arguments that the subcommand `config` understands. -/
def configGrammar : Grammar where
  options := [fileOption, helpOption]
  operand := none
  subcommands := []

/-- The help text. -/
def helpText : String := String.join
  ["Prolex HTTP Server\n",
    "\n",
    "Usage: prolex-http [OPTIONS] [COMMAND]\n",
    "\n",
    "Commands:\n",
    "  config  Start the server with a specific configuration file\n",
    "  help    Print this message or the help of the given subcommand(s)\n",
    "\n",
    "Options:\n",
    "  -H, --host <HOST>            Host address to bind to [env: PROLEX_HOST=] ",
    "[default: 127.0.0.1]\n",
    "  -p, --port <PORT>            Port to listen on [env: PROLEX_PORT=] [default: 3000]\n",
    "  -l, --log-level <LOG_LEVEL>  Log level (error, warn, info, debug, trace) ",
    "[default: info]\n",
    "  -h, --help                   Print help\n",
    "  -V, --version                Print version\n"]

/-- The help text of the subcommand `config`. -/
def configHelpText : String := String.join
  ["Start the server with a specific configuration file\n",
    "\n",
    "Usage: prolex-http config --file <FILE>\n",
    "\n",
    "Options:\n",
    "  -f, --file <FILE>  Path to the JSON configuration file\n",
    "  -h, --help         Print help\n"]

/-- The help text of the subcommand `help`. -/
def helpHelpText : String := String.join
  ["Print this message or the help of the given subcommand(s)\n",
    "\n",
    "Usage: prolex-http help [COMMAND]...\n",
    "\n",
    "Arguments:\n",
    "  [COMMAND]...  Print help for the subcommand(s)\n"]

/-- The name of the program. -/
def programName : String := "prolex-http"

/-- The version text. -/
def versionText : String := programName ++ " 0.1.0\n"

/-- Where the configuration comes from. -/
inductive Source where
  /-- From the options. -/
  | options (host : String) (port : UInt16)
  /-- From a file. -/
  | file (path : String)
  deriving DecidableEq, Repr, Inhabited

/-- What a run shows when it asks for help on the given subcommands. -/
def helpOn : List String → Outcome
  | [] => .success helpText
  | ["config"] => .success configHelpText
  | ["help"] => .success helpHelpText
  | "config" :: name :: _ => .usage (.unknownSubcommand name)
  | "help" :: name :: _ => .usage (.unknownSubcommand name)
  | name :: _ => .usage (.unknownSubcommand name)

/-- The path that the arguments of the subcommand `config` give. -/
def configPath (arguments : List String) : Except Outcome String :=
  let path : Except Stop String := do
    let (taken, _) ← configGrammar.take .start false false arguments
    let taken ← taken.settle.mapError .usage
    match taken.value? fileOption.display with
    | some path => return path
    | none => throw (.usage .missingRequired)
  path.mapError (.ofStop configHelpText versionText)

/-- Where the arguments say that the configuration comes from. The arguments of a subcommand are
judged before the last option in front of it. -/
def source (arguments : List String) : Except Outcome Source := do
  let ofStop := Outcome.ofStop helpText versionText
  let (taken, subcommand) ← (grammar.take .start false false arguments).mapError ofStop
  let path ← match subcommand with
    | some ("help", names) => throw (helpOn names)
    | some (_, rest) => (configPath rest).map some
    | none => pure none
  let taken ← (taken.settle.mapError Stop.usage).mapError ofStop
  match path with
  | some path => return .file path
  | none =>
    let host := (taken.value? hostOption.display).getD Config.default.host
    let port := (taken.value? portOption.display).bind fun text => (readPort text).toOption
    return .options host (port.getD Config.default.port)

/-- What the program says before it loads a file. -/
def loading (path : String) : String := s!"Loading configuration from file: {path}\n"

/-- What the program says before it starts the server. -/
def starting (config : Config) : String :=
  s!"Starting Prolex HTTP server on {config.endpoint}\n"

/-- How a run of the program goes on once its arguments are understood. -/
structure Launch where
  /-- What has been written. -/
  output : String
  /-- The configuration of the server, or why there is none. -/
  config : Except LoadError Config

/-- Gets the configuration. -/
def launch (files : String → FileState) : Source → Launch
  | .options host port =>
    let config : Config := { Config.default with host, port }
    ⟨starting config, .ok config⟩
  | .file path =>
    match loadFile Config.read path (files path) with
    | .ok config => ⟨loading path ++ starting config, .ok config⟩
    | .error error => ⟨loading path, .error error⟩

/-- A run of the program with the given arguments and files, up to the moment at which the server
listens. A server that listens ends well when it is stopped. -/
def run (arguments : List String) (files : String → FileState) : Outcome :=
  match source arguments with
  | .error outcome => outcome
  | .ok source =>
    let launch := launch files source
    match launch.config with
    | .error error => .failure launch.output error.message
    | .ok config =>
      match config.address with
      | .error error => .failure launch.output error.message
      | .ok _ => .success launch.output

end PrologTokens.Command.Serve
