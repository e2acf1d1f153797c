import PrologTokens.Command.Analyze
import PrologTokens.Command.Serve

/-!
# The programs

One executable for both programs: under the name of the server program it is that program, under
any other name the analysing one. All decisions are made elsewhere; here only files are read and
texts written.
-/

set_option autoImplicit false

namespace PrologTokens.Main

open Command

/-- What stands at a path. -/
def fileState (path : String) : IO FileState := do
  match ← (IO.FS.readBinFile path).toBaseIO with
  | .ok bytes => return .file bytes.toList
  | .error (.noFileOrDirectory ..) => return .missing
  | .error _ => return .directory

/-- Everything that comes from a stream. -/
partial def readAll (stream : IO.FS.Stream) (read : ByteArray) : IO ByteArray := do
  let chunk ← stream.read 65536
  if chunk.isEmpty then return read else readAll stream (read ++ chunk)

/-- Writes what a run leaves behind and gives its exit code. -/
def finish (outcome : Outcome) : IO UInt32 := do
  let stdout ← IO.getStdout
  stdout.putStr outcome.output
  stdout.flush
  (← IO.getStderr).putStr outcome.errors
  return outcome.exitCode.toUInt32

/-- The analysing program. -/
def analyze (arguments : List String) : IO UInt32 := do
  match Analyze.settings arguments with
  | .ok ⟨some path, _⟩ =>
    let state ← fileState path
    finish (Analyze.run arguments [] fun _ => state)
  | .ok ⟨none, _⟩ =>
    let input ← readAll (← IO.getStdin) ByteArray.empty
    finish (Analyze.run arguments input.toList fun _ => .missing)
  | .error _ => finish (Analyze.run arguments [] fun _ => .missing)

/-- The server program, up to the moment at which the server listens. -/
def serve (arguments : List String) : IO UInt32 := do
  match Serve.source arguments with
  | .ok (.file path) =>
    let state ← fileState path
    finish (Serve.run arguments fun _ => state)
  | _ => finish (Serve.run arguments fun _ => .missing)

end PrologTokens.Main

/-- Runs the program that goes by the name of the executable. -/
def main (arguments : List String) : IO UInt32 := do
  let name ← IO.appPath
  if name.toString.endsWith PrologTokens.Command.Serve.programName then
    PrologTokens.Main.serve arguments
  else
    PrologTokens.Main.analyze arguments
