/-!
# Files as far as the programs can tell them apart
-/

set_option autoImplicit false

namespace PrologTokens

/-- What stands at a path. -/
inductive FileState where
  /-- Nothing. -/
  | missing
  /-- A directory. It can be opened, but there is nothing to read in it. -/
  | directory
  /-- A file with the given bytes. -/
  | file (bytes : List UInt8)
  deriving DecidableEq, Repr, Inhabited

/-- What the operating system says when nothing stands at a path. -/
def notFoundMessage : String := "No such file or directory (os error 2)"

/-- What the operating system says when a directory is read. -/
def isDirectoryMessage : String := "Is a directory (os error 21)"

end PrologTokens
