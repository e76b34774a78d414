import LeastAccess.Files.Path
import LeastAccess.Json.Printer
import LeastAccess.Json.Reader
import LeastAccess.Text.Quoted

/-!
# File systems

What a command needs of files, for any monad that offers it: a disk, or a tree in memory. The second half
reads and writes documents through these operations.
-/

namespace LeastAccess

/-- What can be wrong with a file. -/
inductive FileFault where
  | notFound
  | isDirectory
  | notDirectory
  | nameTooLong
  /-- The path has a character that no path can have. -/
  | invalidPath
  deriving DecidableEq, Repr

namespace FileFault

def code : FileFault → String
  | .notFound => "ENOENT"
  | .isDirectory => "EISDIR"
  | .notDirectory => "ENOTDIR"
  | .nameTooLong => "ENAMETOOLONG"
  | .invalidPath => "EINVAL"

def description : FileFault → String
  | .notFound => "no such file or directory"
  | .isDirectory => "illegal operation on a directory"
  | .notDirectory => "not a directory"
  | .nameTooLong => "name too long"
  | .invalidPath => "The argument 'path' must be a string, Uint8Array, or URL without null bytes."

end FileFault

/-- A file operation that failed. An operation on a file that is already open knows no path. -/
structure FileError where
  fault : FileFault
  operation : String
  path : Option String := none
  deriving DecidableEq, Repr

namespace FileError

/-- How much of a path is shown that is none. -/
def shownUnits : Nat := 128

def message (e : FileError) : String :=
  match e.fault with
  | .invalidPath =>
    e.fault.description ++ " Received " ++ Text.quotedStart shownUnits (e.path.getD "")
  | fault =>
    fault.code ++ ": " ++ fault.description ++ ", " ++ e.operation ++
      (match e.path with
        | some path => " '" ++ path ++ "'"
        | none => "")

end FileError

/-- Operations on files. Relative paths are seen from the working directory, an absolute path. -/
structure FileSystem (m : Type → Type) where
  workingDirectory : String
  /-- Whether a path leads to a file or a directory. -/
  has : String → m Bool
  /-- The text of a file. -/
  read : String → m (Except FileError String)
  /-- Makes a file, or replaces its text. -/
  write : String → String → m (Except FileError Unit)
  /-- Makes a directory, and those above it that are missing. -/
  makeDirectories : String → m (Except FileError Unit)

namespace FileSystem

variable {m : Type → Type} [Monad m]

/-- Makes a directory unless something is there. -/
def ensureDirectory (fs : FileSystem m) (path : String) : m (Except FileError Unit) := do
  if ← fs.has path then return .ok () else fs.makeDirectories path

/-- The document in a file, if there is a file that holds one. -/
def readJson? (fs : FileSystem m) (path : String) : m (Option Json) := do
  match ← fs.read path with
  | .error _ => return none
  | .ok text => return (Json.read text).toOption

/-- What a file holds for a document. That there is none is written, too, and does not read as one. -/
def documentText (v : Option Json) : String := (v.map Json.pretty).getD "undefined" ++ "\n"

/-- Writes a document, and makes the directory for it. -/
def writeJson (fs : FileSystem m) (path : String) (v : Option Json) : m (Except FileError Unit) := do
  match ← fs.ensureDirectory (Path.directory path) with
  | .error e => return .error e
  | .ok () => fs.write path (documentText v)

end FileSystem

end LeastAccess
