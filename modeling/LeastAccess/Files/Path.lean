/-!
# Paths

Paths as texts, with a slash between names. `normalize` takes out what a path says in a roundabout way:
empty names, the name of the directory itself, and a name that is followed by the way back. It works on the
text alone and asks no disk.
-/

namespace LeastAccess.Path

/-- The names between slashes. -/
def splitChars : List Char → List (List Char)
  | [] => [[]]
  | c :: rest =>
    if c = '/' then [] :: splitChars rest
    else
      match splitChars rest with
      | [] => [[c]]
      | name :: names => (c :: name) :: names

/-- The names of a path, empty ones included. -/
def names (path : String) : List String := (splitChars path.toList).map String.ofList

def isAbsolute (path : String) : Bool := path.toList.head? == some '/'

/-- Whether a path ends with a slash, and so can only be a directory's. -/
def endsWithSlash (path : String) : Bool := path.toList.getLast? == some '/'

/-- Whether a text can be a path: no path has the character that ends one. -/
def isValid (path : String) : Bool := !path.toList.contains (Char.ofNat 0)

/-- The bytes that a path can have. -/
def lengthLimit : Nat := 4095

/-- The bytes that a name in a path can have. -/
def nameLimit : Nat := 255

/-- Whether a path as a whole is too long to lead anywhere. -/
def isTooLong (path : String) : Bool := lengthLimit < path.utf8ByteSize

/-- Whether nothing can have a name because of its length. -/
def isTooLongName (name : String) : Bool := nameLimit < name.utf8ByteSize

/-- One name after others, the last of which comes first. Above the root there is nothing; above the start
of a relative path there may be something. -/
def push (aboveStart : Bool) (stack : List String) (name : String) : List String :=
  if name = "" ∨ name = "." then stack
  else if name = ".." then
    match stack with
    | [] => if aboveStart then [name] else []
    | top :: rest => if top = ".." then name :: stack else rest
  else name :: stack

/-- The names of a path without detours. -/
def simplify (aboveStart : Bool) (ns : List String) : List String :=
  (ns.foldl (push aboveStart) []).reverse

/-- The path without detours. A slash at its end stays; an empty path is the directory itself. -/
def normalize (path : String) : String :=
  let absolute := isAbsolute path
  let body := "/".intercalate (simplify (!absolute) (names path))
  if path.isEmpty then "."
  else if body.isEmpty then (if absolute then "/" else if endsWithSlash path then "./" else ".")
  else (if absolute then "/" else "") ++ body ++ (if endsWithSlash path then "/" else "")

/-- A path below another one. An empty path adds nothing. -/
def join (base path : String) : String :=
  if base.isEmpty then normalize path
  else if path.isEmpty then normalize base
  else normalize (base ++ "/" ++ path)

/-- The absolute path of a path that is seen from an absolute directory. -/
def resolve (directory path : String) : String :=
  let full := if isAbsolute path then path else directory ++ "/" ++ path
  "/" ++ "/".intercalate (simplify false (names full))

/-- The directory of a path. -/
def directory (path : String) : String :=
  let rest := (path.toList.reverse.dropWhile (· == '/')).dropWhile (· != '/')
  match (rest.drop 1).reverse with
  | [] => if isAbsolute path then "/" else "."
  | cs => String.ofList cs

end LeastAccess.Path
