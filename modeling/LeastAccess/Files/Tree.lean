import LeastAccess.Files.FileSystem

/-!
# File trees in memory

A directory with everything below it, as a value. Commands that run over a tree touch no disk, so what they
do to files can be looked at, and proved.

A path is walked name by name: every name but the last must be that of a directory, and a slash at the end
asks for one, too. Going up from the root leads to the root. Names and paths have a greatest length, beyond
which nothing is found.
-/

namespace LeastAccess

/-- A file with its text, or a directory with its entries. -/
inductive Tree where
  | file (text : String)
  | directory (entries : List (String × Tree))

namespace Tree

/-- Where something is in a tree: the names from the root on. -/
abbrev Place := List String

/-- Entries with one of them replaced or added. -/
def setEntry (name : String) (t : Tree) : List (String × Tree) → List (String × Tree)
  | [] => [(name, t)]
  | e :: rest => if e.1 = name then (name, t) :: rest else e :: setEntry name t rest

/-- What is at a place. -/
def find? : Tree → Place → Option Tree
  | t, [] => some t
  | .directory entries, name :: rest =>
    match entries.lookup name with
    | some t => find? t rest
    | none => none
  | .file _, _ :: _ => none

/-- Puts something at a place, and directories on the way where nothing is. -/
def put (new : Tree) : Tree → Place → Tree
  | _, [] => new
  | .directory entries, name :: rest =>
    .directory (setEntry name (put new ((entries.lookup name).getD (.directory [])) rest) entries)
  | .file text, _ :: _ => .file text

/-- Follows names from a place. -/
def walk (t : Tree) (here : Place) : List String → Except FileFault Place
  | [] => .ok here
  | name :: rest =>
    match t.find? here with
    | some (.directory entries) =>
      if name = "." then walk t here rest
      else if name = ".." then walk t here.dropLast rest
      else if Path.isTooLongName name then .error .nameTooLong
      else if (entries.lookup name).isSome then walk t (here ++ [name]) rest
      else .error .notFound
    | some (.file _) => .error .notDirectory
    | none => .error .notFound

/-- The names of a path; a slash at the end asks for the directory itself. -/
def steps (path : String) : List String :=
  (Path.names path).filter (· != "") ++ if Path.endsWithSlash path then ["."] else []

/-- Where the walk along a path starts. -/
def origin (workingDirectory path : String) : Place :=
  if Path.isAbsolute path then [] else Path.simplify false (Path.names workingDirectory)

/-- What is wrong with a path whatever is in the tree. -/
def pathFault? (path : String) : Option FileFault :=
  if !Path.isValid path then some .invalidPath
  else if Path.isTooLong path then some .nameTooLong
  else if path.isEmpty then some .notFound
  else none

/-- The place a path leads to. -/
def locate (t : Tree) (workingDirectory path : String) : Except FileFault Place :=
  match pathFault? path with
  | some fault => .error fault
  | none => t.walk (origin workingDirectory path) (steps path)

/-- The text of a file. -/
def read (t : Tree) (workingDirectory path : String) : Except FileError String :=
  match t.locate workingDirectory path with
  | .error fault => .error ⟨fault, "open", some path⟩
  | .ok place =>
    match t.find? place with
    | some (.file text) => .ok text
    | some (.directory _) => .error ⟨.isDirectory, "read", none⟩
    | none => .error ⟨.notFound, "open", some path⟩

/-- The place for a file that is to be written, which need not be there, but its directory must be. -/
def locateNew (t : Tree) (workingDirectory path : String) : Except FileFault Place := do
  if let some fault := pathFault? path then throw fault
  let ns := (Path.names path).filter (· != "")
  match ns.getLast? with
  | none => throw .isDirectory
  | some name =>
    let directory ← t.walk (origin workingDirectory path) (ns.dropLast ++ ["."])
    if name = "." ∨ name = ".." ∨ Path.endsWithSlash path then throw .isDirectory
    else if Path.isTooLongName name then throw .nameTooLong
    else return directory ++ [name]

/-- Makes a file, or replaces its text. -/
def write (t : Tree) (workingDirectory path text : String) : Except FileError Tree :=
  match t.locateNew workingDirectory path with
  | .error fault => .error ⟨fault, "open", some path⟩
  | .ok place =>
    match t.find? place with
    | some (.directory _) => .error ⟨.isDirectory, "open", some path⟩
    | _ => .ok (put (.file text) t place)

/-- Makes the directories at a place and on the way to it, unless a file is in the way. Where a name is too
long, those before it are made. -/
def makePlace (t : Tree) (place : Place) : Except FileFault Unit × Tree :=
  let isFile (p : Place) : Bool :=
    match t.find? p with
    | some (.file _) => true
    | _ => false
  let reached := place.takeWhile (!Path.isTooLongName ·)
  if (List.range (reached.length + 1)).any (fun n => isFile (reached.take n)) then (.error .notDirectory, t)
  else
    (if reached = place then .ok () else .error .nameTooLong,
      if (t.find? reached).isSome then t else put (.directory []) t reached)

/-- Makes a directory and those above it that are missing. -/
def makeDirectories (t : Tree) (workingDirectory path : String) : Except FileError Unit × Tree :=
  let (made, t) : Except FileFault Unit × Tree := match pathFault? path with
    | some fault => (.error fault, t)
    | none => t.makePlace (Path.simplify false (Path.names (Path.resolve workingDirectory path)))
  (made.mapError (⟨·, "mkdir", some path⟩), t)

mutual

/-- The files below a tree with their paths, in the order of the entries. -/
def files (path : String) : Tree → List (String × String)
  | .file text => [(path, text)]
  | .directory entries => filesOf path entries

def filesOf (path : String) : List (String × Tree) → List (String × String)
  | [] => []
  | (name, t) :: rest =>
    files (if path.isEmpty then name else path ++ "/" ++ name) t ++ filesOf path rest

end

/-- The tree as a file system. -/
def fileSystem (workingDirectory : String) : FileSystem (StateM Tree) where
  workingDirectory
  has path := do return (← get).locate workingDirectory path matches .ok _
  read path := do return (← get).read workingDirectory path
  write path text := do
    match (← get).write workingDirectory path text with
    | .ok t =>
      set t
      return .ok ()
    | .error e => return .error e
  makeDirectories path := do
    let (made, t) := (← get).makeDirectories workingDirectory path
    set t
    return made

end Tree

end LeastAccess
