/-!
# Arguments

Splits the arguments of a command into the options it knows, with their values, and the rest. An option may
be written in full, with its value behind an equals sign or as the next argument, or as a letter; letters
can be put together behind one dash, and the value of the last one can follow at once. After two dashes
nothing is an option.

An argument that looks like an option but is not known ends the operands: it and whatever follows it that
is not a known option is left to someone else, who may know more options.
-/

namespace LeastAccess.CommandLine

/-- An argument as its characters. -/
abbrev Word := List Char

/-- An option. One that takes a value says how the value is called in messages. -/
structure Flag where
  letter : Option Char := none
  name : String
  value : Option String := none
  deriving DecidableEq, Repr

namespace Flag

/-- The option written in full. -/
def long (f : Flag) : String := "--" ++ f.name

/-- The option in messages. -/
def text (f : Flag) : String :=
  (match f.letter with
    | some c => "-" ++ c.toString ++ ", "
    | none => "") ++ f.long ++
    (match f.value with
      | some v => " <" ++ v ++ ">"
      | none => "")

def takesValue (f : Flag) : Bool := f.value.isSome

/-- Whether an argument is this option and nothing else. -/
def matchesWord (f : Flag) (w : Word) : Bool :=
  w == f.long.toList || f.letter.any fun c => w == ['-', c]

end Flag

/-- The arguments of a command, sorted out. -/
structure Sorted where
  /-- The options that are known, in order, with the values of those that take one. -/
  given : List (Flag × Option String) := []
  operands : List String := []
  /-- From the first option that is not known on. -/
  unknown : List String := []
  /-- An option at the end whose value is missing. -/
  missing : Option Flag := none

namespace Sorted

def addGiven (s : Sorted) (f : Flag) (v : Option Word) : Sorted :=
  { s with given := s.given ++ [(f, v.map String.ofList)] }

/-- Adds an argument that is no known option. -/
def addRest (s : Sorted) (w : Word) : Sorted :=
  let looksLikeOption := 1 < w.length && w.head? == some '-'
  if looksLikeOption || !s.unknown.isEmpty then { s with unknown := s.unknown ++ [String.ofList w] }
  else { s with operands := s.operands ++ [String.ofList w] }

/-- Adds everything after two dashes. -/
def addAll (s : Sorted) (ws : List Word) : Sorted :=
  if s.unknown.isEmpty then { s with operands := s.operands ++ ws.map String.ofList }
  else { s with unknown := s.unknown ++ "--" :: ws.map String.ofList }

end Sorted

/-- A known letter with something behind it. -/
def cluster? (flags : List Flag) : Word → Option (Flag × Word)
  | '-' :: c :: d :: rest =>
    if c = '-' then none
    else (flags.find? (·.matchesWord ['-', c])).map fun f => (f, d :: rest)
  | _ => none

/-- A known option that takes a value, with an equals sign and the value. -/
def assignment? (flags : List Flag) (w : Word) : Option (Flag × Word) :=
  let name := w.takeWhile (· != '=')
  match w.dropWhile (· != '=') with
  | _ :: value => (flags.find? fun f => f.takesValue && name == f.long.toList).map fun f => (f, value)
  | [] => none

theorem length_of_cluster? {flags : List Flag} {w tail : Word} {f : Flag}
    (h : cluster? flags w = some (f, tail)) : tail.length + 2 = w.length := by
  unfold cluster? at h
  split at h
  · split at h
    · simp at h
    · simp only [Option.map_eq_some_iff, Prod.mk.injEq] at h
      obtain ⟨_, _, _, rfl⟩ := h
      rfl
  · simp at h

/-- The characters of all arguments, and one more for each. -/
def room : List Word → Nat
  | [] => 0
  | w :: rest => w.length + 1 + room rest

/-- Sorts out arguments, given what was sorted before. -/
def sort (flags : List Flag) (s : Sorted) (args : List Word) : Sorted :=
  match args with
  | [] => s
  | w :: rest =>
    if w = ['-', '-'] then s.addAll rest
    else
      match flags.find? (·.matchesWord w) with
      | some f =>
        if f.takesValue then
          match rest with
          | v :: rest' => sort flags (s.addGiven f (some v)) rest'
          | [] => { s with missing := some f }
        else sort flags (s.addGiven f none) rest
      | none =>
        match _h : cluster? flags w with
        | some (f, tail) =>
          if f.takesValue then sort flags (s.addGiven f (some tail)) rest
          else sort flags (s.addGiven f none) (('-' :: tail) :: rest)
        | none =>
          match assignment? flags w with
          | some (f, v) => sort flags (s.addGiven f (some v)) rest
          | none => sort flags (s.addRest w) rest
  termination_by room args
  decreasing_by
    all_goals simp only [room, List.length_cons]
    all_goals first
      | omega
      | have := length_of_cluster? (by assumption)
        omega

end LeastAccess.CommandLine
