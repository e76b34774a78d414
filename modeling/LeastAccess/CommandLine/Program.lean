import LeastAccess.Command.Analyze
import LeastAccess.Command.Init
import LeastAccess.CommandLine.Arguments
import LeastAccess.CommandLine.Concurrency
import LeastAccess.CommandLine.Similarity

/-!
# The command line

`Invocation.parse` makes of the arguments what they ask for, or finds out what is wrong with them, and
`Program.run` does it. The options of the program are looked for among all arguments first; the version is
answered wherever it is asked for. What is left belongs to the command that the first operand names.
-/

namespace LeastAccess.CommandLine

/-! ## Options -/

def versionFlag : Flag := { letter := some 'V', name := "version" }

def helpFlag : Flag := { letter := some 'h', name := "help" }

def configFlag : Flag := { letter := some 'c', name := "config", value := some "path" }

def jsonFlag : Flag := { name := "json" }

def concurrencyFlag : Flag := { name := "concurrency", value := some "n" }

def debugFlag : Flag := { letter := some 'd', name := "debug" }

def forceFlag : Flag := { letter := some 'f', name := "force" }

/-- The commands. -/
inductive Verb where
  | analyze
  | init
  deriving DecidableEq, Repr

namespace Verb

def name : Verb → String
  | .analyze => "analyze"
  | .init => "init"

def all : List Verb := [.analyze, .init]

def ofName? (s : String) : Option Verb := all.find? (·.name == s)

/-- The options of a command. -/
def flags : Verb → List Flag
  | .analyze => [configFlag, jsonFlag, concurrencyFlag, debugFlag]
  | .init => [forceFlag]

end Verb

/-! ## What is wrong with arguments -/

/-- A mistake in the arguments. -/
inductive UsageError where
  | missingArgument (name : String)
  | unknownCommand (name : String)
  /-- An option that neither the command, if one is named, nor the program knows. -/
  | unknownOption (verb : Option Verb) (option : String)
  | missingValue (flag : Flag)
  | invalidValue (flag : Flag) (value complaint : String)
  deriving DecidableEq

namespace UsageError

/-- A hint at what may have been meant. -/
def hint : List String → String
  | [] => ""
  | [word] => "\n(Did you mean " ++ word ++ "?)"
  | words => "\n(Did you mean one of " ++ ", ".intercalate words ++ "?)"

/-- All options that can stand after a command, written in full. -/
def optionTexts (verb : Option Verb) : List String :=
  let own := match verb with
    | some v => v.flags ++ [helpFlag]
    | none => []
  (own ++ [versionFlag, helpFlag]).map (·.long)

/-- The options that look like an unknown one; a single dash gives too little to go by. -/
def similarOptions (verb : Option Verb) (option : String) : List String :=
  if option.startsWith "--" then Similarity.suggestions option (optionTexts verb) else []

def message : UsageError → String
  | .missingArgument name => "error: missing required argument '" ++ name ++ "'"
  | .unknownCommand name =>
    "error: unknown command '" ++ name ++ "'" ++
      hint (Similarity.suggestions name (Verb.all.map (·.name) ++ ["help"]))
  | .unknownOption verb option =>
    "error: unknown option '" ++ option ++ "'" ++ hint (similarOptions verb option)
  | .missingValue flag => "error: option '" ++ flag.text ++ "' argument missing"
  | .invalidValue flag value complaint =>
    "error: option '" ++ flag.text ++ "' argument '" ++ value ++ "' is invalid. " ++ complaint

end UsageError

/-! ## What arguments ask for -/

/-- What the program is asked to do. -/
inductive Invocation where
  | version
  | help (verb : Option Verb)
  /-- Nothing at all, which earns the same answer as a mistake. -/
  | usage
  | analyze (snapshot : String) (options : Command.AnalyzeOptions)
  | init (force : Bool)

namespace Invocation

/-- Whether help is asked for. -/
def asksForHelp (unknown : List String) : Bool :=
  unknown.any fun w => helpFlag.matchesWord w.toList

/-- Takes over one option of an analysis. -/
def addOption (o : Command.AnalyzeOptions) :
    Flag × Option String → Except UsageError Command.AnalyzeOptions
  | (flag, some value) =>
    if flag = configFlag then .ok { o with config := some value }
    else if flag = concurrencyFlag then
      match readConcurrency? value with
      | some n => .ok { o with concurrency := some n }
      | none => .error (.invalidValue flag value concurrencyComplaint)
    else .ok o
  | (flag, none) => .ok (if flag = jsonFlag then { o with json := true } else o)

/-- What a command is asked to do, given the operands so far and the arguments not yet sorted out. -/
def ofCommand (verb : Verb) (operands rest : List String) : Except UsageError Invocation := do
  let sorted := sort verb.flags {} (rest.map (·.toList))
  let options ← sorted.given.foldlM addOption {}
  if let some flag := sorted.missing then throw (.missingValue flag)
  if asksForHelp sorted.unknown then return .help (some verb)
  if let option :: _ := sorted.unknown then throw (.unknownOption (some verb) option)
  match verb, operands ++ sorted.operands with
  | .analyze, snapshot :: _ => return .analyze snapshot options
  | .analyze, [] => throw (.missingArgument "snapshot")
  | .init, _ => return .init (sorted.given.any (·.1 == forceFlag))

/-- What the arguments ask for. -/
def parse (args : List String) : Except UsageError Invocation := do
  let sorted := sort [versionFlag] {} (args.map (·.toList))
  if !sorted.given.isEmpty then return .version
  match sorted.operands, sorted.unknown with
  | name :: operands, unknown =>
    match Verb.ofName? name with
    | some verb => ofCommand verb operands unknown
    | none =>
      if name = "help" then
        match operands with
        | [] => return .help none
        | topic :: _ =>
          match Verb.ofName? topic with
          | some verb => return .help (some verb)
          | none => return if topic.isEmpty then .help none else .usage
      else if asksForHelp unknown then return .help none
      else throw (.unknownCommand name)
  | [], option :: rest =>
    if asksForHelp (option :: rest) then return .help none else throw (.unknownOption none option)
  | [], [] => return .usage

end Invocation

/-! ## Doing it -/

/-- How a run of the program ended, and what it printed. -/
structure Completion where
  code : Nat
  out : String := ""
  err : String := ""
  deriving DecidableEq

namespace Completion

/-- The end of a command. -/
def ofTranscript (t : Command.Transcript) : Completion :=
  let printed (lines : List String) : String := String.join (lines.map (· ++ "\n"))
  let complaint := match t.problem? with
    | some problem => "\n" ++ problem.text ++ "\n"
    | none => ""
  { code := if t.problem?.isSome then 1 else 0
    out := printed t.out
    err := printed t.progress ++ complaint }

end Completion

namespace Program

def version : String := "0.1.0"

/-- How the program, or one of its commands, is used. -/
def helpText : Option Verb → String
  | none =>
    "Usage: access-lens [options] [command]\n\n" ++
      "Suggests the tightest access level each declaration can take\n\n" ++
      "Options:\n" ++
      "  -V, --version                 output the version number\n" ++
      "  -h, --help                    display help for command\n\n" ++
      "Commands:\n" ++
      "  analyze [options] <snapshot>  Analyze a codebase snapshot and print access\n" ++
      "                                level suggestions\n" ++
      "  init [options]                Write the default configuration file\n" ++
      "  help [command]                display help for command\n"
  | some .analyze =>
    "Usage: access-lens analyze [options] <snapshot>\n\n" ++
      "Analyze a codebase snapshot and print access level suggestions\n\n" ++
      "Arguments:\n" ++
      "  snapshot             Path to the snapshot JSON file\n\n" ++
      "Options:\n" ++
      "  -c, --config <path>  Path to the configuration file\n" ++
      "  --json               Print the report as JSON\n" ++
      "  --concurrency <n>    Declarations resolved in parallel\n" ++
      "  -d, --debug          Enable debug logging\n" ++
      "  -h, --help           display help for command\n"
  | some .init =>
    "Usage: access-lens init [options]\n\n" ++
      "Write the default configuration file\n\n" ++
      "Options:\n" ++
      "  -f, --force  Overwrite an existing configuration file\n" ++
      "  -h, --help   display help for command\n"

variable {m : Type → Type} [Monad m]

/-- Runs the program; the clock counts milliseconds, and the token can cancel an analysis. -/
def run (fs : FileSystem m) (clock : m Nat) (token : Token) (args : List String) : m Completion := do
  match Invocation.parse args with
  | .error e => return { code := 1, err := e.message ++ "\n" }
  | .ok .version => return { code := 0, out := version ++ "\n" }
  | .ok (.help verb) => return { code := 0, out := helpText verb }
  | .ok .usage => return { code := 1, err := helpText none }
  | .ok (.analyze snapshot options) =>
    return .ofTranscript (← Command.analyze fs clock snapshot options token)
  | .ok (.init force) => return .ofTranscript (← Command.init fs force)

end Program

end LeastAccess.CommandLine
