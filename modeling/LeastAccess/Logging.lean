import LeastAccess.Json.Plain
import LeastAccess.Text.Blank

/-!
# Log levels

Which entries a log lets through, as the surroundings ask for it: the level they name if it is a level;
silence under a test runner; and otherwise everything from `info` on, or from `warn` on in production.
Who makes a log can also ask for a level outright, by its name or by its number; then it has to be one,
or at least a name that every object answers to.
-/

namespace LeastAccess

/-- How much a log entry matters. -/
inductive Severity where
  | trace
  | debug
  | info
  | warn
  | error
  | fatal
  deriving DecidableEq, Repr

namespace Severity

def name : Severity → String
  | .trace => "trace"
  | .debug => "debug"
  | .info => "info"
  | .warn => "warn"
  | .error => "error"
  | .fatal => "fatal"

def rank : Severity → Nat
  | .trace => 1
  | .debug => 2
  | .info => 3
  | .warn => 4
  | .error => 5
  | .fatal => 6

/-- All severities, the least one first. -/
def all : List Severity := [.trace, .debug, .info, .warn, .error, .fatal]

end Severity

/-- What a log lets through. -/
inductive Threshold where
  | from (severity : Severity)
  | silent
  deriving DecidableEq, Repr

namespace Threshold

def name : Threshold → String
  | .from severity => severity.name
  | .silent => "silent"

/-- The number of the least severity that gets through. -/
def number : Threshold → Binary64
  | .from severity => .ofNat (10 * severity.rank)
  | .silent => .infinity false

def all : List Threshold := Severity.all.map .from ++ [.silent]

def ofName? (s : String) : Option Threshold := all.find? (·.name == s)

/-- Whether an entry of some severity gets through. -/
def allows : Threshold → Severity → Bool
  | .from least, severity => least.rank ≤ severity.rank
  | .silent, _ => false

end Threshold

/-- What the surroundings say about logging. -/
structure LogSettings where
  /-- The level that is asked for by name. -/
  level : Option String := none
  /-- The mode the program runs in, such as `production` or `test`. -/
  mode : Option String := none
  /-- Whether a test runner started the program. -/
  underTestRunner : Bool := false

namespace LogSettings

/-- Whether the program is being tested. -/
def isTest (s : LogSettings) : Bool := s.mode == some "test" || s.underTestRunner

/-- What a log lets through unless it is told otherwise. -/
def threshold (s : LogSettings) : Threshold :=
  match s.level.bind fun name => Threshold.ofName? (Text.lower name) with
  | some threshold => threshold
  | none =>
    if s.isTest then .silent
    else if s.mode = some "production" then .from .warn
    else .from .info

end LogSettings

/-- Why a log cannot have the level that it is asked for. -/
inductive LevelError where
  /-- There is no such level; how it was asked for. -/
  | unknown (asked : String)
  /-- What was asked for has no text. -/
  | unreadable (reason : Json.PlainError)
  deriving DecidableEq, Repr

def LevelError.message : LevelError → String
  | .unknown asked => "default level:" ++ asked ++ " must be included in custom levels"
  | .unreadable reason => reason.message

/-- The name a text stands for: the case of a severity's name, or of a name that every object answers to,
does not matter. -/
def Threshold.spelling (asked : String) : String :=
  let lower := Text.lower asked
  if Severity.all.any (·.name == lower) || Json.inheritedNames.contains lower then lower else asked

/-- The threshold that is asked for: by its number, or by the text of anything else. A name that every
object answers to is no mistake, but names no threshold. -/
def Threshold.ofRequest (asked : Json) : Except LevelError (Option Threshold) :=
  match asked.plain with
  | .error reason => .error (.unreadable reason)
  | .ok text =>
    let name := if asked matches .text _ then spelling text else text
    let found := match asked with
      | .number x => Threshold.all.find? fun t => t.number == x
      | _ => Threshold.ofName? name
    match found with
    | some threshold => .ok (some threshold)
    | none =>
      if !(asked matches .number _) && Json.inheritedNames.contains name then .ok none
      else .error (.unknown text)

end LeastAccess
