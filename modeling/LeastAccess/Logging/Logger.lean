import LeastAccess.Json.Printer
import LeastAccess.Json.Reader
import LeastAccess.Logging
import LeastAccess.Logging.ErrorDetails

/-!
# The log of a component

A log has a threshold and bindings, members that are part of each of its entries. The bindings are kept as
the text that entries carry: one member after the other, the name in quotes exactly as it was given. So a
name may hold escapes, and what the bindings are is what that text reads as.

A log for a part of the component starts with the bindings of the whole and adds its own; the last binding
of a name counts. Names that set up a log are passed over, and names that every object answers to are bound
to what they mean there, or refused.
-/

namespace LeastAccess

/-- Why there is no log with some bindings. The names among the causes mean something on every object. -/
inductive BindingError where
  /-- The name hides the question whether the bindings hold a member themselves. -/
  | hidesOwnership
  /-- The name means the ancestor of an object, which converts no value. -/
  | namesAncestor
  /-- The name means an operation that takes a function. -/
  | takesFunction (operation : String)
  /-- The name means an operation on an object, and there is none. -/
  | lacksObject
  /-- The name means an operation on an object, and there is none; it tells its own name. -/
  | lacksObjectFor (operation : String)
  /-- The value has to become a text, and has none. -/
  | unreadable (reason : Json.PlainError)
  /-- The log has no level to hand on. -/
  | lacksLevel
  deriving DecidableEq, Repr

namespace BindingError

def message : BindingError → String
  | .hidesOwnership => "bindings.hasOwnProperty is not a function"
  | .namesAncestor => "serializers[key] is not a function"
  | .takesFunction operation => "Object.prototype." ++ operation ++ ": Expecting function"
  | .lacksObject => "Cannot convert undefined or null to object"
  | .lacksObjectFor operation => "Object.prototype." ++ operation ++ " called on null or undefined"
  | .unreadable reason => reason.message
  | .lacksLevel => "unknown level undefined"

end BindingError

/-- The process that writes a log. -/
structure LogProcess where
  number : Nat
  host : String

/-- A log of one component. -/
structure Logger where
  /-- What the log lets through; nothing at all if it was asked for a level that is none. -/
  threshold : Option Threshold
  /-- The bindings as entries carry them, with a comma before each. -/
  bound : String

namespace Logger

/-- Names that set up a log and are never bound. -/
def settingNames : List String := ["level", "serializers", "formatters", "customLevels"]

/-- Names under which entries tell of the process that writes them. -/
def processNames : List String := ["pid", "hostname"]

/-- The text of a value under a name. -/
def valueText (name : String) (value : Json) : Except BindingError String :=
  match name with
  | "err" => ((ErrorDetails.describe value).map Json.compact).mapError .unreadable
  | "constructor" =>
    (if value matches .null then (Json.object []).plain else value.plain).mapError .unreadable
  | "toString" => .ok "[object Undefined]"
  | "isPrototypeOf" => .ok "false"
  | "hasOwnProperty" => .error .hidesOwnership
  | "__proto__" => .error .namesAncestor
  | "__defineGetter__" | "__defineSetter__" => .error (.takesFunction name)
  | "toLocaleString" => .error (.lacksObjectFor name)
  | "valueOf" => .error .lacksObject
  | "propertyIsEnumerable" | "__lookupGetter__" | "__lookupSetter__" =>
    match value.plain with
    | .ok _ => .error .lacksObject
    | .error reason => .error (.unreadable reason)
  | _ => .ok value.compact

/-- A binding as entries carry it. -/
def bindingText (binding : String × Json) : Except BindingError String := do
  return ",\"" ++ binding.1 ++ "\":" ++ (← valueText binding.1 binding.2)

/-- The log of a component, if it is one that has a name. -/
def create (process : LogProcess) (threshold : Option Threshold) (component : Option Json) : Logger where
  threshold
  bound := ",\"pid\":" ++ (Json.nat process.number).compact ++
    ",\"hostname\":" ++ (Json.text process.host).compact ++
    String.join (component.toList.map fun name => ",\"name\":" ++ name.compact)

/-- A log with further bindings. It takes over the level, so there has to be one. -/
def child (l : Logger) (bindings : Members Json) : Except BindingError Logger := do
  let own := (Members.inKeyOrder bindings).filter fun b => !settingNames.contains b.1
  if (Members.get? own "hasOwnProperty").isSome then .error .hidesOwnership
  else
    let texts ← own.mapM bindingText
    if l.threshold.isNone then .error .lacksLevel
    else return { l with bound := l.bound ++ String.join texts }

/-- Whether an entry of some severity gets through. -/
def allows (l : Logger) (severity : Severity) : Bool := l.threshold.any (·.allows severity)

/-- The members that entries carry, but for those that tell of the process. -/
def bindings (l : Logger) : Except Json.SyntaxError (Members Json) := do
  let document ← Json.read ("\x7b" ++ String.ofList (l.bound.toList.drop 1) ++ "\x7d")
  return (Members.inKeyOrder document.members).filter fun b => !processNames.contains b.1

end Logger

end LeastAccess
