import LeastAccess.Json.Plain
import LeastAccess.Json.View

/-!
# What a log says about an error

A document describes an error if it is an object whose `message` is a text. A log adds what a reader looks
for first: the messages of the error and of everything that caused it in one line, their traces one below
the other, and the kind of error. The other members follow as they are, errors among them in the same way;
only a cause is left out, because the message and the trace tell of it already.
-/

namespace LeastAccess

/-- What a log tells of an error. The trace and all that holds it fail if a trace has no text. -/
structure ErrorDetails where
  /-- The message, followed by those of the causes. -/
  message : String
  /-- The trace, followed by those of the causes; an empty text if there is none. -/
  trace : Except Json.PlainError Json
  /-- All that is logged. -/
  document : Except Json.PlainError Json

namespace ErrorDetails

/-- Names under which no member of an error is logged. -/
def hiddenNames : List String := "raw" :: Json.inheritedNames

/-- A member of an object: its value, what a log tells if the value is an error, and what it tells of the
items if the value is a list. -/
structure Part where
  value : Json
  details : Option ErrorDetails
  items : Option (Except Json.PlainError (List Json))

/-- A member as it is logged with the others; nothing for an error that is a cause. -/
def Part.shown (name : String) (p : Part) : Except Json.PlainError (Option Json) :=
  match p.details with
  | some d => if name = "cause" then .ok none else d.document.map some
  | none => .ok (some p.value)

/-- The kind of an error. An object that names its maker itself is of the kind that its `name` says. -/
def kind (parts : Members Part) : Option Json :=
  match Members.get? parts "constructor" with
  | some _ => (Members.get? parts "name").map Part.value
  | none => some (.text "Object")

/-- The trace that an object holds, unless it counts as nothing. -/
def ownTrace (parts : Members Part) : Json :=
  match Members.get? parts "stack" with
  | some p => if p.value.countsAsNothing then .text "" else p.value
  | none => .text ""

/-- One trace below the other. -/
def below (own : Json) (cause : ErrorDetails) : Except Json.PlainError Json := do
  let above ← own.plain
  return .text (above ++ "\ncaused by: " ++ (← (← cause.trace).plain))

/-- Members behind those that a log puts first, each as it is logged. -/
def others (taken : List String) : Members Part → Except Json.PlainError (List (String × Json))
  | [] => .ok []
  | (name, p) :: rest =>
    if taken.contains name then others taken rest
    else do
      let shown ← p.shown name
      return shown.toList.map (fun v => (name, v)) ++ (← others taken rest)

/-- The details of an object with these members and this message. -/
def ofParts (parts : Members Part) (ownMessage : String) : ErrorDetails :=
  let cause := (Members.get? parts "cause").bind Part.details
  let message := match cause with
    | some c => ownMessage ++ ": " ++ c.message
    | none => ownMessage
  let trace := match cause with
    | some c => below (ownTrace parts) c
    | none => .ok (ownTrace parts)
  { message, trace
    document := do
      let stack ← trace
      let gathered ← ((Members.get? parts "errors").bind Part.items).sequence
      let first : Members Json :=
        (kind parts).toList.map (fun v => ("type", v)) ++ [("message", .text message), ("stack", stack)] ++
          gathered.toList.map fun items => ("aggregateErrors", .list items)
      let rest ← others (first.map Prod.fst ++ hiddenNames) (Members.inKeyOrder parts)
      return .object (first ++ rest) }

mutual

/-- What a log tells of a document, if it describes an error. -/
def ofJson? : Json → Option ErrorDetails
  | .object members =>
    let parts := partsOf members
    match (Members.get? parts "message").map Part.value with
    | some (.text message) => some (ofParts parts message)
    | _ => none
  | _ => none

def partsOf : List (String × Json) → Members Part
  | [] => []
  | (k, v) :: rest => (k, ⟨v, ofJson? v, itemsOf v⟩) :: partsOf rest

/-- The items of a list as they are logged. -/
def itemsOf : Json → Option (Except Json.PlainError (List Json))
  | .list items => some (describeAll items)
  | _ => none

def describeAll : List Json → Except Json.PlainError (List Json)
  | [] => .ok []
  | v :: rest => do
    let first ← match ofJson? v with
      | some d => d.document
      | none => .ok v
    return first :: (← describeAll rest)

end

/-- A document as it is logged under the name of an error. -/
def describe (v : Json) : Except Json.PlainError Json :=
  match ofJson? v with
  | some d => d.document
  | none => .ok v

end ErrorDetails

end LeastAccess
