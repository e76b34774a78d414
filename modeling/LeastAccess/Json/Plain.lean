import LeastAccess.Binary64.Numeral
import LeastAccess.Binary64.Shortest
import LeastAccess.Json.Basic

/-!
# A document in running text

How a document reads in the middle of a sentence: a text stands for itself, a list for its items with
commas between them, and an object only says that it is one. A null among the items leaves its place
empty. An object with a member `toString` of its own has no such text, because that member stands where
every object answers how it is written.
-/

namespace LeastAccess.Json

/-- Names that every object answers to, whether it holds such a member or not. -/
def inheritedNames : List String :=
  ["constructor", "hasOwnProperty", "isPrototypeOf", "propertyIsEnumerable", "toLocaleString",
    "toString", "valueOf", "__defineGetter__", "__defineSetter__", "__lookupGetter__",
    "__lookupSetter__", "__proto__"]

/-- Why a document has no running text. -/
inductive PlainError where
  /-- An object in it holds a member in place of the text. -/
  | textHidden
  deriving DecidableEq, Repr

def PlainError.message : PlainError → String
  | .textHidden => "Cannot convert object to primitive value"

mutual

/-- A document in running text. -/
def plain : Json → Except PlainError String
  | .null => .ok "null"
  | .bool b => .ok (if b then "true" else "false")
  | .number x => .ok x.text
  | .text s => .ok s
  | .list items => (plainItems items).map (",".intercalate ·)
  | .object members =>
    if (Members.get? members "toString").isSome then .error .textHidden else .ok "[object Object]"

/-- The items of a list in running text, each by itself. -/
def plainItems : List Json → Except PlainError (List String)
  | [] => .ok []
  | .null :: rest => do return "" :: (← plainItems rest)
  | v :: rest => do
    let first ← plain v
    return first :: (← plainItems rest)

end

/-- The number that a document stands for where one is asked for. A list or an object is read by its
running text. -/
def asNumber : Json → Except PlainError Binary64
  | .null => .ok .zero
  | .bool b => .ok (if b then .one else .zero)
  | .number x => .ok x
  | v => v.plain.map Numeral.read

/-- Whether a document counts as nothing: null, false, zero, and the empty text. -/
def countsAsNothing : Json → Bool
  | .null => true
  | .bool b => !b
  | .number (.finite _ units _) => units == 0
  | .number .nan => true
  | .number (.infinity _) => false
  | .text s => s.isEmpty
  | .list _ => false
  | .object _ => false

theorem plainItems_texts (texts : List String) : plainItems (texts.map .text) = .ok texts := by
  induction texts with
  | nil => rfl
  | cons s rest ih =>
    rw [List.map_cons, plainItems, ih]
    · rfl
    · simp

end LeastAccess.Json
