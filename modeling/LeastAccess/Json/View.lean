import LeastAccess.Binary64.Rounding
import LeastAccess.Json.Basic

/-!
# Looking into a document

Views of the members of a document that is known to have a certain form, for instance because a schema
accepted it. Every view answers something for every document: where the form is another one, the answer is
an empty text, no items, zero, or false.
-/

namespace LeastAccess.Json

/-- The text under a key. -/
def textAt (v : Json) (key : String) : String :=
  match v.get? key with
  | some (.text s) => s
  | _ => ""

/-- The text under a key, unless something else is there. -/
def textAt? (v : Json) (key : String) : Option String :=
  match v.get? key with
  | some (.text s) => some s
  | _ => none

/-- The truth value under a key, unless something else is there. -/
def flagAt? (v : Json) (key : String) : Option Bool :=
  match v.get? key with
  | some (.bool b) => some b
  | _ => none

def flagAt (v : Json) (key : String) : Bool := (v.flagAt? key).getD false

def numberAt (v : Json) (key : String) : Binary64 :=
  match v.get? key with
  | some (.number x) => x
  | _ => .zero

/-- The items of a list. -/
def items : Json → List Json
  | .list items => items
  | _ => []

/-- The members of an object. -/
def members : Json → List (String × Json)
  | .object members => members
  | _ => []

/-- The texts in a list. -/
def texts (v : Json) : List String :=
  v.items.filterMap fun
    | .text s => some s
    | _ => none

theorem texts_map_text (names : List String) : (Json.list (names.map .text)).texts = names := by
  rw [texts, items, List.filterMap_map]
  exact List.filterMap_some

/-- What is under a key; null if nothing is. -/
def memberAt (v : Json) (key : String) : Json := (v.get? key).getD .null

end LeastAccess.Json
