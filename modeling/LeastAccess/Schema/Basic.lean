import LeastAccess.Schema.Issue

/-!
# Schemas

A schema describes the documents of a format, and `check` compares a document with it. The answer is the
document with the parts that the schema does not know left out and the missing parts that have a default
filled in, together with all issues: those of an object in the order of the schema's fields, those of a list
or a record in the order of its items. A document is accepted if there are no issues.

A fault that leaves no value (`Checked.value?` is none) takes the value of everything around it, too. This
matters to a refinement, which is only tried on a value.
-/

namespace LeastAccess

/-- A condition on a value that its parts do not show. -/
structure Refinement where
  holds : Json → Bool
  place : String
  message : String

mutual

/-- The documents of a format. -/
inductive Schema where
  | text (nonEmpty : Bool)
  | flag
  /-- A whole number that is positive, or that is not negative. -/
  | whole (positive : Bool)
  /-- One of some words. -/
  | word (options : List String)
  /-- The number one. -/
  | one
  | nullable (inner : Schema)
  | list (item : Schema)
  /-- Any keys, with values of one format. -/
  | record (item : Schema)
  | object (fields : Fields)
  /-- An object whose fields depend on the word under one key. -/
  | tagged (tag : String) (variants : Variants)
  | refined (inner : Schema) (rule : Refinement)

/-- The fields of an object, in order. A field may be required, optional, or have a default, which is
checked like a value that was given. -/
inductive Fields where
  | none
  | required (name : String) (schema : Schema) (rest : Fields)
  | optional (name : String) (schema : Schema) (rest : Fields)
  | defaulted (name : String) (value : Json) (schema : Schema) (rest : Fields)

/-- The fields for each word of a tagged object. -/
inductive Variants where
  | none
  | variant (name : String) (fields : Fields) (rest : Variants)

end

/-- A flag that need not be given, before other fields. -/
def Fields.flag (name : String) (value : Bool) (rest : Fields) : Fields :=
  .defaulted name (.bool value) .flag rest

/-- What a check leaves of a document, and what is wrong with it. -/
structure Checked where
  value? : Option Json
  issues : List Issue := []

namespace Checked

def accept (v : Json) : Checked := ⟨some v, []⟩

/-- A fault that leaves no value. -/
def reject (fault : Fault) : Checked := ⟨none, [.here fault]⟩

/-- A value with faults that do not spoil it. -/
def spotted (v : Json) (faults : List Fault) : Checked := ⟨some v, faults.map .here⟩

/-- Something of another kind, or nothing at all. -/
def mismatch (expected : String) : Option Json → Checked
  | none => reject .missing
  | some v => reject (.wrongKind expected v.kindName)

/-- The issues of a part as issues of the whole. -/
def issuesUnder (c : Checked) (step : PathStep) : List Issue := c.issues.map (.under step)

/-- The checked items of a list as one list. -/
def ofItems (start : Nat) : List Checked → Option (List Json) × List Issue
  | [] => (some [], [])
  | c :: rest =>
    let (values, issues) := ofItems (start + 1) rest
    (match c.value?, values with
      | some v, some vs => some (v :: vs)
      | _, _ => none,
     c.issuesUnder (.index start) ++ issues)

/-- Checked members as one object. -/
def ofMembers : List (String × Checked) → Option (List (String × Json)) × List Issue
  | [] => (some [], [])
  | (k, c) :: rest =>
    let (members, issues) := ofMembers rest
    (match c.value?, members with
      | some v, some ms => some ((k, v) :: ms)
      | _, _ => none,
     c.issuesUnder (.key k) ++ issues)

/-- The refinement of a value, if there is one. -/
def refine (c : Checked) (rule : Refinement) : Checked :=
  match c.value? with
  | some v =>
    if rule.holds v then c
    else { c with issues := c.issues ++ [⟨[.key rule.place], .refused rule.message⟩] }
  | none => c

end Checked

/-- The key that no record keeps. -/
def reservedKey : String := "__proto__"

namespace Variants

/-- The words in order. -/
def names : Variants → List String
  | .none => []
  | .variant name _ rest => name :: names rest

end Variants

/-- The faults of a number where a whole number belongs. -/
def wholeFaults (positive : Bool) (x : Binary64) : List Fault :=
  (if x.isInteger then [] else [.notWhole]) ++
    (if positive then (if x.isPositive then [] else [.notPositive])
     else if x.isNegative then [.negative] else [])

namespace Schema

mutual

/-- Compares a document, or the absence of one, with a schema. -/
def check : Schema → Option Json → Checked
  | .text nonEmpty, v =>
    match v with
    | some (.text s) => .spotted (.text s) (if nonEmpty && s.isEmpty then [.emptyText] else [])
    | v => .mismatch "string" v
  | .flag, v =>
    match v with
    | some (.bool b) => .accept (.bool b)
    | v => .mismatch "boolean" v
  | .whole positive, v =>
    match v with
    | some (.number .nan) => .mismatch "number" v
    | some (.number x) => .spotted (.number x) (wholeFaults positive x)
    | v => .mismatch "number" v
  | .word options, v =>
    match v with
    | some (.text s) =>
      if options.contains s then .accept (.text s) else .reject (.unknownWord options s)
    | some v => .reject (.notAWord options v.kindName)
    | none => .reject .missing
  | .one, v =>
    match v with
    | some (.number x) => if x = .one then .accept (.number x) else .reject (.notThe "1")
    | _ => .reject (.notThe "1")
  | .nullable inner, v =>
    match v with
    | some .null => .accept .null
    | v => check inner v
  | .list item, v =>
    match v with
    | some (.list items) =>
      let (values, issues) := Checked.ofItems 0 (items.map fun x => check item (some x))
      ⟨values.map .list, issues⟩
    | v => .mismatch "array" v
  | .record item, v =>
    match v with
    | some (.object members) =>
      let checked := (Members.inKeyOrder members).map fun m => (m.1, check item (some m.2))
      let (values, issues) := Checked.ofMembers checked
      ⟨values.map fun ms => .object (ms.filter (·.1 != reservedKey)), issues⟩
    | v => .mismatch "object" v
  | .object fields, v =>
    match v with
    | some (.object members) =>
      let (values, issues) := Checked.ofMembers (checkFields fields members)
      ⟨values.map .object, issues⟩
    | v => .mismatch "object" v
  | .tagged tag variants, v =>
    match v with
    | some (.object members) =>
      checkVariants tag variants variants.names (Members.get? members tag) members
    | v => .mismatch "object" v
  | .refined inner rule, v => (check inner v).refine rule

/-- Compares the members of an object with fields; an optional field that is absent leaves nothing. -/
def checkFields : Fields → Members Json → List (String × Checked)
  | .none, _ => []
  | .required name schema rest, members =>
    (name, check schema (Members.get? members name)) :: checkFields rest members
  | .optional name schema rest, members =>
    match Members.get? members name with
    | some v => (name, check schema (some v)) :: checkFields rest members
    | none => checkFields rest members
  | .defaulted name value schema rest, members =>
    (name, check schema (some ((Members.get? members name).getD value))) :: checkFields rest members

/-- Compares the members of an object with the fields that the word under its tag asks for. -/
def checkVariants (tag : String) :
    Variants → List String → Option Json → Members Json → Checked
  | .none, options, _, _ => ⟨none, [⟨[.key tag], .unknownVariant options⟩]⟩
  | .variant name fields rest, options, chosen, members =>
    match chosen with
    | some (.text s) =>
      if s = name then
        let (values, issues) := Checked.ofMembers (checkFields fields members)
        ⟨values.map fun ms => .object ((tag, .text s) :: ms), issues⟩
      else checkVariants tag rest options chosen members
    | _ => checkVariants tag rest options chosen members

end

theorem check_refined (inner : Schema) (rule : Refinement) (v : Option Json) :
    check (.refined inner rule) v = (check inner v).refine rule := by
  rw [check]

/-- The document that a schema makes of a document, or the issues. -/
def validate (s : Schema) (v : Option Json) : Except (List Issue) Json :=
  match check s v with
  | ⟨some w, []⟩ => .ok w
  | c => .error c.issues

end Schema

end LeastAccess
