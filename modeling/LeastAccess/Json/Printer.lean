import LeastAccess.Binary64.Shortest
import LeastAccess.Json.Basic

/-!
# Writing a document

Two styles: without any blank, and with one item a line, indented by two spaces. Objects are written in
key order, and a number that is not finite is written `null`. A text is quoted; the quote, the backslash
and the control characters are escaped, everything else stands for itself.
-/

namespace LeastAccess.Json

inductive Style where
  | compact
  | indented
  deriving DecidableEq

/-- One hexadecimal digit in lower case. -/
def hexDigit (n : Nat) : Char := Char.ofNat (if n < 10 then 48 + n else 87 + n)

/-- A character inside quotes. -/
def escapeChar (c : Char) : List Char :=
  if c = '"' then ['\\', '"']
  else if c = '\\' then ['\\', '\\']
  else if c = '\n' then ['\\', 'n']
  else if c = '\r' then ['\\', 'r']
  else if c = '\t' then ['\\', 't']
  else if c.toNat = 8 then ['\\', 'b']
  else if c.toNat = 12 then ['\\', 'f']
  else if c.toNat < 32 then ['\\', 'u', '0', '0', hexDigit (c.toNat / 16), hexDigit (c.toNat % 16)]
  else [c]

/-- A text in quotes. -/
def quote (s : String) : String := String.ofList ('"' :: (s.toList.flatMap escapeChar ++ ['"']))

/-- A finite number's text; null for the others. -/
def numberText : Binary64 → String
  | .finite n u h => Binary64.text (.finite n u h)
  | _ => "null"

/-- The indentation at a depth. -/
def pad (depth : Nat) : String := String.ofList (List.replicate (2 * depth) ' ')

/-- The items of a list or an object between its brackets. -/
def block (style : Style) (depth : Nat) (opening closing : String) (items : List String) : String :=
  if items.isEmpty then opening ++ closing
  else match style with
    | .compact => opening ++ ",".intercalate items ++ closing
    | .indented =>
      let line := "\n" ++ pad (depth + 1)
      opening ++ line ++ ("," ++ line).intercalate items ++ "\n" ++ pad depth ++ closing

/-- A member whose value is already written. -/
def member (style : Style) (m : String × String) : String :=
  quote m.1 ++ (match style with
    | .compact => ":"
    | .indented => ": ") ++ m.2

mutual

/-- The text of a document that starts at a depth. -/
def render (style : Style) (depth : Nat) : Json → String
  | .null => "null"
  | .bool b => if b then "true" else "false"
  | .number x => numberText x
  | .text s => quote s
  | .list items => block style depth "[" "]" (renderItems style (depth + 1) items)
  | .object members =>
    block style depth "\x7b" "\x7d"
      ((Members.inKeyOrder (renderMembers style (depth + 1) members)).map (member style))

def renderItems (style : Style) (depth : Nat) : List Json → List String
  | [] => []
  | v :: rest => render style depth v :: renderItems style depth rest

def renderMembers (style : Style) (depth : Nat) : List (String × Json) → Members String
  | [] => []
  | (k, v) :: rest => (k, render style depth v) :: renderMembers style depth rest

end

/-- The text without blanks. -/
def compact (v : Json) : String := render .compact 0 v

/-- The text with one item a line. -/
def pretty (v : Json) : String := render .indented 0 v

end LeastAccess.Json
