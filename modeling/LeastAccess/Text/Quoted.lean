import LeastAccess.Text.Units

/-!
# Quoted texts

A text in quotes, as a message shows it to a reader. The quotes are single ones, unless the text has such a
quote in it: then they are double ones, or backticks where it has double ones as well, or after all single
ones where nothing else is left. Inside, the quote that was chosen, the backslash and the control
characters are escaped; everything else stands for itself. A long text is shown line by line, each line in
quotes of its own.
-/

namespace LeastAccess.Text

/-- One hexadecimal digit in upper case. -/
def upperHexDigit (n : Nat) : Char := Char.ofNat (if n < 10 then 48 + n else 55 + n)

def backtick : Char := Char.ofNat 0x60

/-- Whether a place for a value starts somewhere in a text, which between backticks would be filled in. -/
def hasPlaceholder : List Char → Bool
  | '$' :: '\x7b' :: _ => true
  | _ :: rest => hasPlaceholder rest
  | [] => false

/-- The quotes to put around a text. -/
def quoteFor (cs : List Char) : Char :=
  if !cs.contains '\'' then '\''
  else if !cs.contains '"' then '"'
  else if !cs.contains backtick && !hasPlaceholder cs then backtick
  else '\''

/-- Whether a character has no escape of its own. -/
def isPlain (c : Char) : Bool :=
  c != '\\' && 0x20 ≤ c.toNat && (c.toNat < 0x7F || 0xA0 ≤ c.toNat)

/-- A character between quotes. -/
def escapeIn (quote c : Char) : List Char :=
  if c = quote then ['\\', c]
  else if isPlain c then [c]
  else if c = '\\' then ['\\', '\\']
  else if c = '\n' then ['\\', 'n']
  else if c = '\r' then ['\\', 'r']
  else if c = '\t' then ['\\', 't']
  else if c.toNat = 8 then ['\\', 'b']
  else if c.toNat = 12 then ['\\', 'f']
  else ['\\', 'x', upperHexDigit (c.toNat / 16), upperHexDigit (c.toNat % 16)]

def quotedChars (cs : List Char) : List Char :=
  let quote := quoteFor cs
  quote :: cs.flatMap (escapeIn quote) ++ [quote]

/-! ## Long texts -/

/-- The lines of a text, each with the line break that ends it. -/
def brokenLines : List Char → List (List Char)
  | [] => []
  | c :: rest =>
    if c = '\n' then [c] :: brokenLines rest
    else
      match brokenLines rest with
      | [] => [[c]]
      | line :: lines => (c :: line) :: lines

/-- A text of up to so many units is shown in one piece. -/
def pieceLimit : Nat := 76

/-- What stands between the lines of a long text: they are added up, one below the other. -/
def lineJoint : List Char := [' ', '+', '\n', ' ', ' ']

/-- A text in quotes, line by line if it is long. -/
def quotedPieces (cs : List Char) : List Char :=
  if pieceLimit < (units cs).length then lineJoint.intercalate ((brokenLines cs).map quotedChars)
  else quotedChars cs

/-- A text in quotes, of which only the start is shown if it is very long. -/
def quotedStart (limit : Nat) (s : String) : String :=
  let cs := quotedPieces s.toList
  String.ofList (if limit < (units cs).length then takeUnits limit cs ++ ['.', '.', '.'] else cs)

end LeastAccess.Text
