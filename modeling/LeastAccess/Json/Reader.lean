import LeastAccess.Binary64.Numeral
import LeastAccess.Json.Basic
import LeastAccess.Text.Units

/-!
# Reading a document

`Json.read` turns a text into a document, or says why and where it is none. The grammar is RFC 8259: four
blanks, no comments, no trailing commas, numbers without a plus sign or leading zeros. Every call of
`value`, `items` and `members` takes at least one character off the text, so the length of the text is
fuel enough. A half of a surrogate pair that stands alone reads as U+FFFD.

`SyntaxError` holds the cause and the place; the place is counted in UTF-16 units, and `message` words both.
-/

namespace LeastAccess.Json

/-! ## What can be wrong -/

/-- Why a text is no document. -/
inductive Cause where
  | unexpected
  | unexpectedNumber
  | numberAfterMinus
  | fractionDigits
  | exponentDigits
  | unterminatedText
  | controlCharacter
  | badEscape
  | badUnicodeEscape
  | keyOrBrace
  | quotedKey
  | colon
  | commaOrBracket
  | commaOrBrace
  | trailing
  deriving DecidableEq

/-- The wording of a cause; the first one quotes the text around the place instead. -/
def Cause.text : Cause → String
  | .unexpected => "Unexpected token"
  | .unexpectedNumber => "Unexpected number"
  | .numberAfterMinus => "No number after minus sign"
  | .fractionDigits => "Unterminated fractional number"
  | .exponentDigits => "Exponent part is missing a number"
  | .unterminatedText => "Unterminated string"
  | .controlCharacter => "Bad control character in string literal"
  | .badEscape => "Bad escaped character"
  | .badUnicodeEscape => "Bad Unicode escape"
  | .keyOrBrace => "Expected property name or '\x7d'"
  | .quotedKey => "Expected double-quoted property name"
  | .colon => "Expected ':' after property name"
  | .commaOrBracket => "Expected ',' or ']' after array element"
  | .commaOrBrace => "Expected ',' or '\x7d' after property value"
  | .trailing => "Unexpected non-whitespace character after JSON"

/-- A cause, and the text before and from the place on. -/
structure SyntaxError where
  cause : Cause
  before : List Char
  after : List Char

namespace SyntaxError

/-- How many UTF-16 units a message quotes on either side of the place. -/
def contextWidth : Nat := 10

/-- The quoted surroundings of the place; the whole text if it is short. -/
def context (e : SyntaxError) : String :=
  let before := (Text.units e.before).length
  let after := (Text.units e.after).length
  let quoted (cs : List Char) : String := "\"" ++ String.ofList cs ++ "\""
  if before + after ≤ 2 * contextWidth then quoted (e.before ++ e.after)
  else
    let cut := (Text.takeUnits contextWidth e.before.reverse).reverse ++ Text.takeUnits contextWidth e.after
    let left := if before < contextWidth then "" else "..."
    let right := if contextWidth < after ∨ before < contextWidth then "..." else ""
    left ++ quoted cut ++ right

/-- The line of the place, and its column in that line, both from one. -/
def position (e : SyntaxError) : Nat × Nat :=
  let line := e.before.count '\n' + 1
  let column := (Text.units (e.before.reverse.takeWhile (· != '\n'))).length + 1
  (line, column)

def message (e : SyntaxError) : String :=
  match e.cause, e.after with
  | .unexpected, [] => "Unexpected end of JSON input"
  | .unexpected, c :: _ =>
    "Unexpected token '" ++ c.toString ++ "', " ++ e.context ++ " is not valid JSON"
  | cause, _ =>
    let (line, column) := e.position
    cause.text ++ " in JSON at position " ++ toString (Text.units e.before).length ++
      " (line " ++ toString line ++ " column " ++ toString column ++ ")"

end SyntaxError

/-! ## The reader -/

namespace Reader

/-- A cause and the text from its place on. -/
abbrev Failure := Cause × List Char

def isSpace (c : Char) : Bool := c = ' ' || c = '\n' || c = '\r' || c = '\t'

def skipSpace (cs : List Char) : List Char := cs.dropWhile isSpace

/-- The rest after a fixed word; a mismatch is reported where it occurs. -/
def expect : List Char → List Char → Except Failure (List Char)
  | [], cs => .ok cs
  | w :: ws, c :: cs => if c = w then expect ws cs else .error (.unexpected, c :: cs)
  | _ :: _, [] => .error (.unexpected, [])

/-- A run of digits and the text after it. -/
def digits (cs : List Char) : List Char × List Char := cs.span Char.isDigit

/-- The digits after a point, if there is one. -/
def fraction : List Char → Except Failure (List Char × List Char)
  | '.' :: rest =>
    match digits rest with
    | ([], rest) => .error (.fractionDigits, rest)
    | (ds, rest) => .ok (ds, rest)
  | cs => .ok ([], cs)

/-- The exponent after `e`, if there is one. -/
def exponent : List Char → Except Failure (Int × List Char)
  | c :: rest =>
    if c = 'e' || c = 'E' then
      let (negative, rest) := match rest with
        | '-' :: rest => (true, rest)
        | '+' :: rest => (false, rest)
        | rest => (false, rest)
      match digits rest with
      | ([], rest) => .error (.exponentDigits, rest)
      | (ds, rest) =>
        let n : Int := ofDigits 10 ds
        .ok (if negative then -n else n, rest)
    else .ok (0, c :: rest)
  | [] => .ok (0, [])

/-- The digits before the point; a zero stands alone. -/
def whole : List Char → Except Failure (List Char × List Char)
  | '0' :: c :: rest => if c.isDigit then .error (.unexpectedNumber, c :: rest) else .ok (['0'], c :: rest)
  | cs =>
    match digits cs with
    | ([], rest) => .error (.numberAfterMinus, rest)
    | (ds, rest) => .ok (ds, rest)

/-- A number without its sign. -/
def magnitude (negative : Bool) (cs : List Char) : Except Failure (Json × List Char) := do
  let (ds, rest) ← whole cs
  let (fs, rest) ← fraction rest
  let (e, rest) ← exponent rest
  .ok (.number (.ofDecimal negative (ofDigits 10 (ds ++ fs)) (e - fs.length)), rest)

/-- The UTF-16 unit that four hexadecimal digits spell. -/
def hexUnit? (a b c d : Char) : Option Nat :=
  let ds := [a, b, c, d]
  if ds.all (digitValue · < 16) then some (ofDigits 16 ds) else none

/-- The character of a surrogate pair. -/
def pairChar (high low : Nat) : Char := Char.ofNat (0x10000 + (high - 0xD800) * 0x400 + (low - 0xDC00))

/-- The character of a unit that is no surrogate; a surrogate has none. -/
def unitChar (unit : Nat) : Char :=
  if 0xD800 ≤ unit ∧ unit ≤ 0xDFFF then '\uFFFD' else Char.ofNat unit

/-- The characters of a text up to its closing quote. `high` is a unit that waits for its other half. -/
def textBody (high : Option Nat) (acc : List Char) : List Char → Except Failure (String × List Char)
  | [] => .error (.unterminatedText, [])
  | '"' :: rest => .ok (String.ofList (settle high acc).reverse, rest)
  | '\\' :: 'u' :: a :: b :: c :: d :: rest =>
    match hexUnit? a b c d with
    | none => .error (.badUnicodeEscape, a :: b :: c :: d :: rest)
    | some unit =>
      match high with
      | some h =>
        if 0xDC00 ≤ unit ∧ unit ≤ 0xDFFF then textBody none (pairChar h unit :: acc) rest
        else if 0xD800 ≤ unit ∧ unit ≤ 0xDBFF then textBody (some unit) ('\uFFFD' :: acc) rest
        else textBody none (unitChar unit :: '\uFFFD' :: acc) rest
      | none =>
        if 0xD800 ≤ unit ∧ unit ≤ 0xDBFF then textBody (some unit) acc rest
        else textBody none (unitChar unit :: acc) rest
  | '\\' :: e :: rest =>
    match escaped? e with
    | some c => textBody none (c :: settle high acc) rest
    | none => .error (if e = 'u' then .badUnicodeEscape else .badEscape, e :: rest)
  | c :: rest =>
    if c = '\\' then .error (.unterminatedText, rest)
    else if c.toNat < 32 then .error (.controlCharacter, c :: rest)
    else textBody none (c :: settle high acc) rest
where
  /-- A unit that waited in vain is written as the replacement character. -/
  settle : Option Nat → List Char → List Char
    | some _, acc => '\uFFFD' :: acc
    | none, acc => acc
  /-- The character that a letter after a backslash stands for. -/
  escaped? (e : Char) : Option Char :=
    if e = '"' ∨ e = '\\' ∨ e = '/' then some e
    else if e = 'n' then some '\n'
    else if e = 't' then some '\t'
    else if e = 'r' then some '\r'
    else if e = 'b' then some '\x08'
    else if e = 'f' then some '\x0c'
    else none

mutual

/-- A document at the start of a text that has no blanks there. -/
def value : Nat → List Char → Except Failure (Json × List Char)
  | 0, cs => .error (.unexpected, cs)
  | fuel + 1, cs =>
    match cs with
    | 'n' :: rest => return (.null, ← expect "ull".toList rest)
    | 't' :: rest => return (.bool true, ← expect "rue".toList rest)
    | 'f' :: rest => return (.bool false, ← expect "alse".toList rest)
    | '"' :: rest => do
      let (s, rest) ← textBody none [] rest
      return (.text s, rest)
    | '[' :: rest =>
      match skipSpace rest with
      | ']' :: rest => .ok (.list [], rest)
      | rest => do
        let (vs, rest) ← items fuel rest
        return (.list vs, rest)
    | '\x7b' :: rest =>
      match skipSpace rest with
      | '\x7d' :: rest => .ok (.object [], rest)
      | '"' :: rest => do
        let (ms, rest) ← members fuel rest
        return (.object ms, rest)
      | rest => .error (.keyOrBrace, rest)
    | '-' :: rest => magnitude true rest
    | c :: rest => if c.isDigit then magnitude false (c :: rest) else .error (.unexpected, c :: rest)
    | [] => .error (.unexpected, [])

/-- The items of a list, from the first one to the closing bracket. -/
def items : Nat → List Char → Except Failure (List Json × List Char)
  | 0, cs => .error (.unexpected, cs)
  | fuel + 1, cs => do
    let (v, rest) ← value fuel cs
    match skipSpace rest with
    | ',' :: rest =>
      let (vs, rest) ← items fuel (skipSpace rest)
      return (v :: vs, rest)
    | ']' :: rest => return ([v], rest)
    | rest => .error (.commaOrBracket, rest)

/-- The members of an object, from inside the quotes of the first key to the closing brace. -/
def members : Nat → List Char → Except Failure (List (String × Json) × List Char)
  | 0, cs => .error (.unexpected, cs)
  | fuel + 1, cs => do
    let (k, rest) ← textBody none [] cs
    match skipSpace rest with
    | ':' :: rest =>
      let (v, rest) ← value fuel (skipSpace rest)
      match skipSpace rest with
      | ',' :: rest =>
        match skipSpace rest with
        | '"' :: rest =>
          let (ms, rest) ← members fuel rest
          return ((k, v) :: ms, rest)
        | rest => .error (.quotedKey, rest)
      | '\x7d' :: rest => return ([(k, v)], rest)
      | rest => .error (.commaOrBrace, rest)
    | rest => .error (.colon, rest)

end

end Reader

/-- The document that a text holds. -/
def read (s : String) : Except SyntaxError Json :=
  let cs := s.toList
  let located : Reader.Failure → SyntaxError := fun (cause, after) =>
    ⟨cause, cs.take (cs.length - after.length), after⟩
  match Reader.value (cs.length + 1) (Reader.skipSpace cs) with
  | .error e => .error (located e)
  | .ok (v, rest) =>
    match Reader.skipSpace rest with
    | [] => .ok v
    | rest => .error (located (.trailing, rest))

end LeastAccess.Json
