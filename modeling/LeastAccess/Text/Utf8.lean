/-!
# UTF-8 with replacement

`decode` reads bytes as UTF-8. A sequence that is not well formed costs one U+FFFD for its longest prefix
that could still have become a character, and reading goes on with the byte that broke it. Bytes never
make reading fail.
-/

namespace LeastAccess.Text.Utf8

/-- A character whose first bytes were read: how many are missing, between which bounds the next one
must lie, and the bits so far. -/
structure Partial where
  missing : Nat
  low : Nat
  high : Nat
  code : Nat

/-- What the first byte of a character gives: characters that are finished, or one that is begun. -/
def first (b : Nat) : List Char × Option Partial :=
  if b < 0x80 then ([Char.ofNat b], none)
  else if 0xC2 ≤ b ∧ b ≤ 0xDF then ([], some ⟨1, 0x80, 0xBF, b - 0xC0⟩)
  else if b = 0xE0 then ([], some ⟨2, 0xA0, 0xBF, 0⟩)
  else if b = 0xED then ([], some ⟨2, 0x80, 0x9F, 0xD⟩)
  else if 0xE1 ≤ b ∧ b ≤ 0xEF then ([], some ⟨2, 0x80, 0xBF, b - 0xE0⟩)
  else if b = 0xF0 then ([], some ⟨3, 0x90, 0xBF, 0⟩)
  else if b = 0xF4 then ([], some ⟨3, 0x80, 0x8F, 4⟩)
  else if 0xF1 ≤ b ∧ b ≤ 0xF3 then ([], some ⟨3, 0x80, 0xBF, b - 0xF0⟩)
  else (['\uFFFD'], none)

/-- The characters of the bytes, after those already found (in reverse). -/
def decodeFrom : Option Partial → List Char → List UInt8 → List Char
  | none, acc, [] => acc.reverse
  | some _, acc, [] => ('\uFFFD' :: acc).reverse
  | none, acc, b :: rest =>
    let (done, begun) := first b.toNat
    decodeFrom begun (done ++ acc) rest
  | some p, acc, b :: rest =>
    if p.low ≤ b.toNat ∧ b.toNat ≤ p.high then
      let code := p.code * 64 + (b.toNat - 0x80)
      if p.missing ≤ 1 then decodeFrom none (Char.ofNat code :: acc) rest
      else decodeFrom (some ⟨p.missing - 1, 0x80, 0xBF, code⟩) acc rest
    else
      let (done, begun) := first b.toNat
      decodeFrom begun (done ++ '\uFFFD' :: acc) rest

/-- The text of some bytes. -/
def decode (bytes : List UInt8) : String := String.ofList (decodeFrom none [] bytes)

end LeastAccess.Text.Utf8
