/-!
# Blanks around a word

`isBlank` is the set of characters that separate words in option values and level names: the Unicode
property White_Space without U+0085, and the zero width no-break space U+FEFF. `trim` removes them at
both ends. `lowerAscii` is the lower case of a letter as far as an ASCII word can show it: the ASCII
capitals, and the Kelvin sign, which is a capital `k`.

Main statements: `trimChars_blank_append` and `trimChars_append_blank`.
-/

namespace LeastAccess.Text

/-- The blanks outside the range U+2000 to U+200A. -/
def blankCodes : List Nat :=
  [0x09, 0x0A, 0x0B, 0x0C, 0x0D, 0x20, 0xA0, 0x1680, 0x2028, 0x2029, 0x202F, 0x205F, 0x3000, 0xFEFF]

def isBlank (c : Char) : Bool :=
  blankCodes.contains c.toNat || (0x2000 ≤ c.toNat && c.toNat ≤ 0x200A)

/-- The characters without the blanks at both ends. -/
def trimChars (cs : List Char) : List Char :=
  ((cs.dropWhile isBlank).reverse.dropWhile isBlank).reverse

/-- The text without the blanks at both ends. -/
def trim (s : String) : String := String.ofList (trimChars s.toList)

theorem trimChars_blank_append {bs cs : List Char} (h : ∀ b ∈ bs, isBlank b = true) :
    trimChars (bs ++ cs) = trimChars cs := by
  rw [trimChars, List.dropWhile_append_of_pos h, trimChars]

/-- A word that starts with no blank keeps its start, whatever blanks follow it. -/
theorem trimChars_append_blank {c : Char} {cs bs : List Char} (hc : isBlank c = false)
    (h : ∀ b ∈ bs, isBlank b = true) : trimChars (c :: cs ++ bs) = trimChars (c :: cs) := by
  have hr : ∀ b ∈ bs.reverse, isBlank b = true := fun b hb => h b (List.mem_reverse.1 hb)
  simp only [trimChars, List.cons_append, List.dropWhile_cons, hc, Bool.false_eq_true, if_false]
  rw [← List.cons_append, List.reverse_append, List.dropWhile_append_of_pos hr]

/-- Lower case, as far as a word of ASCII letters can come from it. -/
def lowerAscii (c : Char) : Char :=
  if c.toNat = 0x212A then 'k' else c.toLower

def lower (s : String) : String := s.map lowerAscii

end LeastAccess.Text
