import LeastAccess.Binary64.Numeral
import LeastAccess.Proofs.Binary64.Exact
import Mathlib.Data.List.TakeWhile

/-!
# Decimal numerals

A natural number may be written with further zeros in front, with a sign, and with blanks at both ends.
Reading finds the digits between the blanks, and the digits stand for the number.

* `ofDigits_padded` — what the digits stand for
* `read_between` — the blanks at the ends do not count
* `readChars_padded`, `readChars_minus_padded` — what is read, without a sign and with one
-/

namespace LeastAccess

namespace Numeral

/-- The decimal digits of a natural number, with some more zeros in front. -/
def padded (zeros n : Nat) : List Char := List.replicate zeros '0' ++ Nat.toDigits 10 n

theorem padded_ne_nil (zeros n : Nat) : padded zeros n ≠ [] := by
  simp [padded]

theorem isDigit_of_mem_padded {zeros n : Nat} {c : Char} (h : c ∈ padded zeros n) : c.isDigit = true := by
  rcases List.mem_append.mp h with h | h
  · rw [List.eq_of_mem_replicate h]
    decide
  · exact Nat.isDigit_of_mem_toDigits (by decide) (by decide) h

/-! ## What digits stand for -/

theorem digitValue_of_isDigit {c : Char} (h : c.isDigit = true) : digitValue c = c.toNat - '0'.toNat := by
  rw [digitValue, if_pos h]
  rfl

/-- On decimal digits the number is the one that the library reads. -/
theorem ofDigits_eq_ofDigitChars {cs : List Char} (h : ∀ c ∈ cs, c.isDigit = true) :
    ofDigits 10 cs = Nat.ofDigitChars 10 cs 0 := by
  have key : ∀ (cs : List Char) (n : Nat), (∀ c ∈ cs, c.isDigit = true) →
      cs.foldl (fun n c => n * 10 + digitValue c) n = Nat.ofDigitChars 10 cs n := by
    intro cs
    induction cs with
    | nil => exact fun _ _ => rfl
    | cons c cs ih =>
      intro n h
      obtain ⟨hc, hcs⟩ := List.forall_mem_cons.mp h
      rw [List.foldl_cons, ih _ hcs, Nat.ofDigitChars_cons, digitValue_of_isDigit hc, Nat.mul_comm]
  exact key cs 0 h

theorem ofDigits_padded (zeros n : Nat) : ofDigits 10 (padded zeros n) = n := by
  rw [ofDigits_eq_ofDigitChars fun _ => isDigit_of_mem_padded, padded, Nat.ofDigitChars_append,
    Nat.ofDigitChars_replicate_zero, Nat.mul_zero, Nat.ofDigitChars_ten_toDigits]

/-! ## Reading digits -/

section

variable {cs : List Char} (hne : cs ≠ []) (h : ∀ c ∈ cs, c.isDigit = true)

include hne h

theorem decimal?_of_isDigit : decimal? cs = some (ofDigits 10 cs, 0) := by
  have hwhole : cs.takeWhile Char.isDigit = cs := List.takeWhile_eq_self_iff.mpr h
  have hrest : cs.dropWhile Char.isDigit = [] := List.dropWhile_eq_nil_iff.mpr h
  simp [decimal?, hwhole, hrest, hne, exponent?]

theorem unsigned_of_isDigit (negative : Bool) :
    unsigned negative cs = .ofDecimal negative (ofDigits 10 cs) 0 := by
  have hword : cs ≠ "Infinity".toList := by
    rintro rfl
    exact absurd (h 'I' (by decide)) (by decide)
  rw [unsigned, if_neg hword, decimal?_of_isDigit hne h]

/-- Digits have no sign, and none of them names a base. -/
theorem readChars_of_isDigit : readChars cs = .ofDecimal false (ofDigits 10 cs) 0 := by
  rw [← unsigned_of_isDigit hne h]
  unfold readChars
  split
  · exact absurd rfl hne
  -- a base is named in the second place
  iterate 6 exact absurd (h _ (List.mem_cons_of_mem _ List.mem_cons_self)) (by decide)
  -- a sign stands in the first place
  · exact absurd (h '-' List.mem_cons_self) (by decide)
  · exact absurd (h '+' List.mem_cons_self) (by decide)
  · rfl

theorem readChars_minus_of_isDigit : readChars ('-' :: cs) = .ofDecimal true (ofDigits 10 cs) 0 :=
  unsigned_of_isDigit hne h true

end

/-- What is read from a numeral without a sign. -/
theorem readChars_padded (zeros n : Nat) : readChars (padded zeros n) = .ofDecimal false n 0 := by
  rw [readChars_of_isDigit (padded_ne_nil zeros n) fun _ => isDigit_of_mem_padded, ofDigits_padded]

/-- What is read from a numeral with a sign. -/
theorem readChars_minus_padded (zeros n : Nat) :
    readChars ('-' :: padded zeros n) = .ofDecimal true n 0 := by
  rw [readChars_minus_of_isDigit (padded_ne_nil zeros n) fun _ => isDigit_of_mem_padded, ofDigits_padded]

end Numeral

/-! ## Blanks at the ends -/

namespace Text

theorem isBlank_of_isDigit {c : Char} (h : c.isDigit = true) : isBlank c = false := by
  simp only [Char.isDigit, Bool.and_eq_true, decide_eq_true_eq, ge_iff_le, UInt32.le_iff_toNat_le] at h
  have hlow : 48 ≤ c.toNat := h.1
  have hhigh : c.toNat ≤ 57 := h.2
  simp only [isBlank, blankCodes, List.contains_eq_mem, List.mem_cons, List.not_mem_nil, or_false,
    Bool.or_eq_false_iff, decide_eq_false_iff_not, Bool.and_eq_false_iff]
  omega

/-- What stands between blanks and has none itself is left. -/
theorem trimChars_between {before cs after : List Char} (hbefore : ∀ b ∈ before, isBlank b = true)
    (hafter : ∀ b ∈ after, isBlank b = true) (hcs : ∀ c ∈ cs, isBlank c = false) :
    trimChars (before ++ cs ++ after) = cs := by
  rw [List.append_assoc, trimChars_blank_append hbefore]
  cases cs with
  | nil => simp [trimChars, List.dropWhile_eq_nil_iff.mpr hafter]
  | cons c cs =>
    have hself (l : List Char) (hl : ∀ c ∈ l, isBlank c = false) : l.dropWhile isBlank = l :=
      List.dropWhile_eq_self_iff.mpr fun hlength => by simp [hl _ (List.getElem_mem hlength)]
    rw [trimChars_append_blank (hcs c List.mem_cons_self) hafter, trimChars, hself _ hcs,
      hself _ fun c hc => hcs c (List.mem_reverse.mp hc), List.reverse_reverse]

end Text

namespace Numeral

theorem read_between {before cs after : List Char} (hbefore : ∀ b ∈ before, Text.isBlank b = true)
    (hafter : ∀ b ∈ after, Text.isBlank b = true) (hcs : ∀ c ∈ cs, Text.isBlank c = false) :
    read (String.ofList (before ++ cs ++ after)) = readChars cs := by
  rw [read, String.toList_ofList, Text.trimChars_between hbefore hafter hcs]

end Numeral

end LeastAccess
