import LeastAccess.Binary64.Basic

/-!
# Rounding an exact ratio to binary64

`ofRatio` gives the binary64 value nearest to `num / den`, ties to the even significand. In units the
ratio is `num * unitsPerOne / den`; its integer part fixes the spacing `2^k` of the values around it,
and one rounded division by that spacing gives the significand. A significand that rounds up to `2^53`
is the next power of two; one beyond the largest exponent is infinite.

`ofDecimal` reads `digits * 10^exponent`; exponents far outside the range are settled by the number of
digits, so that no power of ten is larger than the format needs.
-/

namespace LeastAccess

/-- `num / den` rounded to the nearest natural number, ties to even. -/
def roundDiv (num den : Nat) : Nat :=
  let q := num / den
  let twice := 2 * (num % den)
  if twice < den then q
  else if den < twice then q + 1
  else if q % 2 = 0 then q else q + 1

theorem roundDiv_le_succ (num den : Nat) : roundDiv num den ≤ num / den + 1 := by
  simp only [roundDiv]
  split
  · omega
  · split
    · omega
    · split <;> omega

theorem roundDiv_of_dvd {num den : Nat} (hden : 0 < den) (h : den ∣ num) :
    roundDiv num den = num / den := by
  simp [roundDiv, Nat.mod_eq_zero_of_dvd h, hden]

namespace Binary64

/-- The exponent of the spacing of the values around `units` units. -/
def spacing (units : Nat) : Nat := units.log2 - 52

/-- Counted in the spacing of the values around them, units fit a significand. -/
theorem shiftRight_spacing_lt (units : Nat) : units >>> spacing units < significandBound := by
  rw [significandBound, Nat.one_shiftLeft, Nat.shiftRight_eq_div_pow,
    Nat.div_lt_iff_lt_mul (Nat.two_pow_pos _), ← Nat.pow_add]
  refine Nat.lt_of_lt_of_le Nat.lt_log2_self (Nat.pow_le_pow_right (by decide) ?_)
  unfold spacing
  omega

/-- `significand * 2^k` units; infinite when the exponent does not fit. -/
def ofSignificand (negative : Bool) (significand k : Nat) (h : significand ≤ significandBound) :
    Binary64 :=
  if hm : significand < significandBound then
    if hk : k ≤ 2045 then
      .finite negative (significand <<< k) ⟨significand, k, hm, hk, rfl⟩
    else .infinity negative
  else if hk : k + 1 ≤ 2045 then
    .finite negative (significand <<< k)
      ⟨1 <<< 52, k + 1, by decide, hk, by
        rw [Nat.le_antisymm h (Nat.le_of_not_lt hm), significandBound, ← Nat.shiftLeft_add,
          ← Nat.shiftLeft_add]
        congr 1
        omega⟩
  else .infinity negative

/-- The value nearest to `num / den`, ties to the even significand. -/
def ofRatio (negative : Bool) (num den : Nat) : Binary64 :=
  let scaled := num * unitsPerOne
  let k := spacing (scaled / den)
  ofSignificand negative (roundDiv scaled (den <<< k)) k (by
    refine Nat.le_trans (roundDiv_le_succ _ _) ?_
    rw [Nat.shiftLeft_eq, ← Nat.div_div_eq_div_mul, ← Nat.shiftRight_eq_div_pow]
    exact shiftRight_spacing_lt (scaled / den))

/-- A natural number, rounded. -/
def ofNat (n : Nat) : Binary64 := ofRatio false n 1

/-- The number of decimal digits of `n`; one for zero. -/
def decimalLength (n : Nat) : Nat := (Nat.toDigits 10 n).length

/-- The value nearest to `digits * 10^exponent`. -/
def ofDecimal (negative : Bool) (digits : Nat) (exponent : Int) : Binary64 :=
  let magnitude : Int := decimalLength digits + exponent
  if digits = 0 then .finite negative 0 representable_zero
  else if 310 < magnitude then .infinity negative
  else if magnitude < -330 then .finite negative 0 representable_zero
  else if 0 ≤ exponent then ofRatio negative (digits * Nat.pow 10 exponent.toNat) 1
  else ofRatio negative digits (Nat.pow 10 (-exponent).toNat)

end Binary64

end LeastAccess
