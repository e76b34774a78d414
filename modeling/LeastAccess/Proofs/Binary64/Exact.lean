import LeastAccess.Binary64.Rounding
import LeastAccess.Proofs.Pool.Calls
import Mathlib.Algebra.Group.Nat.Defs

/-!
# Whole numbers

A value that the format holds is not changed by rounding, so a whole number that fits a significand is
itself as a binary64 value. The tests of a value say of a whole number what they say of an integer.

* `ofRatio_of_representable` — what the format holds is not rounded
* `isWhole_ofDecimal` — whole numbers up to `2^53` are exact
* `isInteger_iff_isWhole`, `IsWhole.lt_one_iff`, `IsWhole.isPositive_iff` — the tests
* `isCount_iff_not_lt_one`, `isCount_iff_isPositive` — two ways to ask for at least one
-/

namespace LeastAccess

namespace Binary64

/-! ## Rounding what is representable -/

/-- The spacing around a value that the format holds divides it. -/
theorem two_pow_spacing_dvd {units : Nat} (h : Representable units) :
    2 ^ spacing units ∣ units ∧ spacing units ≤ 2045 := by
  obtain ⟨m, k, hm, hk, rfl⟩ := h
  rw [Nat.shiftLeft_eq]
  by_cases hzero : m = 0
  · subst hzero
    rw [Nat.zero_mul]
    exact ⟨Nat.dvd_zero _, by decide⟩
  · have hunits : m * 2 ^ k ≠ 0 := Nat.mul_ne_zero hzero (Nat.ne_of_gt (Nat.two_pow_pos k))
    have hlog : (m * 2 ^ k).log2 < 53 + k := by
      rw [Nat.log2_lt hunits, Nat.pow_add]
      refine Nat.mul_lt_mul_of_pos_right ?_ (Nat.two_pow_pos k)
      rwa [significandBound, Nat.one_shiftLeft] at hm
    have hspacing : spacing (m * 2 ^ k) ≤ k := by
      unfold spacing
      omega
    exact ⟨Nat.dvd_mul_left_of_dvd (Nat.pow_dvd_pow 2 hspacing) m, Nat.le_trans hspacing hk⟩

theorem ofSignificand_of_lt (negative : Bool) {significand k units : Nat} (h : significand ≤ significandBound)
    (hlt : significand < significandBound) (hk : k ≤ 2045) (hunits : significand <<< k = units)
    (hr : Representable units) : ofSignificand negative significand k h = .finite negative units hr := by
  subst hunits
  rw [ofSignificand, dif_pos hlt, dif_pos hk]

/-- **What the format holds is not rounded.** -/
theorem ofRatio_of_representable (negative : Bool) {num den units : Nat} (hden : 0 < den)
    (heq : num * unitsPerOne = units * den) (h : Representable units) :
    ofRatio negative num den = .finite negative units h := by
  obtain ⟨hdvd, hk⟩ := two_pow_spacing_dvd h
  have hquotient : num * unitsPerOne / den = units := by rw [heq, Nat.mul_div_cancel _ hden]
  have hround : roundDiv (num * unitsPerOne) (den <<< spacing units) = units >>> spacing units := by
    rw [heq, Nat.shiftLeft_eq, Nat.mul_comm units den, Nat.shiftRight_eq_div_pow,
      roundDiv_of_dvd (Nat.mul_pos hden (Nat.two_pow_pos _)) (Nat.mul_dvd_mul_left den hdvd),
      Nat.mul_div_mul_left _ _ hden]
  unfold ofRatio
  refine ofSignificand_of_lt negative _ ?_ ?_ ?_ h
  · rw [hquotient, hround]
    exact shiftRight_spacing_lt units
  · rwa [hquotient]
  · rw [hquotient, hround, Nat.shiftRight_eq_div_pow, Nat.shiftLeft_eq, Nat.div_mul_cancel hdvd]

/-! ## Whole numbers that fit a significand -/

theorem representable_mul_unitsPerOne {n : Nat} (h : n ≤ significandBound) :
    Representable (n * unitsPerOne) := by
  have hexponent : unitExponent = 1074 := by rw [unitExponent]
  rcases Nat.lt_or_eq_of_le h with hlt | rfl
  · refine ⟨n, unitExponent, hlt, by omega, ?_⟩
    rw [unitsPerOne, Nat.one_shiftLeft, Nat.shiftLeft_eq]
  · refine ⟨1, 53 + unitExponent, by decide, by omega, ?_⟩
    rw [significandBound, unitsPerOne, Nat.one_shiftLeft, Nat.one_shiftLeft, Nat.one_shiftLeft, Nat.pow_add]

theorem decimalLength_le_of_le {n : Nat} (h : n ≤ significandBound) : decimalLength n ≤ 16 := by
  rw [decimalLength, Nat.length_toDigits_le_iff (by decide) (by decide)]
  exact Nat.lt_of_le_of_lt h (by decide)

/-- A numeral of a whole number that fits a significand is read as this number. -/
theorem ofDecimal_of_le (negative : Bool) {n : Nat} (h : n ≤ significandBound) :
    ofDecimal negative n 0 = .finite negative (n * unitsPerOne) (representable_mul_unitsPerOne h) := by
  have hlength := decimalLength_le_of_le h
  by_cases hzero : n = 0
  · subst hzero
    simp [ofDecimal]
  · unfold ofDecimal
    rw [if_neg hzero, if_neg (by omega), if_neg (by omega), if_pos (Int.le_refl 0)]
    refine ofRatio_of_representable negative Nat.one_pos ?_ _
    rw [Int.toNat_zero, Nat.pow_eq, Nat.pow_zero, Nat.mul_one, Nat.mul_one]

/-- Whole numbers up to `2^53` are exact. -/
theorem isWhole_ofDecimal {n : Nat} (h : n ≤ significandBound) : (ofDecimal false n 0).IsWhole n :=
  ⟨false, _, _, ofDecimal_of_le false h, by simp [signed]⟩

/-! ## Tests of whole numbers -/

theorem isWhole_finite_iff {negative : Bool} {units : Nat} {h : Representable units} {k : Int} :
    (finite negative units h).IsWhole k ↔ signed negative units = k * unitsPerOne := by
  constructor
  · rintro ⟨_, _, _, heq, hk⟩
    cases heq
    exact hk
  · exact fun hk => ⟨_, _, _, rfl, hk⟩

theorem isInteger_iff_isWhole {x : Binary64} : x.isInteger = true ↔ ∃ k, x.IsWhole k := by
  cases x with
  | nan => simp [isInteger, IsWhole]
  | infinity negative => simp [isInteger, IsWhole]
  | finite negative units h =>
    simp only [isInteger_iff, isWhole_finite_iff]
    constructor
    · rintro ⟨n, rfl⟩
      cases negative with
      | true => exact ⟨-n, by rw [signed, if_pos rfl, Int.natCast_mul, Int.neg_mul, Int.mul_comm]⟩
      | false => exact ⟨n, by rw [signed, if_neg Bool.false_ne_true, Int.natCast_mul, Int.mul_comm]⟩
    · rintro ⟨k, hk⟩
      have hdvd : (unitsPerOne : Int) ∣ signed negative units := hk ▸ Int.dvd_mul_left k unitsPerOne
      cases negative with
      | true => exact Int.natCast_dvd_natCast.mp ((Int.dvd_neg).mp hdvd)
      | false => exact Int.natCast_dvd_natCast.mp hdvd

variable {x : Binary64} {k : Int}

theorem IsWhole.lt_one_iff (h : x.IsWhole k) : x.lt .one = true ↔ k < 1 := by
  obtain ⟨negative, units, _, rfl, hk⟩ := h
  have hpos : (0 : Int) < unitsPerOne := Int.natCast_pos.mpr unitsPerOne_pos
  rw [one, lt, decide_eq_true_iff, hk, signed, if_neg Bool.false_ne_true]
  constructor
  · intro hlt
    exact Int.lt_of_mul_lt_mul_right (by rwa [Int.one_mul]) (Int.le_of_lt hpos)
  · intro hlt
    have hmul := Int.mul_lt_mul_of_pos_right hlt hpos
    rwa [Int.one_mul] at hmul

theorem IsWhole.isPositive_iff (h : x.IsWhole k) : x.isPositive = true ↔ 0 < k := by
  obtain ⟨negative, units, _, rfl, hk⟩ := h
  have hpos : (0 : Int) < unitsPerOne := Int.natCast_pos.mpr unitsPerOne_pos
  rw [isPositive, zero, lt, decide_eq_true_iff, hk, signed, if_neg Bool.false_ne_true]
  exact ⟨fun h => Int.pos_of_mul_pos_left h hpos, fun h => Int.mul_pos h hpos⟩

/-! ### At least one -/

/-- A whole number that is at least one. -/
def IsCount (x : Binary64) : Prop := ∃ k : Int, 1 ≤ k ∧ x.IsWhole k

theorem isCount_iff_not_lt_one : x.IsCount ↔ x.isInteger = true ∧ x.lt .one = false := by
  rw [isInteger_iff_isWhole]
  constructor
  · rintro ⟨k, hle, hk⟩
    refine ⟨⟨k, hk⟩, ?_⟩
    rw [← Bool.not_eq_true, hk.lt_one_iff]
    omega
  · rintro ⟨⟨k, hk⟩, hlt⟩
    rw [← Bool.not_eq_true, hk.lt_one_iff] at hlt
    exact ⟨k, by omega, hk⟩

theorem isCount_iff_isPositive : x.IsCount ↔ x.isInteger = true ∧ x.isPositive = true := by
  rw [isInteger_iff_isWhole]
  constructor
  · rintro ⟨k, hle, hk⟩
    exact ⟨⟨k, hk⟩, hk.isPositive_iff.mpr hle⟩
  · rintro ⟨⟨k, hk⟩, hpositive⟩
    exact ⟨k, hk.isPositive_iff.mp hpositive, hk⟩

/-! ## Values with a sign -/

theorem lt_one_finite_true {units : Nat} {h : Representable units} :
    lt (.finite true units h) .one = true := by
  have hpos := unitsPerOne_pos
  rw [one, lt, decide_eq_true_iff, signed, signed, if_pos rfl, if_neg Bool.false_ne_true]
  omega

theorem lt_one_ofSignificand_true (significand k : Nat) (h : significand ≤ significandBound) :
    (ofSignificand true significand k h).lt .one = true := by
  unfold ofSignificand
  split
  · split
    · exact lt_one_finite_true
    · rfl
  · split
    · exact lt_one_finite_true
    · rfl

theorem lt_one_ofRatio_true (num den : Nat) : (ofRatio true num den).lt .one = true := by
  unfold ofRatio
  exact lt_one_ofSignificand_true _ _ _

/-- Whatever is read with a sign is less than one. -/
theorem lt_one_ofDecimal_true (digits : Nat) (exponent : Int) :
    (ofDecimal true digits exponent).lt .one = true := by
  simp only [ofDecimal]
  split
  · exact lt_one_finite_true
  · split
    · rfl
    · split
      · exact lt_one_finite_true
      · split
        · exact lt_one_ofRatio_true _ _
        · exact lt_one_ofRatio_true _ _

end Binary64

end LeastAccess
