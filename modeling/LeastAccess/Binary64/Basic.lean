/-!
# Binary64 numbers

The numbers of a document are IEEE binary64 values. A finite value is a whole number of units of
`2^-1074`, the smallest positive one, so order, integrality and rounding are questions about natural
numbers. `Representable` says which multiples the format holds: at most 53 significant bits, and an
exponent that does not overflow. All NaNs are one value; zero keeps its sign.

Main statement: `isInteger_iff` (integrality in units).
-/

namespace LeastAccess

namespace Binary64

/-- Significands have 53 bits. -/
def significandBound : Nat := 1 <<< 53

/-- A multiple of `2^-1074` that the format holds exactly. -/
def Representable (units : Nat) : Prop :=
  ∃ m k, m < significandBound ∧ k ≤ 2045 ∧ units = m <<< k

/-- One is `2^1074` units. -/
@[irreducible] def unitExponent : Nat := 1074

/-- The number of units in one. -/
def unitsPerOne : Nat := 1 <<< unitExponent

theorem unitsPerOne_pos : 0 < unitsPerOne := by
  rw [unitsPerOne, Nat.one_shiftLeft]
  exact Nat.two_pow_pos unitExponent

theorem representable_zero : Representable 0 := ⟨0, 0, by decide, by decide, rfl⟩

theorem representable_unitsPerOne : Representable unitsPerOne :=
  ⟨1, unitExponent, by decide, by rw [unitExponent]; decide, rfl⟩

end Binary64

/-- A binary64 value. -/
inductive Binary64 where
  | nan
  | infinity (negative : Bool)
  | finite (negative : Bool) (units : Nat) (representable : Binary64.Representable units)
  deriving DecidableEq

namespace Binary64

def zero : Binary64 := .finite false 0 representable_zero

def one : Binary64 := .finite false unitsPerOne representable_unitsPerOne

instance : Inhabited Binary64 := ⟨zero⟩

/-! ## Integrality and order -/

/-- Whether the value is a (finite) whole number. -/
def isInteger : Binary64 → Bool
  | .finite _ units _ => units % unitsPerOne == 0
  | _ => false

/-- The signed number of units of a finite value. -/
def signed (negative : Bool) (units : Nat) : Int := if negative then -units else units

/-- The numeric order; nothing is below or above NaN, and the two zeros are equal. -/
def lt : Binary64 → Binary64 → Bool
  | .finite n u _, .finite m v _ => signed n u < signed m v
  | .finite .., .infinity negative => !negative
  | .infinity negative, .finite .. => negative
  | .infinity n, .infinity m => n && !m
  | _, _ => false

/-- Greater than zero. -/
def isPositive (x : Binary64) : Bool := lt zero x

/-- Less than zero; the negative zero is not. -/
def isNegative (x : Binary64) : Bool := lt x zero

/-- The whole part of a value that is at least zero; zero for the rest. -/
def floorNat : Binary64 → Nat
  | .finite false units _ => units / unitsPerOne
  | _ => 0

theorem isInteger_iff {negative : Bool} {units : Nat} {h : Representable units} :
    isInteger (.finite negative units h) = true ↔ unitsPerOne ∣ units := by
  simp [isInteger, Nat.dvd_iff_mod_eq_zero]

end Binary64

end LeastAccess
