import LeastAccess.Binary64.Rounding

/-!
# The text of a number

A number is written with the fewest decimal digits that read back as itself, and of those the nearest
to it. The values that round to a given one form an interval around it, whose ends belong to it when
its significand is even. A decimal grid of step `10^step` meets the interval exactly when one of the
value's two neighbours on the grid lies inside, so `gridHit` looks at these two, and `shortest` takes
the coarsest grid with a hit.

`Layout` then decides between positional and exponent notation.
-/

namespace LeastAccess

/-- The number `digits * 10^exponent`. -/
structure Decimal where
  digits : Nat
  exponent : Int
  deriving DecidableEq, Repr

namespace Binary64

/-- The place of the leading digit: the value is at least `10^(p-1)` and less than `10^p`. -/
def leadingPlace (units : Nat) : Int :=
  decimalLength (units * Nat.pow 10 330 / unitsPerOne) - 330

/-- The multiple of `10^step` nearest to the value among those that read back as it, if there is one. -/
def gridHit (units : Nat) (step : Int) : Option Nat :=
  let num := Nat.pow 10 step.toNat * unitsPerOne
  let den := Nat.pow 10 (-step).toNat
  let gap := 1 <<< spacing units
  let powerOfTwo := units = gap <<< 52 ∧ 1 < gap
  let low := (4 * units - (if powerOfTwo then gap else 2 * gap)) * den
  let high := (4 * units + 2 * gap) * den
  let closed := (units / gap) % 2 = 0
  let inside (c : Nat) : Bool :=
    let x := 4 * c * num
    if closed then low ≤ x && x ≤ high else low < x && x < high
  let below := units * den / num
  let twice := 2 * units * den
  let middle := (2 * below + 1) * num
  let nearest := if twice < middle ∨ (twice = middle ∧ below % 2 = 0) then below else below + 1
  let other := if nearest = below then below + 1 else below
  if inside nearest then some nearest else if inside other then some other else none

/-- The decimal with the fewest digits that reads back as a positive value; seventeen digits suffice. -/
def shortest (units : Nat) : Decimal :=
  let place := leadingPlace units
  let hits := (List.range' 1 17).findSome? fun (n : Nat) =>
    (gridHit units (place - n)).map fun c => Decimal.mk c (place - n)
  hits.getD ⟨units, 0⟩

end Binary64

/-! ## Notation -/

/-- Positional notation is used while the decimal point stands after `lowest` and not after `highest`,
counted from the leading digit; the exponent notation is used elsewhere. -/
structure Layout where
  lowest : Int
  highest : Int

namespace Decimal

/-- A run of zeros; none when the count is not positive. -/
def zeros (n : Int) : List Char := List.replicate n.toNat '0'

/-- The digits without trailing zeros, and the place of the decimal point after the leading digit. -/
def significant (d : Decimal) : List Char × Int :=
  let all := Nat.toDigits 10 d.digits
  ((all.reverse.dropWhile (· == '0')).reverse, all.length + d.exponent)

def render (layout : Layout) (d : Decimal) : List Char :=
  let (ds, point) := d.significant
  if layout.lowest < point ∧ point ≤ layout.highest then
    if (ds.length : Int) ≤ point then ds ++ zeros (point - ds.length)
    else if 0 < point then ds.take point.toNat ++ '.' :: ds.drop point.toNat
    else '0' :: '.' :: (zeros (-point) ++ ds)
  else
    let exponent := point - 1
    let fraction := if ds.length ≤ 1 then [] else '.' :: ds.drop 1
    let sign := if exponent < 0 then '-' else '+'
    ds.take 1 ++ fraction ++ 'e' :: sign :: Nat.toDigits 10 exponent.natAbs

end Decimal

namespace Binary64

/-- Numbers in documents and messages: from `10^-6` up to `10^21` without an exponent. -/
def layout : Layout := ⟨-6, 21⟩

/-- The text of a number; a zero has no sign. -/
def text : Binary64 → String
  | .nan => "NaN"
  | .infinity negative => if negative then "-Infinity" else "Infinity"
  | .finite negative units _ =>
    if units = 0 then "0"
    else
      let digits := (shortest units).render layout
      String.ofList (if negative then '-' :: digits else digits)

end Binary64

end LeastAccess
