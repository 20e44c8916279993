import Bindery.Decimal.Basic

/-!
# Shortest decimal text

The text of a finite decimal has the fewest significant digits that read back as that decimal, and
of those the nearest to it; of two that are equally near, the larger. It is written without an
exponent.

* `Scientific` is a whole number times a power of ten.
* `shortest` looks for one to seventeen digits on the grid of that many digits; the two neighbours
  of the decimal on a grid are the only candidates.
-/

namespace Bindery.Decimal

/-- The number `digits * 10 ^ exponent`. -/
structure Scientific where
  digits : Nat
  exponent : Int
deriving DecidableEq, Repr

namespace Scientific

/-- The same number without zeros at the end of its digits. -/
def dropZeros (digits : Nat) (exponent : Int) : Scientific :=
  if h : digits ≠ 0 ∧ digits % 10 = 0 then dropZeros (digits / 10) (exponent + 1)
  else ⟨digits, exponent⟩
termination_by digits
decreasing_by omega

/-- The number without an exponent. -/
def positional (s : Scientific) : String :=
  let digits := Nat.toDigits 10 s.digits
  if 0 ≤ s.exponent then
    String.ofList (digits ++ List.replicate s.exponent.toNat '0')
  else
    let places := (-s.exponent).toNat
    let padded := List.replicate (places + 1 - digits.length) '0' ++ digits
    String.ofList
      (padded.take (padded.length - places) ++ '.' :: padded.drop (padded.length - places))

end Scientific

/-- Number of digits before the point of `num / den`; zero or less for a number below one. -/
def leadingPlace (num den : Nat) : Int :=
  let place : Int := ((Nat.toDigits 10 num).length : Int) - (Nat.toDigits 10 den).length
  if den * Nat.pow 10 place.toNat ≤ num * Nat.pow 10 (-place).toNat then place + 1 else place

/-- The neighbour of `num / den` on the grid of multiples of `10 ^ exponent` that rounds to
`magnitude`. -/
def gridPoint? (magnitude num den : Nat) (exponent : Int) : Option Nat :=
  let num := num * Nat.pow 10 (-exponent).toNat
  let den := den * Nat.pow 10 exponent.toNat
  let below := num / den
  let readsBack (digits : Nat) : Bool := roundScientific digits exponent == magnitude
  match readsBack below, readsBack (below + 1) with
  | true, true => some (if 2 * num < (2 * below + 1) * den then below else below + 1)
  | true, false => some below
  | false, true => some (below + 1)
  | false, false => none

/-- The exact expansion of a number of units of `2 ^ -1074`. -/
def expansion (unitCount : Nat) : Scientific := .dropZeros (unitCount * Nat.pow 5 1074) (-1074)

/-- The shortest digits that round to the magnitude of a finite decimal. -/
def shortest (d : Decimal) : Scientific :=
  if d.isZero then ⟨0, 0⟩
  else
    let place := leadingPlace d.unitCount unitsPerOne
    let grids := (List.range 17).map fun index : Nat => place - 1 - index
    let found := grids.findSome? fun exponent =>
      (gridPoint? d.magnitude d.unitCount unitsPerOne exponent).map
        fun digits => Scientific.dropZeros digits exponent
    found.getD (expansion d.unitCount)

def text (d : Decimal) : String :=
  if d.isNaN then "NaN"
  else
    let size := if d.isFinite then d.shortest.positional else "inf"
    if d.isNegative then "-" ++ size else size

end Bindery.Decimal
