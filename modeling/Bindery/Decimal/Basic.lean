/-!
# Decimals

A decimal is an IEEE 754 double, held by its 64 bits so that equality is equality of bits: a NaN
equals itself, and the two zeros differ.

* **Parts.** A finite decimal is plus or minus `significand * 2 ^ scale`.
* **Units.** Every finite decimal is a whole number of units of `2 ^ -1074`, the least positive one.
  The formula puts the infinities beyond every finite decimal, so units also give the order.
* **Rounding.** `roundRatio` takes a ratio to the nearest decimal, a tie to the even neighbour. All
  arithmetic computes the exact result and rounds it once.
-/

namespace Bindery

structure Decimal where
  bits : UInt64
deriving DecidableEq, Repr

namespace Decimal

def signBit : Nat := 0x8000000000000000

/-- The bit after the 52 bits of a fraction. -/
def leadingBit : Nat := 0x0010000000000000

/-- Bits of the infinities without the sign. -/
def infinityMagnitude : Nat := 0x7ff0000000000000

variable (d : Decimal)

def isNegative : Bool := signBit ≤ d.bits.toNat

def magnitude : Nat := d.bits.toNat % signBit

def isNaN : Bool := infinityMagnitude < d.magnitude

def isFinite : Bool := d.magnitude < infinityMagnitude

def isZero : Bool := d.magnitude == 0

def ofMagnitude (negative : Bool) (magnitude : Nat) : Decimal :=
  ⟨UInt64.ofNat (if negative then magnitude + signBit else magnitude)⟩

def infinity (negative : Bool) : Decimal := ofMagnitude negative infinityMagnitude

def zero (negative : Bool) : Decimal := ofMagnitude negative 0

/-- The NaN that is read from text. -/
def nan (negative : Bool) : Decimal := ofMagnitude negative 0x7ff8000000000000

/-! ### Parts and units -/

def exponentField : Nat := d.magnitude / leadingBit

def significand : Nat :=
  if d.exponentField = 0 then d.magnitude else leadingBit + d.magnitude % leadingBit

def scale : Int := (max d.exponentField 1 : Nat) - 1075

/-- The size of the decimal in units of `2 ^ -1074`. -/
def unitCount : Nat := d.significand <<< (d.exponentField - 1)

/-- The decimal in units of `2 ^ -1074`. -/
def units : Int := if d.isNegative then -d.unitCount else d.unitCount

def unitsPerOne : Nat := 1 <<< 1074

/-! ### Rounding -/

/-- The bits of `(num / den) * 2 ^ scale` rounded to a whole significand. -/
def roundAt (scale : Int) (num den : Nat) : Nat :=
  let floor := num / den
  let rest := 2 * (num % den)
  let significand := if den < rest ∨ (rest = den ∧ floor % 2 = 1) then floor + 1 else floor
  min ((scale + 1074).toNat * leadingBit + significand) infinityMagnitude

/-- The magnitude of the decimal nearest to `num / den`. -/
def roundRatio (num den : Nat) : Nat :=
  if num = 0 then 0
  else
    let scale : Int := max ((num.log2 : Int) - den.log2 - 53) (-1074)
    let num := num <<< (-scale).toNat
    let den := den <<< scale.toNat
    if num / den < 2 * leadingBit then roundAt scale num den else roundAt (scale + 1) num (2 * den)

/-- The decimal nearest to plus or minus `num / den`. -/
def ofRatio (negative : Bool) (num den : Nat) : Decimal := ofMagnitude negative (roundRatio num den)

/-- The decimal nearest to an integer. -/
def ofInt (n : Int) : Decimal := ofRatio (n < 0) n.natAbs 1

/-- The magnitude of the decimal nearest to `digits * 10 ^ exponent`. -/
def roundScientific (digits : Nat) (exponent : Int) : Nat :=
  roundRatio (digits * Nat.pow 10 exponent.toNat) (Nat.pow 10 (-exponent).toNat)

/-! ### Arithmetic -/

/-- What an operation without a result yields. -/
def indefinite : Decimal := ⟨0xfff8000000000000⟩

/-- A NaN that raises no signal. -/
def quiet : Decimal := ⟨d.bits ||| 0x0008000000000000⟩

/-- Run `operation` on two decimals that are no NaN; a NaN passes through, the first one first. -/
def lift (operation : Decimal → Decimal → Decimal) (a b : Decimal) : Decimal :=
  if a.isNaN then a.quiet else if b.isNaN then b.quiet else operation a b

def neg : Decimal := ⟨d.bits ^^^ 0x8000000000000000⟩

/-- The decimal nearest to `units`; `negative` gives the sign of a zero. -/
def ofUnits (negative : Bool) (units : Int) : Decimal :=
  if units = 0 then zero negative else ofRatio (units < 0) units.natAbs unitsPerOne

def add : Decimal → Decimal → Decimal := lift fun a b =>
  if a.isFinite then
    if b.isFinite then ofUnits (a.isNegative && b.isNegative) (a.units + b.units) else b
  else if b.isFinite || a.isNegative == b.isNegative then a else indefinite

/-- A NaN on the right keeps its sign. -/
def sub (a b : Decimal) : Decimal := if b.isNaN then add a b else add a b.neg

def mul : Decimal → Decimal → Decimal := lift fun a b =>
  let negative := a.isNegative != b.isNegative
  if a.isFinite && b.isFinite then
    ofRatio negative (a.unitCount * b.unitCount) (unitsPerOne * unitsPerOne)
  else if a.isZero || b.isZero then indefinite else infinity negative

def div : Decimal → Decimal → Decimal := lift fun a b =>
  let negative := a.isNegative != b.isNegative
  if a.isFinite then
    if !b.isFinite then zero negative
    else if !b.isZero then ofRatio negative a.unitCount b.unitCount
    else if a.isZero then indefinite else infinity negative
  else if b.isFinite then infinity negative else indefinite

/-- The remainder of a division that truncates; it has the sign of the dividend. -/
def mod : Decimal → Decimal → Decimal := lift fun a b =>
  if !a.isFinite || b.isZero then indefinite
  else if !b.isFinite then a
  else ofUnits a.isNegative (a.units.tmod b.units)

/-! ### Order -/

def lt (a b : Decimal) : Bool := !a.isNaN && !b.isNaN && a.units < b.units

def le (a b : Decimal) : Bool := !a.isNaN && !b.isNaN && a.units ≤ b.units

/-- The whole part of a finite decimal. -/
def truncate : Int := d.units.tdiv unitsPerOne

end Decimal
end Bindery
