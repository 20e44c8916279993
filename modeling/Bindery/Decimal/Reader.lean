import Bindery.Decimal.Basic

/-!
# Numbers in text

* An integer is an optional sign and one or more digits, within 64 bits.
* A decimal is an optional sign and then `inf`, `infinity` or `nan` in any case, or digits with an
  optional point among or around them and an optional exponent. It is read as the nearest decimal; a
  number too large is infinite.
-/

namespace Bindery

/-- Least and greatest integers of 64 bits. -/
def minInt : Int := -0x8000000000000000

@[inherit_doc minInt]
def maxInt : Int := 0x7fffffffffffffff

def fitsInt (n : Int) : Bool := minInt ≤ n && n ≤ maxInt

namespace Text

/-- The number that a string of digits writes. -/
def digitsValue (digits : List Char) : Nat :=
  digits.foldl (fun value c => 10 * value + (c.toNat - '0'.toNat)) 0

/-- The sign of a number's text, and the rest. -/
def takeSign : List Char → Bool × List Char
  | '-' :: rest => (true, rest)
  | '+' :: rest => (false, rest)
  | rest => (false, rest)

/-- The longest run of digits at the start, and the rest. -/
def takeDigits (text : List Char) : List Char × List Char := text.span Char.isDigit

def readInt? (text : List Char) : Option Int :=
  let (negative, digits) := takeSign text
  if digits.isEmpty || !digits.all Char.isDigit then none
  else
    let value : Int := digitsValue digits
    let value := if negative then -value else value
    if fitsInt value then some value else none

end Text

namespace Decimal

/-- The decimal nearest to `digits * 10 ^ exponent`, which may be infinite. Exponents that are far
out of range are cut short before the powers are formed. -/
def ofScientific (negative : Bool) (digits : Nat) (exponent : Int) : Decimal :=
  let place : Int := exponent + (Nat.toDigits 10 digits).length
  if digits = 0 || place < -400 then zero negative
  else if 400 < place then infinity negative
  else ofMagnitude negative (roundScientific digits exponent)

/-- Greatest power of ten that is a finite decimal. -/
def maxPowerOfTen : Nat := 308

def powerOfTen (n : Nat) : Decimal := ofScientific false 1 n

/-- A decimal from 64 bits times `10 ^ exponent`, by multiplication with a power of ten or by
division. Where one division does not suffice the decimal is divided by the greatest power first;
two of these leave nothing. -/
def scaleTen (d : Decimal) (exponent : Int) : Decimal :=
  if d.isZero || exponent < -2 * maxPowerOfTen then zero false
  else if maxPowerOfTen < exponent then infinity false
  else if 0 ≤ exponent then d.mul (powerOfTen exponent.toNat)
  else if -maxPowerOfTen ≤ exponent then d.div (powerOfTen (-exponent).toNat)
  else (d.div (powerOfTen maxPowerOfTen)).div (powerOfTen (-exponent - maxPowerOfTen).toNat)

/-- The exponent part of a number, `e` and an integer, or nothing. -/
def readExponent? : List Char → Option Int
  | [] => some 0
  | e :: rest =>
    if e.toLower ≠ 'e' then none
    else
      let (negative, digits) := Text.takeSign rest
      if digits.isEmpty || !digits.all Char.isDigit then none
      else
        let value : Int := Text.digitsValue digits
        some (if negative then -value else value)

/-- A decimal that is written in digits, without its sign. -/
def readDigits? (negative : Bool) (text : List Char) : Option Decimal :=
  let (whole, rest) := Text.takeDigits text
  let (fraction, rest) := match rest with
    | '.' :: rest => Text.takeDigits rest
    | rest => ([], rest)
  if whole.isEmpty && fraction.isEmpty then none
  else
    (readExponent? rest).map fun exponent =>
      ofScientific negative (Text.digitsValue (whole ++ fraction)) (exponent - fraction.length)

def read? (text : List Char) : Option Decimal :=
  let (negative, rest) := Text.takeSign text
  match String.ofList (rest.map Char.toLower) with
  | "inf" | "infinity" => some (infinity negative)
  | "nan" => some (nan negative)
  | _ => readDigits? negative rest

end Decimal
end Bindery
