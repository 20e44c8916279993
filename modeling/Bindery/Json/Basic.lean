import Bindery.Decimal.Reader
import Bindery.Decimal.Shortest

/-!
# JSON values

Values as they are written: the members of an object keep their order and may repeat a name, a
number keeps its leading digits, and a string may turn out to be no text.

* `Number` is `digits * 10 ^ exponent`, where `digits` fits 64 bits; one that is written as digits
  alone, none of them left out, is *plain*.
* `Number.toDecimal` rounds twice: the digits to a decimal, and that decimal times or over a power
  of ten. It may miss the nearest decimal by a little, and a number just below the greatest decimal
  may turn out infinite.
* `Text` is absent for a string that holds half of a surrogate pair.
* `isSound` says that every string is a text and every number has a finite decimal.
-/

namespace Bindery

namespace Json

structure Number where
  negative : Bool
  digits : Nat
  exponent : Int
  plain : Bool
deriving DecidableEq, Repr

namespace Number

def ofInt (n : Int) : Number := ⟨n < 0, n.natAbs, 0, true⟩

/-- Greatest number of which all digits are kept. -/
def maxDigits : Nat := 0xffffffffffffffff

/-- Append digits to a number while it stays within bounds: the number, and how many digits were
left out. -/
def appendDigits (n : Nat) : List Char → Nat × Nat
  | [] => (n, 0)
  | c :: rest =>
    let next := 10 * n + (c.toNat - '0'.toNat)
    if next ≤ maxDigits then appendDigits next rest else (n, rest.length + 1)

/-- The number with the digits `whole` before the point and `fraction` after it, times
`10 ^ exponent`. After the first digit that does not fit, the others on its side of the point are
left out as well. -/
def ofDigits (negative : Bool) (whole fraction : List Char) (exponent : Option Int) : Number :=
  let (kept, left) := appendDigits 0 whole
  let (digits, behind) := appendDigits kept fraction
  { negative, digits
    exponent := exponent.getD 0 + left - (fraction.length - behind : Nat)
    plain := left = 0 && fraction.isEmpty && exponent.isNone }

/-- The integer that a plain number writes; a zero with a sign is none. -/
def toInt? (n : Number) : Option Int :=
  if !n.plain || (n.negative && n.digits == 0) then none
  else some (if n.negative then -n.digits else n.digits)

/-- The digits as a decimal, scaled by the exponent. -/
def toDecimal (n : Number) : Decimal :=
  let magnitude := (Decimal.ofInt n.digits).scaleTen n.exponent
  if n.negative then magnitude.neg else magnitude

/-- A finite decimal in its shortest digits. -/
def ofDecimal (d : Decimal) : Number :=
  ⟨d.isNegative, d.shortest.digits, d.shortest.exponent, false⟩

end Number

abbrev Text := Option String

end Json

inductive Json where
  | null
  | bool (value : Bool)
  | number (value : Json.Number)
  | string (value : Json.Text)
  | array (items : List Json)
  | object (members : List (Json.Text × Json))

instance : Inhabited Json := ⟨.null⟩

namespace Json

/-! ### Making values -/

def str (text : String) : Json := .string (some text)

def int (n : Int) : Json := .number (.ofInt n)

def nat (n : Nat) : Json := int n

def strs (texts : List String) : Json := .array (texts.map str)

def nats (numbers : List Nat) : Json := .array (numbers.map nat)

def obj (members : List (String × Json)) : Json :=
  .object (members.map fun member => (some member.1, member.2))

/-- What `encode` makes of a value, or `null`. -/
def option {α : Type} (encode : α → Json) : Option α → Json
  | none => .null
  | some value => encode value

/-! ### Soundness and depth -/

mutual

def isSound : Json → Bool
  | null | bool _ => true
  | number n => n.toDecimal.isFinite
  | string text => text.isSome
  | array items => areSound items
  | object members => membersAreSound members

def areSound : List Json → Bool
  | [] => true
  | item :: rest => isSound item && areSound rest

def membersAreSound : List (Text × Json) → Bool
  | [] => true
  | (name, value) :: rest => name.isSome && isSound value && membersAreSound rest

end

mutual

/-- Number of arrays and objects that lie inside each other. -/
def depth : Json → Nat
  | array items => 1 + listDepth items
  | object members => 1 + membersDepth members
  | _ => 0

def listDepth : List Json → Nat
  | [] => 0
  | item :: rest => max (depth item) (listDepth rest)

def membersDepth : List (Text × Json) → Nat
  | [] => 0
  | (_, value) :: rest => max (depth value) (membersDepth rest)

end

/-! ### Reading values -/

def string? : Json → Option String
  | string text => text
  | _ => none

def bool? : Json → Option Bool
  | bool value => some value
  | _ => none

def int? : Json → Option Int
  | number n => n.toInt?
  | _ => none

def array? : Json → Option (List Json)
  | array items => some items
  | _ => none

/-- What `read` makes of a value that is not `null`; `null` is nothing. -/
def orNull? {α : Type} (read : Json → Option α) : Json → Option (Option α)
  | null => some none
  | value => (read value).map some

def valuesOf (members : List (Text × Json)) (name : String) : List Json :=
  (members.filter fun member => member.1 == some name).map (·.2)

end Json
end Bindery
