import Bindery.Json.Basic

/-!
# Writing JSON

Values are written without blanks. In strings the quote, the backslash and the control characters
are escaped, and all else stands for itself; a string that is no text is written empty.

A number that is not plain is written with a point or with an exponent, so that it is read as a
decimal: with a point where at most `maxPlaces` digits stand before it and at most four zeros right
behind it, and otherwise with one digit before the point and an exponent.
-/

namespace Bindery.Json

def hexChar (digit : Nat) : Char := (Nat.toDigits 16 digit).head?.getD '0'

def stringChar (c : Char) : List Char :=
  match c with
  | '"' => ['\\', '"']
  | '\\' => ['\\', '\\']
  | '\x08' => ['\\', 'b']
  | '\x0c' => ['\\', 'f']
  | '\n' => ['\\', 'n']
  | '\r' => ['\\', 'r']
  | '\t' => ['\\', 't']
  | c =>
    if c.toNat < 0x20 then ['\\', 'u', '0', '0', hexChar (c.toNat / 16), hexChar (c.toNat % 16)]
    else [c]

def textChars (text : Text) : List Char :=
  '"' :: (text.getD "").toList.flatMap stringChar ++ ['"']

namespace Number

/-- The digits of an integer with its sign. -/
def intChars (n : Int) : List Char :=
  if n < 0 then '-' :: Nat.toDigits 10 n.natAbs else Nat.toDigits 10 n.natAbs

/-- The digits before and after the point of a number, and its exponent. -/
structure Layout where
  whole : List Char
  fraction : List Char
  exponent : Option Int

def fractionChars (fraction : List Char) : List Char :=
  if fraction.isEmpty then [] else '.' :: fraction

def exponentChars : Option Int → List Char
  | none => []
  | some exponent => 'e' :: intChars exponent

def Layout.chars (l : Layout) : List Char :=
  l.whole ++ fractionChars l.fraction ++ exponentChars l.exponent

/-- Greatest number of digits before a point. -/
def maxPlaces : Int := 16

def layout (n : Number) : Layout :=
  let digits := Nat.toDigits 10 n.digits
  -- number of digits before the point, when there is no exponent
  let place : Int := digits.length + n.exponent
  if n.plain then ⟨digits, [], none⟩
  else if n.digits = 0 then ⟨['0'], ['0'], none⟩
  else if 0 ≤ n.exponent ∧ place ≤ maxPlaces then
    ⟨digits ++ List.replicate n.exponent.toNat '0', ['0'], none⟩
  else if 0 < place ∧ place ≤ maxPlaces then
    ⟨digits.take place.toNat, digits.drop place.toNat, none⟩
  else if -5 < place ∧ place ≤ 0 then
    ⟨['0'], List.replicate (-place).toNat '0' ++ digits, none⟩
  else ⟨digits.take 1, digits.drop 1, some (place - 1)⟩

def chars (n : Number) : List Char :=
  if n.negative then '-' :: n.layout.chars else n.layout.chars

end Number

mutual

def chars : Json → List Char
  | null => ['n', 'u', 'l', 'l']
  | bool true => ['t', 'r', 'u', 'e']
  | bool false => ['f', 'a', 'l', 's', 'e']
  | number n => n.chars
  | string text => textChars text
  | array [] => ['[', ']']
  | array (item :: rest) => '[' :: chars item ++ itemChars rest
  | object [] => ['{', '}']
  | object ((name, value) :: rest) =>
    '{' :: textChars name ++ ':' :: chars value ++ memberChars rest

/-- The items after the first one, and the closing bracket. -/
def itemChars : List Json → List Char
  | [] => [']']
  | item :: rest => ',' :: chars item ++ itemChars rest

/-- The members after the first one, and the closing brace. -/
def memberChars : List (Text × Json) → List Char
  | [] => ['}']
  | (name, value) :: rest => ',' :: textChars name ++ ':' :: chars value ++ memberChars rest

end

def render (value : Json) : String := String.ofList value.chars

end Bindery.Json
