import Bindery.Json.Basic

/-!
# Reading JSON

A strict reader: no trailing commas, no leading zeros or plus signs, digits on both sides of a
point, no control characters in strings, and only blanks (space, tab, line feed, carriage return)
around values. Each function takes the text from its position on and returns the text that is left.
-/

namespace Bindery.Json

def isJsonBlank (c : Char) : Bool := c == ' ' || c == '\n' || c == '\t' || c == '\r'

def skipBlanks (text : List Char) : List Char := text.dropWhile isJsonBlank

/-! ### Strings -/

/-- A piece of a string: a character, or the code of an escape in hexadecimal digits. -/
inductive Piece where
  | char (c : Char)
  | code (unit : Nat)

def hexDigit? (c : Char) : Option Nat :=
  if c.isDigit then some (c.toNat - '0'.toNat)
  else if 'a' ≤ c ∧ c ≤ 'f' then some (c.toNat - 'a'.toNat + 10)
  else if 'A' ≤ c ∧ c ≤ 'F' then some (c.toNat - 'A'.toNat + 10)
  else none

def hexCode? (a b c d : Char) : Option Nat := do
  let a ← hexDigit? a
  let b ← hexDigit? b
  let c ← hexDigit? c
  let d ← hexDigit? d
  return ((a * 16 + b) * 16 + c) * 16 + d

def shortEscape? : Char → Option Char
  | '"' => some '"'
  | '\\' => some '\\'
  | '/' => some '/'
  | 'b' => some '\x08'
  | 'f' => some '\x0c'
  | 'n' => some '\n'
  | 'r' => some '\r'
  | 't' => some '\t'
  | _ => none

/-- The pieces of a string up to its closing quote. -/
def pieces : List Char → Option (List Piece × List Char)
  | [] => none
  | '"' :: rest => some ([], rest)
  | '\\' :: 'u' :: a :: b :: c :: d :: rest => do
    let unit ← hexCode? a b c d
    let (tail, rest) ← pieces rest
    return (.code unit :: tail, rest)
  | '\\' :: e :: rest => do
    let c ← shortEscape? e
    let (tail, rest) ← pieces rest
    return (.char c :: tail, rest)
  | c :: rest =>
    if c.toNat < 0x20 || c == '\\' then none
    else do
      let (tail, rest) ← pieces rest
      return (.char c :: tail, rest)

def isHighSurrogate (unit : Nat) : Bool := 0xd800 ≤ unit && unit < 0xdc00

def isLowSurrogate (unit : Nat) : Bool := 0xdc00 ≤ unit && unit < 0xe000

/-- The characters of a string; nothing when a surrogate stands alone. -/
def joinPieces : List Piece → Option (List Char)
  | [] => some []
  | .char c :: rest => (joinPieces rest).map (c :: ·)
  | .code high :: .code low :: rest =>
    if isHighSurrogate high then
      if isLowSurrogate low then
        (joinPieces rest).map (Char.ofNat (0x10000 + (high - 0xd800) * 0x400 + (low - 0xdc00)) :: ·)
      else none
    else if isLowSurrogate high then none
    else (joinPieces (.code low :: rest)).map (Char.ofNat high :: ·)
  | .code unit :: rest =>
    if isHighSurrogate unit || isLowSurrogate unit then none
    else (joinPieces rest).map (Char.ofNat unit :: ·)

/-- A string after its opening quote. -/
def parseText (text : List Char) : Option (Text × List Char) :=
  (pieces text).map fun (found, rest) => ((joinPieces found).map String.ofList, rest)

/-! ### Numbers -/

/-- Digits after a point; a point without digits is no number. -/
def parseFraction : List Char → Option (List Char × List Char)
  | '.' :: rest =>
    let (digits, rest) := Text.takeDigits rest
    if digits.isEmpty then none else some (digits, rest)
  | rest => some ([], rest)

/-- An exponent part, if there is one. -/
def parseExponent : List Char → Option (Option Int × List Char)
  | [] => some (none, [])
  | e :: rest =>
    if e ≠ 'e' ∧ e ≠ 'E' then some (none, e :: rest)
    else
      let (negative, rest) := Text.takeSign rest
      let (digits, rest) := Text.takeDigits rest
      if digits.isEmpty then none
      else
        let value : Int := Text.digitsValue digits
        some (some (if negative then -value else value), rest)

/-- Whether a number has a minus sign, and the rest. -/
def takeMinus : List Char → Bool × List Char
  | '-' :: rest => (true, rest)
  | rest => (false, rest)

def parseNumber (text : List Char) : Option (Number × List Char) := do
  let (negative, text) := takeMinus text
  let (whole, text) := Text.takeDigits text
  if whole.isEmpty || (whole.head? == some '0' && 1 < whole.length) then none
  else
    let (fraction, text) ← parseFraction text
    let (exponent, text) ← parseExponent text
    return (.ofDigits negative whole fraction exponent, text)

/-! ### Values -/

mutual

/-- One value; `fuel` bounds the number of values and separators ahead. -/
def parseValue : Nat → List Char → Option (Json × List Char)
  | 0, _ => none
  | fuel + 1, text =>
    match skipBlanks text with
    | 'n' :: 'u' :: 'l' :: 'l' :: rest => some (.null, rest)
    | 't' :: 'r' :: 'u' :: 'e' :: rest => some (.bool true, rest)
    | 'f' :: 'a' :: 'l' :: 's' :: 'e' :: rest => some (.bool false, rest)
    | '"' :: rest => (parseText rest).map fun (text, rest) => (.string text, rest)
    | '[' :: rest =>
      match skipBlanks rest with
      | ']' :: rest => some (.array [], rest)
      | rest => (parseItems fuel rest).map fun (items, rest) => (.array items, rest)
    | '{' :: rest =>
      match skipBlanks rest with
      | '}' :: rest => some (.object [], rest)
      | rest => (parseMembers fuel rest).map fun (members, rest) => (.object members, rest)
    | rest => (parseNumber rest).map fun (n, rest) => (.number n, rest)

/-- One or more items and the closing bracket. -/
def parseItems : Nat → List Char → Option (List Json × List Char)
  | 0, _ => none
  | fuel + 1, text => do
    let (item, rest) ← parseValue fuel text
    match skipBlanks rest with
    | ']' :: rest => some ([item], rest)
    | ',' :: rest =>
      let (items, rest) ← parseItems fuel rest
      some (item :: items, rest)
    | _ => none

/-- One or more members and the closing brace. -/
def parseMembers : Nat → List Char → Option (List (Text × Json) × List Char)
  | 0, _ => none
  | fuel + 1, text =>
    match skipBlanks text with
    | '"' :: rest => do
      let (name, rest) ← parseText rest
      match skipBlanks rest with
      | ':' :: rest =>
        let (value, rest) ← parseValue fuel rest
        match skipBlanks rest with
        | '}' :: rest => some ([(name, value)], rest)
        | ',' :: rest =>
          let (members, rest) ← parseMembers fuel rest
          some ((name, value) :: members, rest)
        | _ => none
      | _ => none
    | _ => none

end

/-- The value that a whole text writes. -/
def parse? (text : String) : Option Json := do
  let chars := text.toList
  let (value, rest) ← parseValue (chars.length + 1) chars
  if (skipBlanks rest).isEmpty then some value else none

end Bindery.Json
