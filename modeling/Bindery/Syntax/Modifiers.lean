import Bindery.Json.Parser
import Bindery.Text.Blank

/-!
# Declaration modifiers

A set of modifiers is a word of 32 bits. Six bits have names; the others have no meaning but are
kept. In text, a set is written as the names of its bits joined by bars, and what has no name as one
hexadecimal number.
-/

namespace Bindery

structure Modifiers where
  bits : UInt32
deriving DecidableEq, Repr

namespace Modifiers

def none : Modifiers := ⟨0⟩
def isPublic : Modifiers := ⟨1⟩
def isPrivate : Modifiers := ⟨2⟩
def isProtected : Modifiers := ⟨4⟩
def isStatic : Modifiers := ⟨8⟩
def isConst : Modifiers := ⟨16⟩
def isLowLevel : Modifiers := ⟨32⟩

/-- The bits that have names. -/
def known : UInt32 := 63

def contains (m flag : Modifiers) : Bool := m.bits &&& flag.bits == flag.bits

def union (a b : Modifiers) : Modifiers := ⟨a.bits ||| b.bits⟩

/-- The low 32 bits of a number, without the bits that have no name. -/
def ofBits (n : Nat) : Modifiers := ⟨UInt32.ofNat n &&& known⟩

/-- The named bits, in the order in which they are written. -/
def named : List (String × Modifiers) := [
  ("PUBLIC", isPublic), ("PRIVATE", isPrivate), ("PROTECTED", isProtected), ("STATIC", isStatic),
  ("CONST", isConst), ("LOW_LEVEL", isLowLevel)]

def readable : List (String × Modifiers) :=
  ("NONE", none) :: ("ACCESSIBILITY", ⟨7⟩) :: named

/-! ### Text -/

/-- A hexadecimal number of 32 bits; a plus sign may stand before it. -/
def readHex? (text : List Char) : Option Modifiers := do
  let digits := match text with
    | '+' :: rest => rest
    | rest => rest
  let digits ← digits.mapM Json.hexDigit?
  let value := digits.foldl (fun value digit => 16 * value + digit) 0
  if digits.isEmpty || UInt32.size ≤ value then failure else return ⟨UInt32.ofNat value⟩

/-- One part of a set: a name, or a number after `0x`. -/
def readPart? : List Char → Option Modifiers
  | '0' :: 'x' :: digits => readHex? digits
  | name => (readable.find? fun entry => entry.1.toList = name).map (·.2)

def splitBars : List Char → List (List Char)
  | [] => [[]]
  | '|' :: rest => [] :: splitBars rest
  | c :: rest =>
    match splitBars rest with
    | part :: parts => (c :: part) :: parts
    | [] => [[c]]

/-- Blank text is the empty set; otherwise every part has to be one. -/
def read? (text : String) : Option Modifiers :=
  let chars := Text.trim text.toList
  if chars.isEmpty then some none
  else do
    let parts ← (splitBars text.toList).mapM fun part => readPart? (Text.trim part)
    return parts.foldl union none

def text (m : Modifiers) : String :=
  let names := (named.filter fun entry => m.contains entry.2).map (·.1)
  let rest := m.bits &&& ~~~known
  let rest := if rest = 0 then [] else ["0x" ++ String.ofList (Nat.toDigits 16 rest.toNat)]
  String.intercalate " | " (names ++ rest)

end Modifiers
end Bindery
