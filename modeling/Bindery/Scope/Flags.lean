/-!
# Flags of a scope

Facts about the surrounding code that are handed down to inner scopes: inside a low-level region,
without access checks, inside the parts of a `try` statement, inside initializers and default
values. The ones about `try` statements end where a new region of code begins.
-/

namespace Bindery

structure Flags where
  /-- Low-level methods may be called. -/
  lowLevel : Bool := false
  ignoresAccess : Bool := false
  inCatch : Bool := false
  inFinally : Bool := false
  inTry : Bool := false
  /-- In a `finally` block inside another. -/
  inNestedFinally : Bool := false
  inInitializer : Bool := false
  inDefaultValue : Bool := false
deriving DecidableEq, Repr

namespace Flags

def union (a b : Flags) : Flags where
  lowLevel := a.lowLevel || b.lowLevel
  ignoresAccess := a.ignoresAccess || b.ignoresAccess
  inCatch := a.inCatch || b.inCatch
  inFinally := a.inFinally || b.inFinally
  inTry := a.inTry || b.inTry
  inNestedFinally := a.inNestedFinally || b.inNestedFinally
  inInitializer := a.inInitializer || b.inInitializer
  inDefaultValue := a.inDefaultValue || b.inDefaultValue

/-- The flags of a new region of code: those of both, without the ones about `try` statements. -/
def enterCode (parent additional : Flags) : Flags :=
  { parent.union additional with
    inCatch := false, inFinally := false, inTry := false, inNestedFinally := false }

/-- The flags with their names, in the order of their bits. -/
def named (f : Flags) : List (String × Bool) := [
  ("UNSAFE_REGION", f.lowLevel),
  ("IGNORE_ACCESSIBILITY", f.ignoresAccess),
  ("IN_CATCH_BLOCK", f.inCatch),
  ("IN_FINALLY_BLOCK", f.inFinally),
  ("IN_TRY_BLOCK", f.inTry),
  ("IN_NESTED_FINALLY_BLOCK", f.inNestedFinally),
  ("FIELD_INITIALIZER", f.inInitializer),
  ("PARAMETER_DEFAULT_VALUE", f.inDefaultValue)]

def names (f : Flags) : List String := (f.named.filter (·.2)).map (·.1)

def bits (f : Flags) : Nat :=
  f.named.zipIdx.foldl (fun bits ((_, set), index) => if set then bits + (1 <<< index) else bits) 0

/-- Read the eight low bits. -/
def ofBits (bits : Nat) : Flags where
  lowLevel := bits.testBit 0
  ignoresAccess := bits.testBit 1
  inCatch := bits.testBit 2
  inFinally := bits.testBit 3
  inTry := bits.testBit 4
  inNestedFinally := bits.testBit 5
  inInitializer := bits.testBit 6
  inDefaultValue := bits.testBit 7

def all : Flags := ofBits 0xff

/-- The set flags joined by bars. -/
def text (f : Flags) : String :=
  if f.names.isEmpty then "0x0" else String.intercalate " | " f.names

end Flags
end Bindery
