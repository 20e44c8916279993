/-!
# What a position asks of an expression

A position may need a value to read, a place to assign to, or a location to refer to. Within one
such family, variants tell positions apart that ask for the same.
-/

namespace Bindery

structure ValueKind where
  /-- Tells apart the members of a family, from `0` to `3`. -/
  variant : Nat := 0
  needsValue : Bool := false
  needsPlace : Bool := false
  needsLocation : Bool := false
  isRebindable : Bool := false
deriving DecidableEq, Repr

namespace ValueKind

/-- Nothing is asked. -/
def insignificant : ValueKind := { variant := 3 }

/-- A value to read. -/
def rvalue : ValueKind := { needsValue := true }

/-- A value to read, or methods to call. -/
def rvalueOrMethods : ValueKind := { rvalue with variant := 1 }

/-- A place to assign to. -/
def assignable : ValueKind := { needsPlace := true }

def location : ValueKind := { needsLocation := true }

def rebindable : ValueKind := { isRebindable := true }

def readonlyReference : ValueKind := { needsLocation := true, needsValue := true }

def reference : ValueKind := { readonlyReference with needsPlace := true }

def compoundAssignment : ValueKind := { needsValue := true, needsPlace := true }

def increment : ValueKind := { compoundAssignment with variant := 1 }

def referenceReturn : ValueKind := { readonlyReference with variant := 1 }

/-- Every kind with a name, in the order of listing. -/
def named : List (String × ValueKind) := [
  ("INSIGNIFICANT", insignificant),
  ("RVALUE", rvalue),
  ("RVALUE_OR_METHOD_GROUP", rvalueOrMethods),
  ("ASSIGNABLE", assignable),
  ("REFERS_TO_LOCATION", location),
  ("REF_ASSIGNABLE", rebindable),
  ("READONLY_REF", readonlyReference),
  ("REF_OR_OUT", reference),
  ("COMPOUND_ASSIGNMENT", compoundAssignment),
  ("INCREMENT_DECREMENT", increment),
  ("REF_RETURN", referenceReturn)]

def ofName? (name : String) : Option ValueKind :=
  (named.find? fun entry => entry.1 = name).map (·.2)

/-- The kind without its variant. -/
def family (k : ValueKind) : ValueKind := { k with variant := 0 }

/-- Whether methods, which a call will consume, may stand here. -/
def allowsMethods (k : ValueKind) : Bool := k = rvalueOrMethods || !k.needsValue

def bits (k : ValueKind) : Nat :=
  k.variant + (if k.needsValue then 4 else 0) + (if k.needsPlace then 8 else 0) +
    (if k.needsLocation then 16 else 0) + (if k.isRebindable then 32 else 0)

/-- Read the six low bits. -/
def ofBits (bits : Nat) : ValueKind where
  variant := bits % 4
  needsValue := bits.testBit 2
  needsPlace := bits.testBit 3
  needsLocation := bits.testBit 4
  isRebindable := bits.testBit 5

/-- The named kinds that together make up all bits: each listed one adds a bit to those before. -/
def basis : List (String × ValueKind) :=
  (named.foldl (fun (rest, chosen) entry =>
    if entry.2.bits &&& rest = 0 then (rest, chosen)
    else (rest &&& (63 ^^^ entry.2.bits), chosen ++ [entry])) (63, [])).2

end ValueKind
end Bindery
