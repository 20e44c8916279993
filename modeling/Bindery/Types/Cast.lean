/-!
# Kinds of conversion

How a value of one type becomes a value of another. A conversion is implicit, may be asked for
explicitly, or does not exist (`none`).
-/

namespace Bindery

inductive Cast where
  | none
  | identity
  | implicit
  | implicitNullable
  | implicitReference
  | boxing
  | boxingImplicitNullable
  | anyBoxing
  | anyBoxingImplicitNullable
  | explicit
  | explicitNullable
  | explicitReference
  | boxingExplicitNullable
  | anyBoxingExplicitNullable
  | unboxing
  | unboxingImplicitNullable
  | unboxingExplicitNullable
  | anyUnboxing
  | anyUnboxingImplicitNullable
  | anyUnboxingExplicitNullable
deriving DecidableEq, Repr

namespace Cast

def all : List Cast := [
  none, identity, implicit, implicitNullable, implicitReference, boxing, boxingImplicitNullable,
  anyBoxing, anyBoxingImplicitNullable, explicit, explicitNullable, explicitReference,
  boxingExplicitNullable, anyBoxingExplicitNullable, unboxing, unboxingImplicitNullable,
  unboxingExplicitNullable, anyUnboxing, anyUnboxingImplicitNullable, anyUnboxingExplicitNullable]

def name : Cast → String
  | none => "None"
  | identity => "Identity"
  | implicit => "Implicit"
  | implicitNullable => "ImplicitNullable"
  | implicitReference => "ImplicitReference"
  | boxing => "Boxing"
  | boxingImplicitNullable => "BoxingImplicitNullable"
  | anyBoxing => "AnyBoxing"
  | anyBoxingImplicitNullable => "AnyBoxingImplicitNullable"
  | explicit => "Explicit"
  | explicitNullable => "ExplicitNullable"
  | explicitReference => "ExplicitReference"
  | boxingExplicitNullable => "BoxingExplicitNullable"
  | anyBoxingExplicitNullable => "AnyBoxingExplicitNullable"
  | unboxing => "Unboxing"
  | unboxingImplicitNullable => "UnboxingImplicitNullable"
  | unboxingExplicitNullable => "UnboxingExplicitNullable"
  | anyUnboxing => "AnyUnboxing"
  | anyUnboxingImplicitNullable => "AnyUnboxingImplicitNullable"
  | anyUnboxingExplicitNullable => "AnyUnboxingExplicitNullable"

def ofName? (name : String) : Option Cast := all.find? fun c => c.name = name

/-- Whether the conversion happens without a cast expression. -/
def isImplicit : Cast → Bool
  | identity | implicit | implicitNullable | implicitReference | boxing | boxingImplicitNullable
  | anyBoxing | anyBoxingImplicitNullable => true
  | _ => false

/-- Whether the conversion is not implicit; one that does not exist counts. -/
def isExplicit (c : Cast) : Bool := !c.isImplicit

def isPossible (c : Cast) : Bool := c ≠ none

/-- Whether a nullable type is involved. -/
def isNullable : Cast → Bool
  | implicitNullable | boxingImplicitNullable | anyBoxingImplicitNullable | explicitNullable
  | boxingExplicitNullable | unboxingImplicitNullable | unboxingExplicitNullable
  | anyBoxingExplicitNullable | anyUnboxingImplicitNullable | anyUnboxingExplicitNullable => true
  | _ => false

def isBoxing : Cast → Bool
  | boxing | boxingImplicitNullable | boxingExplicitNullable | anyBoxing
  | anyBoxingImplicitNullable | anyBoxingExplicitNullable => true
  | _ => false

def isUnboxing : Cast → Bool
  | unboxing | unboxingImplicitNullable | unboxingExplicitNullable | anyUnboxing
  | anyUnboxingImplicitNullable | anyUnboxingExplicitNullable => true
  | _ => false

/-- Whether a primitive value is boxed to `any` or taken out of it. -/
def involvesAny : Cast → Bool
  | anyBoxing | anyBoxingImplicitNullable | anyBoxingExplicitNullable | anyUnboxing
  | anyUnboxingImplicitNullable | anyUnboxingExplicitNullable => true
  | _ => false

end Cast
end Bindery
