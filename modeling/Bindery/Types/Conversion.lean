import Bindery.Types.Basic
import Bindery.Types.Cast

/-!
# Classifying conversions

`Ty.conversion` gives the kind of conversion from one type to another.

* The error type converts to and from everything, and `null` to every nullable type.
* Between primitive types, `any` boxes all others, `int` widens to `decimal`, and casts lead between
  strings and numbers, from strings to `bool` and from `decimal` to `int`.
* Classes convert along the base chain, and box to `any` like template parameters.
-/

namespace Bindery

namespace Cast

/-- Dropping or adding `null` and nothing else. -/
def nullability (source target : Bool) : Cast :=
  match source, target with
  | false, true => implicitNullable
  | true, false => explicitNullable
  | _, _ => identity

/-- A conversion that must be asked for. -/
def byCast (source target : Bool) : Cast :=
  if source || target then explicitNullable else explicit

/-- From one primitive type to another, given which of the two admit `null`. -/
def ofPrimitives (source target : Primitive) (fromNullable toNullable : Bool) : Cast :=
  match source, target with
  | .void, _ | _, .void => none
  | .any, .any => nullability fromNullable toNullable
  | .any, _ =>
    match fromNullable, toNullable with
    | false, true => anyUnboxingImplicitNullable
    | true, false => anyUnboxingExplicitNullable
    | _, _ => anyUnboxing
  | _, .any =>
    match fromNullable, toNullable with
    | false, false => anyBoxing
    | true, false => anyBoxingExplicitNullable
    | _, true => anyBoxingImplicitNullable
  | .int, .decimal =>
    match fromNullable, toNullable with
    | false, false => implicit
    | false, true => none
    | true, false => explicitNullable
    | true, true => implicitNullable
  | .string, .bool | .string, .int | .string, .decimal | .int, .string | .decimal, .string
  | .decimal, .int => byCast fromNullable toNullable
  | .string, .string | .bool, .bool | .char, .char | .int, .int | .decimal, .decimal
  | .type, .type => nullability fromNullable toNullable
  | _, _ => none

/-- From a class or template parameter to `any`. -/
def intoAny (fromNullable toNullable : Bool) : Cast :=
  match fromNullable, toNullable with
  | false, false => boxing
  | true, false => boxingExplicitNullable
  | _, true => boxingImplicitNullable

/-- From `any` to a class or template parameter. -/
def outOfAny (fromNullable toNullable : Bool) : Cast :=
  match fromNullable, toNullable with
  | false, true => unboxingImplicitNullable
  | true, false => unboxingExplicitNullable
  | _, _ => unboxing

end Cast

namespace Ty

/-- Whether values of the type are boxed when they become `any`. -/
def isBoxable (t : Ty) : Bool :=
  match t.kind with
  | .named _ | .constructed .. | .parameter _ => true
  | _ => false

/-- Along the base chain. Two constructions of one template do not convert. -/
def referenceConversion (symbols : SymbolTable) (source target : Ty) : Except Fault Cast :=
  match source.definition?, target.definition? with
  | some derived, some base => do
    if derived = base then return .none
    else if ← symbols.isDerivedFrom derived base then
      return if source.nullable && !target.nullable then .explicitNullable else .implicitReference
    else if ← symbols.isDerivedFrom base derived then return .explicitReference
    else return .none
  | _, _ => return .none

def conversion (symbols : SymbolTable) (source target : Ty) : Except Fault Cast :=
  if source.isError || target.isError then return .identity
  else if source.isNull then return if target.nullable then .identity else .none
  else if source = target then return .identity
  else
    match source.primitive?, target.primitive? with
    | some p, some q => return .ofPrimitives p q source.nullable target.nullable
    | p, q =>
      if q = some .any && source.isBoxable then
        return .intoAny source.nullable target.nullable
      else if p = some .any && target.isBoxable then
        return .outOfAny source.nullable target.nullable
      else if source.sameKind target then
        return if target.nullable then .implicitNullable else .explicitNullable
      else referenceConversion symbols source target

end Ty
end Bindery
