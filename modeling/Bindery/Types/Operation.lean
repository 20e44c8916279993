import Bindery.Types.Basic

/-!
# Operators on types

`BinarySignature.of?` gives the operand and result types of a binary operator, or nothing where the
operator is not defined. A nullable operand makes the result of arithmetic nullable.
-/

namespace Bindery

/-- What an operator takes on either side and what it gives. -/
structure BinarySignature where
  left : Ty
  right : Ty
  result : Ty
deriving DecidableEq

namespace BinarySignature

/-- Both sides and the result have one type. -/
def uniform (t : Ty) : BinarySignature := ⟨t, t, t⟩

/-- The common type of two operands that are compared for equality. -/
def equalityOperand? (left right : Ty) : Option Ty :=
  match left.isNull, right.isNull with
  | true, true => some .null
  | true, false => if right.nullable then some right else none
  | false, true => if left.nullable then some left else none
  | false, false =>
    let lifted := left.nullable || right.nullable
    if left.sameKind right then some (left.withNullable lifted)
    else if left.isNumeric && right.isNumeric then
      some ((Ty.primitive .decimal).withNullable lifted)
    else none

def numericOperand? (left right : Primitive) (lifted : Bool) : Option Ty :=
  if left.isNumeric && right.isNumeric then
    let common := if left = .int && right = .int then Primitive.int else .decimal
    some ((Ty.primitive common).withNullable lifted)
  else none

def ofPrimitives? (op : BinaryOp) (left right : Ty) (p q : Primitive) : Option BinarySignature :=
  let lifted := left.nullable || right.nullable
  let arithmetic := (numericOperand? p q lifted).map uniform
  match op with
  | .add =>
    if p = .string || q = .string then
      if p.isConcatenable && q.isConcatenable then
        some ⟨left, right, (Ty.primitive .string).withNullable lifted⟩
      else none
    else arithmetic
  | .subtract | .multiply | .divide | .modulo => arithmetic
  | .less | .lessEqual | .greater | .greaterEqual =>
    (numericOperand? p q lifted).map fun t => ⟨t, t, .primitive .bool⟩
  | .logicalAnd | .logicalOr =>
    if p = .bool && q = .bool then some (uniform ((Ty.primitive .bool).withNullable lifted))
    else none
  | .equal | .notEqual => none

/-- The types of `left op right`. -/
def of? (op : BinaryOp) (left right : Ty) : Option BinarySignature :=
  match op with
  | .equal | .notEqual => (equalityOperand? left right).map fun t => ⟨t, t, .primitive .bool⟩
  | _ =>
    match left.primitive?, right.primitive? with
    | some p, some q => ofPrimitives? op left right p q
    | _, _ => none

end BinarySignature

def UnaryOp.accepts : UnaryOp → Ty → Bool
  | .logicalNot, t => t.isPrimitive .bool
  | _, t => t.isNumeric

end Bindery
