import Bindery.Types.Basic

/-!
# Bound template arguments

A template argument after binding: a type, or a constant with its type and the node it came from.
-/

namespace Bindery

inductive TypeOrConstant where
  | type (type : Ty)
  | constant (constant : Constant) (type : Ty) (node : NodeId)

namespace TypeOrConstant

def isConstant : TypeOrConstant → Bool
  | type _ => false
  | constant .. => true

/-- The type itself, or the type of the constant. -/
def ty : TypeOrConstant → Ty
  | type t => t
  | constant _ t _ => t

def toArgument : TypeOrConstant → TemplateArgument
  | type t => t.toArgument
  | constant c _ _ => .constant c

/-- Whether two arguments are equal; constants are compared by value, wherever they came from. -/
def isEqual : TypeOrConstant → TypeOrConstant → Bool
  | type t, type u => t = u
  | constant c _ _, constant d _ _ => c = d
  | _, _ => false

end TypeOrConstant
end Bindery
