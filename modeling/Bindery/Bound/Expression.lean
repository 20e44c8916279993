import Bindery.Scope.Local
import Bindery.Types.Conversion

/-!
# Bound expressions

An expression after binding: what it is, its type, its constant if it has one, and the node it came
from. The error expression stands where an error has been reported.
-/

namespace Bindery

mutual

inductive Expr where
  | mk (kind : ExprKind) (type : Ty) (constant : Option Constant) (node : NodeId)

inductive ExprKind where
  | literal
  | localVariable (target : Local)
  | parameter (parameter : SymbolId)
  | field (receiver : Option Expr) (field : SymbolId)
  /-- Methods of one name, of which a call chooses one. -/
  | methods (receiver : Option Expr) (methods : List SymbolId)
  | localFunction (function : LocalFunction)
  /-- A type in the place of an expression, such as the receiver of a static member. -/
  | type
  | call (receiver : Option Expr) (method : SymbolId) (arguments : List Expr)
  | localCall (function : LocalFunction) (arguments : List Expr)
  | cast (operand : Expr) (cast : Cast)
  /-- With an operator, a compound assignment. -/
  | assignment (operator : Option BinaryOp) (left right : Expr)
  | binary (operator : BinaryOp) (left right : Expr)
  | unary (operator : UnaryOp) (operand : Expr)
  /-- The access refers to the receiver through `conditionalReceiver`. -/
  | conditionalAccess (receiver access : Expr)
  | conditionalReceiver
  | typeOf (operand : Ty)
  /-- The value of a template parameter that stands for constants. -/
  | templateValue (parameter : SymbolId)
  | error

end

namespace Expr

def kind : Expr → ExprKind
  | mk kind _ _ _ => kind

def type : Expr → Ty
  | mk _ type _ _ => type

def constant : Expr → Option Constant
  | mk _ _ constant _ => constant

def node : Expr → NodeId
  | mk _ _ _ node => node

/-- An expression that is not a constant. -/
def plain (kind : ExprKind) (type : Ty) (node : NodeId) : Expr := mk kind type none node

def withConstant (e : Expr) (constant : Option Constant) : Expr := mk e.kind e.type constant e.node

/-- Stands for an expression about which an error has been reported. -/
def error (node : NodeId) : Expr := plain .error .error node

/-- A literal has the type of its value. -/
def ofLiteral (value : Literal) (node : NodeId) : Expr :=
  match Constant.ofLiteral value with
  | .null => mk .literal .null (some .null) node
  | .value v => mk .literal (.primitive v.primitive) (some (.value v)) node

def isError (e : Expr) : Bool := (e.kind matches .error) || e.type.isError

/-- Whether the expression stands for methods and has no value of its own. -/
def isMethods (e : Expr) : Bool :=
  match e.kind with
  | .methods .. | .localFunction _ => true
  | _ => false

def isType (e : Expr) : Bool := e.kind matches .type

/-- The expression after a conversion. It keeps its constant; a conversion that changes nothing is
left out. -/
def castTo (operand : Expr) (target : Ty) (cast : Cast) : Expr :=
  if cast = .identity && operand.type = target then operand
  else mk (.cast operand cast) target operand.constant operand.node

@[simp] theorem kind_mk (k : ExprKind) (t : Ty) (c : Option Constant) (n : NodeId) :
    (mk k t c n).kind = k := rfl

@[simp] theorem type_mk (k : ExprKind) (t : Ty) (c : Option Constant) (n : NodeId) :
    (mk k t c n).type = t := rfl

@[simp] theorem constant_mk (k : ExprKind) (t : Ty) (c : Option Constant) (n : NodeId) :
    (mk k t c n).constant = c := rfl

@[simp] theorem node_mk (k : ExprKind) (t : Ty) (c : Option Constant) (n : NodeId) :
    (mk k t c n).node = n := rfl

end Expr
end Bindery
