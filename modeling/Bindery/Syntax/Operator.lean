/-!
# Operators

Each operator has a name, which documents use, and a text, which diagnostics use.
-/

namespace Bindery

inductive BinaryOp where
  | add | subtract | multiply | divide | modulo
  | equal | notEqual
  | less | lessEqual | greater | greaterEqual
  | logicalAnd | logicalOr
deriving DecidableEq, Repr

namespace BinaryOp

def all : List BinaryOp := [
  add, subtract, multiply, divide, modulo, equal, notEqual, less, lessEqual, greater, greaterEqual,
  logicalAnd, logicalOr]

def name : BinaryOp → String
  | add => "add"
  | subtract => "subtract"
  | multiply => "multiply"
  | divide => "divide"
  | modulo => "modulo"
  | equal => "equal"
  | notEqual => "notEqual"
  | less => "less"
  | lessEqual => "lessEqual"
  | greater => "greater"
  | greaterEqual => "greaterEqual"
  | logicalAnd => "logicalAnd"
  | logicalOr => "logicalOr"

def text : BinaryOp → String
  | add => "+"
  | subtract => "-"
  | multiply => "*"
  | divide => "/"
  | modulo => "%"
  | equal => "=="
  | notEqual => "!="
  | less => "<"
  | lessEqual => "<="
  | greater => ">"
  | greaterEqual => ">="
  | logicalAnd => "&&"
  | logicalOr => "||"

def ofName? (name : String) : Option BinaryOp := all.find? fun op => op.name = name

/-- Whether the operator compares two numbers for order. -/
def isRelational : BinaryOp → Bool
  | less | lessEqual | greater | greaterEqual => true
  | _ => false

end BinaryOp

inductive UnaryOp where
  | negate | plus | logicalNot | increment | decrement
deriving DecidableEq, Repr

namespace UnaryOp

def all : List UnaryOp := [negate, plus, logicalNot, increment, decrement]

def name : UnaryOp → String
  | negate => "negate"
  | plus => "plus"
  | logicalNot => "logicalNot"
  | increment => "prefixIncrement"
  | decrement => "prefixDecrement"

def text : UnaryOp → String
  | negate => "-"
  | plus => "+"
  | logicalNot => "!"
  | increment => "++"
  | decrement => "--"

def ofName? (name : String) : Option UnaryOp := all.find? fun op => op.name = name

/-- Whether the operator writes back to its operand. -/
def writesBack : UnaryOp → Bool
  | increment | decrement => true
  | _ => false

end UnaryOp
end Bindery
