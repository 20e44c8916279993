import Bindery.Syntax.Node

/-!
# Values known before the program runs

* **Primitive**: the built-in types.
* **Value**: a value of a primitive type.
* **Constant**: a value or `null`. Decimals are equal when their bits are.
-/

namespace Bindery

inductive Primitive where
  | any
  | string
  | bool
  | char
  | int
  | decimal
  /-- The type of types. -/
  | type
  | void
deriving DecidableEq, Repr

namespace Primitive

def all : List Primitive := [any, string, bool, char, int, decimal, type, void]

def name : Primitive → String
  | any => "any"
  | string => "string"
  | bool => "bool"
  | char => "char"
  | int => "int"
  | decimal => "decimal"
  | type => "type"
  | void => "void"

def ofName? (name : String) : Option Primitive := all.find? fun p => p.name = name

def isNumeric : Primitive → Bool
  | int | decimal => true
  | _ => false

/-- Whether values of the type can be joined to a string. -/
def isConcatenable : Primitive → Bool
  | any | type | void => false
  | _ => true

end Primitive

inductive Value where
  | bool (value : Bool)
  | int (value : Int)
  | decimal (value : Decimal)
  | char (value : Char)
  | string (value : String)
deriving DecidableEq, Repr

namespace Value

def primitive : Value → Primitive
  | bool _ => .bool
  | int _ => .int
  | decimal _ => .decimal
  | char _ => .char
  | string _ => .string

def bool? : Value → Option Bool
  | bool value => some value
  | _ => none

def int? : Value → Option Int
  | int value => some value
  | _ => none

def decimal? : Value → Option Decimal
  | int value => some (.ofInt value)
  | decimal value => some value
  | _ => none

def text : Value → String
  | bool value => if value then "true" else "false"
  | int value => toString value
  | decimal value => value.text
  | char value => value.toString
  | string value => value

end Value

inductive Constant where
  | null
  | value (v : Value)
deriving DecidableEq, Repr

namespace Constant

def value? : Constant → Option Value
  | null => none
  | value v => some v

def isNull (c : Constant) : Bool := c.value?.isNone

def text : Constant → String
  | null => "null"
  | value v => v.text

def ofLiteral : Literal → Constant
  | .null => null
  | .bool v => value (.bool v)
  | .int v => value (.int v)
  | .decimal v => value (.decimal v)
  | .char v => value (.char v)
  | .string v => value (.string v)

end Constant
end Bindery
