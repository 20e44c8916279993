/-!
# Uses of a node

A node that declares something can have several chains of scopes, such as one for the signature and
one for the body of a method. A usage says which is meant. Usages of different kinds of declaration
may have the same bits, since a node declares only one thing.
-/

namespace Bindery

structure Usage where
  bits : Nat
deriving DecidableEq, Repr

/-- The kinds of declaration that have usages. -/
inductive UsageCategory where
  | method
  | parameter
  | field
  | namedType
  | compilationUnit
deriving DecidableEq, Repr

namespace Usage

def normal : Usage := ⟨0⟩

def methodSignature : Usage := ⟨1⟩

def methodBody : Usage := ⟨2⟩

def defaultValue : Usage := ⟨2⟩

def initializer : Usage := ⟨2⟩

def typeBody : Usage := ⟨2⟩

def typeBase : Usage := ⟨4⟩

def script : Usage := ⟨2⟩

/-- The usages of one kind of declaration, with their names. -/
def namedIn : UsageCategory → List (String × Usage)
  | .method => [("METHOD_SIGNATURE", methodSignature), ("METHOD_BODY", methodBody)]
  | .parameter => [("PARAMETER_DEFAULT_VALUE", defaultValue)]
  | .field => [("FIELD_INITIALIZER", initializer)]
  | .namedType =>
    [("NAMED_TYPE_BODY_OR_TEMPLATE_PARAMETERS", typeBody), ("NAMED_TYPE_BASE", typeBase)]
  | .compilationUnit => [("COMPILATION_UNIT_SCRIPT", script)]

end Usage

namespace UsageCategory

def all : List UsageCategory := [method, parameter, field, namedType, compilationUnit]

def name : UsageCategory → String
  | method => "Method"
  | parameter => "Parameter"
  | field => "Field"
  | namedType => "NamedType"
  | compilationUnit => "CompilationUnit"

def ofName? (name : String) : Option UsageCategory := all.find? fun c => c.name = name

end UsageCategory

namespace Usage

/-- The usage of a name; any other name means the normal one. -/
def ofName (name : String) : Usage :=
  (((UsageCategory.all.flatMap namedIn).find? fun entry => entry.1 = name).map (·.2)).getD normal

/-- The bits in binary, at least two digits. -/
def text (u : Usage) : String :=
  let digits := Nat.toDigits 2 u.bits
  "0b" ++ String.ofList (List.replicate (2 - digits.length) '0' ++ digits)

end Usage
end Bindery
