import Bindery.Syntax.Node

/-!
# Symbols

A symbol is a named entity that a tree declares or a library supplies: the global container, types,
methods, fields, parameters and template parameters. Symbols refer to each other and to syntax by
number.
-/

namespace Bindery

/-- The number of a symbol in its table. -/
abbrev SymbolId := Nat

inductive Access where
  | publicAccess
  | protectedAccess
  | privateAccess
deriving DecidableEq, Repr

namespace Access

/-- Without an access modifier a member is public. -/
def ofModifiers (m : Modifiers) : Access :=
  if m.contains .isPrivate then privateAccess
  else if m.contains .isProtected then protectedAccess
  else publicAccess

def text : Access → String
  | publicAccess => "public"
  | protectedAccess => "protected"
  | privateAccess => "private"

end Access

structure TypeData where
  templateParameters : List SymbolId := []
  baseNode : Option NodeId := none
  base : Option SymbolId := none
  members : List SymbolId := []
  isLibrary : Bool := false
deriving DecidableEq, Repr

structure MethodData where
  parameters : List SymbolId := []
  /-- Without a return type the method is `void`. -/
  returnType : Option NodeId := none
  /-- The entry made for global statements has none. -/
  body : Option NodeId := none
  isStatic : Bool := false
  isLowLevel : Bool := false
  /-- Whether the method stands for the global statements. -/
  isEntry : Bool := false
deriving DecidableEq, Repr

structure FieldData where
  /-- Without a type, the type is that of the initializer. -/
  type : Option NodeId := none
  initializer : Option NodeId := none
  isConstant : Bool := false
  isStatic : Bool := false
deriving DecidableEq, Repr

structure ParameterData where
  type : NodeId
  defaultValue : Option NodeId := none
  ordinal : Nat := 0
deriving DecidableEq, Repr

structure TemplateParameterData where
  /-- Present for parameters that stand for constants. -/
  constantType : Option NodeId := none
  ordinal : Nat := 0
deriving DecidableEq, Repr

inductive SymbolKind where
  /-- The container of every declaration at the top. -/
  | global (members : List SymbolId)
  | type (data : TypeData)
  | method (data : MethodData)
  | field (data : FieldData)
  | parameter (data : ParameterData)
  | templateParameter (data : TemplateParameterData)
deriving DecidableEq, Repr

namespace SymbolKind

def label : SymbolKind → String
  | global _ => "namespace"
  | type _ => "type"
  | method _ => "method"
  | field _ => "field"
  | parameter _ => "parameter"
  | templateParameter _ => "template parameter"

/-- Whether symbols of this kind are members of what contains them. -/
def isMember : SymbolKind → Bool
  | type _ | method _ | field _ => true
  | _ => false

/-- Whether symbols of this kind have members. -/
def isContainer : SymbolKind → Bool
  | global _ | type _ => true
  | _ => false

def members : SymbolKind → List SymbolId
  | global members => members
  | type data => data.members
  | _ => []

def type? : SymbolKind → Option TypeData
  | type data => some data
  | _ => none

def method? : SymbolKind → Option MethodData
  | method data => some data
  | _ => none

def field? : SymbolKind → Option FieldData
  | field data => some data
  | _ => none

def parameter? : SymbolKind → Option ParameterData
  | parameter data => some data
  | _ => none

def templateParameter? : SymbolKind → Option TemplateParameterData
  | templateParameter data => some data
  | _ => none

def base? (kind : SymbolKind) : Option SymbolId := kind.type?.bind (·.base)

def parameters (kind : SymbolKind) : List SymbolId := (kind.method?.map (·.parameters)).getD []

def templateParameters (kind : SymbolKind) : List SymbolId :=
  (kind.type?.map (·.templateParameters)).getD []

/-- Add a member at the end; what has no members stays as it is. -/
def addMember (member : SymbolId) : SymbolKind → SymbolKind
  | global members => global (members ++ [member])
  | type data => type { data with members := data.members ++ [member] }
  | kind => kind

end SymbolKind

structure Symbol where
  id : SymbolId
  name : String
  kind : SymbolKind
  access : Access
  /-- The type, method or global container it is declared in. -/
  containing : Option SymbolId
  /-- The declaring node; library types have none. -/
  declaration : Option NodeId
deriving DecidableEq, Repr

namespace Symbol

def isType (s : Symbol) : Bool := s.kind matches .type _

def isMethod (s : Symbol) : Bool := s.kind matches .method _

def isField (s : Symbol) : Bool := s.kind matches .field _

def isConstantField (s : Symbol) : Bool :=
  match s.kind with
  | .field data => data.isConstant
  | _ => false

end Symbol
end Bindery
