import Bindery.Symbol.Table
import Bindery.Types.Value

/-!
# Types

A type is a kind together with whether it admits `null`. A constructed type is a template with its
arguments, each a type or a constant. The error type stands where an error has been reported; it
converts to and from everything, so that one mistake is reported once.
-/

namespace Bindery

mutual

inductive TyKind where
  | primitive (primitive : Primitive)
  | named (type : SymbolId)
  | constructed (definition : SymbolId) (arguments : List TemplateArgument)
  | parameter (parameter : SymbolId)
  /-- The type of the literal `null`. -/
  | null
  | error

inductive TemplateArgument where
  | type (kind : TyKind) (nullable : Bool)
  | constant (constant : Constant)

end

/-! ### Equality -/

mutual

def TyKind.beq : TyKind → TyKind → Bool
  | .primitive a, .primitive b => a = b
  | .named a, .named b => a = b
  | .constructed a as, .constructed b bs => a = b && TemplateArgument.beqList as bs
  | .parameter a, .parameter b => a = b
  | .null, .null => true
  | .error, .error => true
  | _, _ => false

def TemplateArgument.beq : TemplateArgument → TemplateArgument → Bool
  | .type a m, .type b n => a.beq b && m == n
  | .constant a, .constant b => a = b
  | _, _ => false

def TemplateArgument.beqList : List TemplateArgument → List TemplateArgument → Bool
  | [], [] => true
  | a :: as, b :: bs => a.beq b && TemplateArgument.beqList as bs
  | _, _ => false

end

mutual

theorem TyKind.beq_eq_true_iff : ∀ a b : TyKind, a.beq b = true ↔ a = b
  | .primitive _, b => by cases b <;> simp [TyKind.beq]
  | .named _, b => by cases b <;> simp [TyKind.beq]
  | .constructed _ as, b => by
    cases b <;> simp [TyKind.beq, TemplateArgument.beqList_eq_true_iff as]
  | .parameter _, b => by cases b <;> simp [TyKind.beq]
  | .null, b => by cases b <;> simp [TyKind.beq]
  | .error, b => by cases b <;> simp [TyKind.beq]

theorem TemplateArgument.beq_eq_true_iff : ∀ a b : TemplateArgument, a.beq b = true ↔ a = b
  | .type a _, b => by cases b <;> simp [TemplateArgument.beq, TyKind.beq_eq_true_iff a]
  | .constant _, b => by cases b <;> simp [TemplateArgument.beq]

theorem TemplateArgument.beqList_eq_true_iff :
    ∀ as bs : List TemplateArgument, TemplateArgument.beqList as bs = true ↔ as = bs
  | [], bs => by cases bs <;> simp [TemplateArgument.beqList]
  | a :: as, bs => by
    cases bs <;> simp [TemplateArgument.beqList, TemplateArgument.beq_eq_true_iff a,
      TemplateArgument.beqList_eq_true_iff as]

end

instance : DecidableEq TyKind := fun a b => decidable_of_iff _ (TyKind.beq_eq_true_iff a b)

instance : DecidableEq TemplateArgument := fun a b =>
  decidable_of_iff _ (TemplateArgument.beq_eq_true_iff a b)

/-! ### Types and their shape -/

structure Ty where
  kind : TyKind
  nullable : Bool
deriving DecidableEq

instance : Inhabited Ty := ⟨.error, false⟩

namespace Ty

def primitive (p : Primitive) : Ty := ⟨.primitive p, false⟩

def named (type : SymbolId) : Ty := ⟨.named type, false⟩

def parameter (parameter : SymbolId) : Ty := ⟨.parameter parameter, false⟩

def null : Ty := ⟨.null, true⟩

def error : Ty := ⟨.error, false⟩

def void : Ty := primitive .void

def withNullable (t : Ty) (nullable : Bool) : Ty := { t with nullable }

def asNullable (t : Ty) : Ty := t.withNullable true

def asNonNullable (t : Ty) : Ty := t.withNullable false

def isError (t : Ty) : Bool := t.kind = .error

def isNull (t : Ty) : Bool := t.kind = .null

def primitive? (t : Ty) : Option Primitive :=
  match t.kind with
  | .primitive p => some p
  | _ => none

def isPrimitive (t : Ty) (p : Primitive) : Bool := t.primitive? = some p

def isVoid (t : Ty) : Bool := t.isPrimitive .void

def isNumeric (t : Ty) : Bool := t.primitive?.any (·.isNumeric)

/-- The class of a named or constructed type. -/
def definition? (t : Ty) : Option SymbolId :=
  match t.kind with
  | .named type => some type
  | .constructed definition _ => some definition
  | _ => none

/-- Whether two types differ at most in admitting `null`. -/
def sameKind (t u : Ty) : Bool := t.kind = u.kind

/-- Whether values of the type are instances of a class. -/
def isInstance (t : Ty) (symbols : SymbolTable) : Except Fault Bool :=
  match t.definition? with
  | some definition => symbols.isType definition
  | none => return false

def toArgument (t : Ty) : TemplateArgument := .type t.kind t.nullable

end Ty

/-! ### Display -/

mutual

/-- The text of a type in diagnostics. The arguments of a template are put into words before its
name. -/
def TyKind.display (symbols : SymbolTable) : TyKind → Bool → Except Fault String
  | .primitive p, nullable => return p.name ++ if nullable then "?" else ""
  | .named symbol, nullable | .parameter symbol, nullable =>
    return (← symbols.name symbol) ++ if nullable then "?" else ""
  | .constructed definition arguments, nullable => do
    let arguments ← TemplateArgument.displayList symbols arguments
    return (← symbols.name definition) ++ "<" ++ String.intercalate ", " arguments ++ ">" ++
      if nullable then "?" else ""
  | .null, _ => return "null"
  | .error, _ => return "?"

def TemplateArgument.display (symbols : SymbolTable) : TemplateArgument → Except Fault String
  | .type kind nullable => kind.display symbols nullable
  | .constant c => return c.text

def TemplateArgument.displayList (symbols : SymbolTable) :
    List TemplateArgument → Except Fault (List String)
  | [] => return []
  | a :: as => return (← a.display symbols) :: (← TemplateArgument.displayList symbols as)

end

def Ty.display (t : Ty) (symbols : SymbolTable) : Except Fault String :=
  t.kind.display symbols t.nullable

end Bindery
