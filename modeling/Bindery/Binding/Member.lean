import Bindery.Binding.Declaration

/-!
# Members

Binding the parts of a member: default values of parameters, the types of template parameters,
method bodies and field initializers. Each part is bound as a pass of its own.
-/

namespace Bindery
namespace Program

variable (p : Program)

/-! ### Published facts -/

def signatureOf (method : SymbolId) : BindM (Evaluated Signature) := p.answer (.signature method)

/-- The type of a field, while the types of the fields `beingBound` are inferred. -/
def fieldTypeOf (field : SymbolId) (beingBound : List SymbolId) : BindM (Evaluated Ty) :=
  p.answer (.fieldType field beingBound)

/-- The constant of a field, if it is known to what `tracker` tracks. -/
def fieldConstantOf (field : SymbolId) (tracker : Option Tracker) :
    BindM (Option (Evaluated FieldConstant)) :=
  p.answer (.fieldConstant field tracker)

/-! ### Default values -/

/-- The default value of a parameter, if it has one, converted to the type in the signature. -/
def bindParameterDefault (parameter : SymbolId) : BindM (Option Expr) := do
  match ← BindM.regions (p.defaultChain parameter), ← p.symbols.parameter? parameter with
  | some chain, some data =>
    match data.defaultValue with
    | none => return none
    | some node =>
      let type ←
        match ← p.symbols.containing? parameter with
        | some method =>
          let signature ← p.signatureOf method
          pure ((signature.value.parameters[data.ordinal]?).getD .error)
        | none => pure .error
      return some (← p.bindDefault p.answer chain node type (← p.symbols.name parameter))
  | _, _ => return none

/-- The default value of a parameter, bound when first asked for. -/
def defaultOf (parameter : SymbolId) : BindM (Evaluated (Option Expr)) := do
  match (← BindM.findings).defaults.get? parameter with
  | some known => return known
  | none =>
    let evaluated ← BindM.isolated (p.bindParameterDefault parameter)
    BindM.modifyFindings fun f => { f with defaults := f.defaults.publish parameter evaluated }
    return ((← BindM.findings).defaults.get? parameter).getD evaluated

/-! ### Classes -/

/-- The types of the template parameters that stand for constants. -/
def bindTemplateParameters (type : SymbolId) : BindM (Evaluated (List (Option Ty))) :=
  BindM.isolated do
    let chain ← BindM.regions (p.containerChain (← p.symbols.containers type))
    (← p.symbols.templateParameters type).mapM fun parameter => do
      match (← p.symbols.templateParameter? parameter).bind (·.constantType) with
      | some node =>
        return some (← p.bindVariableType p.answer chain node (← p.symbols.name parameter))
      | none => return none

/-! ### Code -/

/-- The body of a method, if it has one. The body of the entry method is the global statements. -/
def bindBody (method : SymbolId) : BindM (Option (Evaluated Block)) := do
  match ← BindM.regions (p.bodyChain method), ← p.symbols.method? method with
  | some chain, some data =>
    if data.isEntry then
      return some (← BindM.isolated (p.bindGlobalStatements p.answer chain))
    else
      match data.body with
      | some body => return some (← BindM.isolated (p.bindBlock p.answer chain body))
      | none => return none
  | _, _ => return none

/-- The initializer of a field, if it has one, converted to the type of the field. -/
def bindInitializer (field : SymbolId) : BindM (Option (Evaluated Expr)) := do
  match ← BindM.regions (p.initializerChain field),
      (← p.symbols.field? field).bind (·.initializer) with
  | some chain, some initializer =>
    let target ← p.fieldTypeOf field []
    let evaluated ← BindM.isolated do
      p.convert (← p.bindValue p.answer chain initializer) target.value initializer
    return some evaluated
  | _, _ => return none

end Program
end Bindery
