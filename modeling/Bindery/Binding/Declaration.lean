import Bindery.Binding.ConstantOrder
import Bindery.Binding.Statement

/-!
# Declarations

Answering requests about declarations: signatures, field types, constants, the types of template
parameters. An answer may ask for others in turn, so requests are answered up to a depth that only a
program that asks in circles reaches.

* A signature that needs itself sees error types.
* A field whose inferred type needs itself is reported, and has the error type from then on.
* A constant asked for while another is computed is written down as a dependency and is not known.
  Asked for otherwise, it is computed after everything it depends on.
-/

namespace Bindery
namespace Program

variable (p : Program) (ask : Asker)

/-! ### Signatures -/

def bindSignature (method : SymbolId) : BindM Signature := do
  let chain ← BindM.regions (p.signatureChain method)
  let parameters ← (← p.symbols.parameters method).mapM fun parameter => do
    match ← p.symbols.parameter? parameter with
    | some data => p.bindVariableType ask chain data.type (← p.symbols.name parameter)
    | none => return Ty.error
  let returnType ←
    match (← p.symbols.method? method).bind (·.returnType) with
    | some type => p.bindType ask chain type
    | none => pure .void
  return ⟨parameters, returnType⟩

/-- What a signature looks like from inside itself. -/
def unknownSignature (method : SymbolId) : Except Fault Signature :=
  return ⟨(← p.symbols.parameters method).map fun _ => .error, .error⟩

def signature (method : SymbolId) : BindM (Evaluated Signature) := do
  let findings ← BindM.findings
  match findings.signatures.get? method with
  | some known => return known
  | none =>
    if method ∈ findings.signaturesInProgress then
      return ⟨← p.unknownSignature method, {}⟩
    BindM.modifyFindings fun f =>
      { f with signaturesInProgress := method :: f.signaturesInProgress }
    let evaluated ← BindM.isolated (p.bindSignature ask method)
    BindM.modifyFindings fun f =>
      { f with
        signaturesInProgress := f.signaturesInProgress.erase method
        signatures := f.signatures.publish method evaluated }
    return ((← BindM.findings).signatures.get? method).getD evaluated

/-! ### Field types -/

/-- The type of the initializer of a field that declares none. -/
def inferFieldType (field : SymbolId) (data : FieldData) (beingBound : List SymbolId) :
    BindM Ty := do
  let name ← p.symbols.name field
  let declaration ← p.declarationOrRoot field
  match ← BindM.regions (p.initializerChain field) with
  | none =>
    p.report declaration .implicitWithoutInitializer [name]
    return .error
  | some chain =>
    let initializer := data.initializer.getD declaration
    let chain := Chain.push chain (.fieldsBeingBound (field :: beingBound)) {}
    let value ← BindM.quietly (p.bindValue ask chain initializer)
    if value.type.isNull then
      p.report initializer .implicitNull [name]
      return .error
    return value.type

def bindFieldType (field : SymbolId) (beingBound : List SymbolId) : BindM Ty := do
  match ← p.symbols.field? field with
  | none => return .error
  | some data =>
    match data.type with
    | some type =>
      let chain ← BindM.regions (p.fieldChain field)
      p.bindVariableType ask chain type (← p.symbols.name field)
    | none => p.inferFieldType ask field data beingBound

def fieldType (field : SymbolId) (beingBound : List SymbolId) : BindM (Evaluated Ty) := do
  match (← BindM.findings).fieldTypes.get? field with
  | some known => return known
  | none =>
    let evaluated ← BindM.isolated do
      if field ∈ beingBound then
        p.report (← p.declarationOrRoot field) .circularFieldType [← p.symbols.name field]
        return .error
      else p.bindFieldType ask field beingBound
    BindM.modifyFindings fun f =>
      { f with fieldTypes := f.fieldTypes.publish field evaluated }
    return ((← BindM.findings).fieldTypes.get? field).getD evaluated

/-! ### Constants -/

/-- The value of a constant from its initializer, and the constants it needs that are not known. -/
def constantValue (field : SymbolId) (chain : Chain) (initializer : NodeId) :
    BindM (Expr × List SymbolId) := do
  let tracker ← BindM.newTracker field
  let chain := Chain.push chain (.constantFields (some tracker)) {}
  let value ← p.bindValue ask chain initializer
  let target ← ask (.fieldType field [])
  let value ← p.convert value target.value initializer
  return (value, ← BindM.dependencies (some tracker))

def concludeConstant (startsCycle : Bool) (name : String) (declaration initializer : NodeId)
    (value : Expr) : BindM FieldConstant := do
  if startsCycle then
    p.report declaration .circularConstant [name]
    return .bad
  match value.constant with
  | some constant => return .value constant
  | none =>
    if !(← BindM.sawBadConstant) && !value.isError then
      p.report initializer .notConstant [name]
    return .bad

/-- The constant of a field, and the constants it needs that are not known. -/
def bindConstant (field : SymbolId) (startsCycle : Bool) :
    BindM (FieldConstant × List SymbolId) := do
  let name ← p.symbols.name field
  let declaration ← p.declarationOrRoot field
  match ← BindM.regions (p.initializerChain field),
      (← p.symbols.field? field).bind (·.initializer) with
  | some chain, some initializer =>
    let (value, dependencies) ← p.constantValue ask field chain initializer
    return (← p.concludeConstant startsCycle name declaration initializer value, dependencies)
  | _, _ =>
    p.report declaration .constantWithoutInitializer [name]
    return (.bad, [])

/-- Compute a constant as a pass of its own. -/
def evaluateConstant (field : SymbolId) (startsCycle : Bool) :
    BindM (Evaluated FieldConstant × List SymbolId) := do
  let evaluated ← BindM.isolated (p.bindConstant ask field startsCycle)
  return (⟨evaluated.value.1, evaluated.diagnostics⟩, evaluated.value.2)

def publishConstant (field : SymbolId) (evaluated : Evaluated FieldConstant) : BindM Unit :=
  BindM.modifyFindings fun f => { f with constants := f.constants.publish field evaluated }

/-- The constants that a constant needs and that are not known. One that needs none is published. -/
def dependenciesOf (field : SymbolId) : BindM (List SymbolId) := do
  if (← BindM.findings).constants.contains field then return []
  let (evaluated, dependencies) ← p.evaluateConstant ask field false
  if dependencies.isEmpty then
    publishConstant field evaluated
  return dependencies

/-- Add the constants on `pending`, last ones first, and all they need. At most `budget` are
added. -/
def explore (budget : Nat) (pending : List SymbolId) (graph : DependencyGraph) :
    BindM DependencyGraph := do
  match budget, pending with
  | _, [] => return graph
  | budget, field :: rest =>
    if graph.contains field then explore budget rest graph
    else
      match budget with
      | 0 => return graph
      | budget + 1 =>
        let dependencies ← p.dependenciesOf ask field
        explore budget (dependencies.reverse ++ rest) (graph.insert field dependencies)
termination_by (budget, pending.length)

/-- Publish the constant of a field, unless one is known. -/
def takeConstant (field : SymbolId) (startsCycle : Bool) : BindM Unit := do
  if !(← BindM.findings).constants.contains field then
    let (evaluated, _) ← p.evaluateConstant ask field startsCycle
    publishConstant field evaluated

/-- The constant of a field as seen by what `tracker` tracks, if it is known. -/
def fieldConstant (field : SymbolId) (tracker : Option Tracker) :
    BindM (Option (Evaluated FieldConstant)) := do
  match (← BindM.findings).constants.get? field with
  | some known => return some known
  | none =>
    if tracker.isSome then
      BindM.record tracker field
      return none
    let graph ← p.explore ask (p.symbols.size + 1) [field] {}
    let order ← graph.order
    order.forM fun (field, startsCycle) => p.takeConstant ask field startsCycle
    return (← BindM.findings).constants.get? field

/-! ### Template parameters -/

/-- The type of the constants that a template parameter stands for. What is wrong with it is
reported with the class. -/
def constantParameterType (parameter : SymbolId) : BindM (Option Ty) := do
  match (← p.symbols.templateParameter? parameter).bind (·.constantType),
      ← p.symbols.containing? parameter with
  | some type, some owner =>
    let chain ← BindM.regions (p.containerChain (← p.symbols.containers owner))
    return some (← BindM.quietly (p.bindType ask chain type))
  | _, _ => return none

/-! ### Answering -/

/-- Answer a request, asking for whatever it needs. -/
def perform : Asker
  | .signature method => p.signature ask method
  | .fieldType field beingBound => p.fieldType ask field beingBound
  | .fieldConstant field tracker => p.fieldConstant ask field tracker
  | .constantParameterType parameter => p.constantParameterType ask parameter
  | .functionSignature scope function =>
    BindM.quietly (p.bindFunctionSignature ask scope function)

/-- Answer requests that lead to others at most `depth` deep. -/
def answerWithin : Nat → Asker
  | 0 => fun _ => throw .endlessRequests
  | depth + 1 => fun request => p.perform (answerWithin depth) request

def answer : Asker := p.answerWithin p.requestDepth

end Program
end Bindery
