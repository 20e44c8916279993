import Bindery.Bound.Statement
import Bindery.Diagnostic
import Bindery.Scope.Region
import Bindery.Types.Folding
import Bindery.Types.Operation

/-!
# Binding

Binding walks the syntax of a declaration under a chain of scopes. It reports diagnostics, and on
the way it finds out facts about other declarations: signatures, field types, constants, default
values. Each fact is published once; the first one published stays.

* **Findings**: the published facts, shared by everything that is bound.
* **Pass**: the diagnostics of the declaration being bound, and whether a constant in it is not
  known.
* `isolated` runs a computation as a pass of its own and gives its result with its diagnostics.
-/

namespace Bindery

/-- A result with the diagnostics of computing it. -/
structure Evaluated (α : Type) where
  value : α
  diagnostics : DiagnosticQueue

/-- The types of the parameters and of the result. -/
structure Signature where
  parameters : List Ty
  returnType : Ty
deriving DecidableEq

/-- What is known of the constant of a field. -/
inductive FieldConstant where
  | value (constant : Constant)
  /-- The initializer is not constant, is circular, or needs a bad constant; the cause has been
  reported. -/
  | bad
deriving DecidableEq, Repr

namespace FieldConstant

def constant? : FieldConstant → Option Constant
  | value constant => some constant
  | bad => none

def isBad : FieldConstant → Bool
  | value _ => false
  | bad => true

end FieldConstant

/-- The published facts. -/
structure Findings where
  regions : RegionCache := {}
  constants : Registry SymbolId (Evaluated FieldConstant) := {}
  fieldTypes : Registry SymbolId (Evaluated Ty) := {}
  signatures : Registry SymbolId (Evaluated Signature) := {}
  /-- Methods whose signatures are being bound. -/
  signaturesInProgress : List SymbolId := []
  defaults : Registry SymbolId (Evaluated (Option Expr)) := {}
  localTypes : Registry LocalKey Ty := {}
  localConstants : Registry LocalKey (Option Constant) := {}
  functionSignatures : Registry LocalKey Signature := {}
  functionDefaults : Registry LocalKey (List (Option Expr)) := {}
  ledgers : Ledgers := {}
  /-- The first number that is not yet used for a store; scopes of regions use `0`. -/
  nextStore : Nat := 1

namespace Findings

/-- The type of a local, once its declaration has been bound. -/
def localType? (f : Findings) (l : Local) : Option Ty := f.localTypes.get? l.key

/-- The constant of a local, once its declaration has been bound. -/
def localConstant? (f : Findings) (l : Local) : Option Constant :=
  (f.localConstants.get? l.key).join

def functionSignature? (g : Findings) (f : LocalFunction) : Option Signature :=
  g.functionSignatures.get? f.key

/-- The default values of a local function's parameters, once its declaration has been bound. -/
def functionDefaults? (g : Findings) (f : LocalFunction) : Option (List (Option Expr)) :=
  g.functionDefaults.get? f.key

/-- Publish the signature of a local function, and with it the types of its parameters. -/
def publishFunctionSignature (g : Findings) (f : LocalFunction) (signature : Signature) :
    Findings :=
  let signatures := g.functionSignatures.publish f.key signature
  let published := (signatures.get? f.key).getD signature
  { g with
    functionSignatures := signatures
    localTypes := (f.parameters.zip published.parameters).foldl
      (fun types (parameter, type) => types.publish parameter.key type) g.localTypes }

/-- How many chains are kept. -/
def regionsText (g : Findings) (fileName : String) : String :=
  "BinderFactory \x7b file: " ++ Text.quoted fileName ++ ", cached: " ++
    toString g.regions.size ++ " \x7d"

/-- How much has been published. -/
def text (g : Findings) (fileName : String) : String :=
  "BindingContext \x7b factory: " ++ g.regionsText fileName ++
    ", constants: " ++ toString g.constants.size ++
    ", field_types: " ++ toString g.fieldTypes.size ++
    ", signatures: " ++ toString g.signatures.size ++ " \x7d"

end Findings

/-- What one pass has seen. -/
structure Pass where
  diagnostics : DiagnosticQueue := {}
  /-- Whether a constant was needed that is bad or not yet known. -/
  sawBadConstant : Bool := false

structure BindState where
  findings : Findings := {}
  pass : Pass := {}

/-- Binding under the facts found so far. What was found before a fault remains. -/
abbrev BindM := EStateM Fault BindState

namespace BindM

def findings : BindM Findings := return (← get).findings

def modifyFindings (f : Findings → Findings) : BindM Unit :=
  modify fun s => { s with findings := f s.findings }

/-- A look at the kept chains, or a change of them. -/
def regions {α : Type} (m : RegionM α) : BindM α := fun s =>
  match m.run s.findings.regions with
  | .ok value regions => .ok value { s with findings := { s.findings with regions } }
  | .error fault regions => .error fault { s with findings := { s.findings with regions } }

def push (d : Diagnostic) : BindM Unit :=
  modify fun s => { s with pass := { s.pass with diagnostics := s.pass.diagnostics.push d } }

/-- Remember that a constant was needed that is not known. -/
def markBadConstant : BindM Unit :=
  modify fun s => { s with pass := { s.pass with sawBadConstant := true } }

def sawBadConstant : BindM Bool := return (← get).pass.sawBadConstant

/-- Run a computation as a pass of its own. -/
def isolated {α : Type} (m : BindM α) : BindM (Evaluated α) := do
  let outer := (← get).pass
  modify fun s => { s with pass := {} }
  let value ← m
  let inner := (← get).pass
  modify fun s => { s with pass := outer }
  return ⟨value, inner.diagnostics⟩

/-- Run a computation and drop its diagnostics. -/
def quietly {α : Type} (m : BindM α) : BindM α := return (← isolated m).value

/-- A tracker with a ledger of its own. -/
def newTracker (field : SymbolId) : BindM Tracker :=
  modifyGet fun s =>
    let (tracker, ledgers) := s.findings.ledgers.track field
    (tracker, { s with findings := { s.findings with ledgers } })

def dependencies (tracker : Option Tracker) : BindM (List SymbolId) :=
  return (← findings).ledgers.dependencies tracker

def record (tracker : Option Tracker) (field : SymbolId) : BindM Unit := do
  let ledgers ← (← findings).ledgers.record tracker field
  modifyFindings fun f => { f with ledgers }

/-- A number for the locals of a scope made anew. -/
def newStore : BindM Nat :=
  modifyGet fun s =>
    (s.findings.nextStore,
      { s with findings := { s.findings with nextStore := s.findings.nextStore + 1 } })

end BindM

namespace Program

variable (p : Program)

def diagnostic (node : NodeId) (message : Message) (args : List String) :
    Except Fault Diagnostic := do
  return .placed p.tree.fileName (← p.tree.span node) message args

def report (node : NodeId) (message : Message) (args : List String) : BindM Unit := do
  BindM.push (← p.diagnostic node message args)

/-- Report an error about an expression, which the error expression then stands for. -/
def reject (node : NodeId) (message : Message) (args : List String) (place : NodeId) :
    BindM Expr := do
  p.report node message args
  return .error place

/-- The declaring node of a symbol; symbols without one are placed at the compilation unit. -/
def declarationOrRoot (symbol : SymbolId) : Except Fault NodeId :=
  (·.getD p.tree.root) <$> p.symbols.declaration? symbol

/-- The texts of two types, for diagnostics. -/
def displayBoth (a b : Ty) : Except Fault (List String) :=
  return [← a.display p.symbols, ← b.display p.symbols]

/-- Convert an expression. With `explicit` any conversion will do, else only an implicit one. -/
def convertWith (explicit : Bool) (e : Expr) (target : Ty) (node : NodeId) : BindM Expr := do
  if e.isError || target.isError then return e
  let cast ← e.type.conversion p.symbols target
  if !cast.isPossible then
    p.reject node .noConversion (← p.displayBoth e.type target) e.node
  else if !explicit && !cast.isImplicit then
    p.reject node .onlyExplicitConversion (← p.displayBoth e.type target) e.node
  else
    let constant := e.constant.bind (·.foldConversion target cast)
    return (e.castTo target cast).withConstant constant

/-- Convert an expression where no cast is written. -/
def convert (e : Expr) (target : Ty) (node : NodeId) : BindM Expr :=
  p.convertWith false e target node

end Program
end Bindery
