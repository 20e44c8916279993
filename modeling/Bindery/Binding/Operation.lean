import Bindery.Binding.Request
import Bindery.Bound.Overload

/-!
# Calls and operators

What is left to do once the operands of an expression are bound: choosing the method of a call,
converting operands and folding constants.
-/

namespace Bindery
namespace Program

variable (p : Program) (ask : Asker)

/-! ### Calls -/

/-- Resolve a call and report its diagnostics. -/
def resolve {α : Type} (candidates : List (Candidate α)) (arguments : List Argument)
    (node : NodeId) : BindM (Resolution α) := do
  let (resolution, diagnostics) ← Resolution.resolve p.tree p.symbols candidates arguments node
  diagnostics.forM BindM.push
  return resolution

/-- The default value of a parameter as calls see it. One that is not published yet makes the
parameter optional all the same. -/
def candidateDefault (parameter : SymbolId) : BindM (Option Expr) := do
  match (← p.symbols.parameter? parameter).bind (·.defaultValue) with
  | none => return none
  | some node =>
    let published := ((← BindM.findings).defaults.get? parameter).bind (·.value)
    return some (published.getD (.error node))

/-- A method as calls see it. -/
def methodCandidate (method : SymbolId) : BindM (Candidate SymbolId) := do
  let signature ← ask (.signature method)
  let parameters ← ((← p.symbols.parameters method).zip signature.value.parameters).mapM
    fun (parameter, type) => do
      return { name := ← p.symbols.name parameter, type,
               defaultValue := ← p.candidateDefault parameter : CandidateParameter }
  return { overload := method, name := ← p.symbols.name method, parameters }

/-- Call one of several methods. Low-level methods are only called from low-level code. -/
def callMethod (chain : Chain) (receiver : Option Expr) (methods : List SymbolId)
    (arguments : List Argument) (node : NodeId) : BindM Expr := do
  let candidates ← methods.mapM (p.methodCandidate ask)
  match ← p.resolve candidates arguments node with
  | .succeeded method arguments =>
    if (← p.symbols.method? method).any (·.isLowLevel) && !chain.flags.lowLevel then
      p.report node .lowLevelRequired [← p.symbols.name method]
    let signature ← ask (.signature method)
    return .plain (.call receiver method arguments) signature.value.returnType node
  | _ => return .error node

/-- The signature of a local function. Before its declaration is bound, the signature is bound in
the scope of the declaration, which will report what is wrong with it. -/
def signatureOfFunction (chain : Chain) (function : LocalFunction) : BindM Signature := do
  match (← BindM.findings).functionSignature? function with
  | some signature => return signature
  | none =>
    let scope ← chain.enclosing p function.declaration
    let signature ← ask (.functionSignature scope function)
    BindM.modifyFindings (·.publishFunctionSignature function signature)
    return ((← BindM.findings).functionSignature? function).getD signature

/-- Call a local function. Its default values count once its declaration is bound. -/
def callFunction (chain : Chain) (function : LocalFunction) (arguments : List Argument)
    (node : NodeId) : BindM Expr := do
  let signature ← p.signatureOfFunction ask chain function
  let defaults := ((← BindM.findings).functionDefaults? function).getD []
  let parameters := (function.parameters.zip signature.parameters).zipIdx.map
    fun ((parameter, type), index) =>
      { name := parameter.name, type, defaultValue := (defaults[index]?).join : CandidateParameter }
  let candidate : Candidate LocalFunction :=
    { overload := function, name := function.name, parameters }
  match ← p.resolve [candidate] arguments node with
  | .succeeded function arguments =>
    return .plain (.localCall function arguments) signature.returnType node
  | _ => return .error node

/-- Call what `callee` stands for. -/
def bindCall (chain : Chain) (callee : Expr) (calleeNode : NodeId) (arguments : List Argument)
    (node : NodeId) : BindM Expr := do
  if callee.isError then return .error node
  match callee.kind with
  | .methods receiver methods => p.callMethod ask chain receiver methods arguments node
  | .localFunction function => p.callFunction ask chain function arguments node
  | _ => p.reject calleeNode .notCallable [p.tree.textOf calleeNode] node

/-! ### Operators -/

def rejectBinary (op : BinaryOp) (left right : Ty) (node : NodeId) : BindM Expr := do
  p.reject node .invalidBinary (op.text :: (← p.displayBoth left right)) node

/-- The right side of an assignment as it is stored, or as the operator of a compound assignment
takes it; the result of that operator has to go back into the left side. -/
def assignedValue (operator : Option BinaryOp) (left right : Expr) (rightNode node : NodeId) :
    BindM Expr := do
  match operator with
  | none => p.convert right left.type rightNode
  | some op =>
    match BinarySignature.of? op left.type right.type with
    | none => p.rejectBinary op left.type right.type node
    | some signature =>
      let cast ← signature.result.conversion p.symbols left.type
      if cast.isImplicit then p.convert right signature.right rightNode
      else
        let message := if cast.isPossible then Message.onlyExplicitConversion else .noConversion
        p.reject node message (← p.displayBoth signature.result left.type) node

def bindAssignment (operator : Option BinaryOp) (left right : Expr) (rightNode node : NodeId) :
    BindM Expr := do
  if left.isError || right.isError then return .error node
  let value ← p.assignedValue operator left right rightNode node
  if value.isError then return .error node
  return .plain (.assignment operator left value) left.type node

/-- An ordering comparison with `null` is always `null`. -/
def bindBinary (op : BinaryOp) (left right : Expr) (leftNode rightNode node : NodeId) :
    BindM Expr := do
  if left.isError || right.isError then return .error node
  match BinarySignature.of? op left.type right.type with
  | none => p.rejectBinary op left.type right.type node
  | some signature =>
    let left ← p.convert left signature.left leftNode
    let right ← p.convert right signature.right rightNode
    if op.isRelational && (left.constant = some .null || right.constant = some .null) then
      p.report node .alwaysValue ["null"]
      return .mk (.binary op left right) signature.result.asNullable (some .null) node
    else
      let constant :=
        match left.constant, right.constant with
        | some a, some b => Constant.foldBinary op a b
        | _, _ => none
      return .mk (.binary op left right) signature.result constant node

def bindUnary (op : UnaryOp) (operand : Expr) (node : NodeId) : BindM Expr := do
  if operand.isError then return .error node
  if op.accepts operand.type then
    return .mk (.unary op operand) operand.type (operand.constant.bind (Constant.foldUnary op)) node
  else p.reject node .invalidUnary [op.text, ← operand.type.display p.symbols] node

end Program
end Bindery
