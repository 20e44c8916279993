import Bindery.Binding.Expression

/-!
# Statements

Binding statements and blocks. Every statement is bound under the chain that its node has in the
region at hand; a node without one is bound under the chain of what it stands in.

Binding a declaration publishes what it finds: the type and the constant of a local, the signature
and the default values of a local function.
-/

namespace Bindery
namespace Program

variable (p : Program) (ask : Asker)

/-- A condition, converted to `bool`. -/
def bindCondition (chain : Chain) (node : NodeId) : BindM Expr := do
  p.convert (← p.bindValue ask chain node) (.primitive .bool) node

/-! ### Local declarations -/

/-- Run a computation and tell whether it needed a constant that is not known. -/
def watchingConstants {α : Type} (m : BindM α) : BindM (α × Bool) := do
  let before ← BindM.sawBadConstant
  modify fun s => { s with pass := { s.pass with sawBadConstant := false } }
  let value ← m
  let saw ← BindM.sawBadConstant
  modify fun s => { s with pass := { s.pass with sawBadConstant := saw || before } }
  return (value, saw)

/-- The initializer of a local, converted to the declared type if there is one. The local itself
cannot be used in it. -/
def bindLocalInitializer (chain : Chain) (target : Local) (declared : Option Ty) (node : NodeId) :
    BindM Expr := do
  let value ← p.bindValue ask (Chain.push chain (.localInProgress target) {}) node
  match declared with
  | some type => p.convert value type node
  | none => return value

/-- The type of a local: the declared one, or that of its initializer. -/
def localTypeOf (declared : Option Ty) (initializer : Option Expr) (name : String) (node : NodeId) :
    BindM Ty := do
  match declared, initializer with
  | some type, _ => return type
  | none, some value =>
    if value.type.isNull then
      p.report node .implicitNull [name]
      return .error
    return value.type
  | none, none =>
    p.report node .implicitWithoutInitializer [name]
    return .error

def localConstantOf (initializer : Option Expr) (sawBadConstant : Bool) (name : String)
    (node : NodeId) : BindM (Option Constant) := do
  match initializer with
  | none =>
    p.report node .constantWithoutInitializer [name]
    return none
  | some value =>
    if value.constant.isNone && !value.isError && !sawBadConstant then
      p.report value.node .notConstant [name]
    return value.constant

def bindLocalDeclaration (chain : Chain) (name : String) (type : Option NodeId) (isConstant : Bool)
    (initializer : Option NodeId) (node : NodeId) : BindM Statement := do
  match ← chain.localAt? p node with
  | none => throw .localWithoutScope
  | some target =>
    if (← chain.lookupLocal? p name node).any fun existing => existing.declaration ≠ node then
      p.report node .variableAlreadyDeclared [name]
    let declared ← type.mapM fun type => p.bindVariableType ask chain type name
    let (value, sawBadConstant) ← watchingConstants
      (initializer.mapM (p.bindLocalInitializer ask chain target declared))
    let found ← p.localTypeOf declared value name node
    BindM.modifyFindings fun f => { f with localTypes := f.localTypes.publish target.key found }
    if isConstant then
      let constant ← p.localConstantOf value sawBadConstant name node
      BindM.modifyFindings fun f =>
        { f with localConstants := f.localConstants.publish target.key constant }
    return .localDeclaration target value

/-! ### Local functions -/

/-- Report parameters whose names are taken by earlier ones. -/
def checkParameterNames : List Local → List String → BindM Unit
  | [], _ => return ()
  | parameter :: rest, seen => do
    if parameter.name ∈ seen then
      p.report parameter.declaration .parameterAlreadyDeclared [parameter.name]
    checkParameterNames rest (parameter.name :: seen)

/-- The types of a local function's parameters and its return type. -/
def bindFunctionSignature (chain : Chain) (function : LocalFunction) : BindM Signature := do
  let parameters ← function.parameters.mapM fun parameter =>
    match parameter.type with
    | some type => p.bindVariableType ask chain type parameter.name
    | none => return Ty.error
  let returnType ←
    match function.returnType with
    | some type => p.bindType ask chain type
    | none => pure .void
  return ⟨parameters, returnType⟩

/-- The default value of a parameter of type `type`, which has to be constant. -/
def bindDefault (chain : Chain) (node : NodeId) (type : Ty) (name : String) : BindM Expr := do
  let value ← p.convert (← p.bindValue ask chain node) type node
  if value.constant.isNone && !value.isError then
    p.report node .notConstant [name]
  return value

def bindFunctionDefaults (chain : Chain) (function : LocalFunction) (types : List Ty) :
    BindM (List (Option Expr)) :=
  (function.parameters.zip types).mapM fun (parameter, type) => do
    match p.tree.node? parameter.declaration with
    | some (.parameter _ _ (some node)) =>
      let frame := Chain.push (← chain.innerOrSelf p parameter.declaration) (.plain none)
        { inDefaultValue := true }
      return some (← p.bindDefault ask frame node type parameter.name)
    | _ => return none

/-- Bind everything of a local function but its body. -/
def bindFunctionHead (chain : Chain) (node : NodeId) : BindM LocalFunction := do
  match ← chain.functionAt? p node with
  | none => throw .functionWithoutScope
  | some function =>
    p.checkParameterNames function.parameters []
    let signature ← p.bindFunctionSignature ask chain function
    BindM.modifyFindings (·.publishFunctionSignature function signature)
    let published := ((← BindM.findings).functionSignature? function).getD signature
    let defaults ← p.bindFunctionDefaults ask chain function published.parameters
    BindM.modifyFindings fun f =>
      { f with functionDefaults := f.functionDefaults.publish function.key defaults }
    return function

/-! ### Jumps -/

/-- Name and return type of the function that a `return` leaves. -/
def returnTarget (chain : Chain) : BindM (String × Ty) := do
  match chain.method? with
  | some (.symbol method) =>
    return (← p.symbols.name method, (← ask (.signature method)).value.returnType)
  | some (.function function) =>
    let signature := (← BindM.findings).functionSignature? function
    return (function.name, (signature.map (·.returnType)).getD .error)
  | none => return ("", .error)

/-- A `return`, with a value exactly if the function gives one. -/
def bindReturn (chain : Chain) (expression : Option NodeId) (node : NodeId) : BindM Statement := do
  if chain.flags.inFinally then
    p.report node .returnInFinally []
  let (name, type) ← p.returnTarget ask chain
  match expression with
  | none =>
    if !type.isVoid && !type.isError then
      p.report node .missingReturnValue [name, ← type.display p.symbols]
    return .returnValue none
  | some expression =>
    if type.isVoid then
      let _ ← p.bindExpression ask chain expression .insignificant
      p.report expression .unexpectedReturnValue [name]
      return .returnValue none
    else
      let value ← p.convert (← p.bindValue ask chain expression) type expression
      return .returnValue (some value)

/-- A jump to a label, if there is one. -/
def jump (target : Option Label) (statement : Label → Statement) (node : NodeId) (message : Message)
    (name : String) : BindM Statement := do
  match target with
  | some label => return statement label
  | none =>
    p.report node message [name]
    return .error node

/-! ### Scopes -/

/-- The locals of the innermost frame, if there is one and it is a scope of statements. -/
def ownLocals (chain : Option Chain) : Except Fault (List Local) := do
  match chain with
  | some (frame :: _) => return ((← frame.declarations? p).map (·.locals)).getD []
  | _ => return []

/-! ### The recursion -/

mutual

def bindStatement (chain : Chain) (node : NodeId) : BindM Statement := do
  let chain ← chain.innerOrSelf p node
  match _h : p.tree.node? node with
  | some (.block statements) =>
    let chain ← chain.innerOrSelf p node
    let statements ← statements.attach.mapM fun ⟨statement, _⟩ => bindStatement chain statement
    return .block statements (← chain.scopeLocals p)
  | some (.localDeclaration name type isConstant initializer) =>
    p.bindLocalDeclaration ask chain name type isConstant initializer node
  | some (.localFunction _ _ _ body) =>
    let function ← p.bindFunctionHead ask chain node
    return .ofFunction function (← bindBlock chain body)
  | some (.expressionStatement expression) =>
    return .expression (← p.bindExpression ask chain expression .insignificant)
  | some (.ifStatement condition thenStatement elseStatement) =>
    let condition ← p.bindCondition ask chain condition
    let thenStatement ← bindStatement chain thenStatement
    let elseStatement ← elseStatement.attach.mapM fun ⟨statement, _⟩ =>
      bindStatement chain statement
    return .ifElse condition thenStatement elseStatement
  | some (.whileStatement condition body) =>
    match chain.loop? with
    | none => throw .whileWithoutLoop
    | some loop =>
      let condition ← p.bindCondition ask chain condition
      return .whileLoop condition (← bindStatement chain body) (.breakOf loop) (.continueOf loop)
  | some .breakStatement => p.jump chain.breakLabel? .breakTo node .jumpOutsideLoop "break"
  | some .continueStatement =>
    p.jump chain.continueLabel? .continueTo node .jumpOutsideLoop "continue"
  | some (.returnStatement expression) => p.bindReturn ask chain expression node
  | some (.tryStatement body catchBody finallyBody) =>
    let body ← bindStatement chain body
    let catchBody ← catchBody.attach.mapM fun ⟨clause, _⟩ => bindStatement chain clause
    let finallyBody ← finallyBody.attach.mapM fun ⟨clause, _⟩ => bindStatement chain clause
    return .tryCatch body catchBody finallyBody
  | some (.labeled name statement) =>
    match ← chain.labelAt? p node with
    | none => throw .labelWithoutScope
    | some label =>
      if (← chain.lookupLabel? p name).any fun found => found.declaration ≠ node then
        p.report node .duplicateLabel [name]
      return .labeled label (← bindStatement chain statement)
  | some (.goto name) => p.jump (← chain.lookupLabel? p name) .goto node .undefinedLabel name
  | some other =>
    if other.isExpression then
      return .expression (← p.bindExpression ask chain node .insignificant)
    p.report node .notAStatement [other.label]
    return .error node
  | none => throw (p.tree.missing node)
termination_by (node, 0)
decreasing_by
  all_goals
    apply Prod.Lex.left
    apply p.tree.child_lt _h
    simp_all

/-- A block, or a single statement in its place. -/
def bindBlock (chain : Chain) (node : NodeId) : BindM Block := do
  match _h : p.tree.node? node with
  | some (.block statements) =>
    let chain ← chain.innerOrSelf p node
    let statements ← statements.attach.mapM fun ⟨statement, _⟩ => bindStatement chain statement
    return ⟨statements, ← chain.scopeLocals p⟩
  | some _ =>
    let locals ← p.ownLocals (← chain.inner? p node)
    return ⟨[← bindStatement chain node], locals⟩
  | none => throw (p.tree.missing node)
termination_by (node, 1)
decreasing_by
  all_goals first
    | (apply Prod.Lex.right; decide)
    | (apply Prod.Lex.left
       apply p.tree.child_lt _h
       simp_all)

end

/-- The global statements of the compilation unit as one block. -/
def bindGlobalStatements (region : Chain) : BindM Block := do
  let chain ← region.innerOrSelf p p.tree.root
  let statements ← p.tree.globalStatements.mapM (p.bindStatement ask chain)
  return ⟨statements, ← chain.scopeLocals p⟩

end Program
end Bindery
