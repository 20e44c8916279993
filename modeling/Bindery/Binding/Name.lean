import Bindery.Binding.Request
import Bindery.Scope.ValueKind

/-!
# Names and members

What a name stands for where it is written, what `receiver.name` stands for, and whether an
expression may stand where it does.
-/

namespace Bindery

/-- Why an expression cannot be assigned to. -/
inductive PlaceError where
  | constant (name : String)
  /-- The expression has a value at most. -/
  | noPlace

namespace Program

variable (p : Program) (ask : Asker)

/-! ### What a position asks -/

/-- What keeps an expression from being assigned to, if anything does. -/
def placeError? (e : Expr) : Except Fault (Option PlaceError) := do
  match e.kind with
  | .localVariable target =>
    return if target.isConstant then some (.constant target.name) else none
  | .parameter _ => return none
  | .field _ field =>
    if ← p.symbols.isConstantField field then return some (.constant (← p.symbols.name field))
    else return none
  | _ => return some .noPlace

/-- Whether an expression has no value to read. -/
def lacksValue (e : Expr) (kind : ValueKind) : Bool :=
  if e.isMethods then !kind.allowsMethods else e.isType || e.type.isVoid

/-- Check an expression against what its position asks. -/
def checkValueKind (e : Expr) (kind : ValueKind) : BindM Expr := do
  if e.isError then return e
  else if kind.needsPlace then
    match ← p.placeError? e with
    | none => return e
    | some (.constant name) => p.reject e.node .constantAssignment [name] e.node
    | some .noPlace => p.reject e.node .notAssignable [] e.node
  else if kind.needsValue && lacksValue e kind then
    p.reject e.node .noValue [] e.node
  else return e

/-! ### Names -/

/-- The type of a parameter, by its place in the signature of its method. -/
def parameterType (parameter : SymbolId) : BindM Ty := do
  match ← p.symbols.containing? parameter, ← p.symbols.parameter? parameter with
  | some method, some data =>
    let signature ← ask (.signature method)
    return (signature.value.parameters[data.ordinal]?).getD .error
  | _, _ => return .error

/-- A local, unless it is used in its own initializer. -/
def bindLocal (chain : Chain) (target : Local) (node : NodeId) : BindM Expr := do
  if chain.localInProgress?.any fun current => current.declaration = target.declaration then
    p.reject node .usedInOwnInitializer [target.name] node
  else
    let findings ← BindM.findings
    let type := (findings.localType? target).getD .error
    let constant := if target.isConstant then findings.localConstant? target else none
    return .mk (.localVariable target) type constant node

/-- The constant of a field, or nothing if it is not known yet. -/
def constantOfField (chain : Chain) (field : SymbolId) : BindM (Option Constant) := do
  let evaluated ← ask (.fieldConstant field chain.tracker?)
  let constant := evaluated.bind (·.value.constant?)
  if constant.isNone then BindM.markBadConstant
  return constant

/-- The members of one name that were found, as far as they are accessible. While field types are
inferred, constants are not asked for. -/
def bindMembers (chain : Chain) (receiver : Option Expr) (found : List SymbolId) (name : String)
    (node : NodeId) : BindM Expr := do
  let accessible ← found.filterM fun symbol => chain.isAccessible p symbol
  match accessible with
  | [] => p.reject node .inaccessible [name] node
  | first :: _ =>
    match ← p.symbols.kind first with
    | .method _ =>
      let methods ← accessible.filterM fun symbol => p.symbols.isMethod symbol
      return .plain (.methods receiver methods) .void node
    | .field data =>
      let type ← ask (.fieldType first chain.fieldsBeingBound)
      let constant ←
        if data.isConstant && chain.fieldsBeingBound.isEmpty then
          constantOfField ask chain first
        else pure none
      return .mk (.field receiver first) type.value constant node
    | .type _ => return .plain .type (.named first) node
    | _ => p.reject node .undefinedName [name] node

def bindName (chain : Chain) (name : String) (node : NodeId) : BindM Expr := do
  match ← chain.lookup p name node with
  | .localVariable target => p.bindLocal chain target node
  | .declaredLater _ => p.reject node .usedBeforeDeclaration [name] node
  | .localFunction function => return .plain (.localFunction function) .void node
  | .parameter parameter =>
    return .plain (.parameter parameter) (← p.parameterType ask parameter) node
  | .templateParameter parameter =>
    match ← ask (.constantParameterType parameter) with
    | some type => return .plain (.templateValue parameter) type node
    | none => return .plain .type (.parameter parameter) node
  | .symbols found => p.bindMembers ask chain none found name node
  | .empty =>
    match Primitive.ofName? name with
    | some primitive => return .plain .type (.primitive primitive) node
    | none => p.reject node .undefinedName [name] node

/-- `receiver.name`. Behind a type there is no receiver at run time. -/
def bindMemberAccess (chain : Chain) (receiver : Expr) (name : String) (node : NodeId) :
    BindM Expr := do
  if receiver.isError then return .error node
  let found ←
    match receiver.type.definition? with
    | some container => p.symbols.lookupInHierarchy container name
    | none => pure []
  if found.isEmpty then
    p.reject node .noSuchMember [← receiver.type.display p.symbols, name] node
  else
    p.bindMembers ask chain (if receiver.isType then none else some receiver) found name node

end Program
end Bindery
