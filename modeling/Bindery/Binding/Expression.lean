import Bindery.Binding.Name
import Bindery.Binding.Operation
import Bindery.Bound.TypeOrConstant

/-!
# Types and expressions

Binding types, template arguments and expressions. The three call each other, always on a child of
the node at hand or on the same node in a simpler role: an expression may be a type, and a template
argument may be either.

* `bindType` gives the type that a node names, `bindExpression` the expression at a node, checked
  against what its position asks.
* `bindTemplateArgument` gives the argument for a template parameter: a constant where the parameter
  stands for constants, else a type.
-/

namespace Bindery
namespace Program

variable (p : Program) (ask : Asker)

/-! ### Pieces without recursion -/

/-- A name that stands for a type by itself: a primitive type or a template parameter. -/
def simpleType? (chain : Chain) (name : String) : Except Fault (Option Ty) := do
  match Primitive.ofName? name with
  | some primitive => return some (.primitive primitive)
  | none => return (← chain.lookupTemplateParameter? p name).map .parameter

/-- The class that a name refers to. -/
def bindDefinition (chain : Chain) (name : String) (node : NodeId) : BindM (Option SymbolId) := do
  let definition ←
    match ← chain.lookup p name node with
    | .symbols found => found.findM? fun symbol => p.symbols.isType symbol
    | _ => pure none
  match definition with
  | none =>
    p.report node .unknownType [name]
    return none
  | some definition =>
    if ← chain.isAccessible p definition then return some definition
    p.report node .inaccessible [name]
    return none

/-- Bind one argument after the other until one of them is an error. -/
def collectArguments {α : Type} (bind : α → BindM TypeOrConstant) :
    List α → BindM (Option (List TemplateArgument))
  | [] => return some []
  | argument :: rest => do
    let bound ← bind argument
    if bound.ty.isError then return none
    return (← collectArguments bind rest).map (bound.toArgument :: ·)

/-- The argument that a constant expression gives for a template parameter of type `type`. -/
def constantArgument (parameter : SymbolId) (type : Ty) (argument : NodeId) (e : Expr) :
    BindM TypeOrConstant := do
  let value ← p.convert e type argument
  match value.constant with
  | some constant => return .constant constant type argument
  | none =>
    if !value.isError then
      p.report argument .templateMustBeConstant [← p.symbols.name parameter]
    return .type .error

/-- `receiver?.access`, which is `null` where the receiver is. -/
def conditionalAccess (receiver access : Expr) (node : NodeId) : Expr :=
  if access.isError then .error node
  else
    let type := if access.type.isVoid then access.type else access.type.asNullable
    .plain (.conditionalAccess receiver access) type node

/-- What stands for the receiver inside `?.`. -/
def receiverPlaceholder (receiver : Expr) : Expr :=
  .plain .conditionalReceiver receiver.type.asNonNullable receiver.node

/-! ### The recursion -/

mutual

/-- The type that a node names, or the error type after reporting why it names none. -/
def bindType (chain : Chain) (node : NodeId) : BindM Ty := do
  match _h : p.tree.node? node with
  | some (.nullableType element) =>
    let type ← bindType chain element
    return if type.isError || type.isVoid then type else type.asNullable
  | some (.typeName name arguments isUnbound) =>
    let simple ←
      if arguments.isEmpty && !isUnbound then p.simpleType? chain name else pure none
    match simple with
    | some type => return type
    | none =>
      match ← p.bindDefinition chain name node with
      | none => return .error
      | some definition =>
        let parameters ← p.symbols.templateParameters definition
        if isUnbound then
          if chain.allowsUnboundType then return .named definition
          p.report node .unboundTemplate [name]
          return .error
        else if arguments.length ≠ parameters.length then
          p.report node .templateArgumentCount
            [name, toString parameters.length, toString arguments.length]
          return .error
        else if parameters.isEmpty then return .named definition
        else
          let bound ← collectArguments (fun (parameter, ⟨argument, _⟩) =>
            bindTemplateArgument chain parameter argument) (parameters.zip arguments.attach)
          match bound with
          | none => return .error
          | some arguments => return ⟨.constructed definition arguments, false⟩
  | some _ =>
    p.report node .unknownType [p.tree.textOf node]
    return .error
  | none => throw (p.tree.missing node)
termination_by (node, 0)
decreasing_by
  all_goals
    apply Prod.Lex.left
    apply p.tree.child_lt _h
    simp_all

/-- The argument for a template parameter. A constant may be written as a name, which then looks
like a type. -/
def bindTemplateArgument (chain : Chain) (parameter : SymbolId) (node : NodeId) :
    BindM TypeOrConstant := do
  match ← ask (.constantParameterType parameter) with
  | none => return .type (← bindType chain node)
  | some type =>
    let value ←
      match p.tree.node? node with
      | some (.typeName name [] false) =>
        p.checkValueKind (← p.bindName ask chain name node) .rvalue
      | some (.typeName ..) | some (.nullableType _) =>
        p.reject node .templateMustBeConstant [← p.symbols.name parameter] node
      | _ => bindExpression chain node .rvalue
    p.constantArgument parameter type node value
termination_by (node, 3)
decreasing_by all_goals (apply Prod.Lex.right; decide)

/-- The expression at a node, whatever its position asks. A node of another kind, such as a
statement, gives the error expression and nothing is reported. -/
def bindUnchecked (chain : Chain) (node : NodeId) (kind : ValueKind) : BindM Expr := do
  match _h : p.tree.node? node with
  | some (.literal value) => return .ofLiteral value node
  | some (.identifier name) => p.bindName ask chain name node
  | some (.memberAccess receiver name) =>
    let receiver ← bindExpression chain receiver .insignificant
    p.bindMemberAccess ask chain receiver name node
  | some (.conditionalAccess receiver access) =>
    let receiver ← bindExpression chain receiver .rvalue
    if receiver.isError then return .error node
    let inner := Chain.push chain (.conditionalReceiver (receiverPlaceholder receiver)) {}
    return conditionalAccess receiver (← bindExpression inner access kind) node
  | some (.memberBinding name) =>
    match chain.conditionalReceiver? with
    | some receiver => p.bindMemberAccess ask chain receiver name node
    | none => p.reject node .bindingOutsideConditional [name] node
  | some (.call callee arguments) =>
    let target ← bindExpression chain callee .rvalueOrMethods
    let arguments ← arguments.attach.mapM fun ⟨argument, _⟩ => do
      match _h' : p.tree.node? argument with
      | some (.argument name expression) =>
        return (⟨name, ← bindExpression chain expression .rvalue, argument⟩ : Argument)
      | _ => return (⟨none, ← bindExpression chain argument .rvalue, argument⟩ : Argument)
    p.bindCall ask chain target callee arguments node
  | some (.argument _ expression) => bindUnchecked chain expression kind
  | some (.assignment operator left right) =>
    let place ← bindExpression chain left
      (if operator.isSome then .compoundAssignment else .assignable)
    let value ← bindExpression chain right .rvalue
    p.bindAssignment operator place value right node
  | some (.binary operator left right) =>
    let a ← bindExpression chain left .rvalue
    let b ← bindExpression chain right .rvalue
    p.bindBinary operator a b left right node
  | some (.unary operator operand) =>
    let value ← bindExpression chain operand
      (if operator.writesBack then .increment else .rvalue)
    p.bindUnary operator value node
  | some (.cast type expression) =>
    let target ← bindType chain type
    let operand ← bindExpression chain expression .rvalue
    p.convertWith true operand target node
  | some (.typeOf type) =>
    let type ← bindType (Chain.push chain .unboundTypeAllowed {}) type
    return if type.isError then .error node else .plain (.typeOf type) (.primitive .type) node
  | some (.typeName ..) | some (.nullableType _) =>
    let type ← bindType chain node
    return if type.isError then .error node else .plain .type type node
  | some _ => return .error node
  | none => throw (p.tree.missing node)
termination_by (node, 1)
decreasing_by
  all_goals first
    | (apply Prod.Lex.right; decide)
    | (apply Prod.Lex.left
       apply p.tree.child_lt _h
       simp_all
       done)
    | (apply Prod.Lex.left
       refine Nat.lt_trans (p.tree.child_lt _h' (by simp)) (p.tree.child_lt _h ?_)
       simp_all)

/-- The expression at a node, checked against what its position asks. -/
def bindExpression (chain : Chain) (node : NodeId) (kind : ValueKind) : BindM Expr := do
  p.checkValueKind (← bindUnchecked chain node kind) kind
termination_by (node, 2)
decreasing_by (apply Prod.Lex.right; decide)

end

def bindValue (chain : Chain) (node : NodeId) : BindM Expr := p.bindExpression ask chain node .rvalue

/-- The type of a variable, which is not `void`. -/
def bindVariableType (chain : Chain) (node : NodeId) (name : String) : BindM Ty := do
  let type ← p.bindType ask chain node
  if type.isVoid then
    p.report node .voidVariable [name]
    return .error
  return type

end Program
end Bindery
