import Bindery.Binding.Member
import Bindery.Proofs.Steps

/-! # Rules of binding

What it means that a piece of syntax is bound to something, as relations between the two.

* `Converts`, `Checks`, `Assigns`, `Combines` and `Negates` say what becomes of expressions that are
  bound already.
* `Derives p F f j trace` says that the judgement `j` about types, names or expressions was reached,
  leaving `trace`.  `f` are the findings from which its derivation started and `F` findings that
  came out later: what `f` holds was seen, and what was seen is in `F`.

Where an error is reported, a rule says no more than that; where binding succeeds, it says from what
the result is put together. -/

namespace Bindery

variable (p : Program)

/-! ### Expressions that are bound already -/

/-- Converting `e` to `target` gives the third expression. -/
inductive Converts (explicit : Bool) (e : Expr) (target : Ty) : Expr → Trace → Prop
  | same (h : (e.isError || target.isError) = true) : Converts explicit e target e []
  | refused (he : e.isError = false) (ht : target.isError = false) (h : trace.Refuses) :
      Converts explicit e target (.error e.node) trace
  | done {cast : Cast} (he : e.isError = false) (ht : target.isError = false)
      (hcast : e.type.conversion p.symbols target = .ok cast) (hpossible : cast.isPossible = true)
      (himplicit : explicit = true ∨ cast.isImplicit = true) :
      Converts explicit e target
        ((e.castTo target cast).withConstant (e.constant.bind (·.foldConversion target cast))) []

/-- The expression is what a position of this kind asks for. -/
def MeetsKind (e : Expr) (kind : ValueKind) : Prop :=
  if kind.needsPlace then p.placeError? e = .ok none
  else kind.needsValue = true → Program.lacksValue e kind = false

/-- The first expression stands as the second in a position of this kind. -/
inductive Checks (kind : ValueKind) (e : Expr) : Expr → Trace → Prop
  | broken (h : e.isError = true) : Checks kind e e []
  | passed (he : e.isError = false) (h : MeetsKind p e kind) : Checks kind e e []
  | refused (he : e.isError = false) (h : trace.Refuses) : Checks kind e (.error e.node) trace

/-- An assignment of `right` to `left`. -/
inductive Assigns (left right : Expr) (node : NodeId) : Option BinaryOp → Expr → Trace → Prop
  | broken (h : (left.isError || right.isError) = true) : Assigns left right node op (.error node) []
  | refused (h : trace.Refuses) : Assigns left right node op (.error node) trace
  | plain (hl : left.isError = false) (hr : right.isError = false)
      (h : Converts p false right left.type value trace) (hv : value.isError = false) :
      Assigns left right node none (.plain (.assignment none left value) left.type node) trace
  | compound {cast : Cast} (hl : left.isError = false) (hr : right.isError = false)
      (hsignature : BinarySignature.of? op left.type right.type = some signature)
      (hcast : signature.result.conversion p.symbols left.type = .ok cast)
      (himplicit : cast.isImplicit = true) (h : Converts p false right signature.right value trace)
      (hv : value.isError = false) :
      Assigns left right node (some op) (.plain (.assignment (some op) left value) left.type node) trace

/-- The constant of an operation on two expressions. -/
def foldedConstant (op : BinaryOp) (left right : Expr) : Option Constant :=
  match left.constant, right.constant with
  | some a, some b => Constant.foldBinary op a b
  | _, _ => none

/-- The result of a comparison is `null` whatever the other operand is. -/
def comparesNull (op : BinaryOp) (left right : Expr) : Bool :=
  op.isRelational && (left.constant = some .null || right.constant = some .null)

/-- `left op right`. -/
inductive Combines (op : BinaryOp) (left right : Expr) (node : NodeId) : Expr → Trace → Prop
  | broken (h : (left.isError || right.isError) = true) :
      Combines op left right node (.error node) []
  | refused (h : trace.Refuses) : Combines op left right node (.error node) trace
  | done (hl : left.isError = false) (hr : right.isError = false)
      (hsignature : BinarySignature.of? op left.type right.type = some signature)
      (ha : Converts p false left signature.left a first)
      (hb : Converts p false right signature.right b second) (hnull : comparesNull op a b = false) :
      Combines op left right node
        (.mk (.binary op a b) signature.result (foldedConstant op a b) node) (first ++ second)
  | null (hl : left.isError = false) (hr : right.isError = false)
      (hsignature : BinarySignature.of? op left.type right.type = some signature)
      (ha : Converts p false left signature.left a first)
      (hb : Converts p false right signature.right b second) (hnull : comparesNull op a b = true)
      (hwarning : third.Reports .alwaysValue) :
      Combines op left right node
        (.mk (.binary op a b) signature.result.asNullable (some .null) node)
        (first ++ (second ++ third))

/-- `op operand`. -/
inductive Negates (op : UnaryOp) (operand : Expr) (node : NodeId) : Expr → Trace → Prop
  | broken (h : operand.isError = true) : Negates op operand node (.error node) []
  | refused (h : trace.Refuses) : Negates op operand node (.error node) trace
  | done (h : operand.isError = false) (haccepts : op.accepts operand.type = true) :
      Negates op operand node
        (.mk (.unary op operand) operand.type (operand.constant.bind (Constant.foldUnary op)) node) []

/-! ### What is read -/

/-- The class that a name refers to. -/
def Defines (chain : Chain) (name : String) (node : NodeId) (definition : SymbolId) : Prop :=
  ∃ found, chain.lookup p name node = .ok (.symbols found) ∧ definition ∈ found ∧
    p.symbols.isType definition = .ok true ∧ chain.isAccessible p definition = .ok true

/-- A signature as it was seen: the published one, or what it looks like from inside itself. -/
def SeesSignature (F f : Findings) (method : SymbolId) (signature : Signature) : Prop :=
  (∃ known, F.signatures.get? method = some known ∧ known.value = signature) ∨
    f.signatures.get? method = none ∧ method ∈ f.signaturesInProgress ∧
      p.unknownSignature method = .ok signature

/-- The default value of a parameter, as it is written. -/
def Program.defaultNode? (parameter : SymbolId) : Except Fault (Option NodeId) :=
  (p.symbols.parameter? parameter).map (·.bind (·.defaultValue))

/-- The name of an argument and the expression that it passes. -/
def argumentParts (node : NodeId) : Option String × NodeId :=
  match p.tree.node? node with
  | some (.argument name expression) => (name, expression)
  | _ => (none, node)

/-- What is said about a piece of syntax. -/
inductive Judgement where
  /-- The node names the type. -/
  | type (chain : Chain) (node : NodeId) (type : Ty)
  /-- The node names the type of a variable. -/
  | variableType (chain : Chain) (node : NodeId) (type : Ty)
  /-- The type of the constants that a template parameter stands for. -/
  | constantParameter (parameter : SymbolId) (type : Option Ty)
  /-- The expression at the place of a constant template argument. -/
  | argumentValue (chain : Chain) (node : NodeId) (value : Expr)
  | argument (chain : Chain) (parameter : SymbolId) (node : NodeId) (bound : TypeOrConstant)
  | arguments (chain : Chain) (pairs : List (SymbolId × NodeId))
      (bound : Option (List TemplateArgument))
  | name (chain : Chain) (name : String) (node : NodeId) (e : Expr)
  | members (chain : Chain) (receiver : Option Expr) (found : List SymbolId) (node : NodeId)
      (e : Expr)
  | access (chain : Chain) (receiver : Expr) (name : String) (node : NodeId) (e : Expr)
  /-- The default value that a call passes; for a method, with the parameter. -/
  | default (parameter : Option SymbolId) (value : Expr)
  | call (chain : Chain) (callee : Expr) (arguments : List Argument) (node : NodeId) (e : Expr)
  /-- The arguments of a call, as they are written. -/
  | operands (chain : Chain) (nodes : List NodeId) (arguments : List Argument)
  | unchecked (chain : Chain) (node : NodeId) (kind : ValueKind) (e : Expr)
  | expression (chain : Chain) (node : NodeId) (kind : ValueKind) (e : Expr)
  /-- The value at the node, converted. -/
  | converted (chain : Chain) (node : NodeId) (target : Ty) (e : Expr)
  | constant (field : SymbolId) (constant : FieldConstant)
  | localConstant (key : LocalKey) (constant : Constant)

/-- The judgement is reached from the findings `f`, leaving a trace; what was seen is in `F`. -/
inductive Derives (F : Findings) : Findings → Judgement → Trace → Prop
  -- types
  | nullableType (hnode : p.tree.node? node = some (.nullableType element))
      (h : Derives F f (.type chain element t) trace) :
      Derives F f (.type chain node (if t.isError || t.isVoid then t else t.asNullable)) trace
  | simpleType (hnode : p.tree.node? node = some (.typeName name [] false))
      (h : p.simpleType? chain name = .ok (some t)) : Derives F f (.type chain node t) []
  | namedType (hnode : p.tree.node? node = some (.typeName name arguments isUnbound))
      (hdefinition : Defines p chain name node definition)
      (h : isUnbound = true ∧ chain.allowsUnboundType = true ∨
        isUnbound = false ∧ arguments = [] ∧ p.symbols.templateParameters definition = .ok []) :
      Derives F f (.type chain node (.named definition)) []
  | constructedType (hnode : p.tree.node? node = some (.typeName name nodes false))
      (hdefinition : Defines p chain name node definition)
      (hparameters : p.symbols.templateParameters definition = .ok parameters)
      (hlength : nodes.length = parameters.length) (hne : parameters ≠ [])
      (h : Derives F f (.arguments chain (parameters.zip nodes) (some bound)) trace) :
      Derives F f (.type chain node ⟨.constructed definition bound, false⟩) trace
  | brokenType {parameters : List SymbolId}
      (hnode : p.tree.node? node = some (.typeName name nodes false))
      (h : Derives F f (.arguments chain (parameters.zip nodes) none) trace) :
      Derives F f (.type chain node .error) trace
  | refusedType (h : trace.Refuses) : Derives F f (.type chain node .error) trace
  | variableType (h : Derives F f (.type chain node t) trace) (hvoid : t.isVoid = false) :
      Derives F f (.variableType chain node t) trace
  | voidVariable (h : Derives F f (.type chain node t) first) (hrefused : second.Refuses) :
      Derives F f (.variableType chain node .error) (first ++ second)
  -- template arguments
  | typeParameter (hdata : p.symbols.templateParameter? parameter = .ok data)
      (howner : p.symbols.containing? parameter = .ok owner)
      (h : data.bind (·.constantType) = none ∨ owner = none) :
      Derives F f (.constantParameter parameter none) []
  | constantParameter (hdata : p.symbols.templateParameter? parameter = .ok (some data))
      (hnode : data.constantType = some node) (h : Derives F f (.type chain node t) trace) :
      Derives F f (.constantParameter parameter (some t)) []
  | nameArgument (hnode : p.tree.node? node = some (.typeName name [] false))
      (h : Derives F f (.name chain name node e) first) (hchecks : Checks p .rvalue e e' second) :
      Derives F f (.argumentValue chain node e') (first ++ second)
  | expressionArgument (h : Derives F f (.expression chain node .rvalue e) trace) :
      Derives F f (.argumentValue chain node e) trace
  | refusedArgument (h : trace.Refuses) : Derives F f (.argumentValue chain node (.error node)) trace
  | typeArgument (hparameter : Derives F f (.constantParameter parameter none) [])
      (h : Derives F f (.type chain node t) trace) :
      Derives F f (.argument chain parameter node (.type t)) trace
  | constantArgument (hparameter : Derives F f (.constantParameter parameter (some t)) [])
      (h : Derives F f (.argumentValue chain node e) first)
      (hconverts : Converts p false e t value second) (hconstant : value.constant = some c) :
      Derives F f (.argument chain parameter node (.constant c t node)) (first ++ second)
  | variableArgument {third : Trace}
      (hparameter : Derives F f (.constantParameter parameter (some t)) [])
      (h : Derives F f (.argumentValue chain node e) first)
      (hconverts : Converts p false e t value second) (hconstant : value.constant = none)
      (hthird : value.isError = true ∧ third = [] ∨ third.Refuses) :
      Derives F f (.argument chain parameter node (.type .error)) (first ++ (second ++ third))
  | noArguments : Derives F f (.arguments chain [] (some [])) []
  | nextArgument (h : Derives F f (.argument chain parameter node bound) first)
      (hbound : bound.ty.isError = false) (hrest : Derives F f (.arguments chain rest others) second) :
      Derives F f (.arguments chain ((parameter, node) :: rest)
        (others.map (bound.toArgument :: ·))) (first ++ second)
  | brokenArgument (h : Derives F f (.argument chain parameter node bound) trace)
      (hbound : bound.ty.isError = true) :
      Derives F f (.arguments chain ((parameter, node) :: rest) none) trace
  -- names
  | localVariable (hlookup : chain.lookup p name node = .ok (.localVariable target))
      (hprogress : (chain.localInProgress?.any
        fun current => current.declaration = target.declaration) = false)
      (hvariable : target.isConstant = true → g.localConstant? target = none) (hf : f.Grows g)
      (hF : g.Grows F) :
      Derives F f (.name chain name node (.mk (.localVariable target)
        ((g.localType? target).getD .error) none node)) []
  | constantLocal (hlookup : chain.lookup p name node = .ok (.localVariable target))
      (hprogress : (chain.localInProgress?.any
        fun current => current.declaration = target.declaration) = false)
      (hconstant : target.isConstant = true) (htype : g.localType? target = some t)
      (hvalue : g.localConstant? target = some c) (hf : f.Grows g) (hF : g.Grows F)
      (h : Derives F h (.localConstant target.key c) trace) :
      Derives F f (.name chain name node (.mk (.localVariable target) t (some c) node)) []
  | localFunction (hlookup : chain.lookup p name node = .ok (.localFunction function)) :
      Derives F f (.name chain name node (.plain (.localFunction function) .void node)) []
  | parameter (hlookup : chain.lookup p name node = .ok (.parameter parameter))
      (hmethod : p.symbols.containing? parameter = .ok (some method))
      (hdata : p.symbols.parameter? parameter = .ok (some data))
      (hsignature : SeesSignature p F f method signature) :
      Derives F f (.name chain name node (.plain (.parameter parameter)
        ((signature.parameters[data.ordinal]?).getD .error) node)) []
  | strayParameter (hlookup : chain.lookup p name node = .ok (.parameter parameter))
      (hstray : p.symbols.containing? parameter = .ok none ∨ p.symbols.parameter? parameter = .ok none) :
      Derives F f (.name chain name node (.plain (.parameter parameter) .error node)) []
  | templateValue (hlookup : chain.lookup p name node = .ok (.templateParameter parameter))
      (h : Derives F f (.constantParameter parameter (some t)) []) :
      Derives F f (.name chain name node (.plain (.templateValue parameter) t node)) []
  | templateType (hlookup : chain.lookup p name node = .ok (.templateParameter parameter)) :
      Derives F f (.name chain name node (.plain .type (.parameter parameter) node)) []
  | memberName (hlookup : chain.lookup p name node = .ok (.symbols found))
      (h : Derives F f (.members chain none found node e) trace) :
      Derives F f (.name chain name node e) trace
  | primitiveName (hlookup : chain.lookup p name node = .ok .empty)
      (h : Primitive.ofName? name = some primitive) :
      Derives F f (.name chain name node (.plain .type (.primitive primitive) node)) []
  | refusedName (h : trace.Refuses) : Derives F f (.name chain name node (.error node)) trace
  -- members
  | methods (hne : methods ≠ [])
      (hmethods : ∀ m ∈ methods, m ∈ found ∧ p.symbols.isMethod m = .ok true) :
      Derives F f (.members chain receiver found node (.plain (.methods receiver methods) .void node)) []
  | field (hfield : field ∈ found) (hkind : p.symbols.kind field = .ok (.field data))
      (hvariable : data.isConstant = false ∨ chain.fieldsBeingBound ≠ [])
      (htype : F.fieldTypes.get? field = some known) :
      Derives F f (.members chain receiver found node
        (.mk (.field receiver field) known.value none node)) []
  | constantField (hfield : field ∈ found) (hkind : p.symbols.kind field = .ok (.field data))
      (hconstant : data.isConstant = true) (htype : F.fieldTypes.get? field = some known)
      (hevaluated : F.constants.get? field = some evaluated) (hvalue : evaluated.value = .value c)
      (h : Derives F g (.constant field (.value c)) trace) :
      Derives F f (.members chain receiver found node
        (.mk (.field receiver field) known.value (some c) node)) []
  | badConstantField (hfield : field ∈ found) (hkind : p.symbols.kind field = .ok (.field data))
      (hconstant : data.isConstant = true) (htype : F.fieldTypes.get? field = some known)
      (hbad : (∃ evaluated, F.constants.get? field = some evaluated ∧ evaluated.value = .bad) ∨
        f.constants.get? field = none ∧ chain.tracker?.isSome = true) :
      Derives F f (.members chain receiver found node
        (.mk (.field receiver field) known.value none node)) [.badConstant]
  | typeMember (htype : type ∈ found) :
      Derives F f (.members chain receiver found node (.plain .type (.named type) node)) []
  | refusedMember (h : trace.Refuses) :
      Derives F f (.members chain receiver found node (.error node)) trace
  | brokenAccess (h : receiver.isError = true) :
      Derives F f (.access chain receiver name node (.error node)) []
  | access (hreceiver : receiver.isError = false)
      (hcontainer : receiver.type.definition? = some container)
      (hfound : p.symbols.lookupInHierarchy container name = .ok found)
      (h : Derives F f (.members chain (if receiver.isType then none else some receiver) found node
        e) trace) :
      Derives F f (.access chain receiver name node e) trace
  | refusedAccess (h : trace.Refuses) :
      Derives F f (.access chain receiver name node (.error node)) trace
  -- calls
  | missingDefault (h : f.defaults.get? parameter = none) :
      Derives F f (.default (some parameter) (.error node)) []
  | unboundDefault (h : F.defaults.get? parameter = some known) (hnone : known.value = none)
      (hnode : p.defaultNode? parameter = .ok (some node)) :
      Derives F f (.default (some parameter) (.error node)) []
  | default
      (hpublished : ∀ symbol, parameter = some symbol → ∃ known : Evaluated (Option Expr),
        F.defaults.get? symbol = some known ∧ known.value = some value)
      (h : Derives F g (.converted chain node t value) trace) : Derives F f (.default parameter value) []
  | brokenCall (h : callee.isError = true ∨ ∃ receiver, callee.kind = .methods receiver []) :
      Derives F f (.call chain callee arguments node (.error node)) []
  | refusedCall (h : trace.Refuses) : Derives F f (.call chain callee arguments node (.error node)) trace
  | methodCall {candidate : Candidate SymbolId} {trace : Trace}
      (hcallee : callee.kind = .methods receiver methods) (hmethod : candidate.overload ∈ methods)
      (hids : p.symbols.parameters candidate.overload = .ok ids)
      (hsignature : SeesSignature p F f candidate.overload signature)
      (htypes : candidate.parameters.map (·.type) = (ids.zip signature.parameters).map (·.2))
      (hdefaults : ∀ (i : Nat) (parameter : CandidateParameter) (value : Expr),
        candidate.parameters[i]? = some parameter → parameter.defaultValue = some value →
        Derives F f (.default ids[i]? value) [])
      (happly : (candidate.apply p.symbols arguments).run = .ok (.ok (passed, cost)))
      (hresult : SeesSignature p F f candidate.overload result) (htrace : trace = [] ∨ trace.Refuses) :
      Derives F f (.call chain callee arguments node
        (.plain (.call receiver candidate.overload passed) result.returnType node)) trace
  | functionCall {candidate : Candidate LocalFunction}
      (hcallee : callee.kind = .localFunction function) (hfunction : candidate.overload = function)
      (hsignature : F.functionSignature? function = some signature)
      (htypes : candidate.parameters.map (·.type) =
        (function.parameters.zip signature.parameters).map (·.2))
      (hpublished : ∀ (i : Nat) (parameter : CandidateParameter) (value : Expr),
        candidate.parameters[i]? = some parameter → parameter.defaultValue = some value →
        ∃ values, F.functionDefaults? function = some values ∧ values[i]? = some (some value))
      (hdefaults : ∀ (i : Nat) (parameter : CandidateParameter) (value : Expr),
        candidate.parameters[i]? = some parameter → parameter.defaultValue = some value →
        Derives F f (.default none value) [])
      (happly : (candidate.apply p.symbols arguments).run = .ok (.ok (passed, cost))) :
      Derives F f (.call chain callee arguments node
        (.plain (.localCall function passed) signature.returnType node)) []
  | noOperands : Derives F f (.operands chain [] []) []
  | nextOperand (h : Derives F f (.expression chain (argumentParts p node).2 .rvalue e) first)
      (hrest : Derives F f (.operands chain nodes arguments) second) :
      Derives F f (.operands chain (node :: nodes)
        (⟨(argumentParts p node).1, e, node⟩ :: arguments)) (first ++ second)
  -- expressions
  | literal (hnode : p.tree.node? node = some (.literal value)) :
      Derives F f (.unchecked chain node kind (.ofLiteral value node)) []
  | identifier (hnode : p.tree.node? node = some (.identifier name))
      (h : Derives F f (.name chain name node e) trace) :
      Derives F f (.unchecked chain node kind e) trace
  | memberAccess (hnode : p.tree.node? node = some (.memberAccess left name))
      (hreceiver : Derives F f (.expression chain left .insignificant receiver) first)
      (h : Derives F f (.access chain receiver name node e) second) :
      Derives F f (.unchecked chain node kind e) (first ++ second)
  | brokenConditional (hnode : p.tree.node? node = some (.conditionalAccess left right))
      (hreceiver : Derives F f (.expression chain left .rvalue receiver) trace)
      (h : receiver.isError = true) : Derives F f (.unchecked chain node kind (.error node)) trace
  | conditionalAccess (hnode : p.tree.node? node = some (.conditionalAccess left right))
      (hreceiver : Derives F f (.expression chain left .rvalue receiver) first)
      (hok : receiver.isError = false)
      (h : Derives F f (.expression (Chain.push chain
        (.conditionalReceiver (Program.receiverPlaceholder receiver)) {}) right kind access)
        second) :
      Derives F f (.unchecked chain node kind (Program.conditionalAccess receiver access node))
        (first ++ second)
  | memberBinding (hnode : p.tree.node? node = some (.memberBinding name))
      (hreceiver : chain.conditionalReceiver? = some receiver)
      (hkind : receiver.kind = .conditionalReceiver) (hok : receiver.isError = false)
      (h : Derives F f (.access chain receiver name node e) trace) :
      Derives F f (.unchecked chain node kind e) trace
  | call (hnode : p.tree.node? node = some (.call callee nodes))
      (hcallee : Derives F f (.expression chain callee .rvalueOrMethods target) first)
      (harguments : Derives F f (.operands chain nodes arguments) second)
      (h : Derives F f (.call chain target arguments node e) third) :
      Derives F f (.unchecked chain node kind e) (first ++ (second ++ third))
  | argumentNode (hnode : p.tree.node? node = some (.argument name expression))
      (h : Derives F f (.unchecked chain expression kind e) trace) :
      Derives F f (.unchecked chain node kind e) trace
  | assignment (hnode : p.tree.node? node = some (.assignment op left right))
      (hleft : Derives F f (.expression chain left
        (if op.isSome then .compoundAssignment else .assignable) place) first)
      (hright : Derives F f (.expression chain right .rvalue value) second)
      (h : Assigns p place value node op e third) :
      Derives F f (.unchecked chain node kind e) (first ++ (second ++ third))
  | binary (hnode : p.tree.node? node = some (.binary op left right))
      (hleft : Derives F f (.expression chain left .rvalue a) first)
      (hright : Derives F f (.expression chain right .rvalue b) second)
      (h : Combines p op a b node e third) :
      Derives F f (.unchecked chain node kind e) (first ++ (second ++ third))
  | unary (hnode : p.tree.node? node = some (.unary op operand))
      (hoperand : Derives F f (.expression chain operand
        (if op.writesBack then .increment else .rvalue) a) first)
      (h : Negates op a node e second) : Derives F f (.unchecked chain node kind e) (first ++ second)
  | cast (hnode : p.tree.node? node = some (.cast type expression))
      (htype : Derives F f (.type chain type t) first)
      (hoperand : Derives F f (.expression chain expression .rvalue a) second)
      (h : Converts p true a t e third) :
      Derives F f (.unchecked chain node kind e) (first ++ (second ++ third))
  | typeOf (hnode : p.tree.node? node = some (.typeOf type))
      (h : Derives F f (.type (Chain.push chain .unboundTypeAllowed {}) type t) trace) :
      Derives F f (.unchecked chain node kind
        (if t.isError then .error node else .plain (.typeOf t) (.primitive .type) node)) trace
  | typeExpression (h : Derives F f (.type chain node t) trace) :
      Derives F f (.unchecked chain node kind
        (if t.isError then .error node else .plain .type t node)) trace
  | refusedExpression (h : trace.Refuses) : Derives F f (.unchecked chain node kind (.error node)) trace
  | noExpression (hnode : p.tree.node? node = some n) (hexpression : n.isExpression = false)
      (htype : n.isType = false) (hargument : ∀ name value, n ≠ .argument name value) :
      Derives F f (.unchecked chain node kind (.error node)) []
  | expression (h : Derives F f (.unchecked chain node kind e) first)
      (hchecks : Checks p kind e e' second) :
      Derives F f (.expression chain node kind e') (first ++ second)
  | converted (h : Derives F f (.expression chain node .rvalue e) first)
      (hconverts : Converts p false e target e' second) :
      Derives F f (.converted chain node target e') (first ++ second)
  -- constants
  | constantValue (htype : F.fieldTypes.get? field = some known)
      (h : Derives F f (.converted chain node known.value e) trace) (hconstant : e.constant = some c) :
      Derives F f (.constant field (.value c)) trace
  | variableConstant (hchain : p.initializerScope field = .ok (some chain))
      (hnode : (p.symbols.field? field).map (·.bind (·.initializer)) = .ok (some node))
      (htype : F.fieldTypes.get? field = some known)
      (h : Derives F f (.converted (Chain.push chain (.constantFields (some tracker)) {}) node
        known.value e) trace)
      (hconstant : e.constant = none) (hquiet : trace.sawBadConstant = true ∨ e.isError = true) :
      Derives F f (.constant field .bad) trace
  | refusedConstant (first : Trace) (h : second.Refuses) :
      Derives F f (.constant field .bad) (first ++ second)
  | declaredLocal (htype : F.localTypes.get? key = some t)
      (h : Derives F f (.converted chain node t e) trace) (hconstant : e.constant = some c) :
      Derives F f (.localConstant key c) trace
  | inferredLocal (htype : F.localTypes.get? key = some t) (ht : t = e.type ∨ t = .error)
      (h : Derives F f (.expression chain node .rvalue e) trace) (hconstant : e.constant = some c) :
      Derives F f (.localConstant key c) trace

variable {p} in
/-- A constant local has a type. -/
theorem Derives.localType {F f : Findings} {key : LocalKey} {c : Constant} {trace : Trace}
    (h : Derives p F f (.localConstant key c) trace) : ∃ t, F.localTypes.get? key = some t := by
  cases h with
  | declaredLocal htype | inferredLocal htype => exact ⟨_, htype⟩

end Bindery
