import Bindery.Proofs.FindingsSound
import Bindery.Proofs.InnerScopes

/-! # Rules of statements

`Binds p once F f code trace` says that a piece of code was bound, as `Derives` does for
expressions. `f` are the findings before the code is bound; every part of it is bound from findings
that grew out of them.

A local may be declared again by binding its declaration again; then it keeps the type that it had.
`once` says that this does not happen. -/

namespace Bindery

variable (p : Program)

/-- The locals that a statement declares in the scope it stands in have types. -/
def Declares (g : Findings) (node : NodeId) : Prop :=
  ∀ l ∈ (LocalDeclarations.ofStatement p.tree 0 node).locals, ∃ t, g.localTypes.get? l.key = some t

/-! ### Declarations -/

/-- The type that a declaration names, if it names one. -/
inductive NamesType (F f : Findings) (chain : Chain) : Option NodeId → Option Ty → Trace → Prop
  | none : NamesType F f chain none none []
  | some (h : Derives p F f (.variableType chain node t) trace) :
      NamesType F f chain (some node) (some t) trace

/-- The value that a local starts with, if it starts with one. -/
inductive Initializes (F f : Findings) (chain : Chain) :
    Option Ty → Option NodeId → Option Expr → Trace → Prop
  | none : Initializes F f chain declared none none []
  | typed (h : Derives p F f (.converted chain node t e) trace) :
      Initializes F f chain (some t) (some node) (some e) trace
  | untyped (h : Derives p F f (.expression chain node .rvalue e) trace) :
      Initializes F f chain none (some node) (some e) trace

/-- The type that a local gets. -/
inductive TypesLocal : Option Ty → Option Expr → Ty → Trace → Prop
  | declared : TypesLocal (some t) value t []
  | inferred : TypesLocal none (some e) e.type []
  | refused (h : trace.Refuses) : TypesLocal none value .error trace

/-- The constant that a local starts with. -/
theorem Initializes.localConstant {p : Program} {F f : Findings} {chain : Chain} {declared : Option Ty}
    {initializer : Option NodeId} {e : Expr} {found : Ty} {c : Constant} {key : LocalKey}
    {first second : Trace} (h : Initializes p F f chain declared initializer (some e) first)
    (hfound : TypesLocal declared (some e) found second)
    (htype : F.localTypes.get? key = some found) (hconstant : e.constant = some c) :
    Derives p F f (.localConstant key c) first := by
  cases h with
  | typed h =>
    cases hfound with
    | declared => exact .declaredLocal htype h hconstant
  | untyped h =>
    cases hfound with
    | inferred => exact .inferredLocal htype (.inl rfl) h hconstant
    | refused => exact .inferredLocal htype (.inr rfl) h hconstant

/-- The result type of a function, as it is seen from its body. -/
def SeesReturn (F f : Findings) : Member → Ty → Prop
  | .symbol method, t => ∃ signature, SeesSignature p F f method signature ∧
      t = signature.returnType
  | .function function, t => ∃ g : Findings, f.Grows g ∧ g.Grows F ∧
      t = ((g.functionSignature? function).map (·.returnType)).getD .error

/-- Nothing happens, or an error is reported. -/
def MayRefuse (trace : Trace) : Prop := trace = [] ∨ trace.Refuses

/-! ### Statements -/

/-- What is said about code.  `owner` is the function that it belongs to. -/
inductive Code where
  | statement (owner : Member) (chain : Chain) (node : NodeId) (statement : Statement)
  | statements (owner : Member) (chain : Chain) (nodes : List NodeId) (statements : List Statement)
  | block (owner : Member) (chain : Chain) (node : NodeId) (block : Block)

/-- The code is bound from the findings `f`, leaving a trace; what was seen is in `F`. -/
inductive Binds (once : Prop) (F : Findings) : Findings → Code → Trace → Prop
  | noStatements : Binds once F f (.statements owner chain [] []) []
  | nextStatement (h : Binds once F f (.statement owner chain node statement) first) (hg : f.Grows g)
      (hdeclares : Declares p g node)
      (hrest : Binds once F g (.statements owner chain nodes statements) second) :
      Binds once F f (.statements owner chain (node :: nodes) (statement :: statements))
        (first ++ second)
  -- blocks
  | blockOfStatements (hnode : p.tree.node? node = some (.block nodes))
      (hscope : chain.inner? p node = .ok (some scope))
      (hframe : scope = Chain.push base (.localScope node 0) {})
      (h : Binds once F f (.statements owner scope nodes statements) trace)
      (hlocals : scope.scopeLocals p = .ok locals) :
      Binds once F f (.block owner chain node ⟨statements, locals⟩) trace
  | blockOfOne (h : Binds once F f (.statement owner chain node statement) trace)
      (hinner : chain.inner? p node = .ok found) (hlocals : p.ownLocals found = .ok locals) :
      Binds once F f (.block owner chain node ⟨[statement], locals⟩) trace
  | block (hnode : p.tree.node? node = some (.block nodes))
      (h : Binds once F f (.block owner chain node ⟨statements, locals⟩) trace) :
      Binds once F f (.statement owner chain node (.block statements locals)) trace
  -- declarations
  | localDeclaration
      (hnode : p.tree.node? node = some (.localDeclaration name type isConstant initializer))
      (hscope : chain.innerOrSelf p node = .ok scope)
      (htarget : scope.localAt? p node = .ok (some target)) (hfirst : MayRefuse first)
      (hdeclared : NamesType p F f scope type declared second)
      (hvalue : Initializes p F f (Chain.push scope (.localInProgress target) {}) declared
        initializer value third)
      (hfound : TypesLocal declared value found fourth) (htype : F.localTypes.get? target.key = some t)
      (hkept : t = found ∨ ¬ once ∧ f.localTypes.get? target.key = some t) (hfifth : MayRefuse fifth) :
      Binds once F f (.statement owner chain node (.localDeclaration target value))
        (first ++ (second ++ (third ++ (fourth ++ fifth))))
  | localFunction (hnode : p.tree.node? node = some (.localFunction name returnType parameters body))
      (hscope : chain.innerOrSelf p node = .ok scope)
      (hfunction : scope.functionAt? p node = .ok (some function)) (hg : f.Grows g)
      (hsignature : ∃ signature, g.functionSignature? function = some signature)
      (h : Binds once F g (.block (.function function) scope body block) second) :
      Binds once F f (.statement owner chain node (.ofFunction function block)) (first ++ second)
  -- control
  | expression (hnode : p.tree.node? node = some (.expressionStatement expression))
      (hscope : chain.innerOrSelf p node = .ok scope)
      (h : Derives p F f (.expression scope expression .insignificant e) trace) :
      Binds once F f (.statement owner chain node (.expression e)) trace
  | bareExpression (hscope : chain.innerOrSelf p node = .ok scope)
      (h : Derives p F f (.expression scope node .insignificant e) trace) :
      Binds once F f (.statement owner chain node (.expression e)) trace
  | ifElse (hnode : p.tree.node? node = some (.ifStatement condition thenNode elseNode))
      (hscope : chain.innerOrSelf p node = .ok scope)
      (hcondition : Derives p F f (.converted scope condition (.primitive .bool) e) first)
      (hg : f.Grows g) (hthen : Binds once F g (.statement owner scope thenNode thenStatement) second)
      (hh : g.Grows h)
      (helse : Binds once F h (.statements owner scope elseNode.toList elseStatement.toList) third) :
      Binds once F f (.statement owner chain node (.ifElse e thenStatement elseStatement))
        (first ++ (second ++ third))
  | whileLoop (hnode : p.tree.node? node = some (.whileStatement condition body))
      (hscope : chain.innerOrSelf p node = .ok scope) (hloop : scope.loop? = some node)
      (hcondition : Derives p F f (.converted scope condition (.primitive .bool) e) first)
      (hg : f.Grows g) (hbody : Binds once F g (.statement owner scope body statement) second) :
      Binds once F f (.statement owner chain node
        (.whileLoop e statement (.breakOf node) (.continueOf node))) (first ++ second)
  | tryCatch (hnode : p.tree.node? node = some (.tryStatement bodyNode catchNode finallyNode))
      (hscope : chain.innerOrSelf p node = .ok scope)
      (hbody : Binds once F f (.statement owner scope bodyNode body) first) (hg : f.Grows g)
      (hcatch : Binds once F g (.statements owner scope catchNode.toList catchBody.toList) second)
      (hh : g.Grows h)
      (hfinally : Binds once F h (.statements owner scope finallyNode.toList finallyBody.toList) third) :
      Binds once F f (.statement owner chain node (.tryCatch body catchBody finallyBody))
        (first ++ (second ++ third))
  | labeled (hnode : p.tree.node? node = some (.labeled name part))
      (hscope : chain.innerOrSelf p node = .ok scope)
      (hlabel : scope.labelAt? p node = .ok (some label)) (hfirst : MayRefuse first)
      (h : Binds once F f (.statement owner scope part statement) second) :
      Binds once F f (.statement owner chain node (.labeled label statement)) (first ++ second)
  -- jumps
  | breakTo (hscope : chain.innerOrSelf p node = .ok scope) (hlabel : scope.breakLabel? = some label) :
      Binds once F f (.statement owner chain node (.breakTo label)) []
  | continueTo (hscope : chain.innerOrSelf p node = .ok scope)
      (hlabel : scope.continueLabel? = some label) :
      Binds once F f (.statement owner chain node (.continueTo label)) []
  | goto (hscope : chain.innerOrSelf p node = .ok scope)
      (hlabel : scope.lookupLabel? p name = .ok (some label)) :
      Binds once F f (.statement owner chain node (.goto label)) []
  | returnNothing {second : Trace} (hfirst : MayRefuse first) (ht : SeesReturn p F f owner t)
      (hsecond : second = [] ∧ (t.isVoid || t.isError) = true ∨ second.Refuses) :
      Binds once F f (.statement owner chain node (.returnValue none)) (first ++ second)
  | returnIgnored (hthird : third.Refuses) :
      Binds once F f (.statement owner chain node (.returnValue none)) (first ++ (second ++ third))
  | returnValue (hnode : p.tree.node? node = some (.returnStatement (some expression)))
      (hscope : chain.innerOrSelf p node = .ok scope) (hfirst : MayRefuse first)
      (ht : SeesReturn p F f owner t) (hvoid : t.isVoid = false)
      (h : Derives p F f (.converted scope expression t e) second) :
      Binds once F f (.statement owner chain node (.returnValue (some e))) (first ++ second)
  | refused (h : trace.Refuses) : Binds once F f (.statement owner chain node (.error node)) trace

end Bindery
