import Bindery.Bound.Expression
import Bindery.Scope.Flags
import Bindery.Scope.Tracker
import Bindery.Scope.Usage
import Bindery.Text.Quoted

/-!
# Scopes

A chain of scopes is a list of frames, innermost first. Each frame answers the questions that its
kind knows about: the locals of a block, the parameters of a method, the members of a type, the
labels of a loop. The others are handed on to the frames around it, so a look-up is a search through
the list.

* Flags are handed down: a frame has those of the frame it stands on and its own. Frames that start
  a region of code drop the flags about `try` statements.
* Locals follow the rule "declare before use": one that is declared after the reference hides outer
  names but is not found.
* Labels, and the ends of loops, are not seen across the boundary of a function.
-/

namespace Bindery

/-- Whose code a scope belongs to. -/
inductive Member where
  | symbol (symbol : SymbolId)
  | function (function : LocalFunction)
deriving DecidableEq, Repr

inductive FrameKind where
  /-- The last frame of every chain. -/
  | outermost
  /-- Adds flags only. `clause` is the part of a `try` statement it was made for. -/
  | plain (clause : Option NodeId)
  /-- The declaration of a member. `usage` says for which of its chains the frame was made. -/
  | containingMember (member : Member) (usage : Usage)
  /-- The members of a type and its bases, or of the global container. -/
  | inContainer (container : SymbolId)
  | templateParameters (type : SymbolId)
  /-- The parameters of a method or local function. -/
  | inMethod (member : Member)
  /-- What the statements of `designator` declare. -/
  | localScope (designator : NodeId) (store : Nat)
  | loop (node : NodeId)
  /-- The start of a region of code. -/
  | code (root : NodeId) (member : Member) (store : Nat)
  /-- A constant is being computed, unless there is no tracker. -/
  | constantFields (tracker : Option Tracker)
  /-- Fields whose types are being inferred, newest first. -/
  | fieldsBeingBound (fields : List SymbolId)
  | localInProgress (target : Local)
  /-- What `?.` was applied to. -/
  | conditionalReceiver (receiver : Expr)
  | unboundTypeAllowed

namespace FrameKind

def label : FrameKind → String
  | outermost => "end"
  | plain _ => "plain"
  | containingMember .. => "containing member"
  | inContainer _ => "in container"
  | templateParameters _ => "template parameters"
  | inMethod _ => "in method"
  | localScope .. => "local scope"
  | loop _ => "loop"
  | code .. => "executable code"
  | constantFields _ => "constant fields in progress"
  | fieldsBeingBound _ => "fields being bound"
  | localInProgress _ => "local in progress"
  | conditionalReceiver _ => "conditional receiver"
  | unboundTypeAllowed => "unbound type allowed"

/-- The flags of a frame of this kind that stands on one with the flags `parent`. -/
def flags (kind : FrameKind) (parent additional : Flags) : Flags :=
  match kind with
  | inMethod _ | code .. => parent.enterCode additional
  | constantFields _ => { parent.union additional with inInitializer := true }
  | _ => parent.union additional

/-- Whether two frames on equal chains are one. Frames that are made anew at every use are not. -/
def isSame : FrameKind → FrameKind → Bool
  | outermost, outermost => true
  | plain (some a), plain (some b) => a = b
  | plain none, plain none => true
  | containingMember a u, containingMember b v => a = b && u = v
  | inContainer a, inContainer b => a = b
  | templateParameters a, templateParameters b => a = b
  | inMethod a, inMethod b => a = b
  | localScope a s, localScope b t => a = b && s = t
  | loop a, loop b => a = b
  | code a m s, code b n t => a = b && m = n && s = t
  | _, _ => false

end FrameKind

structure Frame where
  flags : Flags
  kind : FrameKind

/-- Frames from the innermost to the outermost. -/
abbrev Chain := List Frame

/-- What a name refers to. -/
inductive Lookup where
  | empty
  | localVariable (target : Local)
  /-- A local that is declared after the reference. -/
  | declaredLater (target : Local)
  | localFunction (function : LocalFunction)
  | parameter (parameter : SymbolId)
  | templateParameter (parameter : SymbolId)
  /-- Members of one name; several where methods share it. -/
  | symbols (symbols : List SymbolId)
deriving DecidableEq, Repr

/-- A tree with the symbols declared from it. -/
structure Program where
  tree : Tree
  symbols : SymbolTable
  /-- The flags that every chain starts from. -/
  flags : Flags := {}
  /-- How deep requests may lead to others before they count as endless. -/
  requestDepth : Nat :=
    let size := tree.size + symbols.size + 1
    size * size * size

/-! ### One frame -/

namespace Frame

variable (p : Program)

/-- What the frame declares, if it is a scope of statements. -/
def declarations? (f : Frame) : Except Fault (Option LocalDeclarations) :=
  match f.kind with
  | .localScope designator store => some <$> LocalDeclarations.collect p.tree store designator
  | _ => return none

/-- Whether the frame is where a method or local function begins. -/
def isFunctionBoundary (f : Frame) : Bool := f.kind matches .inMethod _

def loop? (f : Frame) : Option NodeId :=
  match f.kind with
  | .loop node => some node
  | _ => none

/-- The parameter named `name` among those listed. -/
def findNamed? (symbols : List SymbolId) (name : String) : Except Fault (Option SymbolId) :=
  symbols.findM? fun symbol => return (← p.symbols.name symbol) = name

def findTemplateParameter? (name : String) (f : Frame) : Except Fault (Option SymbolId) := do
  match f.kind with
  | .templateParameters type => findNamed? p (← p.symbols.templateParameters type) name
  | _ => return none

/-- Whether a declaration starts no later than a reference. -/
def isDeclaredBefore (declaration reference : NodeId) : Except Fault Bool := do
  return (← p.tree.span declaration).start ≤ (← p.tree.span reference).start

/-- What the frame knows of a name referred to at `node`. -/
def lookup? (name : String) (node : NodeId) (f : Frame) : Except Fault (Option Lookup) := do
  match f.kind with
  | .localScope designator store =>
    let declarations ← LocalDeclarations.collect p.tree store designator
    match declarations.findLocal? name with
    | some found =>
      if ← isDeclaredBefore p found.declaration node then return some (.localVariable found)
      else return some (.declaredLater found)
    | none => return (declarations.findFunction? name).map .localFunction
  | .inMethod (.symbol method) =>
    return (← findNamed? p (← p.symbols.parameters method) name).map .parameter
  | .inMethod (.function function) =>
    return (function.parameters.find? fun parameter => parameter.name = name).map .localVariable
  | .templateParameters type =>
    return (← findNamed? p (← p.symbols.templateParameters type) name).map .templateParameter
  | .inContainer container =>
    let found ←
      if ← p.symbols.isType container then p.symbols.lookupInHierarchy container name
      else pure (p.symbols.lookup container name)
    return if found.isEmpty then none else some (.symbols found)
  | _ => return none

/-- The innermost type around the frame, if the frame decides it. -/
def containingType? (f : Frame) : Except Fault (Option (Option SymbolId)) := do
  match f.kind with
  | .inContainer container => return some (← p.symbols.containingType? container)
  | .containingMember (.symbol symbol) _ | .inMethod (.symbol symbol) =>
    match ← p.symbols.containing? symbol with
    | some container => return some (← p.symbols.containingType? container)
    | none => return some none
  | _ => return none

end Frame

/-! ### Chains -/

namespace Chain

def flags : Chain → Flags
  | [] => {}
  | frame :: _ => frame.flags

section chain

variable (chain : Chain)

def push (kind : FrameKind) (additional : Flags) : Chain :=
  ⟨kind.flags (flags chain) additional, kind⟩ :: chain

def outermost (flags : Flags) : Chain := [⟨flags, .outermost⟩]

def labels : List String := chain.map (·.kind.label)

/-- Flags and frames, in words. -/
def text : String :=
  "Binder \x7b flags: BinderFlags(" ++ (flags chain).text ++ "), chain: " ++
    Text.quotedList (labels chain) ++ " \x7d"

/-- Whether two chains are one, frame by frame. -/
def isSame (a b : Chain) : Bool :=
  a.length = b.length &&
    (a.zip b).all fun (f, g) => f.flags = g.flags && f.kind.isSame g.kind

/-- The member whose code the chain belongs to. -/
def containingMember? : Option Member :=
  chain.findSome? fun frame =>
    match frame.kind with
    | .containingMember member _ | .inMethod member | .code _ member _ => some member
    | _ => none

/-- The nearest method or local function whose parameters are in scope. -/
def method? : Option Member :=
  chain.findSome? fun frame =>
    match frame.kind with
    | .inMethod member => some member
    | _ => none

def fieldsBeingBound : List SymbolId :=
  (chain.findSome? fun frame =>
    match frame.kind with
    | .fieldsBeingBound fields => some fields
    | _ => none).getD []

def localInProgress? : Option Local :=
  chain.findSome? fun frame =>
    match frame.kind with
    | .localInProgress target => some target
    | _ => none

def conditionalReceiver? : Option Expr :=
  chain.findSome? fun frame =>
    match frame.kind with
    | .conditionalReceiver receiver => some receiver
    | _ => none

/-- The tracker of the constant being computed. -/
def tracker? : Option Tracker :=
  (chain.findSome? fun frame =>
    match frame.kind with
    | .constantFields tracker => some tracker
    | _ => none).join

def allowsUnboundType : Bool :=
  chain.any fun frame => frame.kind matches .unboundTypeAllowed

/-- The frames up to where the function begins. -/
def inFunction : Chain := chain.takeWhile (!·.isFunctionBoundary)

/-- The nearest loop of the function. -/
def loop? : Option NodeId := (inFunction chain).findSome? Frame.loop?

def breakLabel? : Option Label := (loop? chain).map .breakOf

def continueLabel? : Option Label := (loop? chain).map .continueOf

end chain

variable (p : Program) (chain : Chain)

/-- The innermost type around the code. -/
def containingType? : Except Fault (Option SymbolId) :=
  (·.join) <$> chain.findSomeM? (Frame.containingType? p)

/-- The locals of the nearest scope of statements, of which there has to be one. -/
def scopeLocals : Except Fault (List Local) := do
  match ← chain.findSomeM? (Frame.declarations? p) with
  | some declarations => return declarations.locals
  | none => throw .noLocalScope

/-- What a name referred to at `node` means. -/
def lookup (name : String) (node : NodeId) : Except Fault Lookup :=
  (·.getD .empty) <$> chain.findSomeM? (Frame.lookup? p name node)

/-- The local that a name refers to, if it is one. -/
def lookupLocal? (name : String) (node : NodeId) : Except Fault (Option Local) := do
  match ← lookup p chain name node with
  | .localVariable found => return some found
  | _ => return none

/-- The first answer that a scope of statements gives. -/
def findDeclared? {α : Type} (find? : LocalDeclarations → Option α) :
    Except Fault (Option α) :=
  chain.findSomeM? fun frame => return (← frame.declarations? p).bind find?

/-- The local function of that name; it is visible throughout its block. -/
def lookupFunction? (name : String) : Except Fault (Option LocalFunction) :=
  findDeclared? p chain (·.findFunction? name)

/-- The label of that name in the same function. -/
def lookupLabel? (name : String) : Except Fault (Option Label) :=
  findDeclared? p (inFunction chain) (·.findLabel? name)

def lookupTemplateParameter? (name : String) : Except Fault (Option SymbolId) :=
  chain.findSomeM? (Frame.findTemplateParameter? p name)

def localAt? (node : NodeId) : Except Fault (Option Local) :=
  findDeclared? p chain (·.localAt? node)

def functionAt? (node : NodeId) : Except Fault (Option LocalFunction) :=
  findDeclared? p chain (·.functionAt? node)

def labelAt? (node : NodeId) : Except Fault (Option Label) :=
  findDeclared? p chain (·.labelAt? node)

/-- Whether code in the chain may refer to a symbol. -/
def isAccessible (symbol : SymbolId) : Except Fault Bool := do
  if (flags chain).ignoresAccess then return true
  p.symbols.isAccessible symbol (← containingType? p chain)

end Chain
end Bindery
