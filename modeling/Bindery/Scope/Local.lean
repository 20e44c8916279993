import Bindery.Syntax.Tree

/-!
# Locals, local functions and labels

What the statements of a scope declare. Each is known by its declaring node; what binding finds out
about it (its type, its constant, its signature) is kept elsewhere, under the number of the store it
belongs to.

`LocalDeclarations.collect` gathers what one scope declares: the statements of a block, the global
statements of a compilation unit, or a single statement.
-/

namespace Bindery

inductive LocalKind where
  | ordinary
  /-- A parameter of a local function. -/
  | parameter
deriving DecidableEq, Repr

structure Local where
  name : String
  declaration : NodeId
  /-- Without a type, the type is that of the initializer. -/
  type : Option NodeId
  isConstant : Bool
  kind : LocalKind
  store : Nat
deriving DecidableEq, Repr

structure LocalFunction where
  name : String
  declaration : NodeId
  parameters : List Local
  returnType : Option NodeId
  body : NodeId
  store : Nat
deriving DecidableEq, Repr

/-- Where the findings about a local are kept. -/
structure LocalKey where
  store : Nat
  declaration : NodeId
deriving DecidableEq, Repr

def Local.key (l : Local) : LocalKey := ⟨l.store, l.declaration⟩

def LocalFunction.key (f : LocalFunction) : LocalKey := ⟨f.store, f.declaration⟩

inductive LabelKind where
  | declared
  /-- The end of a loop. -/
  | breakTarget
  /-- The start of a loop. -/
  | continueTarget
deriving DecidableEq, Repr

/-- A place to jump to. -/
structure Label where
  name : String
  declaration : NodeId
  kind : LabelKind
deriving DecidableEq, Repr

namespace Label

/-- The end of the loop at a node. -/
def breakOf (loop : NodeId) : Label := ⟨s!"break{loop}", loop, .breakTarget⟩

/-- The start of the loop at a node. -/
def continueOf (loop : NodeId) : Label := ⟨s!"continue{loop}", loop, .continueTarget⟩

end Label

/-- The function that a node declares. Its parameter list may hold other nodes, which do not
count. -/
def LocalFunction.ofNode? (tree : Tree) (store : Nat) (node : NodeId) : Option LocalFunction :=
  match tree.node? node with
  | some (.localFunction name returnType parameters body) =>
    let parameters := parameters.filterMap fun parameter =>
      match tree.node? parameter with
      | some (.parameter name type _) =>
        some { name, declaration := parameter, type := some type, isConstant := false,
               kind := .parameter, store }
      | _ => none
    some { name, declaration := node, parameters, returnType, body, store }
  | _ => none

/-- What one scope declares. -/
structure LocalDeclarations where
  locals : List Local := []
  functions : List LocalFunction := []
  labels : List Label := []
deriving DecidableEq, Repr

namespace LocalDeclarations

def append (a b : LocalDeclarations) : LocalDeclarations :=
  ⟨a.locals ++ b.locals, a.functions ++ b.functions, a.labels ++ b.labels⟩

/-- What a statement declares in the scope it stands in; a labelled statement declares its label and
what the statement after the label declares. -/
def ofStatement (tree : Tree) (store : Nat) (node : NodeId) : LocalDeclarations :=
  match _h : tree.node? node with
  | some (.localDeclaration name type isConstant _) =>
    { locals := [{ name, declaration := node, type, isConstant, kind := .ordinary, store }] }
  | some (.localFunction ..) => { functions := (LocalFunction.ofNode? tree store node).toList }
  | some (.labeled label statement) =>
    append { labels := [⟨label, node, .declared⟩] } (ofStatement tree store statement)
  | _ => {}
termination_by node
decreasing_by
  apply tree.child_lt _h
  simp

/-- What the scope of a node declares. -/
def collect (tree : Tree) (store : Nat) (designator : NodeId) :
    Except Fault LocalDeclarations := do
  let statements :=
    match ← tree.fetch designator with
    | .block statements => statements
    | .compilationUnit members => tree.globalStatementsOf members
    | _ => [designator]
  return (statements.map (ofStatement tree store)).foldl append {}

variable (d : LocalDeclarations) (name : String) (node : NodeId)

def findLocal? : Option Local :=
  d.locals.find? fun l => l.name = name

def localAt? : Option Local :=
  d.locals.find? fun l => l.declaration = node

def findFunction? : Option LocalFunction :=
  d.functions.find? fun f => f.name = name

def functionAt? : Option LocalFunction :=
  d.functions.find? fun f => f.declaration = node

def findLabel? : Option Label :=
  d.labels.find? fun l => l.name = name

def labelAt? : Option Label :=
  d.labels.find? fun l => l.declaration = node

end LocalDeclarations
end Bindery
