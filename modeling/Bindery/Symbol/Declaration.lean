import Bindery.Diagnostic
import Bindery.Symbol.Table
import Bindery.Syntax.Tree

/-!
# Declaring the symbols of a tree

The members of the compilation unit and of its classes become symbols, each class with its template
parameters and members, each method with its parameters. Global statements are gathered under one
entry method, declared by the compilation unit itself. Base types are resolved once everything is
declared.

* Methods may share a name; any other two members of one container with one name are reported.
* A base type is looked for in the container of the class and then at the top. One that would close
  a cycle is reported and left out.
-/

namespace Bindery

/-- The table under construction. -/
structure Declarations where
  table : SymbolTable
  diagnostics : DiagnosticQueue := {}
  /-- The classes declared so far. -/
  types : List SymbolId := []

abbrev DeclareM := EStateM Fault Declarations

namespace Declarations

variable (tree : Tree)

def report (node : NodeId) (message : Message) (args : List String) : DeclareM Unit := do
  let span ← tree.span node
  modify fun d => { d with
    diagnostics := d.diagnostics.push (.placed tree.fileName span message args) }

/-- Append a symbol and return its number. -/
def add (name : String) (kind : SymbolKind) (access : Access) (containing : SymbolId)
    (declaration : Option NodeId) : DeclareM SymbolId := do
  let id := (← get).table.size
  modify fun d => { d with table := d.table.insert name kind access containing declaration }
  (← get).table.checkInserted kind containing
  return id

/-- Report a member whose name is taken. -/
def checkDuplicate (node : NodeId) (name : String) (container : SymbolId) (isMethod : Bool) :
    DeclareM Unit := do
  let table := (← get).table
  let clashes ← (table.lookup container name).anyM fun existing =>
    return !(isMethod && (← table.isMethod existing))
  if clashes then
    report tree node .duplicateDeclaration [name, ← table.name container]

/-- Declare one template parameter of a type; other nodes are passed over. -/
def declareTemplateParameter (type : SymbolId) (node : NodeId) (ordinal : Nat) :
    DeclareM Unit := do
  match tree.node? node with
  | some (.templateParameter name constantType) =>
    let id ← add name (.templateParameter { constantType, ordinal }) .publicAccess type (some node)
    modify fun d => { d with table := d.table.mapKind type fun kind =>
      match kind with
      | .type data => .type { data with templateParameters := data.templateParameters ++ [id] }
      | kind => kind }
  | _ => pure ()

/-- Declare the parameters of a method from the one at `ordinal` on; other nodes are passed over but
count. `seen` holds the names before. -/
def declareParameters (method : SymbolId) : List NodeId → Nat → List String → DeclareM Unit
  | [], _, _ => pure ()
  | node :: rest, ordinal, seen => do
    match tree.node? node with
    | some (.parameter name type defaultValue) =>
      if name ∈ seen then report tree node .parameterAlreadyDeclared [name]
      let id ← add name (.parameter { type, defaultValue, ordinal }) .publicAccess method (some node)
      modify fun d => { d with table := d.table.mapKind method fun kind =>
        match kind with
        | .method data => .method { data with parameters := data.parameters ++ [id] }
        | kind => kind }
      declareParameters method rest (ordinal + 1) (name :: seen)
    | _ => declareParameters method rest (ordinal + 1) seen

/-- Declare a member of `container` and what lies in it; other nodes are passed over. -/
def declareMember (container : SymbolId) (node : NodeId) : DeclareM Unit :=
  match _h : tree.node? node with
  | some (.classDeclaration name modifiers templateParameters base members) => do
    checkDuplicate tree node name container false
    let type ← add name (.type { baseNode := base }) (.ofModifiers modifiers) container (some node)
    modify fun d => { d with types := d.types ++ [type] }
    templateParameters.zipIdx.forM fun (parameter, ordinal) =>
      declareTemplateParameter tree type parameter ordinal
    members.attach.forM fun ⟨member, _⟩ => declareMember type member
  | some (.methodDeclaration name modifiers returnType parameters body) => do
    checkDuplicate tree node name container true
    let method ← add name
      (.method {
        returnType
        body := some body
        isStatic := modifiers.contains .isStatic || container == SymbolTable.global
        isLowLevel := modifiers.contains .isLowLevel })
      (.ofModifiers modifiers) container (some node)
    declareParameters tree method parameters 0 []
  | some (.fieldDeclaration name modifiers type initializer) => do
    checkDuplicate tree node name container false
    let _ ← add name
      (.field {
        type
        initializer
        isConstant := modifiers.contains .isConst
        isStatic := modifiers.contains .isStatic || container == SymbolTable.global })
      (.ofModifiers modifiers) container (some node)
  | _ => pure ()
termination_by node
decreasing_by
  apply tree.child_lt _h
  simp_all

def resolveBase (type : SymbolId) : DeclareM Unit := do
  let table := (← get).table
  match (← table.type? type).bind (·.baseNode) with
  | none => pure ()
  | some baseNode =>
    match tree.node? baseNode with
    | some (.typeName name _ _) =>
      let container := (← table.containing? type).getD SymbolTable.global
      let candidates := table.lookup container name ++ table.lookup SymbolTable.global name
      match ← candidates.findM? (table.isType ·) with
      | none => report tree baseNode .unknownType [name]
      | some base =>
        if ← table.isDerivedFrom base type then
          report tree baseNode .circularBase [← table.name type, ← table.name base]
        else
          modify fun d => { d with table := d.table.mapKind type fun kind =>
            match kind with
            | .type data => .type { data with base := some base }
            | kind => kind }
    | _ => report tree baseNode .unknownType [tree.textOf baseNode]

/-- Declare the members of the compilation unit, and the entry method if it has global
statements. -/
def declareMembers : DeclareM Unit := do
  let isGlobalStatement (node : NodeId) : Bool :=
    match tree.node? node with
    | some (.globalStatement _) => true
    | _ => false
  (tree.members.filter (!isGlobalStatement ·)).forM (declareMember tree SymbolTable.global)
  if tree.members.any isGlobalStatement then
    let _ ← add SymbolTable.entryName (.method { isStatic := true, isEntry := true }) .publicAccess
      SymbolTable.global (some tree.root)

/-- Resolve the bases of the classes, in the order of their declaration. -/
def resolveBases : DeclareM Unit := do
  (← get).types.forM (resolveBase tree)

def declareAll : DeclareM Unit := do
  declareMembers tree
  resolveBases tree

/-- Enter library types and declare the symbols of a tree. -/
def declare (libraryTypes : List String) : EStateM.Result Fault Declarations Unit :=
  (declareAll tree).run { table := libraryTypes.foldl SymbolTable.insertLibraryType .empty }

end Declarations
end Bindery
