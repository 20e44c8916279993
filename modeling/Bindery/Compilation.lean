import Bindery.Binding.Member
import Bindery.Options
import Bindery.Symbol.Declaration

/-!
# Compilations

A compilation declares the symbols of one tree and binds all of it: first the declarations (template
parameters, signatures, field types, default values), then the constants, then all code. What comes
of it is a `GlobalScope`. Diagnostics come in this order, and within each part in the order of the
symbols.

A script may continue earlier ones, whose global scopes it keeps.
-/

namespace Bindery

/-- What binding a compilation unit gives. -/
structure GlobalScope where
  program : Program
  diagnostics : DiagnosticQueue
  entryPoint : Option SymbolId
  methods : List SymbolId
  fields : List SymbolId
  /-- The classes at the top. -/
  types : List SymbolId
  bodies : List (SymbolId × Block)
  initializers : List (SymbolId × Expr)
  /-- The global statements of a script. -/
  statements : List Statement
  libraryTypes : List (String × SymbolId)

namespace GlobalScope

def fileName (s : GlobalScope) : String := s.program.tree.fileName

def body? (s : GlobalScope) (method : SymbolId) : Option Block :=
  (s.bodies.find? fun entry => entry.1 = method).map (·.2)

def libraryType? (s : GlobalScope) (name : String) : Option SymbolId :=
  (s.libraryTypes.find? fun entry => entry.1 = name).map (·.2)

end GlobalScope

/-- A tree with its symbols declared. -/
structure Compilation where
  options : Options
  program : Program
  declarationDiagnostics : DiagnosticQueue

namespace Compilation

/-- The flags that every chain starts from. -/
def flagsOf (o : Options) : Flags := { ignoresAccess := o.ignoresAccess, lowLevel := o.lowLevel }

/-- Declare the symbols of a tree, after those of the libraries. -/
def declare (tree : Tree) (options : Options) : Except Fault Compilation :=
  match Declarations.declare tree options.libraries with
  | .ok _ declared => .ok {
      options
      program := { tree, symbols := declared.table, flags := flagsOf options }
      declarationDiagnostics := declared.diagnostics }
  | .error fault _ => .error fault

/-- The library types, which follow the global container in the table. -/
def libraryTypes (c : Compilation) : List (String × SymbolId) :=
  c.options.libraries.zipIdx.map fun (name, index) => (name, index + 1)

/-! ### Parts -/

/-- The diagnostics of binding what one symbol declares. -/
def bindDeclaration (p : Program) (symbol : Symbol) : BindM DiagnosticQueue := do
  match symbol.kind with
  | .type data =>
    if data.isLibrary then return {}
    else return (← p.bindTemplateParameters symbol.id).diagnostics
  | .method _ => return (← p.signatureOf symbol.id).diagnostics
  | .field _ => return (← p.fieldTypeOf symbol.id []).diagnostics
  | .parameter data =>
    if data.defaultValue.isSome then return (← p.defaultOf symbol.id).diagnostics
    else return {}
  | _ => return {}

/-- The diagnostics of computing the constant of a field. -/
def evaluateConstant (p : Program) (field : SymbolId) : BindM DiagnosticQueue := do
  match ← p.fieldConstantOf field none with
  | some evaluated => return evaluated.diagnostics
  | none => return {}

/-- The code of one symbol. -/
inductive BoundCode where
  | body (method : SymbolId) (block : Block)
  | initializer (field : SymbolId) (value : Expr)

/-- Bind the code of a symbol, if it has any: a method body or the initializer of a field that is
not constant. -/
def bindCode (p : Program) (symbol : Symbol) : BindM (Option (Evaluated BoundCode)) := do
  match symbol.kind with
  | .method data =>
    if data.body.isSome then
      return (← p.bindBody symbol.id).map fun e => ⟨.body symbol.id e.value, e.diagnostics⟩
    else return none
  | .field data =>
    if !data.isConstant && data.initializer.isSome then
      return (← p.bindInitializer symbol.id).map
        fun e => ⟨.initializer symbol.id e.value, e.diagnostics⟩
    else return none
  | _ => return none

/-- Enter a body; one that is there already is replaced. -/
def insertBody (bodies : List (SymbolId × Block)) (method : SymbolId) (block : Block) :
    List (SymbolId × Block) :=
  if bodies.any fun entry => entry.1 = method then
    bodies.map fun entry => if entry.1 = method then (method, block) else entry
  else bodies ++ [(method, block)]

/-! ### The entry point -/

/-- Where the program starts. A script starts with its global statements. Other programs start with
a method of the chosen name, which should have no parameters and not stand beside global
statements. -/
def selectEntryPoint (c : Compilation) : Except Fault (Option SymbolId × List Diagnostic) := do
  let p := c.program
  let name := c.options.entryPoint
  let diagnostic (message : Message) (symbol : SymbolId) : Except Fault Diagnostic := do
    p.diagnostic (← p.declarationOrRoot symbol) message [name]
  match c.options.script, ← p.symbols.entryCandidates name with
  | true, _ | _, [] => return (p.symbols.entry?, [])
  | false, first :: rest =>
    let isParameterless (method : SymbolId) : Except Fault Bool :=
      (·.isEmpty) <$> p.symbols.parameters method
    let main := (← (first :: rest).findM? isParameterless).getD first
    let others ← (first :: rest).filterM fun method => not <$> isParameterless method
    let beside := if p.symbols.entry?.isSome then [main] else []
    return (some main, (← others.mapM (diagnostic .invalidEntryPoint)) ++
      (← beside.mapM (diagnostic .entryPointAndGlobals)))

/-- The members of the global container of one kind. -/
def globalsWhere (c : Compilation) (select : SymbolKind → Bool) :
    Except Fault (List SymbolId) := do
  (← c.program.symbols.members SymbolTable.global).filterM fun member =>
    select <$> c.program.symbols.kind member

/-! ### Everything -/

/-- The code of the symbols, and the diagnostics of binding it. -/
structure CodeParts where
  diagnostics : DiagnosticQueue := {}
  bodies : List (SymbolId × Block) := []
  initializers : List (SymbolId × Expr) := []
  statements : List Statement := []

namespace CodeParts

def add (parts : CodeParts) (code : Evaluated BoundCode) : CodeParts :=
  let parts := { parts with diagnostics := parts.diagnostics.append code.diagnostics }
  match code.value with
  | .body method block => { parts with bodies := insertBody parts.bodies method block }
  | .initializer field value =>
    { parts with initializers := parts.initializers ++ [(field, value)] }

def addSome (parts : CodeParts) : Option (Evaluated BoundCode) → CodeParts
  | some code => parts.add code
  | none => parts

/-- Add the global statements, as the body of the entry method or, in a script, by themselves. -/
def addEntry (parts : CodeParts) (script : Bool) (entry : SymbolId) (body : Evaluated Block) :
    CodeParts :=
  let parts := { parts with diagnostics := parts.diagnostics.append body.diagnostics }
  if script then { parts with statements := body.value.statements }
  else { parts with bodies := insertBody parts.bodies entry body.value }

end CodeParts

/-- The global statements, after all other code. -/
def bindEntry (c : Compilation) (parts : CodeParts) : BindM CodeParts := do
  match c.program.symbols.entry? with
  | none => return parts
  | some entry =>
    match ← c.program.bindBody entry with
    | some body => return parts.addEntry c.options.script entry body
    | none => return parts

/-- Bind all code: that of the symbols, then the global statements. -/
def bindAllCode (c : Compilation) : BindM CodeParts := do
  let parts ← c.program.symbols.symbols.toList.foldlM (fun parts symbol =>
    return parts.addSome (← bindCode c.program symbol)) {}
  c.bindEntry parts

/-- Bind what is declared, then the constants. -/
def settle (c : Compilation) : BindM (List DiagnosticQueue) := do
  let declared ← c.program.symbols.symbols.toList.mapM (bindDeclaration c.program)
  let constants ← c.program.symbols.constantFields.mapM (evaluateConstant c.program)
  return declared ++ constants

/-- The global scope, once everything is bound. -/
def assemble (c : Compilation) (settled : List DiagnosticQueue) (parts : CodeParts) :
    BindM GlobalScope := do
  let (entryPoint, complaints) ← c.selectEntryPoint
  let diagnostics := (settled.foldl (·.append ·) c.declarationDiagnostics).append parts.diagnostics
  return {
    program := c.program
    diagnostics := complaints.foldl (·.push ·) diagnostics
    entryPoint
    methods := ← c.globalsWhere fun kind =>
      match kind with
      | .method data => !data.isEntry
      | _ => false
    fields := ← c.globalsWhere fun kind => kind matches .field _
    types := ← c.globalsWhere fun kind =>
      match kind with
      | .type data => !data.isLibrary
      | _ => false
    bodies := parts.bodies
    initializers := parts.initializers
    statements := parts.statements
    libraryTypes := c.libraryTypes }

def bind (c : Compilation) : BindM GlobalScope := do c.assemble (← c.settle) (← c.bindAllCode)

/-- The global scope of a compilation and what was found on the way. -/
def run (c : Compilation) : Except Fault (GlobalScope × Findings) :=
  match c.bind.run {} with
  | .ok scope state => .ok (scope, state.findings)
  | .error fault _ => .error fault

end Compilation

/-- A global scope with those it continues, newest first. -/
structure Submission where
  scope : GlobalScope
  earlier : List GlobalScope := []

namespace Submission

/-- The global scopes, newest first. -/
def history (s : Submission) : List GlobalScope := s.scope :: s.earlier

def previous? (s : Submission) : Option GlobalScope := s.earlier.head?

end Submission
end Bindery
