import Bindery.Collection.Registry
import Bindery.Scope.Inner

/-!
# Regions

A region is the part of a tree that one chain of scopes serves: the signature, the body or a default
value of a method, the type or the initializer of a field, the body or the base of a class, the
global statements. Chains are made once and kept under the declaring node and its usage; types of
libraries have no node and get a new chain every time.

* `Program.fetch` gives the chain of a region. It also keeps the chains that this one stands on.
* `Program.chainAt` finds the region that owns a node, and in it the innermost scope around the
  node.
-/

namespace Bindery

inductive Region where
  | global
  /-- The inside of a type; outside of types, the global region. -/
  | container (symbol : SymbolId)
  | base (type : SymbolId)
  | signature (method : SymbolId)
  | body (method : SymbolId)
  | script
  | defaultValue (parameter : SymbolId)
  | field (field : SymbolId)
  | initializer (field : SymbolId)
deriving DecidableEq, Repr

structure RegionKey where
  node : NodeId
  usage : Usage
deriving DecidableEq, Repr

abbrev RegionCache := Registry RegionKey Chain

/-- Making chains. What was kept before a fault stays kept. -/
abbrev RegionM := EStateM Fault RegionCache

namespace Program

variable (p : Program)

/-- The chain kept for a declaration, or a new one that is then kept. Should making it have kept a
chain under the same key, that one stays. -/
def keep (declaration : Option NodeId) (usage : Usage) (build : RegionM Chain) :
    RegionM Chain := do
  match declaration with
  | none => build
  | some node =>
    match (← get).get? ⟨node, usage⟩ with
    | some chain => return chain
    | none =>
      let chain ← build
      modify (·.publish ⟨node, usage⟩ chain)
      return ((← get).get? ⟨node, usage⟩).getD chain

def globalChain : RegionM Chain :=
  keep (some p.tree.root) .normal do
    return (Chain.outermost p.flags).push (.inContainer SymbolTable.global) {}

/-- The inside of the first of `containers`, each of which lies in the next. -/
def containerChain : List SymbolId → RegionM Chain
  | [] => p.globalChain
  | type :: outer => do
    if ← p.symbols.isType type then
      keep (← p.symbols.declaration? type) .typeBody do
        let chain ← containerChain outer
        return (chain.push (.inContainer type) {}).push (.templateParameters type) {}
    else p.globalChain

/-- What lies around the declaration of a symbol. -/
def outerChain (symbol : SymbolId) : RegionM Chain := do
  p.containerChain (← p.symbols.containers symbol).tail

/-- The base of a class sees its template parameters but not its members. -/
def baseChain (type : SymbolId) : RegionM Chain := do
  keep (← p.symbols.declaration? type) .typeBase do
    return (← p.outerChain type).push (.templateParameters type) {}

/-- The types of a method's parameters and its return type. -/
def signatureChain (method : SymbolId) : RegionM Chain := do
  keep (← p.symbols.declaration? method) .methodSignature do
    return (← p.outerChain method).push (.containingMember (.symbol method) .methodSignature) {}

def fieldChain (field : SymbolId) : RegionM Chain := do
  keep (← p.symbols.declaration? field) .normal do
    return (← p.outerChain field).push (.containingMember (.symbol field) .normal) {}

/-- The global statements, as the body of the entry method. -/
def scriptChain : RegionM (Option Chain) := do
  match p.symbols.entry? with
  | none => return none
  | some entry =>
    let chain ← keep (some p.tree.root) .script do
      let inMethod := (← p.signatureChain entry).push (.inMethod (.symbol entry)) {}
      return inMethod.push (.code p.tree.root (.symbol entry) 0) {}
    return some chain

/-- The body of a method that has one. -/
def bodyChain (method : SymbolId) : RegionM (Option Chain) := do
  match ← p.symbols.method? method with
  | none => return none
  | some data =>
    if data.isEntry then p.scriptChain
    else
      match data.body, ← p.symbols.declaration? method with
      | some body, some declaration =>
        let chain ← keep (some declaration) .methodBody do
          let inMethod := (← p.signatureChain method).push (.inMethod (.symbol method))
            { lowLevel := data.isLowLevel }
          return inMethod.push (.code body (.symbol method) 0) {}
        return some chain
      | _, _ => return none

/-- The default value of a parameter that has one. -/
def defaultChain (parameter : SymbolId) : RegionM (Option Chain) := do
  match (← p.symbols.parameter? parameter).bind (·.defaultValue), ← p.symbols.containing? parameter,
      ← p.symbols.declaration? parameter with
  | some value, some method, some declaration =>
    let chain ← keep (some declaration) .defaultValue do
      let chain := (← p.signatureChain method).push (.plain none) { inDefaultValue := true }
      return chain.push (.code value (.symbol method) 0) {}
    return some chain
  | _, _, _ => return none

/-- The initializer of a field that has one. -/
def initializerChain (field : SymbolId) : RegionM (Option Chain) := do
  match (← p.symbols.field? field).bind (·.initializer), ← p.symbols.declaration? field with
  | some initializer, some declaration =>
    let chain ← keep (some declaration) .initializer do
      return (← p.fieldChain field).push (.code initializer (.symbol field) 0)
        { inInitializer := true }
    return some chain
  | _, _ => return none

def fetch : Region → RegionM (Option Chain)
  | .global => some <$> p.globalChain
  | .container symbol => do return some (← p.containerChain (← p.symbols.containers symbol))
  | .base type => some <$> p.baseChain type
  | .signature method => some <$> p.signatureChain method
  | .body method => p.bodyChain method
  | .script => p.scriptChain
  | .defaultValue parameter => p.defaultChain parameter
  | .field field => some <$> p.fieldChain field
  | .initializer field => p.initializerChain field

/-! ### Finding the region of a node -/

/-- The regions to try at a node on the way up from its child `child`, in order of preference. -/
def regionsAt (child : Option NodeId) (node : NodeId) : List Region :=
  let declared := p.symbols.declaredAt? node
  match p.tree.node? node with
  | some (.fieldDeclaration _ _ _ initializer) =>
    match declared with
    | none => []
    | some field =>
      (if child.isSome && child = initializer then [.initializer field] else []) ++ [.field field]
  | some (.parameter _ _ defaultValue) =>
    match declared with
    | none => []
    | some parameter =>
      if child.isSome && child = defaultValue then [.defaultValue parameter] else []
  | some (.methodDeclaration _ _ _ _ body) =>
    match declared with
    | none => []
    | some method =>
      (if child = some body then [.body method] else []) ++ [.signature method]
  | some (.classDeclaration _ _ _ base _) =>
    match declared with
    | none => []
    | some type => if child.isSome && child = base then [.base type] else [.container type]
  | some (.globalStatement _) => [.script]
  | some (.compilationUnit _) => [.global]
  | _ => []

/-- All regions to try for a node, from the inside to the outside. -/
def regionsOn : Option NodeId → List NodeId → List Region
  | _, [] => [.global]
  | child, node :: rest => p.regionsAt child node ++ regionsOn (some node) rest

def fetchFirst : List Region → RegionM Chain
  | [] => p.globalChain
  | region :: rest => do
    match ← p.fetch region with
    | some chain => return chain
    | none => fetchFirst rest

def ownerChain (node : NodeId) : RegionM Chain := do
  p.fetchFirst (p.regionsOn none (← p.tree.pathToRoot node))

/-- The chain at a node: the innermost scope around it in its region. -/
def chainAt (node : NodeId) : RegionM Chain := do
  (← p.ownerChain node).enclosing p node

/-- Whether a symbol is a method with code. -/
def hasBody (symbol : SymbolId) : Except Fault Bool := do
  return (← p.symbols.method? symbol).any fun data => data.body.isSome || data.isEntry

end Program
end Bindery
