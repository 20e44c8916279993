import Bindery.Collection.Multimap
import Bindery.Collection.NameTable
import Bindery.Collection.Registry
import Bindery.Fault
import Bindery.Symbol.Basic

/-!
# The symbol table

Symbols are only ever appended; a symbol's number is its place in the table, and symbol `0` is the
global container. A number that no symbol has is a fault wherever the symbol itself is needed.

* A symbol that is appended is also entered in the indexes: its name with the other names, a member
  under its container and the number of its name, and the symbol under the node that declares it,
  unless an earlier one stands there.
* `lookup` and `declaredAt?` read the indexes only, so `lookup` finds nothing in a container that
  does not exist.
* Questions about bases and containers walk from a symbol to its base or to what it lies in, until
  they are answered; `search` takes at most one step more than there are symbols.
-/

namespace Bindery

structure SymbolTable where
  names : NameTable
  symbols : Array Symbol
  /-- The members of a container, by the number of their name. -/
  membersByName : Multimap (SymbolId × Nat) SymbolId := {}
  byDeclaration : Registry NodeId SymbolId := {}

namespace SymbolTable

def global : SymbolId := 0

/-- Name of the method that stands for the global statements. -/
def entryName : String := "<Main>"

/-- A table that holds only the global container. -/
def empty : SymbolTable where
  names := (({} : NameTable).intern "<global>").2
  symbols := #[{
    id := global, name := "<global>", kind := .global [], access := .publicAccess,
    containing := none, declaration := none }]

variable (t : SymbolTable) (id : SymbolId)

def size : Nat := t.symbols.size

/-- The symbol of a number, which has to exist. -/
def fetch : Except Fault Symbol :=
  match t.symbols[id]? with
  | some symbol => .ok symbol
  | none => .error (.outOfRange t.size id)

def name : Except Fault String := (·.name) <$> t.fetch id

/-! ### Kinds -/

def kind : Except Fault SymbolKind := (·.kind) <$> t.fetch id

def isType : Except Fault Bool := (·.isType) <$> t.fetch id

def isMethod : Except Fault Bool := (·.isMethod) <$> t.fetch id

def isConstantField : Except Fault Bool := (·.isConstantField) <$> t.fetch id

def type? : Except Fault (Option TypeData) := (·.type?) <$> t.kind id

def method? : Except Fault (Option MethodData) := (·.method?) <$> t.kind id

def field? : Except Fault (Option FieldData) := (·.field?) <$> t.kind id

def parameter? : Except Fault (Option ParameterData) := (·.parameter?) <$> t.kind id

def templateParameter? : Except Fault (Option TemplateParameterData) :=
  (·.templateParameter?) <$> t.kind id

def members : Except Fault (List SymbolId) := (·.members) <$> t.kind id

def parameters : Except Fault (List SymbolId) := (·.parameters) <$> t.kind id

def templateParameters : Except Fault (List SymbolId) := (·.templateParameters) <$> t.kind id

def containing? : Except Fault (Option SymbolId) := (·.containing) <$> t.fetch id

def declaration? : Except Fault (Option NodeId) := (·.declaration) <$> t.fetch id

def base? : Except Fault (Option SymbolId) := (·.base?) <$> t.kind id

/-! ### Growing -/

def mapKind (f : SymbolKind → SymbolKind) : SymbolTable :=
  { t with symbols := t.symbols.modify id fun symbol => { symbol with kind := f symbol.kind } }

/-- Append a symbol that lies in `container` and enter it in the indexes. -/
def pushed (container : SymbolId) (symbol : Symbol) : SymbolTable where
  names := (t.names.intern symbol.name).2
  symbols := t.symbols.push symbol
  membersByName :=
    if symbol.kind.isMember then
      t.membersByName.add (container, (t.names.intern symbol.name).1) symbol.id
    else t.membersByName
  byDeclaration :=
    match symbol.declaration with
    | some node => t.byDeclaration.publish node symbol.id
    | none => t.byDeclaration

/-- Append a symbol; a member is also listed with its container. -/
def insert (name : String) (kind : SymbolKind) (access : Access) (containing : SymbolId)
    (declaration : Option NodeId) : SymbolTable :=
  let id := t.size
  let t := t.pushed containing
    { id, name, kind, access, containing := some containing, declaration }
  if kind.isMember then t.mapKind containing (·.addMember id) else t

/-- Whether a symbol of this kind may have been appended there: a member needs a container. -/
def checkInserted (kind : SymbolKind) (containing : SymbolId) : Except Fault Unit := do
  if kind.isMember then
    if !(← t.kind containing).isContainer then
      throw .memberOutsideContainer

/-- Append a type that a library supplies. -/
def insertLibraryType (name : String) : SymbolTable :=
  t.insert name (.type { isLibrary := true }) .publicAccess global none

/-! ### Look-up -/

/-- The members of `container` named `name`, without those of its bases. -/
def lookup (container : SymbolId) (name : String) : List SymbolId :=
  match t.names.get? name with
  | some number => t.membersByName.get (container, number)
  | none => []

/-- The first symbol that `node` declares. -/
def declaredAt? (node : NodeId) : Option SymbolId := t.byDeclaration.get? node

/-- What `found` says about the first symbol it says something about, among `start` and those that
`next` leads to from there. At most `fuel` symbols are asked. -/
def search {α : Type} (next : SymbolId → Except Fault (Option SymbolId))
    (found : SymbolId → Except Fault (Option α)) : Nat → SymbolId → Except Fault (Option α)
  | 0, _ => return none
  | fuel + 1, start => do
    match ← found start with
    | some answer => return some answer
    | none =>
      match ← next start with
      | none => return none
      | some following => search next found fuel following

/-- More symbols than a walk that does not go in circles can pass. -/
def walkLimit : Nat := t.size + 1

/-- Whether `id` is `ancestor` or derives from it. -/
def isDerivedFrom (ancestor : SymbolId) : Except Fault Bool :=
  (·.isSome) <$> search t.base? (fun type => return if type = ancestor then some () else none)
    t.walkLimit id

/-- The members named `name` of the first type on the base chain that has some. -/
def lookupInHierarchy (name : String) : Except Fault (List SymbolId) :=
  (·.getD []) <$> search t.base? (fun type =>
    let members := t.lookup type name
    return if members.isEmpty then none else some members) t.walkLimit id

/-- The nearest type around a symbol, or the symbol itself if it is one. -/
def containingType? : Except Fault (Option SymbolId) :=
  search t.containing? (fun symbol => return if ← t.isType symbol then some symbol else none)
    t.walkLimit id

/-- What `next` leads to from `start`, with `start` itself first. At most `fuel` symbols are
passed. -/
def follow (next : SymbolId → Except Fault (Option SymbolId)) :
    Nat → SymbolId → Except Fault (List SymbolId)
  | 0, _ => return []
  | fuel + 1, start => do
    match ← next start with
    | none => return [start]
    | some following => return start :: (← follow next fuel following)

/-- A symbol and what it lies in, nearest first. -/
def containers : Except Fault (List SymbolId) := follow t.containing? t.walkLimit id

/-- The methods at the top named `name`. -/
def entryCandidates (name : String) : Except Fault (List SymbolId) :=
  (t.lookup global name).filterM t.isMethod

/-- The method that stands for the global statements. -/
def entry? : Option SymbolId := (t.lookup global entryName).head?

/-- Every constant field, in declaration order. -/
def constantFields : List SymbolId := (t.symbols.toList.filter (·.isConstantField)).map (·.id)

/-- The type that a symbol is a member of, if it is in one. -/
def owner? (symbol : Symbol) : Except Fault (Option SymbolId) :=
  match symbol.containing with
  | none => return none
  | some container => return if ← t.isType container then some container else none

/-- The names of a symbol and of the types it lies in, outermost first. -/
def qualifiedNames : Nat → SymbolId → Except Fault (List String)
  | 0, _ => return []
  | fuel + 1, id => do
    let symbol ← t.fetch id
    match ← t.owner? symbol with
    | none => return [symbol.name]
    | some owner => return (← qualifiedNames fuel owner) ++ [symbol.name]

/-- The name of a symbol after those of the types it lies in. -/
def qualifiedName : Except Fault String :=
  String.intercalate "." <$> t.qualifiedNames t.walkLimit id

/-! ### Access -/

/-- Whether `test` holds of a place or of a type around it. The next type around is determined
before the test, which makes a container that does not exist a fault even where the test would
hold. -/
def anyAround (test : SymbolId → Except Fault Bool) : Nat → SymbolId → Except Fault Bool
  | 0, _ => return false
  | fuel + 1, place => do
    let outer ←
      match ← t.containing? place with
      | none => pure none
      | some container => t.containingType? container
    if ← test place then return true
    match outer with
    | none => return false
    | some type => anyAround test fuel type

/-- Whether code in `within`, the innermost type around it, may refer to a symbol. Private members
are visible inside their type and the types nested in it, protected members also in types that
derive from it. -/
def isAccessible (within : Option SymbolId) : Except Fault Bool := do
  let symbol ← t.fetch id
  match ← t.owner? symbol with
  | none => return true
  | some owner =>
    let around (test : SymbolId → Except Fault Bool) : Except Fault Bool :=
      match within with
      | none => return false
      | some place => t.anyAround test t.walkLimit place
    match symbol.access with
    | .publicAccess => return true
    | .privateAccess => around fun type => return type = owner
    | .protectedAccess => around fun type => t.isDerivedFrom type owner

end SymbolTable
end Bindery
