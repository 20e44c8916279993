import Bindery.Proofs.StatementSteps

/-! # Areas of code

An area is a set of findings about locals and local functions, with the code that they belong to.
It holds with a statement all of its parts, and what is declared in them.
`Chain.Inside p area chain` says that every scope of statements in a chain, and every local function
whose parameters it brings into scope, lies in the area.  Then

* the locals and local functions that a look-up finds belong to the area, and
* the scopes of statements of the area stay inside of it.

So code that is bound under such a chain has no other locals to ask for. -/

namespace Bindery

/-! ### Areas -/

/-- Which findings about locals and local functions are meant. -/
structure Cells where
  types : LocalKey → Prop
  constants : LocalKey → Prop
  functions : LocalKey → Prop

/-- Findings with the code that they belong to: a node, and the store of its locals. -/
structure Area extends Cells where
  code : Nat → NodeId → Prop

namespace Cells

/-- What is declared at some nodes, whatever the store. -/
def ofNodes (nodes : NodeId → Prop) : Cells where
  types key := nodes key.declaration
  constants key := nodes key.declaration
  functions key := nodes key.declaration

/-- All other cells. -/
def compl (cells : Cells) : Cells where
  types key := ¬ cells.types key
  constants key := ¬ cells.constants key
  functions key := ¬ cells.functions key

end Cells

def Area.ofNodes (nodes : NodeId → Prop) : Area where
  toCells := .ofNodes nodes
  code _ n := nodes n

variable {p : Program} {area : Area} {store : Nat} {kind : Node} {n : NodeId}

section

variable (p area)

/-- The area holds with a statement its parts and what they declare. -/
structure IsArea : Prop where
  part : ∀ {store : Nat} {n child : NodeId}, area.code store n → p.tree.HasStatement n child →
    area.code store child
  declared : ∀ {store : Nat} {n : NodeId} {name : String} {type initializer : Option NodeId}
    {isConstant : Bool}, area.code store n →
    p.tree.node? n = some (.localDeclaration name type isConstant initializer) →
    area.types ⟨store, n⟩ ∧ (isConstant = true → area.constants ⟨store, n⟩)
  function : ∀ {store : Nat} {n : NodeId} {f : LocalFunction}, area.code store n →
    LocalFunction.ofNode? p.tree store n = some f →
    area.functions f.key ∧ ∀ l ∈ f.parameters, area.types l.key

/-- The area holds the scope of a node.  That of a compilation unit is made of global statements. -/
def Area.HoldsScope (store : Nat) (n : NodeId) : Prop :=
  area.code store n ∧ ∀ members, p.tree.node? n = some (.compilationUnit members) →
    ∀ statement ∈ p.tree.globalStatementsOf members, area.code store statement

end

theorem Area.HoldsScope.of_node (h : area.code store n) (hnode : p.tree.node? n = some kind)
    (hkind : kind.isCompilationUnit = false) :
    area.HoldsScope p store n := by
  refine ⟨h, fun members hmembers => ?_⟩
  obtain rfl := Option.mem_unique hnode hmembers
  simp [Node.isCompilationUnit] at hkind

section nodes

variable {nodes : NodeId → Prop} (h : ∀ ⦃n child : NodeId⦄ ⦃kind : Node⦄, nodes n →
  p.tree.node? n = some kind → kind.holdsCode = true → child ∈ kind.children → nodes child)
include h

/-- Nodes that are closed under the children of code. -/
theorem isArea_ofNodes : IsArea p (.ofNodes nodes) where
  part {_ n child} hn := by
    rintro ⟨kind, hnode, hchild⟩
    refine h hn hnode ?_ (Node.mem_children_of_mem_statements hchild)
    have hstatement := Node.isStatement_of_mem_statements hchild
    cases kind <;> first | rfl | exact hstatement
  declared hn _ := ⟨hn, fun _ => hn⟩
  function {store n f} hn hf := by
    have hknown : f.Known p := ⟨store, n, hf⟩
    obtain ⟨parameters, hnode, hparameters⟩ := hknown.nodes
    have hdeclaration : f.declaration = n := congrArg LocalKey.declaration (LocalFunction.key_eq hf)
    have hf : nodes f.declaration := hdeclaration ▸ hn
    refine ⟨hf, fun l hl => h hf hnode rfl ?_⟩
    have hchild : l.declaration ∈ parameters := (hparameters l hl).1
    simp [Local.key, hchild]

theorem holdsScope_ofNodes (store : Nat) {n : NodeId} (hn : nodes n) :
    (Area.ofNodes nodes).HoldsScope p store n := by
  refine ⟨hn, fun members hnode statement hmem => ?_⟩
  obtain ⟨member, hmember, hglobal⟩ := Tree.exists_of_mem_globalStatementsOf hmem
  exact h (h hn hnode rfl hmember) hglobal rfl (by simp)

end nodes

theorem isArea_everywhere : IsArea p (.ofNodes fun _ => True) :=
  isArea_ofNodes fun _ _ _ _ _ _ _ => trivial

theorem holdsScope_everywhere :
    (Area.ofNodes fun _ => True).HoldsScope p store n := ⟨trivial, fun _ _ _ _ => trivial⟩

/-! ### What lies inside -/

section inside

variable (p area)

def IsMethod (method : SymbolId) : Prop :=
  ∃ s data, p.symbols.symbols[method]? = some s ∧ s.kind = .method data

def Local.Inside (l : Local) : Prop := area.types l.key ∧ (l.isConstant = true → area.constants l.key)

def LocalFunction.Inside (f : LocalFunction) : Prop :=
  f.Known p ∧ area.functions f.key ∧ ∀ l ∈ f.parameters, l.Inside area

def FrameKind.Inside : FrameKind → Prop
  | .localScope designator store => area.HoldsScope p store designator
  | .inMethod (.symbol method) => IsMethod p method
  | .inMethod (.function f) => f.Inside p area
  | .code root _ store => area.HoldsScope p store root
  | _ => True

def Chain.Inside (chain : Chain) : Prop := ∀ frame ∈ chain, frame.kind.Inside p area

def Lookup.Inside : Lookup → Prop
  | .localVariable target => target.Inside area
  | .localFunction f => f.Inside p area
  | _ => True

end inside

theorem Chain.Inside.push {chain : Chain} (h : chain.Inside p area) (kind : FrameKind)
    (additional : Flags) (hkind : kind.Inside p area) : (chain.push kind additional).Inside p area :=
  List.forall_mem_cons.2 ⟨hkind, h⟩

variable (closed : IsArea p area)
include closed

/-- A local function that is declared in code of the area. -/
theorem LocalFunction.Inside.of_node {f : LocalFunction} (h : area.code store n)
    (hf : LocalFunction.ofNode? p.tree store n = some f) : f.Inside p area := by
  obtain ⟨hfunction, hparameters⟩ := closed.function h hf
  have hknown : f.Known p := ⟨store, n, hf⟩
  refine ⟨hknown, hfunction, fun l hl => ⟨hparameters l hl, fun hconstant => ?_⟩⟩
  simp [hknown.isConstant_eq_false hl] at hconstant

/-! ### What a scope declares -/

namespace LocalDeclarations

variable {designator : NodeId}

theorem gathered_inside {store : Nat}
    (h : area.HoldsScope p store designator) : ∀ n ∈ gathered p.tree designator, area.code store n := by
  intro n hn
  unfold gathered at hn
  split at hn
  · next hnode => exact closed.part h.1 ⟨_, hnode, hn⟩
  · next hnode => exact h.2 _ hnode n hn
  · rw [List.mem_singleton.1 hn]
    exact h.1

theorem collect_inside {store : Nat} {found : LocalDeclarations}
    (h : area.HoldsScope p store designator) (hfound : collect p.tree store designator = .ok found) :
    (∀ l ∈ found.locals, l.Inside area) ∧ ∀ f ∈ found.functions, f.Inside p area :=
  collect_all (fun hn hnode => closed.part hn ⟨_, hnode, List.mem_singleton_self _⟩) closed.declared
    (.of_node closed) (gathered_inside closed h) hfound

end LocalDeclarations

/-! ### Look-ups -/

namespace Chain

variable {chain : Chain} (inside : chain.Inside p area)
include inside

variable {scope : Chain} {node : NodeId}

theorem lookup_inside {name : String} {found : Lookup} (h : chain.lookup p name node = .ok found) :
    found.Inside p area := by
  by_cases hempty : found = .empty
  · subst hempty
    trivial
  obtain ⟨before, frame, after, rfl, -, hmeans⟩ := means_of_lookup h hempty
  have hkind := inside frame (by simp)
  generalize frame.kind = kind at hmeans hkind
  cases hmeans with
  | declared hcollect hlocal =>
    obtain ⟨hlocals, -⟩ := LocalDeclarations.collect_inside closed hkind hcollect
    exact hlocals _ (List.mem_of_find?_eq_some hlocal)
  | function hcollect _ hfunction =>
    obtain ⟨-, hfunctions⟩ := LocalDeclarations.collect_inside closed hkind hcollect
    exact hfunctions _ (List.mem_of_find?_eq_some hfunction)
  | functionParameter hparameter => exact hkind.2.2 _ (List.mem_of_find?_eq_some hparameter)
  | later | parameter | templateParameter | members => trivial

omit closed inside in
/-- What is found is declared by a scope of statements in the chain. -/
theorem exists_of_findDeclared? {α : Type} {find? : LocalDeclarations → Option α} {a : α}
    (h : chain.findDeclared? p find? = .ok (some a)) : ∃ frame ∈ chain, ∃ designator store found,
      frame.kind = .localScope designator store ∧
        LocalDeclarations.collect p.tree store designator = .ok found ∧ find? found = some a := by
  obtain ⟨before, frame, after, rfl, -, hanswer⟩ := exists_of_findSomeM? h
  have hframe : frame ∈ before ++ frame :: after := by simp
  obtain ⟨declarations, hdeclarations, hanswer⟩ := exists_of_bind_eq_ok hanswer
  obtain ⟨found, rfl, ha⟩ := Option.bind_eq_some_iff.1 (Except.ok.inj hanswer)
  unfold Frame.declarations? at hdeclarations
  split at hdeclarations
  · next designator store heq =>
    cases hcollect : LocalDeclarations.collect p.tree store designator with
    | error fault => simp [hcollect, Functor.map, Except.map] at hdeclarations
    | ok found' =>
      rw [hcollect] at hdeclarations
      obtain rfl := Option.some.inj (Except.ok.inj hdeclarations)
      exact ⟨frame, hframe, designator, store, found', heq, hcollect, ha⟩
  · simp [pure, Except.pure] at hdeclarations

omit closed inside in
theorem localAt?_node {node : NodeId} {target : Local}
    (h : chain.localAt? p node = .ok (some target)) : ∃ initializer, p.tree.node? node =
      some (.localDeclaration target.name target.type target.isConstant initializer) := by
  obtain ⟨_, -, _, _, found, -, hcollect, htarget⟩ := exists_of_findDeclared? h
  obtain rfl : target.declaration = node := by simpa using List.find?_some htarget
  exact ((declared_of_collect hcollect).1 target (List.mem_of_find?_eq_some htarget)).2.2

/-- What a scope of statements in the chain answers. -/
theorem findDeclared?_inside {α : Type} {find? : LocalDeclarations → Option α} {a : α}
    (h : chain.findDeclared? p find? = .ok (some a)) : ∃ found : LocalDeclarations,
      find? found = some a ∧ (∀ l ∈ found.locals, l.Inside area) ∧
        ∀ f ∈ found.functions, f.Inside p area := by
  obtain ⟨frame, hframe, designator, store, found, heq, hcollect, ha⟩ := exists_of_findDeclared? h
  have hkind := inside frame hframe
  rw [heq] at hkind
  exact ⟨found, ha, LocalDeclarations.collect_inside closed hkind hcollect⟩

theorem localAt?_inside {target : Local} (h : chain.localAt? p node = .ok (some target)) :
    target.Inside area := by
  obtain ⟨found, htarget, hlocals, -⟩ := findDeclared?_inside closed inside h
  exact hlocals target (List.mem_of_find?_eq_some htarget)

theorem functionAt?_inside {f : LocalFunction} (h : chain.functionAt? p node = .ok (some f)) :
    f.Inside p area := by
  obtain ⟨found, hf, -, hfunctions⟩ := findDeclared?_inside closed inside h
  exact hfunctions f (List.mem_of_find?_eq_some hf)

/-! ### Inner scopes -/

omit inside

theorem kept_inside (store : Nat) : KeptBy p store (area.code store) (Inside p area) where
  part := closed.part
  scope hn hnode hkind h := h.push _ _ (.of_node hn hnode hkind)
  function hn hf h := h.push _ _ (LocalFunction.Inside.of_node closed hn hf)
  loop h := h.push _ _ trivial
  clause h := h.push _ _ trivial

theorem inherited_inside : Inherited p (Inside p area) where
  below h frame hframe := h frame (List.mem_cons_of_mem _ hframe)
  region {frame rest root _ store _} h hkind hscopes := by
    have hroot := h frame List.mem_cons_self
    rw [hkind] at hroot
    exact (kept_inside closed store).rootScopes hroot.1 hroot.2 (h.push _ _ hroot) h hscopes

omit closed in
theorem method?_inside (inside : chain.Inside p area) {member : Member}
    (h : chain.method? = some member) : FrameKind.Inside p area (.inMethod member) := by
  obtain ⟨frame, hframe, hmember⟩ := List.exists_of_findSome?_eq_some h
  have hkind := inside frame hframe
  split at hmember
  · next other heq =>
    obtain rfl := Option.some.inj hmember
    rwa [heq] at hkind
  · simp at hmember

end Chain

/-! ### Chains of regions -/

namespace Program

omit closed

variable {chain : Chain}

theorem containerScope_inside {list : List SymbolId} (h : p.containerScope list = .ok chain) :
    chain.Inside p area := by
  have global : p.globalScope.Inside p area := by
    intro frame hframe
    rcases List.mem_cons.1 hframe with rfl | hframe
    · trivial
    · rw [List.mem_singleton.1 hframe]
      trivial
  induction list generalizing chain with
  | nil =>
    obtain rfl := Except.ok.inj h
    exact global
  | cons type outer ih =>
    rw [containerScope] at h
    obtain ⟨isType, -, h⟩ := exists_of_bind_eq_ok h
    cases isType with
    | true =>
      obtain ⟨rest, hrest, rfl⟩ := exists_of_bind_pure_eq_ok h
      have hmembers : Chain.Inside p area (rest.push (.inContainer type) {}) :=
        (ih hrest).push _ _ trivial
      exact hmembers.push _ _ trivial
    | false =>
      obtain rfl := Except.ok.inj h
      exact global

theorem outerScope_inside {symbol : SymbolId} (h : p.outerScope symbol = .ok chain) :
    chain.Inside p area := by
  obtain ⟨list, -, h⟩ := exists_of_bind_eq_ok h
  exact containerScope_inside h

variable {method : SymbolId}

theorem codeScope_inside {root : NodeId} {flags : Flags}
    (hmethod : IsMethod p method) (hroot : area.HoldsScope p 0 root)
    (h : p.codeScope method root flags = .ok chain) : chain.Inside p area := by
  obtain ⟨signature, hsignature, rfl⟩ := exists_of_bind_pure_eq_ok h
  obtain ⟨outer, houter, rfl⟩ := exists_of_bind_pure_eq_ok hsignature
  have hmember : Chain.Inside p area
      (outer.push (.containingMember (.symbol method) .methodSignature) {}) :=
    (outerScope_inside houter).push _ _ trivial
  have hparameters : Chain.Inside p area (Chain.push
      (outer.push (.containingMember (.symbol method) .methodSignature) {})
      (.inMethod (.symbol method)) flags) := hmember.push _ _ hmethod
  exact hparameters.push _ _ hroot

theorem bodyScope_inside {data : MethodData} (hdata : p.symbols.method? method = .ok (some data))
    (hentry : data.isEntry = true → ∀ entry, p.symbols.entry? = some entry →
      IsMethod p entry ∧ area.HoldsScope p 0 p.tree.root)
    (hbody : data.isEntry = false → ∀ body, data.body = some body → area.HoldsScope p 0 body)
    (h : p.bodyScope method = .ok (some chain)) : chain.Inside p area := by
  have hmethod : IsMethod p method := by
    obtain ⟨s, hs, hkind⟩ := exists_of_method? hdata
    exact ⟨s, data, hs, hkind⟩
  obtain ⟨found, hfound, h⟩ := exists_of_bind_eq_ok h
  obtain rfl := ok_unique hdata hfound
  dsimp only at h
  split at h
  · next hisEntry =>
    unfold scriptScope at h
    split at h
    · cases h
    · next entry hfound =>
      obtain ⟨hmethod, hroot⟩ := hentry hisEntry entry hfound
      obtain ⟨scope, hscope, ⟨rfl⟩⟩ := exists_of_bind_pure_eq_ok h
      exact codeScope_inside hmethod hroot hscope
  · next hisEntry =>
    obtain ⟨declaration, -, h⟩ := exists_of_bind_eq_ok h
    split at h
    · next body _ hsome =>
      obtain ⟨scope, hscope, ⟨rfl⟩⟩ := exists_of_bind_pure_eq_ok h
      exact codeScope_inside hmethod (hbody (by simpa using hisEntry) body hsome) hscope
    · cases h

theorem initializerScope_inside {field : SymbolId}
    (hroot : ∀ data root, p.symbols.field? field = .ok (some data) → data.initializer = some root →
      area.HoldsScope p 0 root) (h : p.initializerScope field = .ok (some chain)) :
    chain.Inside p area := by
  obtain ⟨found, hfound, h⟩ := exists_of_bind_eq_ok h
  obtain ⟨declaration, -, h⟩ := exists_of_bind_eq_ok h
  split at h
  · next root _ hsome =>
    obtain ⟨data, hdata, hinitializer⟩ := Option.bind_eq_some_iff.1 hsome
    rw [hdata] at hfound
    obtain ⟨scope, hscope, ⟨rfl⟩⟩ := exists_of_bind_pure_eq_ok h
    obtain ⟨outer, houter, rfl⟩ := exists_of_bind_pure_eq_ok hscope
    have hmember : Chain.Inside p area
        (outer.push (.containingMember (.symbol field) .normal) {}) :=
      (outerScope_inside houter).push _ _ trivial
    exact hmember.push _ _ (hroot data root hfound hinitializer)
  · cases h

end Program
end Bindery
