import Bindery.Proofs.RegionChains
import Mathlib.Data.List.Nodup

/-! # The scopes inside a region

`Chain.rootScopes` lists the scopes of a region in one walk, binding asks for them one by one in
another.  This file says where the two meet.

* `Chain.opened` is the scope that a statement has on top of the chain around it, and
  `Chain.partScopes` lists the scopes of what lies in it: the walk is these two, node by node.
* Scopes listed for a node belong to nodes of its subtree, and subtrees of siblings have nothing in
  common, so the list of the whole region says of a node what the list of the node itself says
  (`Chain.Placed`).
* `Chain.Placed.inner_eq`: a statement that is bound under a chain has the scope that was made for
  it.  A loop stands under its own loop frame, a block under its own scope, and what a statement
  declares is gathered by the scope it stands in. -/

namespace Bindery

/-! ### Statements of statements -/

/-- The statements that a statement consists of, in the order of their positions. -/
@[simp] def Node.statements : Node → List NodeId
  | block statements => statements
  | localFunction _ _ _ body => [body]
  | ifStatement _ thenStatement elseStatement => thenStatement :: elseStatement.toList
  | whileStatement _ body => [body]
  | tryStatement body catchBody finallyBody => body :: (catchBody.toList ++ finallyBody.toList)
  | labeled _ statement => [statement]
  | _ => []

theorem Node.statements_sublist (kind : Node) : kind.statements.Sublist kind.children := by
  cases kind <;> simp [statements, children]

theorem Node.mem_children_of_mem_statements {kind : Node} {part : NodeId}
    (h : part ∈ kind.statements) : part ∈ kind.children := kind.statements_sublist.subset h

theorem Node.isStatement_of_mem_statements {kind : Node} {part : NodeId}
    (h : part ∈ kind.statements) : kind.isStatement = true := by
  cases kind <;> simp_all [statements, isStatement]

/-- The second node is one of the statements that the first consists of. -/
def Tree.HasStatement (t : Tree) (n part : NodeId) : Prop :=
  ∃ kind, t.node? n = some kind ∧ part ∈ kind.statements

namespace Chain

/-- A statement that another consists of. -/
structure Part where
  node : NodeId
  /-- The chain that its scope is opened on. -/
  chain : Chain
  /-- Whether it stands where a single statement is expected. -/
  alone : Bool
  /-- Whether the chain is listed for it. -/
  entered : Bool

section shape

variable (p : Program) (store : Nat)

/-- Whether a statement has a scope of its own; `alone` says that it stands where a single statement
is expected. -/
def opensScope (alone : Bool) (node : NodeId) : Bool :=
  match p.tree.node? node with
  | some (.block _) | some (.whileStatement ..) => true
  | some (.localDeclaration ..) | some (.localFunction ..) | some (.labeled ..) => alone
  | _ => false

/-- The scope of a statement on top of the chain around it. -/
def opened (alone : Bool) (chain : Chain) (node : NodeId) : Chain :=
  match p.tree.node? node with
  | some (.block _) => chain.push (.localScope node store) {}
  | some (.whileStatement ..) => chain.push (.loop node) {}
  | some (.localDeclaration ..) | some (.localFunction ..) | some (.labeled ..) =>
      if alone then chain.push (.localScope node store) {} else chain
  | _ => chain

/-- The parts of a `try` statement with the flags of their chains. -/
def clauses (scope : Chain) (body : NodeId) (catchBody finallyBody : Option NodeId) :
    List (NodeId × Flags) :=
  (body, { inTry := true }) :: catchBody.toList.map (·, { inCatch := true }) ++
    finallyBody.toList.map
      (·, { inFinally := true, inNestedFinally := (flags scope).inFinally })

/-- The statements that a statement consists of, if its own scope is `scope`. -/
def parts (scope : Chain) (node : NodeId) : List Part :=
  match p.tree.node? node with
  | some (.block statements) => statements.map (⟨·, scope, false, false⟩)
  | some (.localFunction _ _ _ body) => (LocalFunction.ofNode? p.tree store node).toList.map
      fun function => ⟨body, scope.push (.inMethod (.function function)) {}, true, true⟩
  | some (.ifStatement _ thenStatement elseStatement) =>
      (thenStatement :: elseStatement.toList).map (⟨·, scope, true, false⟩)
  | some (.whileStatement _ body) => [body].map (⟨·, scope, true, true⟩)
  | some (.tryStatement body catchBody finallyBody) =>
      (clauses scope body catchBody finallyBody).map
        fun clause => ⟨clause.1, scope.push (.plain (some clause.1)) clause.2, true, true⟩
  | some (.labeled _ statement) => [statement].map (⟨·, scope, false, false⟩)
  | _ => []

/-- The scopes that are listed for a part. -/
def Part.scopes (part : Part) : List (NodeId × Chain) :=
  (if part.alone then embeddedScopes p store part.chain part.node
    else statementScopes p store part.chain part.node) ++
    if part.entered then [(part.node, part.chain)] else []

/-- The scopes of the parameters of a local function. -/
def parameterScopes (scope : Chain) (node : NodeId) : List (NodeId × Chain) :=
  match p.tree.node? node, LocalFunction.ofNode? p.tree store node with
  | some (.localFunction _ _ parameters _), some function =>
      parameters.map (·, scope.push (.inMethod (.function function)) {})
  | _, _ => []

/-- The scopes of what lies in a statement. -/
def partScopes (scope : Chain) (node : NodeId) : List (NodeId × Chain) :=
  parameterScopes p store scope node ++ (parts p store scope node).flatMap (Part.scopes p store)

/-- The entry of a statement itself, if it has a scope of its own. -/
def ownScope (alone : Bool) (chain : Chain) (node : NodeId) : List (NodeId × Chain) :=
  if opensScope p alone node then [(node, opened p store alone chain node)] else []

theorem blockScopes_eq {node : NodeId} {statements : List NodeId}
    (h : p.tree.node? node = some (.block statements)) (chain : Chain) :
    blockScopes p store chain node = (node, chain.push (.localScope node store) {}) ::
      statements.flatMap (statementScopes p store (chain.push (.localScope node store) {})) := by
  rw [blockScopes]
  split
  · next found hfound =>
    obtain rfl : found = statements := by simpa [h] using hfound.symm
    simp
  · next hnone => exact absurd h (hnone statements)

theorem statementScopes_eq (chain : Chain) (node : NodeId) :
    statementScopes p store chain node = ownScope p store false chain node ++
      partScopes p store (opened p store false chain node) node := by
  rw [statementScopes]
  unfold ownScope opensScope opened partScopes parameterScopes parts
  split
  · next hnode => simp [hnode, blockScopes_eq p store hnode, Part.scopes, List.flatMap_map]
  · next hnode =>
    rw [hnode]
    cases LocalFunction.ofNode? p.tree store node <;> simp [Part.scopes, childScopes]
  · next hnode => simp [hnode, Part.scopes, childScopes]
  · next elseStatement hnode => cases elseStatement <;> simp [hnode, Part.scopes]
  · next catchBody finallyBody hnode =>
    cases catchBody <;> cases finallyBody <;> simp [hnode, Part.scopes, clauses, childScopes]
  · next hnode => simp [hnode, Part.scopes]
  · next hblock hfunction hwhile hif htry hlabeled =>
    cases hnode : p.tree.node? node with
    | none => simp
    | some kind =>
      cases kind with
      | localFunction => exact absurd hnode (hfunction _ _ _ _)
      | _ => simp_all

theorem embeddedScopes_eq (chain : Chain) (node : NodeId) :
    embeddedScopes p store chain node = ownScope p store true chain node ++
      partScopes p store (opened p store true chain node) node := by
  rw [embeddedScopes]
  simp only [statementScopes_eq]
  unfold ownScope opensScope opened
  cases p.tree.node? node with
  | none => rfl
  | some kind => cases kind <;> simp

theorem Part.scopes_listed (chain : Chain) (node : NodeId) :
    Part.scopes p store ⟨node, chain, false, false⟩ = statementScopes p store chain node := by
  simp [scopes]

theorem Part.scopes_eq (part : Part) :
    part.scopes p store = ownScope p store part.alone part.chain part.node ++
      partScopes p store (opened p store part.alone part.chain part.node) part.node ++
        if part.entered then [(part.node, part.chain)] else [] := by
  unfold scopes
  cases part.alone
  · simp [statementScopes_eq]
  · simp [embeddedScopes_eq]

end shape

variable {p : Program}

/-! ### Parts -/

section parts

variable {store : Nat} {scope : Chain} {node : NodeId} {kind : Node}

theorem map_fst_clauses (scope : Chain) (body : NodeId) (catchBody finallyBody : Option NodeId) :
    (clauses scope body catchBody finallyBody).map (·.1) =
      (Node.tryStatement body catchBody finallyBody).children := by
  cases catchBody <;> cases finallyBody <;> rfl

theorem map_node_parts (hnode : p.tree.node? node = some kind) :
    (parts p store scope node).map (·.node) = kind.statements := by
  unfold parts
  rw [hnode]
  cases kind with
  | localFunction => simp [LocalFunction.ofNode?, hnode]
  | tryStatement body catchBody finallyBody =>
    rw [List.map_map]
    exact map_fst_clauses scope body catchBody finallyBody
  | _ => simp [Function.comp_def]

variable {part : Part}

theorem hasStatement_of_mem_parts (h : part ∈ parts p store scope node) :
    p.tree.HasStatement node part.node := by
  cases hnode : p.tree.node? node with
  | none => simp [parts, hnode] at h
  | some kind => exact ⟨kind, hnode, map_node_parts hnode ▸ List.mem_map_of_mem h⟩

/-- There are no other parts. -/
theorem exists_part (store : Nat) (scope : Chain) {n : NodeId} (h : p.tree.HasStatement node n) :
    ∃ part ∈ parts p store scope node, part.node = n := by
  obtain ⟨kind, hnode, hn⟩ := h
  exact List.mem_map.1 (map_node_parts hnode ▸ hn)

/-- The chain of a part is the scope of the statement, unless it is entered with the part. -/
theorem chain_of_mem_parts (h : part ∈ parts p store scope node) (hentered : part.entered = false) :
    part.chain = scope := by
  unfold parts at h
  split at h
  all_goals
    first
      | exact absurd h List.not_mem_nil
      | obtain ⟨_, -, rfl⟩ := List.mem_map.1 h
        first | rfl | cases hentered

end parts

/-! ### What is listed -/

/-- A chain with known frames on top, none of which starts code. -/
def Extends (p : Program) (base chain : Chain) : Prop :=
  ∃ frames : Chain, chain = frames ++ base ∧ frames.Outside p

theorem Extends.refl (chain : Chain) : Extends p chain chain :=
  ⟨[], rfl, by simp [Known], by simp⟩

variable {base chain : Chain} {node : NodeId}

theorem Extends.push (h : Extends p base chain) (kind : FrameKind) (additional : Flags)
    (hkind : kind.Known p) (hcode : kind.isCode = false) :
    Extends p base (chain.push kind additional) := by
  obtain ⟨frames, rfl, houtside⟩ := h
  exact ⟨_ :: frames, rfl, List.forall_mem_cons.2 ⟨hkind, houtside.known⟩,
    List.forall_mem_cons.2 ⟨hcode, houtside.codeFree⟩⟩

theorem Extends.trans {a b c : Chain} (h : Extends p a b) (h' : Extends p b c) : Extends p a c := by
  obtain ⟨frames, rfl, houtside⟩ := h
  obtain ⟨frames', rfl, houtside'⟩ := h'
  exact ⟨frames' ++ frames, by rw [List.append_assoc],
    List.forall_mem_append.2 ⟨houtside'.known, houtside.known⟩,
    List.forall_mem_append.2 ⟨houtside'.codeFree, houtside.codeFree⟩⟩

theorem Extends.known (h : Extends p base chain) (hbase : base.Known p) : chain.Known p := by
  obtain ⟨frames, rfl, houtside⟩ := h
  exact List.forall_mem_append.2 ⟨houtside.known, hbase⟩

/-- Whether a node lies in the subtree of a child of `node`. -/
def Below (p : Program) (node part : NodeId) : Prop :=
  ∃ kind child, p.tree.node? node = some kind ∧ child ∈ kind.children ∧ p.tree.Under child part

theorem Below.under {part : NodeId} (h : Below p node part) : p.tree.Under node part := by
  obtain ⟨_, _, hnode, hchild, hpart⟩ := h
  exact (Tree.Under.of_child hnode hchild).trans hpart

theorem Below.lt {node part : Nat} (h : Below p node part) : part < node := by
  obtain ⟨_, _, hnode, hchild, hpart⟩ := h
  exact Nat.lt_of_le_of_lt hpart.le (p.tree.child_lt hnode hchild)

/-- The entries of a list are about nodes that satisfy `S`, with chains that satisfy `C`. -/
def Lists (S : NodeId → Prop) (C : Chain → Prop) (list : List (NodeId × Chain)) : Prop :=
  ∀ entry ∈ list, S entry.1 ∧ C entry.2

namespace Lists

variable {S S' : NodeId → Prop} {C : Chain → Prop} {list list' : List (NodeId × Chain)}

theorem nil : Lists S C [] := by simp [Lists]

theorem append (h : Lists S C list) (h' : Lists S C list') : Lists S C (list ++ list') :=
  List.forall_mem_append.2 ⟨h, h'⟩

theorem flatMap {α : Type} {items : List α} {f : α → List (NodeId × Chain)}
    (h : ∀ a ∈ items, Lists S C (f a)) : Lists S C (items.flatMap f) := List.forall_mem_flatMap.2 h

theorem imp (h : Lists S C list) (hS : ∀ n, S n → S' n) : Lists S' C list :=
  fun entry hentry => ⟨hS _ (h entry hentry).1, (h entry hentry).2⟩

theorem single {node : NodeId} {scope : Chain} (hnode : S node) (h : C scope) :
    Lists S C [(node, scope)] := List.forall_mem_singleton.2 ⟨hnode, h⟩

end Lists

/-- What holds of a chain still holds with the frames on top that statements of some code push. -/
structure KeptBy (p : Program) (store : Nat) (code : NodeId → Prop) (C : Chain → Prop) : Prop where
  part : ∀ {n child : NodeId}, code n → p.tree.HasStatement n child → code child
  scope : ∀ {chain : Chain} {n : NodeId} {kind : Node}, code n → p.tree.node? n = some kind →
    kind.isCompilationUnit = false → C chain → C (chain.push (.localScope n store) {})
  function : ∀ {chain : Chain} {n : NodeId} {f : LocalFunction}, code n →
    LocalFunction.ofNode? p.tree store n = some f → C chain →
      C (chain.push (.inMethod (.function f)) {})
  loop : ∀ {chain : Chain} {n : NodeId}, C chain → C (chain.push (.loop n) {})
  clause : ∀ {chain : Chain} {n : NodeId} {flags : Flags}, C chain →
    C (chain.push (.plain (some n)) flags)

namespace KeptBy

variable {store : Nat} {code : NodeId → Prop} {C : Chain → Prop} (kept : KeptBy p store code C)
  {chain : Chain} {node : NodeId}
include kept

theorem opened (alone : Bool) (hnode : code node) (h : C chain) :
    C (opened p store alone chain node) := by
  unfold Chain.opened
  split
  · next hkind => exact kept.scope hnode hkind rfl h
  · exact kept.loop h
  all_goals
    first
      | exact h
      | next hkind =>
        split
        · exact kept.scope hnode hkind rfl h
        · exact h

variable {part : Part}

/-- The scopes of a part: its own, those of its parts, and its chain. -/
theorem own (hnode : code part.node) (h : C part.chain) (hparts : ∀ {chain : Chain}, C chain →
      Lists (Below p part.node) C (partScopes p store chain part.node)) :
    Lists (p.tree.Under part.node) C (part.scopes p store) := by
  have hopened := kept.opened part.alone hnode h
  rw [Part.scopes_eq]
  refine .append (.append ?_ ((hparts hopened).imp fun _ => Below.under)) ?_
  · unfold ownScope
    split
    · exact .single .refl hopened
    · exact .nil
  · split
    · exact .single .refl h
    · exact .nil

theorem part_chain (hnode : code node) (h : C chain)
    (hpart : part ∈ parts p store chain node) : C part.chain := by
  unfold parts at hpart
  split at hpart
  all_goals
    first
      | exact absurd hpart List.not_mem_nil
      | obtain ⟨_, hmem, rfl⟩ := List.mem_map.1 hpart
        first
          | exact h
          | exact kept.clause h
          | exact kept.function hnode (Option.mem_toList.1 hmem) h

theorem partScopes (node : NodeId) (hnode : code node) :
    ∀ {chain : Chain}, C chain → Lists (Below p node) C (partScopes p store chain node) := by
  induction node using Nat.strongRecOn with
  | ind node ih =>
    intro chain h
    refine .append ?_ (.flatMap fun part hpart => ?_)
    · unfold parameterScopes
      split
      · next hkind hfunction =>
        intro entry hentry
        obtain ⟨parameter, hparameter, rfl⟩ := List.mem_map.1 hentry
        exact ⟨⟨_, parameter, hkind, by simp [hparameter], .refl⟩,
          kept.function hnode hfunction h⟩
      · exact .nil
    · obtain ⟨kind, hkind, hstatement⟩ := hasStatement_of_mem_parts hpart
      have hmem := Node.mem_children_of_mem_statements hstatement
      have hcode := kept.part hnode ⟨kind, hkind, hstatement⟩
      exact (kept.own hcode (kept.part_chain hnode h hpart)
        (ih _ (p.tree.child_lt hkind hmem) hcode)).imp fun k hk => ⟨kind, _, hkind, hmem, hk⟩

theorem scopes (part : Part) (hnode : code part.node) (h : C part.chain) :
    Lists (p.tree.Under part.node) C (part.scopes p store) :=
  kept.own hnode h (kept.partScopes _ hnode)

theorem statementScopes (hnode : code node) (h : C chain) :
    Lists (p.tree.Under node) C (statementScopes p store chain node) := by
  rw [← Part.scopes_listed]
  exact kept.scopes _ hnode h

theorem childScopes (hnode : code node) (h : C chain) :
    Lists (p.tree.Under node) C (childScopes p store chain node) := by
  simpa [Part.scopes, Chain.childScopes] using kept.scopes ⟨node, chain, true, true⟩ hnode h

/-- The scopes of a region.  That of a compilation unit is made of global statements. -/
theorem rootScopes {root : NodeId} (hroot : code root)
    (hglobal : ∀ members, p.tree.node? root = some (.compilationUnit members) →
      ∀ statement ∈ p.tree.globalStatementsOf members, code statement)
    (hscope : C (chain.push (.localScope root store) {})) (h : C chain)
    {scopes : List (NodeId × Chain)} (hscopes : rootScopes p store chain root = .ok scopes) :
    ∀ entry ∈ scopes, C entry.2 := by
  unfold Chain.rootScopes at hscopes
  obtain ⟨kind, hfetch, hscopes⟩ := exists_of_bind_eq_ok hscopes
  have hnode := Tree.node?_of_fetch hfetch
  intro entry hentry
  cases kind with
  | compilationUnit members =>
    obtain rfl := Except.ok.inj hscopes
    rcases List.mem_cons.1 hentry with rfl | hentry
    · exact hscope
    · obtain ⟨statement, hmem, hentry⟩ := List.mem_flatMap.1 hentry
      exact (kept.statementScopes (hglobal members hnode statement hmem) hscope entry hentry).2
  | block statements =>
    obtain rfl := Except.ok.inj hscopes
    rw [blockScopes_eq p store hnode] at hentry
    rcases List.mem_cons.1 hentry with rfl | hentry
    · exact hscope
    · obtain ⟨statement, hmem, hentry⟩ := List.mem_flatMap.1 hentry
      exact (kept.statementScopes (kept.part hroot ⟨_, hnode, hmem⟩) hscope entry hentry).2
  | _ =>
    obtain rfl := Except.ok.inj hscopes
    split at hentry
    · exact (kept.childScopes hroot h entry hentry).2
    · simp at hentry

end KeptBy

theorem Extends.kept (base : Chain) (store : Nat) :
    KeptBy p store (fun _ => True) (Extends p base) where
  part _ _ := trivial
  scope _ hnode _ h := h.push _ _ (Tree.lt_size_of_node? hnode) rfl
  function _ hf h := h.push _ _ ⟨store, _, hf⟩ rfl
  loop h := h.push _ _ trivial rfl
  clause h := h.push _ _ trivial rfl

theorem opened_extends (store : Nat) (alone : Bool) (chain : Chain) (node : NodeId) :
    Extends p chain (opened p store alone chain node) :=
  (Extends.kept chain store).opened alone trivial (.refl chain)

theorem partScopes_lists (store : Nat) (node : NodeId) (chain : Chain) :
    Lists (Below p node) (Extends p chain) (partScopes p store chain node) :=
  (Extends.kept chain store).partScopes node trivial (.refl chain)

theorem statementScopes_lists (store : Nat) (chain : Chain) (node : NodeId) :
    Lists (p.tree.Under node) (Extends p chain) (statementScopes p store chain node) :=
  (Extends.kept chain store).statementScopes trivial (.refl chain)

theorem childScopes_lists (store : Nat) (chain : Chain) (node : NodeId) :
    Lists (p.tree.Under node) (Extends p chain) (childScopes p store chain node) :=
  (Extends.kept chain store).childScopes trivial (.refl chain)

theorem Part.scopes_lists (store : Nat) (part : Part) :
    Lists (p.tree.Under part.node) (Extends p part.chain) (part.scopes p store) :=
  (Extends.kept part.chain store).scopes _ trivial (.refl part.chain)

/-! ### What is found -/

/-- The first scope that a list has for a node. -/
def scopeAt (list : List (NodeId × Chain)) (node : NodeId) : Option Chain :=
  (list.find? fun scope => scope.1 = node).map (·.2)

theorem scopeAt_append (a b : List (NodeId × Chain)) (node : NodeId) :
    scopeAt (a ++ b) node = (scopeAt a node).or (scopeAt b node) := by
  unfold scopeAt
  rw [List.find?_append]
  cases a.find? fun scope => scope.1 = node <;> rfl

theorem scopeAt_eq_none {l : List (NodeId × Chain)} (h : ∀ entry ∈ l, entry.1 ≠ node) :
    scopeAt l node = none := by
  unfold scopeAt
  rw [List.find?_eq_none.2 fun entry hentry => by simpa using h entry hentry]
  rfl

theorem mem_of_scopeAt {list : List (NodeId × Chain)} (h : scopeAt list node = some chain) :
    (node, chain) ∈ list := by
  obtain ⟨entry, hentry, rfl⟩ := Option.map_eq_some_iff.1 h
  have hkey : entry.1 = node := by simpa using List.find?_some hentry
  rw [← hkey]
  exact List.mem_of_find?_eq_some hentry

/-- Of lists about disjoint subtrees, only the one about its own subtree says something of a
node. -/
theorem scopeAt_flatMap {α : Type} {parts : List α} {f : α → List (NodeId × Chain)} {part : α}
    (hpart : part ∈ parts)
    (hother : ∀ other ∈ parts, other ≠ part → ∀ entry ∈ f other, entry.1 ≠ node) :
    scopeAt (parts.flatMap f) node = scopeAt (f part) node := by
  induction parts with
  | nil => simp at hpart
  | cons first rest ih =>
    rw [List.flatMap_cons, scopeAt_append]
    have hrest := fun other hmem => hother other (List.mem_cons_of_mem first hmem)
    by_cases hfirst : first = part
    · subst hfirst
      by_cases hmem : first ∈ rest
      · rw [ih hmem hrest, Option.or_self]
      · rw [scopeAt_eq_none (l := rest.flatMap f), Option.or_none]
        intro entry hentry
        obtain ⟨other, hother', hentry⟩ := List.mem_flatMap.1 hentry
        exact hrest other hother' (fun h => hmem (h ▸ hother')) entry hentry
    · rw [scopeAt_eq_none (hother first (by simp) hfirst), Option.none_or]
      refine ih ?_ hrest
      rcases List.mem_cons.1 hpart with h | h
      · exact absurd h.symm hfirst
      · exact h

theorem inner?_append {frames : Chain} (h : ∀ frame ∈ frames, frame.kind.isCode = false)
    (node : NodeId) : inner? p (frames ++ base) node = inner? p base node := by
  induction frames with
  | nil => rfl
  | cons frame rest ih =>
    obtain ⟨hframe, hrest⟩ := List.forall_mem_cons.1 h
    rw [List.cons_append, inner?]
    split
    · next hkind => simp [hkind, FrameKind.isCode] at hframe
    · exact ih hrest

theorem inner?_codeFree (h : ∀ frame ∈ chain, frame.kind.isCode = false) (node : NodeId) :
    inner? p chain node = .ok none := by
  rw [← List.append_nil chain]
  exact inner?_append h node

/-- A region of code with the list of its scopes. -/
structure Mapped (p : Program) (region : Chain) (root : NodeId) (scopes : List (NodeId × Chain)) :
    Prop where
  isRegion : region.IsRegion p root
  scopes_eq : rootScopes p 0 region root = .ok scopes

namespace Mapped

variable {region : Chain} {root : NodeId} {scopes : List (NodeId × Chain)}

/-- Inside a region, the scope of a node is the one that the region lists for it. -/
theorem inner?_eq (mapped : Mapped p region root scopes) {chain : Chain}
    (h : Extends p region chain) (node : NodeId) :
    inner? p chain node = .ok (scopeAt scopes node) := by
  obtain ⟨frames, rfl, hframes⟩ := h
  rw [inner?_append hframes.codeFree]
  obtain ⟨outer, member, flags, rfl, houter⟩ := mapped.isRegion.eq_push
  have hscopes := mapped.scopes_eq
  unfold Chain.push at hscopes ⊢
  rw [inner?]
  simp only [hscopes, bind, Except.bind, inner?_codeFree houter.codeFree]
  unfold scopeAt
  cases scopes.find? fun scope => scope.1 = node <;> rfl

theorem innerOrSelf_eq (mapped : Mapped p region root scopes) {chain : Chain}
    (h : Extends p region chain) (node : NodeId) :
    innerOrSelf p chain node = .ok ((scopeAt scopes node).getD chain) := by
  unfold innerOrSelf
  rw [mapped.inner?_eq h]
  rfl

end Mapped

theorem rootScopes_yields (store : Nat) (region : Chain) {root : NodeId} (h : root < p.tree.size) :
    Yields (rootScopes p store region root) fun scopes =>
      ∀ entry ∈ scopes, Extends p region entry.2 := by
  obtain ⟨node, hnode⟩ := Tree.exists_node_of_lt h
  obtain ⟨scopes, hscopes⟩ : ∃ scopes, rootScopes p store region root = .ok scopes := by
    unfold rootScopes
    rw [Tree.fetch_of_node? hnode]
    cases node <;> exact ⟨_, rfl⟩
  have refl := Extends.refl (p := p) region
  exact ⟨scopes, hscopes, (Extends.kept region store).rootScopes trivial
    (fun _ _ _ _ => trivial) (refl.push _ _ h rfl) refl hscopes⟩

theorem IsRegion.mapped {region : Chain} {root : NodeId} (h : region.IsRegion p root) :
    ∃ scopes, Mapped p region root scopes := by
  obtain ⟨scopes, hscopes, -⟩ := rootScopes_yields 0 region h.root_lt
  exact ⟨scopes, h, hscopes⟩

/-! ### Known scopes -/

theorem inner?_yields (known : chain.Known p) (node : NodeId) :
    Yields (inner? p chain node) fun found => ∀ scope, found = some scope → scope.Known p := by
  induction chain with
  | nil => exact .pure (by simp)
  | cons frame rest ih =>
    have hrest : Known p rest := fun f hf => known f (List.mem_cons_of_mem _ hf)
    have hframe := known frame (by simp)
    rw [inner?]
    split
    · next root _ store hkind =>
      rw [hkind] at hframe
      refine .bind (rootScopes_yields store (frame :: rest) hframe) fun scopes hscopes => ?_
      split
      · next entry hentry =>
        refine .pure ?_
        rintro _ ⟨rfl⟩
        exact (hscopes entry (List.mem_of_find?_eq_some hentry)).known known
      · exact ih hrest
    · exact ih hrest

theorem innerOrSelf_yields (known : chain.Known p) (node : NodeId) :
    Yields (innerOrSelf p chain node) (Known p) := by
  refine .map ((inner?_yields known node).imp fun found hfound => ?_)
  cases found with
  | none => exact known
  | some scope => exact hfound scope rfl

theorem enclosing_yields (known : chain.Known p) (h : node < p.tree.size) :
    Yields (enclosing p chain node) (Known p) := by
  obtain ⟨kind, hnode⟩ := Tree.exists_node_of_lt h
  have hpath : p.tree.pathToRoot node = .ok (p.tree.ancestorsAndSelf node) := by
    unfold Tree.pathToRoot
    rw [Tree.fetch_of_node? hnode]
    rfl
  unfold enclosing
  rw [hpath]
  refine .bind (.ok rfl) fun path _ => ?_
  refine .bind (.findSomeM? fun n _ => inner?_yields known n) fun found hfound => .pure ?_
  cases found with
  | none => exact known
  | some scope => exact hfound scope rfl

/-! ### Scopes that a chain finds -/

/-- What holds of a chain holds of the chains below it, and of the scopes of its regions. -/
structure Inherited (p : Program) (C : Chain → Prop) : Prop where
  below : ∀ {frame next : Frame} {rest : Chain}, C (frame :: next :: rest) → C (next :: rest)
  region : ∀ {frame : Frame} {rest : Chain} {root : NodeId} {member : Member} {store : Nat}
    {scopes : List (NodeId × Chain)}, C (frame :: rest) → frame.kind = .code root member store →
      rootScopes p store (frame :: rest) root = .ok scopes → ∀ entry ∈ scopes, C entry.2

namespace Inherited

variable {C : Chain → Prop} (inherited : Inherited p C) {chain scope : Chain} {node : NodeId}
include inherited

theorem inner? (hchain : C chain) (h : chain.inner? p node = .ok (some scope)) : C scope := by
  induction chain with
  | nil => cases h
  | cons frame rest ih =>
    have hrest : Chain.inner? p rest node = .ok (some scope) → C scope := by
      intro h
      cases rest with
      | nil => cases h
      | cons next others => exact ih (inherited.below hchain) h
    rw [Chain.inner?] at h
    split at h
    · next hkind =>
      obtain ⟨scopes, hscopes, h⟩ := exists_of_bind_eq_ok h
      split at h
      · next entry hentry =>
        obtain rfl := Option.some.inj (Except.ok.inj h)
        exact inherited.region hchain hkind hscopes entry (List.mem_of_find?_eq_some hentry)
      · exact hrest h
    · exact hrest h

theorem innerOrSelf (hchain : C chain) (h : chain.innerOrSelf p node = .ok scope) : C scope := by
  unfold Chain.innerOrSelf at h
  cases hinner : chain.inner? p node with
  | error fault => simp [hinner, Functor.map, Except.map] at h
  | ok found =>
    rw [hinner] at h
    obtain rfl := Except.ok.inj h
    cases found with
    | none => exact hchain
    | some found => exact inherited.inner? hchain hinner

theorem enclosing (hchain : C chain) (h : chain.enclosing p node = .ok scope) : C scope := by
  obtain ⟨path, -, h⟩ := exists_of_bind_eq_ok h
  obtain ⟨found, hfound, rfl⟩ := exists_of_bind_pure_eq_ok h
  cases found with
  | none => exact hchain
  | some found =>
    obtain ⟨_, n, _, -, -, hn⟩ := exists_of_findSomeM? hfound
    exact inherited.inner? hchain hn

end Inherited

/-! ### Sites of statements -/

end Chain

/-- Whether every declaration of `a` is one of `b`. -/
structure LocalDeclarations.Within (a b : LocalDeclarations) : Prop where
  locals : ∀ l ∈ a.locals, l ∈ b.locals
  functions : ∀ f ∈ a.functions, f ∈ b.functions
  labels : ∀ l ∈ a.labels, l ∈ b.labels

namespace LocalDeclarations

variable {p : Program}

theorem Within.refl (a : LocalDeclarations) : a.Within a :=
  ⟨fun _ h => h, fun _ h => h, fun _ h => h⟩

theorem Within.trans {a b c : LocalDeclarations} (h : a.Within b) (h' : b.Within c) : a.Within c :=
  ⟨fun l hl => h'.locals l (h.locals l hl), fun f hf => h'.functions f (h.functions f hf),
    fun l hl => h'.labels l (h.labels l hl)⟩

theorem within_append_left (a b : LocalDeclarations) : a.Within (a.append b) :=
  ⟨fun _ h => List.mem_append_left _ h, fun _ h => List.mem_append_left _ h,
    fun _ h => List.mem_append_left _ h⟩

theorem within_append_right (a b : LocalDeclarations) : b.Within (a.append b) :=
  ⟨fun _ h => List.mem_append_right _ h, fun _ h => List.mem_append_right _ h,
    fun _ h => List.mem_append_right _ h⟩

variable {node : NodeId}

/-- What a gathered statement declares, the scope declares. -/
theorem ofStatement_within {designator : NodeId} (h : designator < p.tree.size) {store : Nat}
    (hnode : node ∈ gathered p.tree designator) {found : LocalDeclarations}
    (hfound : collect p.tree store designator = .ok found) :
    (ofStatement p.tree store node).Within found := by
  rw [collect_eq h] at hfound
  obtain rfl := Except.ok.inj hfound
  suffices hfold : ∀ (list : List NodeId) (start : LocalDeclarations),
      start.Within ((list.map (ofStatement p.tree store)).foldl append start) ∧
      ∀ n ∈ list, (ofStatement p.tree store n).Within
        ((list.map (ofStatement p.tree store)).foldl append start) from (hfold _ _).2 node hnode
  intro list
  induction list with
  | nil => exact fun start => ⟨.refl _, by simp⟩
  | cons first rest ih =>
    intro start
    obtain ⟨hstart, hrest⟩ := ih (start.append (ofStatement p.tree store first))
    refine ⟨(within_append_left _ _).trans hstart, fun n hn => ?_⟩
    rcases List.mem_cons.1 hn with rfl | hn
    · exact (within_append_right _ _).trans hstart
    · exact hrest n hn

theorem ofStatement_local {name : String} {type initializer : Option NodeId} {isConstant : Bool}
    (h : p.tree.node? node = some (.localDeclaration name type isConstant initializer))
    (store : Nat) : ofStatement p.tree store node =
      { locals := [{ name, declaration := node, type, isConstant, kind := .ordinary, store }] } := by
  rw [ofStatement]
  split
  · next hfound =>
    rw [h] at hfound
    obtain ⟨rfl, rfl, rfl, rfl⟩ := Node.localDeclaration.inj (Option.some.inj hfound)
    rfl
  · simp_all
  · simp_all
  · next hnone _ _ => exact absurd h (hnone _ _ _ _)

theorem ofStatement_function {name : String} {returnType : Option NodeId} {parameters : List NodeId}
    {body : NodeId} (h : p.tree.node? node = some (.localFunction name returnType parameters body))
    (store : Nat) :
    ofStatement p.tree store node =
      { functions := (LocalFunction.ofNode? p.tree store node).toList } := by
  rw [ofStatement]
  split
  · simp_all
  · rfl
  · simp_all
  · next _ hnone _ => exact absurd h (hnone _ _ _ _)

theorem ofStatement_labeled {statement : NodeId} {label : String}
    (h : p.tree.node? node = some (.labeled label statement)) (store : Nat) :
    ofStatement p.tree store node =
      append { labels := [⟨label, node, .declared⟩] } (ofStatement p.tree store statement) := by
  rw [ofStatement]
  split
  · simp_all
  · simp_all
  · next found statement' hfound =>
    rw [h] at hfound
    obtain ⟨rfl, rfl⟩ := Node.labeled.inj (Option.some.inj hfound)
    rfl
  · next hnone => exact absurd h (hnone _ _)

end LocalDeclarations

namespace Chain

variable {p : Program}

/-- Whether a statement declares something in the scope it stands in. -/
def declares (p : Program) (node : NodeId) : Bool :=
  match p.tree.node? node with
  | some (.localDeclaration ..) | some (.localFunction ..) | some (.labeled ..) => true
  | _ => false

/-- Whether the innermost frame is a scope that gathers what a statement declares. -/
def Gathers (p : Program) (chain : Chain) (node : NodeId) : Prop :=
  ∃ frame rest designator, chain = frame :: rest ∧ frame.kind = .localScope designator 0 ∧
    designator < p.tree.size ∧ ∀ found, LocalDeclarations.collect p.tree 0 designator = .ok found →
      (LocalDeclarations.ofStatement p.tree 0 node).Within found

variable {node : NodeId}

theorem gathers_push {chain : Chain} {designator : NodeId} (h : designator < p.tree.size)
    (hnode : node ∈ LocalDeclarations.gathered p.tree designator) :
    Gathers p (chain.push (.localScope designator 0) {}) node :=
  ⟨_, _, designator, rfl, rfl, h, fun _ hfound =>
    LocalDeclarations.ofStatement_within h hnode hfound⟩

/-- A statement of a mapped region that is bound under `chain` and has the scope `scope`. -/
structure Site (p : Program) (region : Chain) (scopes : List (NodeId × Chain)) (chain : Chain)
    (node : NodeId) (scope : Chain) : Prop where
  chain_extends : Extends p region chain
  scope_extends : Extends p region scope
  inner_eq : (scopeAt scopes node).getD chain = scope
  parts_eq : ∀ part, p.tree.Under node part → part ≠ node →
    scopeAt scopes part = scopeAt (partScopes p 0 scope node) part
  opened_eq : ∃ alone base, scope = opened p 0 alone base node ∧
    (opensScope p alone node = true → scopeAt scopes node = some scope)
  gathers : declares p node = true → Gathers p scope node

/-- Between the lists of a region and of a subtree there is no difference inside the subtree. -/
def Agrees (p : Program) (scopes list : List (NodeId × Chain)) (node : NodeId) : Prop :=
  ∀ part, p.tree.Under node part → scopeAt scopes part = scopeAt list part

theorem opened_of_not_opens {store : Nat} {alone : Bool} {chain : Chain}
    (h : opensScope p alone node = false) : opened p store alone chain node = chain := by
  unfold opensScope at h
  unfold opened
  cases hnode : p.tree.node? node with
  | none => rfl
  | some kind => cases kind <;> simp_all

/-- The scope of a node and of its parts, from a list that starts with the node's own entry. -/
theorem scopeAt_own (store : Nat) (alone : Bool) (chain : Chain) (node : NodeId)
    (rest : List (NodeId × Chain)) :
    scopeAt (ownScope p store alone chain node ++
        partScopes p store (opened p store alone chain node) node ++ rest) node =
      if opensScope p alone node then some (opened p store alone chain node)
      else scopeAt rest node := by
  have hparts : scopeAt (partScopes p store (opened p store alone chain node) node) node = none := by
    refine scopeAt_eq_none fun entry hentry heq => ?_
    exact absurd (partScopes_lists store node _ entry hentry).1.lt
      (by rw [heq]; exact Nat.lt_irrefl _)
  rw [scopeAt_append, scopeAt_append, hparts, Option.or_none]
  unfold ownScope
  split
  · simp [scopeAt]
  · rfl

theorem scopeAt_part (store : Nat) (alone : Bool) (chain : Chain) {part : NodeId}
    (hne : part ≠ node) (list : List (NodeId × Chain)) :
    scopeAt (ownScope p store alone chain node ++ list) part = scopeAt list part := by
  rw [scopeAt_append, scopeAt_eq_none, Option.none_or]
  intro entry hentry
  unfold ownScope at hentry
  split at hentry
  · rw [List.mem_singleton.1 hentry]
    exact hne.symm
  · simp at hentry

section sites

variable {region : Chain} {scopes : List (NodeId × Chain)} {base : Chain} {node : NodeId}

/-- A declaration that stands alone has a scope that gathers it. -/
theorem gathers_opened (hdeclares : declares p node = true) (base : Chain) :
    Gathers p (opened p 0 true base node) node := by
  unfold declares at hdeclares
  unfold opened
  cases hnode : p.tree.node? node with
  | none => simp [hnode] at hdeclares
  | some kind =>
    cases kind <;> simp_all <;>
      exact gathers_push (Tree.lt_size_of_node? hnode)
        (by unfold LocalDeclarations.gathered; rw [hnode]; simp)

/-- A declaration that does not stand alone opens no scope. -/
theorem opened_of_declares (hdeclares : declares p node = true) (base : Chain) :
    opened p 0 false base node = base := by
  refine opened_of_not_opens ?_
  unfold declares at hdeclares
  unfold opensScope
  cases hnode : p.tree.node? node with
  | none => rfl
  | some kind => cases kind <;> simp_all

/-- A statement bound under `chain`, from the scopes that are listed for it. -/
theorem Site.of_scopes {chain : Chain} (part : Part) (hchain : Extends p region chain)
    (hbase : Extends p region part.chain) (hagrees : Agrees p scopes (part.scopes p 0) part.node)
    (hself : part.entered = false → part.chain = chain)
    (hgathers : part.alone = false → declares p part.node = true → Gathers p part.chain part.node) :
    Site p region scopes chain part.node (opened p 0 part.alone part.chain part.node) := by
  obtain ⟨node, base, alone, entered⟩ := part
  rw [Part.scopes_eq] at hagrees
  refine ⟨hchain, hbase.trans (opened_extends 0 alone base node), ?_, fun part hpart hne => ?_,
    ⟨alone, base, rfl, fun hopens => ?_⟩, fun hdeclares => ?_⟩
  · rw [hagrees node .refl, scopeAt_own]
    split
    · rfl
    · next hopens =>
      rw [opened_of_not_opens (by simpa using hopens)]
      cases entered with
      | true => simp [scopeAt]
      | false => exact (hself rfl).symm
  · have hrest : scopeAt (if entered then [(node, base)] else []) part = none := by
      cases entered <;> simp [scopeAt, hne.symm]
    rw [hagrees part hpart, List.append_assoc, scopeAt_part 0 alone base hne, scopeAt_append, hrest,
      Option.or_none]
  · rw [hagrees node .refl, scopeAt_own, if_pos hopens]
  · cases alone with
    | true => exact gathers_opened hdeclares base
    | false =>
      dsimp only
      rw [opened_of_declares hdeclares]
      exact hgathers rfl hdeclares

variable {chain scope : Chain} {kind : Node} {statement condition body designator : NodeId}
  {name : String}

/-- The parameters of a function do not lie in its body. -/
theorem scopeAt_parameterScopes (linked : p.tree.Linked) (hnode : p.tree.node? node = some kind)
    {part k : NodeId} (hpart : part ∈ kind.statements) (hk : p.tree.Under part k) :
    scopeAt (parameterScopes p 0 scope node) k = none := by
  refine scopeAt_eq_none fun entry hentry heq => ?_
  unfold parameterScopes at hentry
  split at hentry
  · next hkind _ =>
    obtain rfl := Option.mem_unique hnode hkind
    obtain rfl := List.mem_singleton.1 hpart
    obtain ⟨parameter, hparameter, rfl⟩ := List.mem_map.1 hentry
    have hbody := linked.under_disjoint hnode (a := parameter)
      (by simp [hparameter]) (by simp) .refl (heq ▸ hk)
    have hdisjoint := (List.nodup_append.1 (linked.nodup_children hnode)).2.2
    exact hdisjoint parameter (List.mem_append_right _ hparameter) _ (by simp) hbody
  · simp at hentry

/-! ### Where regions start -/

variable {root : NodeId}

/-- The statement that a region consists of. -/
theorem Mapped.site (mapped : Mapped p region root scopes) (hnode : p.tree.node? root = some kind)
    (hkind : kind.isStatement = true) :
    Site p region scopes region root (opened p 0 true region root) := by
  have hscopes := mapped.scopes_eq
  unfold rootScopes at hscopes
  rw [Tree.fetch_of_node? hnode] at hscopes
  have refl := Extends.refl (p := p) region
  cases kind with
  | block statements =>
    have heq : statementScopes p 0 region root = blockScopes p 0 region root := by
      rw [statementScopes]
      split <;> simp_all
    have hopened : opened p 0 true region root = opened p 0 false region root := by
      unfold opened
      rw [hnode]
    obtain rfl := Except.ok.inj hscopes
    rw [hopened]
    refine .of_scopes ⟨root, region, false, false⟩ refl refl (fun part _ => ?_)
      (fun _ => rfl) fun _ hdeclares => ?_
    · rw [Part.scopes_listed, heq]
    · simp [declares, hnode] at hdeclares
  | compilationUnit members => simp [Node.isStatement] at hkind
  | _ =>
    have hscopes := Except.ok.inj hscopes
    rw [if_pos hkind, childScopes] at hscopes
    exact .of_scopes ⟨root, region, true, true⟩ refl refl
      (fun part _ => by simp [Part.scopes, hscopes]) (fun h => by cases h) fun h => by cases h

variable {members : List NodeId}

/-- The scope of the global statements. -/
theorem Mapped.script (mapped : Mapped p region p.tree.root scopes)
    (hnode : p.tree.node? p.tree.root = some (.compilationUnit members)) :
    scopeAt scopes p.tree.root = some (region.push (.localScope p.tree.root 0) {}) := by
  have hscopes := mapped.scopes_eq
  unfold rootScopes at hscopes
  rw [Tree.fetch_of_node? hnode] at hscopes
  obtain rfl := Except.ok.inj hscopes
  simp [scopeAt]

theorem Mapped.global (linked : p.tree.Linked) (mapped : Mapped p region p.tree.root scopes)
    (hnode : p.tree.node? p.tree.root = some (.compilationUnit members))
    (hmem : statement ∈ p.tree.globalStatementsOf members) :
    Site p region scopes (region.push (.localScope p.tree.root 0) {}) statement
      (opened p 0 false (region.push (.localScope p.tree.root 0) {}) statement) := by
  have hscopes := mapped.scopes_eq
  unfold rootScopes at hscopes
  rw [Tree.fetch_of_node? hnode] at hscopes
  obtain rfl := Except.ok.inj hscopes
  have hlt := mapped.isRegion.root_lt
  have below : ∀ {m s k : NodeId}, p.tree.node? m = some (.globalStatement s) →
      p.tree.Under s k → p.tree.Under m k := fun hm hk =>
    (Tree.Under.of_child hm (by simp)).trans hk
  obtain ⟨m, hm, hmnode⟩ := Tree.exists_of_mem_globalStatementsOf hmem
  have hbase := (Extends.refl region).push (p := p) (.localScope p.tree.root 0) {} hlt rfl
  refine .of_scopes ⟨statement, region.push _ _, false, false⟩ hbase hbase (fun k hk => ?_)
    (fun _ => rfl) fun _ _ => ?_
  · have hne : p.tree.root ≠ k := by
      have hkm : k ≤ m := (below hmnode hk).le
      have hmr : m < p.tree.root := p.tree.child_lt hnode hm
      exact (Nat.ne_of_lt (Nat.lt_of_le_of_lt hkm hmr)).symm
    rw [scopeAt, List.find?_cons_of_neg (by simpa using hne), ← scopeAt, Part.scopes_listed]
    refine scopeAt_flatMap hmem fun other hother hdiff entry hentry heq => hdiff ?_
    obtain ⟨m', hm', hmnode'⟩ := Tree.exists_of_mem_globalStatementsOf hother
    have hunder : p.tree.Under other k :=
      heq ▸ (statementScopes_lists 0 _ other entry hentry).1
    obtain rfl := linked.under_disjoint hnode hm' hm (below hmnode' hunder) (below hmnode hk)
    rw [hmnode] at hmnode'
    exact (Node.globalStatement.inj (Option.some.inj hmnode')).symm
  · refine gathers_push hlt ?_
    unfold LocalDeclarations.gathered
    rw [hnode]
    exact hmem

/-! ### What a statement finds in its scope -/

theorem scopeLocals_push (h : designator < p.tree.size) (base : Chain) (store : Nat) :
    ∃ d, LocalDeclarations.collect p.tree store designator = .ok d ∧
      scopeLocals p (base.push (.localScope designator store) {}) = .ok d.locals := by
  refine ⟨_, LocalDeclarations.collect_eq h store, ?_⟩
  unfold scopeLocals Chain.push
  rw [List.findSomeM?]
  simp [Frame.declarations?, LocalDeclarations.collect_eq h store, Functor.map, Except.map, bind,
    Except.bind, pure, Except.pure]

/-- A look-up that the innermost scope answers. -/
theorem Gathers.findDeclared? {α : Type} {f : LocalDeclarations → Option α}
    (h : Gathers p chain node) (hfind : ∀ found,
      (LocalDeclarations.ofStatement p.tree 0 node).Within found → ∃ a, f found = some a) :
    ∃ designator found a, LocalDeclarations.collect p.tree 0 designator = .ok found ∧
      f found = some a ∧ chain.findDeclared? p f = .ok (some a) := by
  obtain ⟨frame, rest, designator, rfl, hkind, hlt, hwithin⟩ := h
  have hcollect := LocalDeclarations.collect_eq hlt 0
  obtain ⟨a, ha⟩ := hfind _ (hwithin _ hcollect)
  refine ⟨designator, _, a, hcollect, ha, ?_⟩
  unfold Chain.findDeclared?
  rw [List.findSomeM?]
  simp [Frame.declarations?, hkind, hcollect, ha, Functor.map, Except.map, bind, Except.bind, pure,
    Except.pure]

/-- Every local and every function that a scope declares is the one of its node. -/
theorem declared_of_collect {store : Nat} {found : LocalDeclarations}
    (h : LocalDeclarations.collect p.tree store designator = .ok found) :
    found.All (fun l => l.kind = .ordinary ∧ l.store = store ∧ ∃ initializer,
      p.tree.node? l.declaration = some (.localDeclaration l.name l.type l.isConstant initializer))
      fun f => LocalFunction.ofNode? p.tree store f.declaration = some f := by
  refine LocalDeclarations.collect_all (C := fun _ => True) (fun _ _ => trivial)
    (fun _ hnode => ⟨rfl, rfl, _, hnode⟩) (fun {n f} _ hf => ?_) (fun _ _ => trivial) h
  obtain ⟨-, hdeclaration⟩ := LocalKey.mk.inj (LocalFunction.key_eq hf)
  rwa [hdeclaration]

namespace Site

variable (site : Site p region scopes chain node scope)
include site

/-- A block stands under a scope of its own, which is listed for it. -/
theorem block_eq {statements : List NodeId}
    (hnode : p.tree.node? node = some (.block statements)) :
    scopeAt scopes node = some scope ∧ ∃ base : Chain, scope = base.push (.localScope node 0) {} := by
  obtain ⟨alone, base, hscope, hlisted⟩ := site.opened_eq
  unfold opensScope at hlisted
  unfold opened at hscope
  rw [hnode] at hlisted hscope
  exact ⟨hlisted rfl, base, hscope⟩

/-- What a part declares that does not stand alone, the scope around it gathers. -/
theorem gathers_part {part : Part} (hpart : part ∈ parts p 0 scope node)
    (halone : part.alone = false) : Gathers p part.chain part.node := by
  unfold parts at hpart
  split at hpart
  · next hnode =>
    obtain ⟨statement, hmem, rfl⟩ := List.mem_map.1 hpart
    obtain ⟨-, base, rfl⟩ := site.block_eq hnode
    refine gathers_push (Tree.lt_size_of_node? hnode) ?_
    unfold LocalDeclarations.gathered
    rw [hnode]
    exact hmem
  case h_6 hnode =>
    obtain ⟨statement, hmem, rfl⟩ := List.mem_map.1 hpart
    obtain rfl := List.mem_singleton.1 hmem
    obtain ⟨frame, rest, designator, hchain, hkind, hlt, hwithin⟩ :=
      site.gathers (by unfold declares; rw [hnode])
    refine ⟨frame, rest, designator, hchain, hkind, hlt, fun found hfound => ?_⟩
    have h := hwithin found hfound
    rw [LocalDeclarations.ofStatement_labeled hnode] at h
    exact (LocalDeclarations.within_append_right _ _).trans h
  all_goals
    first
      | exact absurd hpart List.not_mem_nil
      | obtain ⟨_, -, rfl⟩ := List.mem_map.1 hpart
        cases halone

/-- The parts of a statement stand in its scope. -/
theorem part (linked : p.tree.Linked) {part : Part} (hpart : part ∈ parts p 0 scope node) :
    Site p region scopes scope part.node (opened p 0 part.alone part.chain part.node) := by
  obtain ⟨kind, hnode, hstatement⟩ := hasStatement_of_mem_parts hpart
  have hchild : ∀ q ∈ parts p 0 scope node, q.node ∈ kind.children := fun q hq =>
    Node.mem_children_of_mem_statements (map_node_parts hnode ▸ List.mem_map_of_mem hq)
  have hnodup : ((parts p 0 scope node).map (·.node)).Nodup :=
    map_node_parts hnode ▸ (linked.nodup_children hnode).sublist kind.statements_sublist
  refine .of_scopes _ site.scope_extends ((Extends.kept region 0).part_chain trivial
    site.scope_extends hpart) (fun k hk => ?_) (chain_of_mem_parts hpart) fun halone _ =>
      site.gathers_part hpart halone
  have hlt : k < node := Nat.lt_of_le_of_lt hk.le (p.tree.child_lt hnode (hchild part hpart))
  rw [site.parts_eq k ((Tree.Under.of_child hnode (hchild part hpart)).trans hk) (Nat.ne_of_lt hlt)]
  unfold partScopes
  rw [scopeAt_append, scopeAt_parameterScopes linked hnode hstatement hk, Option.none_or]
  refine scopeAt_flatMap hpart fun other hother hne entry hentry heq => hne ?_
  refine List.inj_on_of_nodup_map hnodup hother hpart ?_
  exact linked.under_disjoint hnode (hchild other hother) (hchild part hpart)
    (other.scopes_lists 0 entry hentry).1 (heq ▸ hk)

theorem innerOrSelf_eq (mapped : Mapped p region root scopes) :
    chain.innerOrSelf p node = .ok scope := by
  rw [mapped.innerOrSelf_eq site.chain_extends, site.inner_eq]

/-- A second look finds the same scope. -/
theorem innerOrSelf_again (mapped : Mapped p region root scopes) :
    scope.innerOrSelf p node = .ok scope := by
  rw [mapped.innerOrSelf_eq site.scope_extends]
  have hinner := site.inner_eq
  cases hscope : scopeAt scopes node with
  | none => rfl
  | some found =>
    rw [hscope, Option.getD_some] at hinner
    rw [Option.getD_some, hinner]

/-- A loop stands under its own loop frame. -/
theorem loop? (hnode : p.tree.node? node = some (.whileStatement condition body)) :
    scope.loop? = some node := by
  obtain ⟨alone, base, rfl, -⟩ := site.opened_eq
  unfold opened
  rw [hnode]
  rfl

theorem localAt? {type initializer : Option NodeId} {isConstant : Bool}
    (hnode : p.tree.node? node = some (.localDeclaration name type isConstant initializer)) :
    scope.localAt? p node = .ok (some ⟨name, node, type, isConstant, .ordinary, 0⟩) := by
  have hmem : (⟨name, node, type, isConstant, .ordinary, 0⟩ : Local) ∈
      (LocalDeclarations.ofStatement p.tree 0 node).locals := by
    rw [LocalDeclarations.ofStatement_local hnode]
    exact List.mem_singleton_self _
  obtain ⟨designator, found, l, hfound, hl, heq⟩ :=
    (site.gathers (by simp [declares, hnode])).findDeclared? (f := (·.localAt? node))
      fun found hwithin =>
        Option.isSome_iff_exists.1 (List.find?_isSome.2 ⟨_, hwithin.locals _ hmem, by simp⟩)
  have hdecl : l.declaration = node := by simpa using List.find?_some hl
  obtain ⟨hkind, hstore, _, hl⟩ :=
    (declared_of_collect hfound).1 l (List.mem_of_find?_eq_some hl)
  rw [hdecl, hnode] at hl
  obtain ⟨rfl, rfl, rfl, -⟩ := Node.localDeclaration.inj (Option.some.inj hl)
  have hself : l = ⟨l.name, node, l.type, l.isConstant, .ordinary, 0⟩ := by
    rw [← hkind, ← hstore, ← hdecl]
  rw [← hself]
  exact heq

theorem labelAt? {label : String} (hnode : p.tree.node? node = some (.labeled label statement)) :
    ∃ l : Label, scope.labelAt? p node = .ok (some l) ∧ l.declaration = node := by
  have hself : (⟨label, node, .declared⟩ : Label) ∈
      (LocalDeclarations.ofStatement p.tree 0 node).labels := by
    rw [LocalDeclarations.ofStatement_labeled hnode]
    simp [LocalDeclarations.append]
  obtain ⟨designator, found, l, -, hl, heq⟩ := (site.gathers (by simp [declares, hnode])).findDeclared?
    (f := (·.labelAt? node)) fun found hwithin =>
      Option.isSome_iff_exists.1 (List.find?_isSome.2 ⟨_, hwithin.labels _ hself, by simp⟩)
  exact ⟨l, heq, by simpa using List.find?_some hl⟩

theorem functionAt? {returnType : Option NodeId} {parameters : List NodeId}
    (hnode : p.tree.node? node = some (.localFunction name returnType parameters body)) :
    ∃ f, scope.functionAt? p node = .ok (some f) ∧ LocalFunction.ofNode? p.tree 0 node = some f := by
  obtain ⟨own, hown⟩ : ∃ own, LocalFunction.ofNode? p.tree 0 node = some own := by
    unfold LocalFunction.ofNode?
    rw [hnode]
    exact ⟨_, rfl⟩
  have hdecl : own.declaration = node := by
    unfold LocalFunction.ofNode? at hown
    rw [hnode] at hown
    rw [← Option.some.inj hown]
  have hself : own ∈ (LocalDeclarations.ofStatement p.tree 0 node).functions := by
    rw [LocalDeclarations.ofStatement_function hnode, hown]
    exact List.mem_singleton_self _
  obtain ⟨designator, found, f, hfound, hf, heq⟩ :=
    (site.gathers (by simp [declares, hnode])).findDeclared? (f := (·.functionAt? node))
      fun found hwithin =>
        Option.isSome_iff_exists.1 (List.find?_isSome.2 ⟨own, hwithin.functions _ hself, by simpa⟩)
  refine ⟨f, heq, ?_⟩
  have hfdecl : f.declaration = node := by simpa using List.find?_some hf
  have hown : LocalFunction.ofNode? p.tree 0 f.declaration = some f :=
    (declared_of_collect hfound).2 f (List.mem_of_find?_eq_some hf)
  rwa [hfdecl] at hown

end Site
end sites

end Chain
end Bindery
