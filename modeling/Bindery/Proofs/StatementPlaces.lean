import Bindery.Binding.Statement
import Bindery.Proofs.InnerScopes

/-! # Where statements stand

`Chain.Stands p owner chain node` says that a statement may be bound under `chain` as code of
`owner`: it has a scope there, the one that was made for it.  The parts of such a statement stand in
its scope, one lemma for each kind of statement, and so does the code that a region starts with.
What a statement does in its scope is `Program.statementStep`. -/

namespace Bindery
namespace Chain

variable {p : Program} {owner : Member} {chain scope : Chain} {node : NodeId}

theorem method?_opened (store : Nat) (alone : Bool) (chain : Chain) (node : NodeId) :
    (opened p store alone chain node).method? = chain.method? := by
  unfold opened
  split
  · rfl
  · rfl
  all_goals first | rfl | (split <;> rfl)

/-- The scope of a statement in a region that belongs to `owner`. -/
def SiteOf (p : Program) (owner : Member) (chain : Chain) (node : NodeId) (scope : Chain) : Prop :=
  scope.method? = some owner ∧
    ∃ region root scopes, Mapped p region root scopes ∧ Site p region scopes chain node scope

/-- The statement may be bound under the chain. -/
structure Stands (p : Program) (owner : Member) (chain : Chain) (node : NodeId) : Prop where
  node_lt : node < p.tree.size
  known : chain.Known p
  site : ∀ {kind : Node}, p.tree.node? node = some kind → kind.isStatement = true →
    ∃ scope, SiteOf p owner chain node scope

namespace Stands

theorem of_site {region base : Chain} {root : NodeId} {scopes : List (NodeId × Chain)} {alone : Bool}
    (hlt : node < p.tree.size) (known : chain.Known p) (mapped : Mapped p region root scopes)
    (site : Site p region scopes chain node (opened p 0 alone base node))
    (hmethod : base.method? = some owner) : Stands p owner chain node where
  node_lt := hlt
  known := known
  site _ _ := ⟨_, by rw [method?_opened, hmethod], region, root, scopes, mapped, site⟩

/-- The scope of a node, which is its site if it is a statement. -/
theorem innerOrSelf_eq (h : Stands p owner chain node) :
    ∃ scope, chain.innerOrSelf p node = .ok scope ∧ scope.Known p ∧
      ∀ kind, p.tree.node? node = some kind → kind.isStatement = true →
        SiteOf p owner chain node scope := by
  obtain ⟨scope, hscope, hknown⟩ := innerOrSelf_yields h.known node
  refine ⟨scope, hscope, hknown, fun kind hkind hstatement => ?_⟩
  obtain ⟨own, hmethod, region, root, scopes, mapped, site⟩ := h.site hkind hstatement
  obtain rfl := ok_unique hscope (site.innerOrSelf_eq mapped)
  exact ⟨hmethod, region, root, scopes, mapped, site⟩

end Stands

/-! ### Parts of statements -/

namespace SiteOf

theorem known (h : SiteOf p owner chain node scope) : scope.Known p := by
  obtain ⟨-, region, root, scopes, mapped, site⟩ := h
  exact site.scope_extends.known mapped.isRegion.known

/-- A second look finds the same scope. -/
theorem innerOrSelf_eq (h : SiteOf p owner chain node scope) :
    scope.innerOrSelf p node = .ok scope := by
  obtain ⟨-, region, root, scopes, mapped, site⟩ := h
  exact site.innerOrSelf_again mapped

variable (h : SiteOf p owner chain node scope)
include h

/-- A block has a frame of its own, which declares its locals. -/
theorem block_eq {statements : List NodeId}
    (hnode : p.tree.node? node = some (.block statements)) :
    chain.inner? p node = .ok (some scope) ∧
      (∃ base, scope = Chain.push base (.localScope node 0) {}) ∧
      ∃ locals, scope.scopeLocals p = .ok locals := by
  obtain ⟨-, _, _, _, mapped, site⟩ := h
  obtain ⟨hlisted, base, rfl⟩ := site.block_eq hnode
  obtain ⟨d, -, hlocals⟩ := scopeLocals_push (Tree.lt_size_of_node? hnode) base 0
  refine ⟨?_, ⟨base, rfl⟩, d.locals, hlocals⟩
  rw [mapped.inner?_eq site.chain_extends, hlisted]

variable (linked : p.tree.Linked)
include linked

theorem of_part {q : Part} (hq : q ∈ parts p 0 scope node) {inner : Member}
    (hmethod : q.chain.method? = some inner) : Stands p inner scope q.node := by
  have hknown := h.known
  obtain ⟨-, region, root, scopes, mapped, site⟩ := h
  obtain ⟨kind, hnode, hstatement⟩ := hasStatement_of_mem_parts hq
  exact .of_site (Tree.child_lt_size hnode (Node.mem_children_of_mem_statements hstatement)) hknown
    mapped (site.part linked hq) hmethod

/-- The parts of a statement stand in its scope. -/
theorem part {kind : Node} (hnode : p.tree.node? node = some kind)
    (hkind : ∀ name type parameters body, kind ≠ .localFunction name type parameters body)
    {n : NodeId} (hn : n ∈ kind.statements) : Stands p owner scope n := by
  obtain ⟨q, hq, rfl⟩ := exists_part 0 scope ⟨kind, hnode, hn⟩
  refine h.of_part linked hq ?_
  rw [← h.1]
  unfold parts at hq
  rw [hnode] at hq
  cases kind with
  | localFunction => exact absurd rfl (hkind _ _ _ _)
  | block | ifStatement | whileStatement | tryStatement | labeled =>
    obtain ⟨_, -, rfl⟩ := List.mem_map.1 hq
    rfl
  | _ => simp at hq

theorem functionBody {name : String} {returnType : Option NodeId} {parameters : List NodeId}
    {body : NodeId}
    (hnode : p.tree.node? node = some (.localFunction name returnType parameters body))
    {function : LocalFunction} (hfunction : LocalFunction.ofNode? p.tree 0 node = some function) :
    Stands p (.function function) scope body :=
  h.of_part linked (q := ⟨body, scope.push (.inMethod (.function function)) {}, true, true⟩)
    (by simp [parts, hnode, hfunction]) rfl

end SiteOf

variable {region : Chain}

/-! ### Where regions start -/

theorem IsRegion.stands {root : NodeId} (h : region.IsRegion p root)
    (hmethod : region.method? = some owner) : Stands p owner region root where
  node_lt := h.root_lt
  known := h.known
  site hkind hstatement := by
    obtain ⟨scopes, mapped⟩ := h.mapped
    exact ⟨_, by rw [method?_opened, hmethod], region, root, scopes, mapped,
      mapped.site hkind hstatement⟩

/-- The scope of the global statements. -/
def globalScopeOf (p : Program) (region : Chain) : Chain := region.push (.localScope p.tree.root 0) {}

theorem IsRegion.innerOrSelf_root (h : region.IsRegion p p.tree.root) {members : List NodeId}
    (hroot : p.tree.node? p.tree.root = some (.compilationUnit members)) :
    region.innerOrSelf p p.tree.root = .ok (globalScopeOf p region) := by
  obtain ⟨scopes, mapped⟩ := h.mapped
  rw [mapped.innerOrSelf_eq (.refl region), mapped.script hroot]
  rfl

theorem IsRegion.global_stands (linked : p.tree.Linked) (h : region.IsRegion p p.tree.root)
    (hmethod : region.method? = some owner) {members : List NodeId}
    (hroot : p.tree.node? p.tree.root = some (.compilationUnit members)) {statement : NodeId}
    (hmem : statement ∈ p.tree.globalStatementsOf members) :
    Stands p owner (globalScopeOf p region) statement := by
  obtain ⟨scopes, mapped⟩ := h.mapped
  have site := mapped.global linked hroot hmem
  obtain ⟨m, -, hnode⟩ := Tree.exists_of_mem_globalStatementsOf hmem
  exact .of_site (Tree.child_lt_size hnode (by simp))
    (h.known.push _ _ h.root_lt) mapped site hmethod

end Chain

/-! ### What statements do -/

namespace Program

variable {p : Program} {ask : Asker} {node : NodeId}

/-- One step of binding: what a statement of a kind does in its scope. -/
def statementStep (p : Program) (ask : Asker) (scope : Chain) (node : NodeId) : Node → BindM Statement
  | .block statements => do
      let scope ← scope.innerOrSelf p node
      let statements ← statements.mapM (p.bindStatement ask scope)
      return .block statements (← scope.scopeLocals p)
  | .localDeclaration name type isConstant initializer =>
      p.bindLocalDeclaration ask scope name type isConstant initializer node
  | .localFunction _ _ _ body => do
      let function ← p.bindFunctionHead ask scope node
      return .ofFunction function (← p.bindBlock ask scope body)
  | .expressionStatement expression => do
      return .expression (← p.bindExpression ask scope expression .insignificant)
  | .ifStatement condition thenStatement elseStatement => do
      let condition ← p.bindCondition ask scope condition
      let thenStatement ← p.bindStatement ask scope thenStatement
      let elseStatement ← elseStatement.mapM (p.bindStatement ask scope)
      return .ifElse condition thenStatement elseStatement
  | .whileStatement condition body =>
      match scope.loop? with
      | none => throw .whileWithoutLoop
      | some loop => do
        let condition ← p.bindCondition ask scope condition
        return .whileLoop condition (← p.bindStatement ask scope body) (.breakOf loop)
          (.continueOf loop)
  | .breakStatement => p.jump scope.breakLabel? .breakTo node .jumpOutsideLoop "break"
  | .continueStatement => p.jump scope.continueLabel? .continueTo node .jumpOutsideLoop "continue"
  | .returnStatement expression => p.bindReturn ask scope expression node
  | .tryStatement body catchBody finallyBody => do
      let body ← p.bindStatement ask scope body
      let catchBody ← catchBody.mapM (p.bindStatement ask scope)
      let finallyBody ← finallyBody.mapM (p.bindStatement ask scope)
      return .tryCatch body catchBody finallyBody
  | .labeled name statement => do
      match ← scope.labelAt? p node with
      | none => throw .labelWithoutScope
      | some label =>
        if (← scope.lookupLabel? p name).any fun found => found.declaration ≠ node then
          p.report node .duplicateLabel [name]
        return .labeled label (← p.bindStatement ask scope statement)
  | .goto name => do p.jump (← scope.lookupLabel? p name) .goto node .undefinedLabel name
  | other => do
      if other.isExpression then
        return .expression (← p.bindExpression ask scope node .insignificant)
      p.report node .notAStatement [other.label]
      return .error node

variable {kind : Node}

theorem bindStatement_eq (hnode : p.tree.node? node = some kind) (chain : Chain) :
    p.bindStatement ask chain node =
      (do p.statementStep ask (← chain.innerOrSelf p node) node kind) := by
  rw [bindStatement]
  congr
  funext scope
  split <;> rename_i h
  case h_14 => simp [hnode] at h
  all_goals (obtain rfl := Option.mem_unique hnode h)
  case h_1 => simp [statementStep]
  case h_5 elseStatement => cases elseStatement <;> rfl
  case h_10 catchBody finallyBody => cases catchBody <;> cases finallyBody <;> rfl
  case h_13 => cases kind <;> first | rfl | (exfalso; grind)
  all_goals rfl

theorem bindStatement_eq_of_missing (hnode : p.tree.node? node = none) (chain : Chain) :
    p.bindStatement ask chain node =
      (do let _ ← chain.innerOrSelf p node; throw (p.tree.missing node)) := by
  rw [bindStatement]
  congr
  funext scope
  split <;> simp_all

theorem bindBlock_eq {statements : List NodeId}
    (hnode : p.tree.node? node = some (.block statements)) (chain : Chain) :
    p.bindBlock ask chain node = (do
      let scope ← chain.innerOrSelf p node
      let statements ← statements.mapM (p.bindStatement ask scope)
      return ⟨statements, ← scope.scopeLocals p⟩) := by
  rw [bindBlock]
  split <;> rename_i h
  · obtain ⟨rfl⟩ := Option.mem_unique hnode h
    simp
  · simp_all
  · simp_all

theorem statementStep_block {statements : List NodeId} {chain scope : Chain}
    (hnode : p.tree.node? node = some (.block statements))
    (hscope : chain.innerOrSelf p node = .ok scope) (again : scope.innerOrSelf p node = .ok scope) :
    p.statementStep ask scope node (.block statements) =
      Block.toStatement <$> p.bindBlock ask chain node := by
  rw [bindBlock_eq hnode, hscope, statementStep, again]
  change _ = Block.toStatement <$> (statements.mapM (p.bindStatement ask scope) >>= _)
  simp only [map_bind, map_pure]
  rfl

theorem bindBlock_eq_of_other (hnode : p.tree.node? node = some kind)
    (hkind : ∀ statements, kind ≠ .block statements) (chain : Chain) :
    p.bindBlock ask chain node = (do
      let locals ← p.ownLocals (← chain.inner? p node)
      return ⟨[← p.bindStatement ask chain node], locals⟩) := by
  rw [bindBlock]
  split <;> rename_i h
  · exact absurd (Option.mem_unique hnode h) (hkind _)
  · rfl
  · simp [hnode] at h

end Program
end Bindery
