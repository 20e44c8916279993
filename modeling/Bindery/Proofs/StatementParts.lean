import Bindery.Proofs.BoundOnce

/-! # The statements of bound code

Binding a statement binds the statements it consists of, each of them under the scope of the
statement they stand in.

* `Node.statements` lists the statements that a statement consists of, `Program.boundParts` what
  they are bound to.  A run of binding gives one for the other (`Program.forall₂_of_bindStatement`).
* `Chain.parts` says how the scope of a part stands on the scope around it.  `Place.Inside` repeats
  such steps: it leads from the scope of a statement to the scopes of all statements in it.
* `BoundAt` is a statement with the chain that it is bound under and what it is bound to.
  `BoundAt.Contains` leads from such a statement to all statements in it, and each of them is bound
  by a run of its own (`BoundAt.Contains.runs`) in a place inside (`BoundAt.Contains.inside`). -/

namespace Bindery

/-! ### Scopes of parts -/

namespace Chain

variable {p : Program}

section sites

variable {region chain scope : Chain} {scopes : List (NodeId × Chain)} {root node : NodeId}

/-- The scope that a node is bound in.  Nodes that are no statements may stand where a statement is
expected; they have no parts, and what the region lists for them does not matter. -/
structure Scoped (p : Program) (region : Chain) (scopes : List (NodeId × Chain)) (chain : Chain)
    (node : NodeId) (scope : Chain) : Prop where
  inner_eq : chain.innerOrSelf p node = .ok scope
  again : scope.innerOrSelf p node = .ok scope
  site : ∀ {kind : Node}, p.tree.node? node = some kind → kind.isStatement = true →
    Site p region scopes chain node scope

theorem Site.scoped (mapped : Mapped p region root scopes)
    (site : Site p region scopes chain node scope) : Scoped p region scopes chain node scope :=
  ⟨site.innerOrSelf_eq mapped, site.innerOrSelf_again mapped, fun _ _ => site⟩

theorem Mapped.extends (mapped : Mapped p region root scopes) {entry : NodeId × Chain}
    (h : entry ∈ scopes) : Extends p region entry.2 := by
  obtain ⟨found, hfound, hentries⟩ := rootScopes_yields (p := p) 0 region mapped.isRegion.root_lt
  obtain rfl := ok_unique hfound mapped.scopes_eq
  exact hentries entry h

/-- Where a region starts. -/
theorem Mapped.scoped (mapped : Mapped p region root scopes) :
    ∃ scope, Scoped p region scopes region root scope := by
  refine ⟨(scopeAt scopes root).getD region, mapped.innerOrSelf_eq (.refl region) root, ?_, ?_⟩
  · cases hfound : scopeAt scopes root with
    | none => rw [Option.getD_none, mapped.innerOrSelf_eq (.refl region), hfound, Option.getD_none]
    | some scope =>
      have hscope : Extends p region scope := mapped.extends (mem_of_scopeAt hfound)
      rw [Option.getD_some, mapped.innerOrSelf_eq hscope, hfound, Option.getD_some]
  · intro kind hnode hkind
    have site := mapped.site hnode hkind
    rw [site.inner_eq]
    exact site

/-- The parts of a statement have scopes in its scope. -/
theorem Scoped.part (linked : p.tree.Linked) (mapped : Mapped p region root scopes)
    (h : Scoped p region scopes chain node scope) {part : Part} (hpart : part ∈ parts p 0 scope node) :
    Scoped p region scopes scope part.node (opened p 0 part.alone part.chain part.node) := by
  obtain ⟨kind, hnode, hstatement⟩ := hasStatement_of_mem_parts hpart
  have site := h.site hnode (Node.isStatement_of_mem_statements hstatement)
  exact (site.part linked hpart).scoped mapped

end sites

end Chain

/-! ### Places -/

/-- A node with its scope. -/
structure Place where
  scope : Chain
  node : NodeId

namespace Place

variable {p : Program}

/-- The second is the place of one of the statements that the first consists of. -/
def Step (p : Program) (a b : Place) : Prop :=
  ∃ part ∈ Chain.parts p 0 a.scope a.node,
    b = ⟨Chain.opened p 0 part.alone part.chain part.node, part.node⟩

/-- The second is the first or the place of a statement in it. -/
def Inside (p : Program) : Place → Place → Prop := Relation.ReflTransGen (Step p)

theorem Step.hasStatement {a b : Place} (h : Step p a b) : p.tree.HasStatement a.node b.node := by
  obtain ⟨_, hpart, rfl⟩ := h
  exact Chain.hasStatement_of_mem_parts hpart

theorem Inside.reaches {a b : Place} (h : Inside p a b) : p.tree.Reaches a.node b.node :=
  Relation.ReflTransGen.lift Place.node (fun _ _ => Step.hasStatement) a b h

end Place

/-! ### Bound statements -/

/-- What the body of a function is bound to: a block, or the one statement that stands for it. -/
def Program.bodyParts (p : Program) (body : NodeId) (block : Block) : List Statement :=
  match p.tree.node? body with
  | some (.block _) => [block.toStatement]
  | _ => block.statements

/-- What the statements of a statement are bound to. -/
def Program.boundParts (p : Program) : Node → Statement → List Statement
  | .localFunction _ _ _ body, .localFunction _ statements locals =>
      p.bodyParts body ⟨statements, locals⟩
  | .block _, .block statements _ => statements
  | .ifStatement .., .ifElse _ thenStatement elseStatement => thenStatement :: elseStatement.toList
  | .whileStatement .., .whileLoop _ body _ _ => [body]
  | .tryStatement .., .tryCatch body catchBody finallyBody =>
      body :: (catchBody.toList ++ finallyBody.toList)
  | .labeled .., .labeled _ statement => [statement]
  | _, _ => []

/-- A statement with the chain that it is bound under and what it is bound to. -/
structure BoundAt where
  chain : Chain
  node : NodeId
  statement : Statement

/-! ### Runs -/

section runs

variable {σ α β : Type}

/-- The result of a computation that may be left out. -/
theorem forall₂_of_run_optionMapM {f : α → EStateM Fault σ β} {found : Option α} {s t : σ}
    {result : Option β} (h : found.mapM f s = .ok result t) :
    List.Forall₂ (fun a b => ∃ s' t', f a s' = .ok b t') found.toList result.toList := by
  cases found with
  | none =>
    obtain ⟨rfl, -⟩ := EStateM.Result.ok.inj h
    exact .nil
  | some a =>
    rw [Option.mapM_some, ← bind_pure_comp] at h
    obtain ⟨b, hb, rfl⟩ := exists_of_run_bind_pure h
    exact .cons ⟨s, _, hb⟩ .nil

end runs

namespace Program

variable {p : Program} {ask : Asker} {chain scope : Chain} {node : NodeId} {t t' : BindState}

variable {kind : Node}

theorem bindStatement_eq_bindBlock {statements : List NodeId}
    (hnode : p.tree.node? node = some (.block statements))
    (hscope : chain.innerOrSelf p node = .ok scope) (again : scope.innerOrSelf p node = .ok scope) :
    p.bindStatement ask chain node = Block.toStatement <$> p.bindBlock ask chain node := by
  rw [bindStatement_eq hnode, ← statementStep_block hnode hscope again, hscope]
  rfl

/-- A body is bound like a statement. -/
theorem bindStatement_of_bindBlock {block : Block} (hnode : p.tree.node? node = some kind)
    (hscope : chain.innerOrSelf p node = .ok scope) (again : scope.innerOrSelf p node = .ok scope)
    (h : p.bindBlock ask chain node t = .ok block t') :
    ∃ s, p.bodyParts node block = [s] ∧ p.bindStatement ask chain node t = .ok s t' := by
  unfold bodyParts
  rw [hnode]
  by_cases hblock : ∃ statements, kind = .block statements
  · obtain ⟨statements, rfl⟩ := hblock
    refine ⟨block.toStatement, rfl, ?_⟩
    rw [bindStatement_eq_bindBlock hnode hscope again]
    simp [Functor.map, EStateM.map, h]
  · rw [bindBlock_eq_of_other hnode fun statements heq => hblock ⟨statements, heq⟩] at h
    obtain ⟨inner, -, h⟩ := exists_of_run_lift h
    obtain ⟨locals, -, h⟩ := exists_of_run_lift h
    obtain ⟨s, hs, rfl⟩ := exists_of_run_bind_pure h
    refine ⟨s, ?_, hs⟩
    cases kind <;> first | rfl | exact absurd ⟨_, rfl⟩ hblock

/-- Binding a statement binds its parts in its scope. -/
theorem forall₂_of_bindStatement {s : Statement} (hnode : p.tree.node? node = some kind)
    (hscope : chain.innerOrSelf p node = .ok scope) (again : scope.innerOrSelf p node = .ok scope)
    (hparts : ∀ part ∈ kind.statements, ∃ own, scope.innerOrSelf p part = .ok own ∧
      own.innerOrSelf p part = .ok own) (h : p.bindStatement ask chain node t = .ok s t') :
    List.Forall₂ (fun part bound => ∃ u u', p.bindStatement ask scope part u = .ok bound u')
      kind.statements (p.boundParts kind s) := by
  rw [bindStatement_eq hnode, hscope] at h
  change p.statementStep ask scope node kind t = _ at h
  cases kind with
  | block statements =>
    obtain ⟨_, hagain, h⟩ := exists_of_run_lift h
    obtain rfl := ok_unique again hagain
    obtain ⟨parts, t₁, hrun, h⟩ := exists_of_run_bind h
    obtain ⟨locals, -, h⟩ := exists_of_run_lift h
    obtain ⟨rfl, -⟩ := EStateM.Result.ok.inj h
    exact forall₂_of_run_mapM hrun
  | localFunction name returnType parameters body =>
    obtain ⟨function, t₁, -, h⟩ := exists_of_run_bind h
    obtain ⟨block, hblock, rfl⟩ := exists_of_run_bind_pure h
    obtain ⟨own, hown, hagain⟩ := hparts body (List.mem_singleton_self _)
    have hlt : body < p.tree.size := Tree.child_lt_size hnode (by simp)
    obtain ⟨kind, hkind⟩ := Tree.exists_node_of_lt hlt
    obtain ⟨bound, hbound, hrun⟩ := bindStatement_of_bindBlock hkind hown hagain hblock
    change List.Forall₂ _ [body] (p.bodyParts body block)
    rw [hbound]
    exact .cons ⟨t₁, t', hrun⟩ .nil
  | ifStatement condition thenStatement elseStatement =>
    obtain ⟨_, t₁, -, h⟩ := exists_of_run_bind h
    obtain ⟨first, t₂, hfirst, h⟩ := exists_of_run_bind h
    obtain ⟨second, hsecond, rfl⟩ := exists_of_run_bind_pure h
    exact .cons ⟨t₁, t₂, hfirst⟩ (forall₂_of_run_optionMapM hsecond)
  | whileStatement condition body =>
    unfold statementStep at h
    cases hloop : scope.loop? with
    | none =>
      rw [hloop] at h
      cases h
    | some loop =>
      rw [hloop] at h
      obtain ⟨_, t₁, -, h⟩ := exists_of_run_bind h
      obtain ⟨bound, hbound, rfl⟩ := exists_of_run_bind_pure h
      exact .cons ⟨t₁, t', hbound⟩ .nil
  | tryStatement body catchBody finallyBody =>
    obtain ⟨first, t₁, hfirst, h⟩ := exists_of_run_bind h
    obtain ⟨second, t₂, hsecond, h⟩ := exists_of_run_bind h
    obtain ⟨third, hthird, rfl⟩ := exists_of_run_bind_pure h
    exact .cons ⟨t, t₁, hfirst⟩
      (List.rel_append (forall₂_of_run_optionMapM hsecond) (forall₂_of_run_optionMapM hthird))
  | labeled label statement =>
    obtain ⟨found, -, h⟩ := exists_of_run_lift h
    cases found with
    | none => cases h
    | some label =>
      obtain ⟨other, -, h⟩ := exists_of_run_lift h
      -- whether the label is reported as a duplicate makes no difference
      have hrest : ∃ u, (p.bindStatement ask scope statement >>= fun bound =>
          pure (Statement.labeled label bound)) u = .ok s t' := by
        split at h
        · obtain ⟨_, u, -, h⟩ := exists_of_run_bind h
          exact ⟨u, h⟩
        · exact ⟨t, h⟩
      obtain ⟨u, h⟩ := hrest
      obtain ⟨bound, hbound, rfl⟩ := exists_of_run_bind_pure h
      exact .cons ⟨u, t', hbound⟩ .nil
  | _ => exact .nil

end Program

/-! ### Statements in statements -/

namespace BoundAt

variable {p : Program}

/-- Binding the statement under its chain gives what it is bound to. -/
def Runs (p : Program) (b : BoundAt) : Prop :=
  ∃ t t', p.bindStatement p.answer b.chain b.node t = .ok b.statement t'

/-- The second is one of the statements that the first consists of. -/
def Holds (p : Program) (a b : BoundAt) : Prop :=
  ∃ kind, p.tree.node? a.node = some kind ∧ a.chain.innerOrSelf p a.node = .ok b.chain ∧
    (b.node, b.statement) ∈ kind.statements.zip (p.boundParts kind a.statement)

/-- The second is the first or a statement in it. -/
def Contains (p : Program) : BoundAt → BoundAt → Prop := Relation.ReflTransGen (Holds p)

section regions

variable (linked : p.tree.Linked) {region : Chain} {root : NodeId} {scopes : List (NodeId × Chain)}
  (mapped : Chain.Mapped p region root scopes)
  {a b : BoundAt} {scope : Chain} (ha : Chain.Scoped p region scopes a.chain a.node scope)
include linked mapped ha

/-- Scopes of parts, as binding asks for them. -/
theorem Holds.step (h : Holds p a b) :
    b.chain = scope ∧ ∃ own, Chain.Scoped p region scopes b.chain b.node own ∧
      Place.Step p ⟨scope, a.node⟩ ⟨own, b.node⟩ := by
  obtain ⟨kind, hnode, hchain, hmem⟩ := h
  obtain rfl := ok_unique ha.inner_eq hchain
  obtain ⟨part, hpart, hb⟩ := Chain.exists_part 0 b.chain ⟨kind, hnode, (List.of_mem_zip hmem).1⟩
  exact ⟨rfl, _, hb ▸ ha.part linked mapped hpart, part, hpart, by rw [hb]⟩

theorem Contains.inside (h : Contains p a b) :
    ∃ own, Chain.Scoped p region scopes b.chain b.node own ∧
      Place.Inside p ⟨scope, a.node⟩ ⟨own, b.node⟩ := by
  induction h with
  | refl => exact ⟨scope, ha, .refl⟩
  | tail _ hholds ih =>
    obtain ⟨own, hown, hinside⟩ := ih
    obtain ⟨-, part, hpart, hstep⟩ := hholds.step linked mapped hown
    exact ⟨part, hpart, hinside.tail hstep⟩

/-- The statements of a bound statement are bound one by one in its scope. -/
theorem Runs.parts (h : a.Runs p) {kind : Node} (hnode : p.tree.node? a.node = some kind) :
    List.Forall₂ (fun part bound => Runs p ⟨scope, part, bound⟩) kind.statements
      (p.boundParts kind a.statement) := by
  obtain ⟨t, t', h⟩ := h
  refine Program.forall₂_of_bindStatement hnode ha.inner_eq ha.again (fun part hpart => ?_) h
  obtain ⟨q, hq, rfl⟩ := Chain.exists_part 0 scope ⟨kind, hnode, hpart⟩
  have hscoped := ha.part linked mapped hq
  exact ⟨_, hscoped.inner_eq, hscoped.again⟩

/-- Every statement in a bound statement is bound by a run of its own. -/
theorem Contains.runs (hruns : a.Runs p) (h : Contains p a b) : b.Runs p := by
  induction h with
  | refl => exact hruns
  | tail hab hholds ih =>
    obtain ⟨own, hown, -⟩ := Contains.inside linked mapped ha hab
    obtain ⟨kind, hnode, hchain, hmem⟩ := hholds
    obtain rfl := ok_unique hown.inner_eq hchain
    exact (List.forall₂_iff_zip.1 (ih.parts linked mapped hown hnode)).2 hmem

/-- Every statement that the node of a bound statement reaches is bound with it. -/
theorem exists_contains (hruns : a.Runs p) {n : NodeId} (h : p.tree.Reaches a.node n) :
    ∃ b, Contains p a b ∧ b.node = n := by
  induction h with
  | refl => exact ⟨a, .refl, rfl⟩
  | @tail m n _ hstep ih =>
    obtain ⟨b, hab, rfl⟩ := ih
    obtain ⟨own, hown, -⟩ := Contains.inside linked mapped ha hab
    obtain ⟨kind, hnode, hpart⟩ := hstep
    have hparts := (Contains.runs linked mapped ha hruns hab).parts linked mapped hown hnode
    rw [← List.map_fst_zip (Nat.le_of_eq hparts.length_eq)] at hpart
    obtain ⟨⟨n, bound⟩, hmem, rfl⟩ := List.mem_map.1 hpart
    exact ⟨⟨own, n, bound⟩, hab.tail ⟨kind, hnode, hown.inner_eq, hmem⟩, rfl⟩

end regions

end BoundAt
end Bindery
