import Bindery.Proofs.BoundStatements
import Bindery.Proofs.TreeShape

/-! # Queries find the scopes of binding

The scope of a statement can be asked for in two ways.  Binding goes down: it walks from a body to
the statements in it and asks for the scope of each on the way.  A query goes up: `Program.chainAt`
follows the parents of a node to the region that owns it, and takes the nearest scope on the way.

* Between a start of code and a statement in it stand statements only, which own no region
  (`Program.regionsOn_of_reaches`), so both find the same region
  (`Program.CodeStart.ownerChain_fetches`).
* Each step from a statement to a part of it adds one node to the way up, and the part has a scope
  of its own or that of the statement (`Place.Inside.scope_eq`). -/

namespace Bindery

/-- A search that cannot fail. -/
theorem findSomeM?_eq_ok {α β : Type} {f : α → Except Fault (Option β)} {g : α → Option β}
    {list : List α} (h : ∀ a ∈ list, f a = .ok (g a)) :
    list.findSomeM? f = .ok (list.findSome? g) := by
  induction list with
  | nil => rfl
  | cons a rest ih =>
    rw [List.findSomeM?, h a (by simp), List.findSome?_cons]
    cases g a with
    | some b => rfl
    | none => exact ih fun a ha => h a (List.mem_cons_of_mem _ ha)

/-! ### Regions -/

namespace Program

variable {p : Program}

theorem regionsAt_statement {node : NodeId} {kind : Node} (hnode : p.tree.node? node = some kind)
    (hkind : kind.isStatement = true) (child : Option NodeId) : p.regionsAt child node = [] := by
  unfold regionsAt
  rw [hnode]
  cases kind <;> simp_all [Node.isStatement]

/-- On the way up, statements own no region. -/
theorem regionsOn_of_reaches (linked : p.tree.Linked) {start node : NodeId}
    (h : p.tree.Reaches start node) {kind : Node} (hnode : p.tree.node? node = some kind)
    (hkind : kind.isStatement = true) (child : Option NodeId) :
    p.regionsOn child (p.tree.ancestorsAndSelf node) =
      p.regionsOn (some start) (p.tree.ancestorsAndSelf start).tail := by
  induction h generalizing kind child with
  | refl =>
    obtain ⟨above, habove⟩ := p.tree.ancestorsAndSelf_eq_cons start
    rw [habove, regionsOn, regionsAt_statement hnode hkind]
    rfl
  | tail _ hstep ih =>
    obtain ⟨above, habove, hpart⟩ := hstep
    rw [linked.ancestorsAndSelf_child habove (Node.mem_children_of_mem_statements hpart), regionsOn,
      regionsAt_statement hnode hkind]
    exact ih habove (Node.isStatement_of_mem_statements hpart) _

theorem fetchFirst_fetches {region : Region} {rest : List Region} {chain : Chain}
    (h : p.Fetches (p.fetch region) (some chain)) : p.Fetches (p.fetchFirst (region :: rest)) chain :=
  .bind h (.pure chain)

namespace CodeStart

variable {region chain : Chain} {root start : NodeId}

/-- The node that a start of code belongs to owns the region. -/
theorem regionsOn_tail (formed : p.Formed) (h : CodeStart p region root chain start) :
    ∃ owner rest, p.regionsOn (some start) (p.tree.ancestorsAndSelf start).tail = owner :: rest ∧
      p.Fetches (p.fetch owner) (some region) := by
  cases h with
  | @body method data _ _ hdata hbody hregion =>
    obtain ⟨s, hs, hkind⟩ := exists_of_method? hdata
    obtain ⟨found, hfound, hfetches, -⟩ := bodyChain_spec formed hs hkind
    obtain rfl := ok_unique hfound hregion
    obtain ⟨-, n, modifiers, parameters, hn, hnode⟩ := formed.table.declared_body hs hkind hbody
    obtain ⟨above, habove⟩ := p.tree.ancestorsAndSelf_eq_cons n
    have hat : p.regionsAt (some root) n = [.body method, .signature method] := by
      unfold regionsAt
      rw [hnode, formed.table.declaredAt?_iff.2 ⟨_, hs, hn⟩]
      simp
    refine ⟨.body method, .signature method :: p.regionsOn (some n) above, ?_, hfetches⟩
    rw [formed.linked.ancestorsAndSelf_child hnode (by simp), List.tail_cons, habove,
      regionsOn, hat]
    rfl
  | global hentry hdata hisEntry hregion hmem =>
    obtain ⟨found, hfound, hfetches, -⟩ := scriptChain_spec formed
    obtain rfl := ok_unique hfound hregion
    obtain ⟨m, -, hm⟩ := Tree.exists_of_mem_globalStatementsOf hmem
    obtain ⟨above, habove⟩ := p.tree.ancestorsAndSelf_eq_cons m
    have hat : p.regionsAt (some start) m = [.script] := by
      unfold regionsAt
      rw [hm]
    refine ⟨.script, p.regionsOn (some m) above, ?_, hfetches⟩
    rw [formed.linked.ancestorsAndSelf_child hm (by simp), List.tail_cons, habove,
      regionsOn, hat]
    rfl

/-- The region that owns a statement is the one that it is bound in. -/
theorem ownerChain_fetches (formed : p.Formed) (h : CodeStart p region root chain start)
    {node : NodeId} (hreaches : p.tree.Reaches start node) {kind : Node}
    (hnode : p.tree.node? node = some kind) (hkind : kind.isStatement = true) :
    p.Fetches (p.ownerChain node) region := by
  obtain ⟨owner, rest, hregions, hfetches⟩ := h.regionsOn_tail formed
  refine .bind_lift (Tree.pathToRoot_eq hnode) ?_
  rw [regionsOn_of_reaches formed.linked hreaches hnode hkind, hregions]
  exact fetchFirst_fetches hfetches

end CodeStart

/-! ### Scopes on the way -/

/-- The nearest scope that a region lists on the way up from a node. -/
def nearestScope (p : Program) (region : Chain) (scopes : List (NodeId × Chain)) (node : NodeId) :
    Chain :=
  ((p.tree.ancestorsAndSelf node).findSome? (Chain.scopeAt scopes)).getD region

end Program

section nearest

variable {p : Program} {region : Chain} {root : NodeId} {scopes : List (NodeId × Chain)}

theorem Chain.Mapped.enclosing_eq (mapped : Chain.Mapped p region root scopes) {node : NodeId}
    {kind : Node} (hnode : p.tree.node? node = some kind) :
    region.enclosing p node = .ok (p.nearestScope region scopes node) := by
  unfold Chain.enclosing
  rw [Tree.pathToRoot_eq hnode]
  change ((p.tree.ancestorsAndSelf node).findSomeM? (region.inner? p) >>= _ : Except Fault Chain) = _
  rw [findSomeM?_eq_ok fun n _ => mapped.inner?_eq (.refl region) n]
  rfl

theorem Program.nearestScope_of_parent {n parent : NodeId}
    (h : p.tree.ancestorsAndSelf n = n :: p.tree.ancestorsAndSelf parent) :
    p.nearestScope region scopes n =
      (Chain.scopeAt scopes n).getD (p.nearestScope region scopes parent) := by
  unfold Program.nearestScope
  rw [h, List.findSome?_cons]
  cases Chain.scopeAt scopes n <;> rfl

variable {entry : NodeId × Chain}

/-- What a region lists for the global statements. -/
theorem Chain.Mapped.under_global (mapped : Chain.Mapped p region root scopes) {members : List NodeId}
    (hroot : p.tree.node? root = some (.compilationUnit members)) (h : entry ∈ scopes) :
    entry.1 = root ∨ ∃ statement ∈ p.tree.globalStatementsOf members,
      p.tree.Under statement entry.1 := by
  have hscopes := mapped.scopes_eq
  unfold Chain.rootScopes at hscopes
  rw [Tree.fetch_of_node? hroot] at hscopes
  obtain rfl := Except.ok.inj hscopes
  rcases List.mem_cons.1 h with rfl | h
  · exact .inl rfl
  · obtain ⟨statement, hstatement, h⟩ := List.mem_flatMap.1 h
    exact .inr ⟨statement, hstatement, (Chain.statementScopes_lists 0 _ statement entry h).1⟩

/-- A region lists no scopes above its root. -/
theorem Chain.Mapped.entry_le (mapped : Chain.Mapped p region root scopes)
    (h : entry ∈ scopes) : (entry.1 : Nat) ≤ root := by
  obtain ⟨kind, hroot⟩ := Tree.exists_node_of_lt mapped.isRegion.root_lt
  by_cases hunit : ∃ members, kind = .compilationUnit members
  · obtain ⟨members, rfl⟩ := hunit
    rcases mapped.under_global hroot h with heq | ⟨statement, hstatement, hunder⟩
    · exact Nat.le_of_eq heq
    · obtain ⟨m, hm, hnode⟩ := Tree.exists_of_mem_globalStatementsOf hstatement
      have hbelow : p.tree.Under root entry.1 := (Tree.Under.of_child hroot hm).trans
        ((Tree.Under.of_child hnode (by simp)).trans hunder)
      exact hbelow.le
  · have hscopes := mapped.scopes_eq
    unfold Chain.rootScopes at hscopes
    rw [Tree.fetch_of_node? hroot] at hscopes
    have hunder : p.tree.Under root entry.1 := by
      cases kind with
      | compilationUnit members => exact absurd ⟨members, rfl⟩ hunit
      | block statements =>
        have heq : Chain.statementScopes p 0 region root = Chain.blockScopes p 0 region root := by
          rw [Chain.statementScopes]
          split <;> simp_all
        obtain rfl := Except.ok.inj hscopes
        rw [← heq] at h
        exact (Chain.statementScopes_lists 0 region root entry h).1
      | _ =>
        obtain rfl := Except.ok.inj hscopes
        split at h
        · exact (Chain.childScopes_lists 0 region root entry h).1
        · simp at h
    exact hunder.le

variable (linked : p.tree.Linked) (mapped : Chain.Mapped p region root scopes)
include linked mapped

/-- From a place whose scope is the nearest one, steps lead to such places. -/
theorem Place.Inside.scope_eq {a b : Place} {chain : Chain}
    (ha : Chain.Scoped p region scopes chain a.node a.scope)
    (hnearest : p.nearestScope region scopes a.node = a.scope) (h : Place.Inside p a b) :
    p.nearestScope region scopes b.node = b.scope := by
  suffices hsuff : (∃ chain, Chain.Scoped p region scopes chain b.node b.scope) ∧
      p.nearestScope region scopes b.node = b.scope from hsuff.2
  induction h with
  | refl => exact ⟨⟨chain, ha⟩, hnearest⟩
  | @tail b c _ hstep ih =>
    obtain ⟨⟨chain, hb⟩, hscope⟩ := ih
    obtain ⟨part, hpart, rfl⟩ := hstep
    obtain ⟨kind, hnode, hstatement⟩ := Chain.hasStatement_of_mem_parts hpart
    have site := (hb.site hnode (Node.isStatement_of_mem_statements hstatement)).part linked hpart
    refine ⟨⟨b.scope, site.scoped mapped⟩, ?_⟩
    rw [Program.nearestScope_of_parent (linked.ancestorsAndSelf_child hnode
      (Node.mem_children_of_mem_statements hstatement)), hscope, site.inner_eq]

omit linked in
/-- Where code starts, the nearest scope is the one that binding finds. -/
theorem Program.CodeStart.nearestScope_eq (formed : p.Formed) {chain own : Chain} {start : NodeId}
    (h : p.CodeStart region root chain start)
    (hown : Chain.Scoped p region scopes chain start own) :
    p.nearestScope region scopes start = own := by
  have linked := formed.linked
  have hinner := hown.inner_eq
  cases h with
  | body hdata hbody hregion =>
    rw [mapped.innerOrSelf_eq (.refl region)] at hinner
    obtain ⟨above, habove⟩ := p.tree.ancestorsAndSelf_eq_cons root
    have hnone : above.findSome? (Chain.scopeAt scopes) = none := by
      refine List.findSome?_eq_none_iff.2 fun n hn => Chain.scopeAt_eq_none fun entry hentry heq => ?_
      have hlt := Tree.lt_of_mem_above habove hn
      exact absurd (mapped.entry_le hentry) (heq ▸ Nat.not_le_of_lt hlt)
    unfold Program.nearestScope
    rw [habove, List.findSome?_cons, hnone, ← Except.ok.inj hinner]
    cases Chain.scopeAt scopes root <;> rfl
  | global hentry hdata hisEntry hregion hmem =>
    obtain ⟨members, hroot⟩ := linked.root_eq
    have hmembers : p.tree.members = members := by simp [Tree.members, hroot]
    obtain ⟨m, hm, hnode⟩ := Tree.exists_of_mem_globalStatementsOf hmem
    rw [hmembers] at hm
    have hchild : start ∈ (Node.globalStatement start).children := by simp
    -- the member between the compilation unit and its statement has no scope
    have hnone : Chain.scopeAt scopes m = none := by
      refine Chain.scopeAt_eq_none ?_
      rintro entry hentry rfl
      rcases mapped.under_global hroot hentry with heq | ⟨other, hother, hunder⟩
      · exact absurd (p.tree.child_lt hroot hm) (heq ▸ Nat.lt_irrefl _)
      · obtain ⟨m', hm', hnode'⟩ := Tree.exists_of_mem_globalStatementsOf hother
        have hbelow := (Tree.Under.of_child hnode' (by simp)).trans hunder
        obtain rfl := linked.under_disjoint hroot hm' hm hbelow .refl
        have hchild : other ∈ (Node.globalStatement other).children := by simp
        exact absurd hunder.le (Nat.not_le_of_lt (p.tree.child_lt hnode' hchild))
    have hscope : Chain.scopeAt scopes p.tree.root = some (Chain.globalScopeOf p region) :=
      mapped.script hroot
    have hglobal : p.nearestScope region scopes p.tree.root = Chain.globalScopeOf p region := by
      obtain ⟨above, habove⟩ := p.tree.ancestorsAndSelf_eq_cons p.tree.root
      unfold Program.nearestScope
      rw [habove, List.findSome?_cons, hscope]
      rfl
    have hextends : Chain.Extends p region (Chain.globalScopeOf p region) :=
      mapped.extends (Chain.mem_of_scopeAt hscope)
    rw [mapped.innerOrSelf_eq hextends] at hinner
    rw [Program.nearestScope_of_parent (linked.ancestorsAndSelf_child hnode hchild),
      Program.nearestScope_of_parent (linked.ancestorsAndSelf_child hroot hm), hnone, hglobal]
    exact Except.ok.inj hinner

end nearest

namespace Compilation

variable {d : Document} {options : Options} {c : Compilation} {scope : GlobalScope} {F : Findings}

theorem Origin.chainAt_fetches {p : Program} (formed : p.Formed) {b : BoundAt} {region : Chain}
    {root : NodeId} {scopes : List (NodeId × Chain)} {chain : Chain} {start : NodeId}
    {first own : Chain} (h : Origin p b region root scopes chain start first own) {kind : Node}
    (hnode : p.tree.node? b.node = some kind) (hkind : kind.isStatement = true) :
    p.Fetches (p.chainAt b.node) own := by
  have hscope := Place.Inside.scope_eq formed.linked h.mapped h.first_eq
    (h.codeStart.nearestScope_eq h.mapped formed h.first_eq) h.inside
  refine .bind (h.codeStart.ownerChain_fetches formed h.inside.reaches hnode hkind) ?_
  have henclosing := h.mapped.enclosing_eq hnode
  rw [hscope] at henclosing
  rw [henclosing]
  exact .pure own

/-- Binding and queries agree on scopes.  All statements of code are bound, each of them in a scope
`own` that it finds from the chain at hand: binding the statement is its step under `own`, with all
that is reported and published.  The query for the statement gives `own` as well, whichever chains
of this program were kept before. -/
theorem query_finds_scope_of_binding (h : Compiles d options c scope F) :
    (c.program.CacheSound {} ∧ c.program.CacheSound F.regions) ∧
      (∀ node, c.program.InCode node → ∃ b, c.BoundIn scope b ∧ b.node = node) ∧
      ∀ b kind, c.BoundIn scope b → c.program.tree.node? b.node = some kind →
        kind.isStatement = true → ∃ own, b.chain.innerOrSelf c.program b.node = .ok own ∧
          c.program.bindStatement c.program.answer b.chain b.node =
            c.program.statementStep c.program.answer own b.node kind ∧
          (∃ t t', c.program.statementStep c.program.answer own b.node kind t =
            .ok b.statement t') ∧
          ∀ kept, c.program.CacheSound kept →
            ∃ kept', c.program.chainAt b.node kept = .ok own kept' ∧ c.program.CacheSound kept' := by
  refine ⟨⟨Program.cacheSound_empty, h.sound.regions⟩, fun node hnode => exists_boundIn h hnode,
    fun b kind hb hnode hkind => ?_⟩
  obtain ⟨region, root, scopes, chain, start, first, own, origin⟩ := hb.origin h
  have hstep : c.program.bindStatement c.program.answer b.chain b.node =
      c.program.statementStep c.program.answer own b.node kind := by
    rw [Program.bindStatement_eq hnode, origin.own_eq.inner_eq]
    rfl
  refine ⟨own, origin.own_eq.inner_eq, hstep, ?_, fun kept hkept => ?_⟩
  · obtain ⟨t, t', hrun⟩ := origin.runs
    exact ⟨t, t', hstep ▸ hrun⟩
  · obtain ⟨found, kept', hfound, rfl, hkept'⟩ :=
      (origin.chainAt_fetches h.formed hnode hkind kept hkept).exists_ok
    exact ⟨kept', hfound, hkept'⟩

theorem query_finds_scope_of_binding_break : ∃ c scope F b own kept',
    Compiles breakDocument {} c scope F ∧ c.BoundIn scope b ∧
      c.program.tree.node? b.node = some .breakStatement ∧
      b.chain.innerOrSelf c.program b.node = .ok own ∧
      c.program.chainAt b.node F.regions = .ok own kept' := by
  obtain ⟨c, scope, F, h, hnodes, hcode⟩ := exists_compiles_break
  obtain ⟨⟨-, hkept⟩, hall, hagree⟩ := query_finds_scope_of_binding h
  obtain ⟨b, hb, hnode⟩ := hall 1 hcode
  have hbreak : c.program.tree.node? b.node = some .breakStatement := by rw [hnode, hnodes]; rfl
  obtain ⟨own, hown, -, -, hquery⟩ := hagree b _ hb hbreak rfl
  obtain ⟨kept', hkept', -⟩ := hquery F.regions hkept
  exact ⟨c, scope, F, b, own, kept', h, hb, hbreak, hown, hkept'⟩

end Compilation
end Bindery
