import Bindery.Proofs.StatementParts

/-! # The statements of a global scope

Behind the code of a global scope stand runs of binding: one for the body of each method, and one
for the global statements (`Compilation.Built`).

* `Compilation.Starts` gives the statements that this code starts from, each with the chain it is
  bound under, and `Compilation.BoundIn` all statements in them.
* Each of them is bound by a run of its own, in a place that steps lead to
  (`Compilation.BoundIn.origin`), and nothing that can be reached from the body of a method or from
  a global statement is left out (`Compilation.exists_boundIn`). -/

namespace Bindery

namespace Program

variable {p : Program}

variable {region : Chain}

/-! ### Bodies -/

variable {method : SymbolId}

/-- The chain of a body begins with the method and the code. -/
theorem codeScope_eq_ok {root : NodeId} {flags : Flags}
    (h : p.codeScope method root flags = .ok region) :
    ∃ outer, p.signatureScope method = .ok outer ∧
      region = (outer.push (.inMethod (.symbol method)) flags).push
        (.code root (.symbol method) 0) {} := by
  obtain ⟨outer, houter, h⟩ := exists_of_bind_eq_ok h
  exact ⟨outer, houter, (Except.ok.inj h).symm⟩

theorem scriptScope_eq_ok (h : p.scriptScope = .ok (some region)) :
    ∃ entry, p.symbols.entry? = some entry ∧ p.codeScope entry p.tree.root {} = .ok region := by
  unfold scriptScope at h
  cases hentry : p.symbols.entry? with
  | none => simp [hentry, pure, Except.pure] at h
  | some entry =>
    rw [hentry] at h
    obtain ⟨chain, hchain, ⟨rfl⟩⟩ := exists_of_bind_pure_eq_ok h
    exact ⟨entry, rfl, hchain⟩

theorem bodyScope_eq_ok {data : MethodData}
    (hdata : p.symbols.method? method = .ok (some data)) (hentry : data.isEntry = false)
    (h : p.bodyScope method = .ok (some region)) :
    ∃ body, data.body = some body ∧
      p.codeScope method body { lowLevel := data.isLowLevel } = .ok region := by
  unfold bodyScope at h
  rw [hdata] at h
  change (if data.isEntry = true then _ else _ : Except Fault _) = _ at h
  rw [hentry] at h
  obtain ⟨declaration, -, h⟩ := exists_of_bind_eq_ok h
  cases hbody : data.body with
  | none => simp [hbody, pure, Except.pure] at h
  | some body =>
    rw [hbody] at h
    cases declaration with
    | none => simp [pure, Except.pure] at h
    | some node =>
      obtain ⟨chain, hchain, ⟨rfl⟩⟩ := exists_of_bind_pure_eq_ok h
      exact ⟨body, rfl, hchain⟩

/-! ### Where code starts -/

/-- The nodes that code starts from: the body of a method, and the global statements, provided that
the entry method is found by its name.  Each is bound under `chain` in the region `region` of
`root`. -/
inductive CodeStart (p : Program) : (region : Chain) → (root : NodeId) → (chain : Chain) →
    (node : NodeId) → Prop
  | body {method : SymbolId} {data : MethodData} {region : Chain} {node : NodeId}
      (hdata : p.symbols.method? method = .ok (some data)) (hbody : data.body = some node)
      (hregion : p.bodyScope method = .ok (some region)) : CodeStart p region node region node
  | global {entry : SymbolId} {data : MethodData} {region : Chain} {node : NodeId}
      (hentry : p.symbols.entry? = some entry)
      (hdata : p.symbols.method? entry = .ok (some data)) (hisEntry : data.isEntry = true)
      (hregion : p.scriptScope = .ok (some region)) (hmem : node ∈ p.tree.globalStatements) :
      CodeStart p region p.tree.root (Chain.globalScopeOf p region) node

/-- The body of a method, or a global statement that is found with the entry method. -/
def CodeRoot (p : Program) (node : NodeId) : Prop :=
  (∃ method data, p.symbols.method? method = .ok (some data) ∧ data.body = some node) ∨
    node ∈ p.tree.globalStatements ∧ ∃ entry data, p.symbols.entry? = some entry ∧
      p.symbols.method? entry = .ok (some data) ∧ data.isEntry = true

/-- The statements of all code. -/
def InCode (p : Program) (node : NodeId) : Prop := ∃ start, p.CodeRoot start ∧ p.tree.Reaches start node

namespace CodeStart

variable {region chain : Chain} {root node : NodeId}

theorem codeRoot (h : CodeStart p region root chain node) : p.CodeRoot node := by
  cases h with
  | body hdata hbody => exact .inl ⟨_, _, hdata, hbody⟩
  | global hentry hdata hisEntry _ hmem => exact .inr ⟨hmem, _, _, hentry, hdata, hisEntry⟩

/-- A method with a body is not the entry method. -/
theorem isEntry_eq_false (formed : p.Formed) {method : SymbolId}
    (hdata : p.symbols.method? method = .ok (some data)) (hbody : data.body = some node) :
    data.isEntry = false := by
  obtain ⟨s, hs, hkind⟩ := exists_of_method? hdata
  exact formed.isEntry_eq_false hs hkind hbody

/-- The region of code is mapped, and what it starts from has a scope in it. -/
theorem exists_scope (formed : p.Formed) (h : CodeStart p region root chain node) :
    ∃ scopes own, Chain.Mapped p region root scopes ∧
      Chain.Scoped p region scopes chain node own := by
  cases h with
  | body hdata hbody hregion =>
    obtain ⟨s, hs, hkind⟩ := exists_of_method? hdata
    obtain ⟨found, hfound, -, hspec, -⟩ := bodyChain_spec formed hs hkind
    obtain rfl := ok_unique hfound hregion
    have hspec := hspec region rfl
    rw [isEntry_eq_false formed hdata hbody] at hspec
    obtain ⟨body, hbody', hregion, -⟩ := hspec
    obtain rfl := Option.mem_unique hbody hbody'
    obtain ⟨scopes, mapped⟩ := hregion.mapped
    obtain ⟨own, hown⟩ := mapped.scoped
    exact ⟨scopes, own, mapped, hown⟩
  | global hentry hdata hisEntry hregion hmem =>
    obtain ⟨found, hfound, -, hspec, -⟩ := scriptChain_spec formed
    obtain rfl := ok_unique hfound hregion
    obtain ⟨hregion, -⟩ := hspec region rfl
    obtain ⟨scopes, mapped⟩ := hregion.mapped
    obtain ⟨members, hroot⟩ := formed.linked.root_eq
    have hmembers : p.tree.members = members := by simp [Tree.members, hroot]
    have hmem : node ∈ p.tree.globalStatementsOf members := hmembers ▸ hmem
    exact ⟨scopes, _, mapped, (mapped.global formed.linked hroot hmem).scoped mapped⟩

/-- A region of code begins with the method and the code. -/
theorem region_eq (formed : p.Formed) (h : CodeStart p region root chain node) :
    ∃ outer method flags, region = ((outer : Chain).push (.inMethod (.symbol method)) flags).push
      (.code root (.symbol method) 0) {} := by
  cases h with
  | body hdata hbody hregion =>
    obtain ⟨body, hbody', hregion⟩ :=
      bodyScope_eq_ok hdata (isEntry_eq_false formed hdata hbody) hregion
    obtain rfl := Option.mem_unique hbody hbody'
    obtain ⟨outer, -, rfl⟩ := codeScope_eq_ok hregion
    exact ⟨outer, _, _, rfl⟩
  | global _ _ _ hregion =>
    obtain ⟨entry, -, hregion⟩ := scriptScope_eq_ok hregion
    obtain ⟨outer, -, rfl⟩ := codeScope_eq_ok hregion
    exact ⟨outer, _, _, rfl⟩

end CodeStart

theorem CodeRoot.exists_codeStart (formed : p.Formed) (h : p.CodeRoot node) :
    ∃ region root chain, CodeStart p region root chain node := by
  rcases h with ⟨method, data, hdata, hbody⟩ | ⟨hmem, entry, data, hentry, hdata, hisEntry⟩
  · obtain ⟨s, hs, hkind⟩ := exists_of_method? hdata
    obtain ⟨found, hfound, -, -, hnone⟩ := bodyChain_spec formed hs hkind
    cases found with
    | none =>
      have := CodeStart.isEntry_eq_false formed hdata hbody
      simp [(hnone rfl).2] at this
    | some region => exact ⟨region, node, region, .body hdata hbody hfound⟩
  · obtain ⟨found, hfound, -, -, hnone⟩ := scriptChain_spec formed
    cases found with
    | none => simp [hnone rfl] at hentry
    | some region => exact ⟨region, _, _, .global hentry hdata hisEntry hfound hmem⟩

/-! ### Runs of code -/

section runs

variable {t t' : BindState} {region : Chain} {data : MethodData} {block : Block}

/-- The body of a method is bound to one statement. -/
theorem exists_bodyPart (formed : p.Formed) {method : SymbolId} {node : NodeId}
    (hdata : p.symbols.method? method = .ok (some data)) (hbody : data.body = some node)
    (hregion : p.bodyScope method = .ok (some region))
    (h : p.bindBlock p.answer region node t = .ok block t') :
    ∃ s, p.bodyParts node block = [s] ∧ BoundAt.Runs p ⟨region, node, s⟩ := by
  have start : CodeStart p region node region node := .body hdata hbody hregion
  obtain ⟨scopes, own, mapped, hown⟩ := start.exists_scope formed
  obtain ⟨kind, hnode⟩ := Tree.exists_node_of_lt mapped.isRegion.root_lt
  obtain ⟨s, hs, hrun⟩ := bindStatement_of_bindBlock hnode hown.inner_eq hown.again h
  exact ⟨s, hs, t, t', hrun⟩

/-- The global statements are bound one by one in one scope. -/
theorem forall₂_globalStatements (formed : p.Formed)
    (hregion : p.scriptScope = .ok (some region))
    (h : p.bindGlobalStatements p.answer region t = .ok block t') :
    List.Forall₂ (fun node s => BoundAt.Runs p ⟨Chain.globalScopeOf p region, node, s⟩)
      p.tree.globalStatements block.statements := by
  obtain ⟨found, hfound, -, hspec, -⟩ := scriptChain_spec formed
  obtain rfl := ok_unique hfound hregion
  obtain ⟨members, hroot⟩ := formed.linked.root_eq
  have hscope := (hspec region rfl).1.innerOrSelf_root hroot
  obtain ⟨scope, hscope', h⟩ := exists_of_run_lift h
  obtain rfl := ok_unique hscope hscope'
  obtain ⟨statements, t₁, hstatements, h⟩ := exists_of_run_bind h
  obtain ⟨locals, -, h⟩ := exists_of_run_lift h
  obtain ⟨rfl, -⟩ := EStateM.Result.ok.inj h
  exact forall₂_of_run_mapM hstatements

end runs

end Program

namespace Compilation

/-! ### The bodies of a global scope -/

variable {t : BindState} {c : Compilation}

/-- What the entry method adds. -/
theorem bindEntry_cases {parts parts' : CodeParts} {t' : BindState}
    (h : c.bindEntry parts t = .ok parts' t') :
    parts' = parts ∨ ∃ entry body, c.program.symbols.entry? = some entry ∧
      c.program.bindBody entry t = .ok (some body) t' ∧
      parts' = parts.addEntry c.options.script entry body := by
  unfold bindEntry at h
  cases hentry : c.program.symbols.entry? with
  | none =>
    rw [hentry] at h
    exact .inl (EStateM.Result.ok.inj h).1.symm
  | some entry =>
    rw [hentry] at h
    obtain ⟨result, t₁, hresult, h⟩ := exists_of_run_bind h
    cases result with
    | none => exact .inl (EStateM.Result.ok.inj h).1.symm
    | some body =>
      obtain ⟨rfl, rfl⟩ := EStateM.Result.ok.inj h
      exact .inr ⟨entry, body, rfl, hresult, rfl⟩

theorem mem_insertBody_self (bodies : List (SymbolId × Block)) (method : SymbolId) (block : Block) :
    (method, block) ∈ insertBody bodies method block := by
  unfold insertBody
  split
  · next hany =>
    obtain ⟨entry, hentry, heq⟩ := List.any_eq_true.1 hany
    exact List.mem_map.2 ⟨entry, hentry, if_pos (of_decide_eq_true heq)⟩
  · simp

/-- A method with a body keeps one. -/
theorem exists_mem_insertBody {bodies : List (SymbolId × Block)} {other : SymbolId} {old : Block}
    (h : (other, old) ∈ bodies) (method : SymbolId) (block : Block) :
    ∃ new, (other, new) ∈ insertBody bodies method block := by
  by_cases heq : other = method
  · exact ⟨block, heq ▸ mem_insertBody_self bodies method block⟩
  · refine ⟨old, ?_⟩
    unfold insertBody
    split
    · exact List.mem_map.2 ⟨_, h, if_neg heq⟩
    · exact List.mem_append_left _ h

section

variable {c : Compilation} {scope : GlobalScope} {F : Findings} {settled : List DiagnosticQueue}
  {s t : BindState} {pieces : List (Evaluated BoundCode)} {parts : CodeParts} {method : SymbolId}

/-- A piece that is the body of a method. -/
theorem exists_run_of_piece {x : Symbol} {piece : Evaluated BoundCode}
    {block : Block} (h : (bindCode c.program x).value s = .ok (some piece))
    (hpiece : piece.value.body? = some (method, block)) :
    method = x.id ∧ ∃ e u', e.value = block ∧ piece.diagnostics = e.diagnostics ∧
      c.program.bindBody method s = .ok (some e) u' := by
  unfold BindM.value at h
  cases hrun : bindCode c.program x s with
  | error fault s' => simp [hrun] at h
  | ok result s' =>
    rw [hrun] at h
    obtain rfl := Except.ok.inj h
    unfold bindCode at hrun
    cases hkind : x.kind with
    | method data =>
      rw [hkind] at hrun
      change (if data.body.isSome = true then _ else _ : BindM _) s = _ at hrun
      split at hrun
      · obtain ⟨found, s₁, hfound, hrun⟩ := exists_of_run_bind hrun
        obtain ⟨hmap, rfl⟩ := EStateM.Result.ok.inj hrun
        obtain ⟨e, rfl, rfl⟩ := Option.map_eq_some_iff.1 hmap
        obtain ⟨rfl, rfl⟩ := Prod.mk.inj (Option.some.inj hpiece)
        exact ⟨rfl, e, s₁, rfl, rfl, hfound⟩
      · cases hrun
    | field data =>
      rw [hkind] at hrun
      change (if (!data.isConstant && data.initializer.isSome) = true then _ else _ : BindM _) s = _
        at hrun
      split at hrun
      · obtain ⟨found, s₁, -, hrun⟩ := exists_of_run_bind hrun
        obtain ⟨hmap, -⟩ := EStateM.Result.ok.inj hrun
        obtain ⟨e, -, rfl⟩ := Option.map_eq_some_iff.1 hmap
        cases hpiece
      · cases hrun
    | _ =>
      rw [hkind] at hrun
      cases hrun

variable (built : c.Built scope F settled s pieces t parts)
include built

/-- Every body is what binding the body of its method gives. -/
theorem Built.exists_run {block : Block} (h : (method, block) ∈ scope.bodies) :
    ∃ e u u', e.value = block ∧ c.program.CacheSound u.findings.regions ∧
      c.program.bindBody method u = .ok (some e) u' := by
  rw [built.bodies] at h
  have piece : (method, block) ∈ (CodeParts.ofPieces pieces).bodies → ∃ e u u', e.value = block ∧
      c.program.CacheSound u.findings.regions ∧ c.program.bindBody method u = .ok (some e) u' := by
    intro h
    obtain ⟨piece, hpiece, hvalue⟩ := List.mem_filterMap.1 h
    obtain ⟨x, -, hrun, -⟩ := exists_of_forall₂ built.pieces_eq hpiece
    obtain ⟨-, e, u', he, -, hbody⟩ := exists_run_of_piece hrun hvalue
    exact ⟨e, s, u', he, built.ready.sound.regions, hbody⟩
  obtain ⟨t', hentry, -⟩ := built.entry_eq
  rcases bindEntry_cases hentry with rfl | ⟨entry, body, -, hbody, rfl⟩
  · exact piece h
  · unfold CodeParts.addEntry at h
    split at h
    · exact piece h
    · rcases mem_insertBody h with h | h
      · obtain ⟨rfl, rfl⟩ := Prod.mk.inj h
        exact ⟨body, t, t', rfl, built.sound.regions, hbody⟩
      · exact piece h

variable (formed : c.program.Formed)
include formed

variable {data : MethodData}

/-- Every method with a body has one in the global scope. -/
theorem Built.exists_body {method : Nat} {x : Symbol}
    (hx : c.program.symbols.symbols[method]? = some x) (hkind : x.kind = .method data)
    (hbody : data.body.isSome = true) : ∃ block, (method, block) ∈ scope.bodies := by
  have hid := (formed.table.entry hx).id_eq
  have hwork : x ∈ c.workList := by
    refine List.mem_filter.2 ⟨Array.mem_toList_iff.2 (Array.mem_of_getElem? hx), ?_⟩
    rw [hkind]
    exact hbody
  obtain ⟨piece, hpiece, -, hcode⟩ := exists_of_forall₂ built.pieces_eq.flip hwork
  unfold BoundCode.IsCodeOf at hcode
  rw [hkind, hid] at hcode
  obtain ⟨block, hblock⟩ := hcode
  have hmem : (method, block) ∈ (CodeParts.ofPieces pieces).bodies :=
    List.mem_filterMap.2 ⟨piece, hpiece, by rw [hblock]; rfl⟩
  rw [built.bodies]
  obtain ⟨t', hentry, -⟩ := built.entry_eq
  rcases bindEntry_cases hentry with rfl | ⟨entry, body, -, -, rfl⟩
  · exact ⟨block, hmem⟩
  · unfold CodeParts.addEntry
    split
    · exact ⟨block, hmem⟩
    · exact exists_mem_insertBody hmem entry body.value

/-- The global statements are the code of the entry method. -/
theorem Built.exists_entry {entry : Nat} (hentry : c.program.symbols.entry? = some entry)
    (hdata : c.program.symbols.method? entry = .ok (some data)) :
    ∃ e t', c.program.bindBody entry t = .ok (some e) t' ∧
      parts = (CodeParts.ofPieces pieces).addEntry c.options.script entry e := by
  obtain ⟨t', hrun, -⟩ := built.entry_eq
  unfold bindEntry at hrun
  rw [hentry] at hrun
  obtain ⟨result, t₁, hresult, hrun⟩ := exists_of_run_bind hrun
  obtain ⟨x, hx, hkind⟩ := Program.exists_of_method? hdata
  obtain ⟨e, _, _, _, rfl, -⟩ := Program.bindBody_eq_ok formed hx built.sound.regions hkind
    (by simp [hentry]) hresult
  exact ⟨e, t₁, hresult, (EStateM.Result.ok.inj hrun).1.symm⟩

end

/-! ### Bound statements -/

/-- The statements that the code of a global scope starts from, with what they are bound to. -/
inductive Starts (c : Compilation) (scope : GlobalScope) : BoundAt → Prop
  | body {method : SymbolId} {block : Block} {data : MethodData} {region : Chain} {node : NodeId}
      {statement : Statement} (hblock : (method, block) ∈ scope.bodies)
      (hdata : c.program.symbols.method? method = .ok (some data)) (hbody : data.body = some node)
      (hregion : c.program.bodyScope method = .ok (some region))
      (hstatement : statement ∈ c.program.bodyParts node block) :
      Starts c scope ⟨region, node, statement⟩
  | global {entry : SymbolId} {data : MethodData} {region : Chain} {node : NodeId}
      {statements : List Statement} {statement : Statement}
      (hentry : c.program.symbols.entry? = some entry)
      (hdata : c.program.symbols.method? entry = .ok (some data)) (hisEntry : data.isEntry = true)
      (hcode : if c.options.script then scope.statements = statements
        else ∃ locals, (entry, ⟨statements, locals⟩) ∈ scope.bodies)
      (hregion : c.program.scriptScope = .ok (some region))
      (hstatement : (node, statement) ∈ c.program.tree.globalStatements.zip statements) :
      Starts c scope ⟨Chain.globalScopeOf c.program region, node, statement⟩

/-- The statements of all code of a global scope. -/
def BoundIn (c : Compilation) (scope : GlobalScope) (b : BoundAt) : Prop :=
  ∃ a, c.Starts scope a ∧ a.Contains c.program b

theorem Starts.codeStart {a : BoundAt} (h : c.Starts scope a) :
    ∃ region root, c.program.CodeStart region root a.chain a.node := by
  cases h with
  | body _ hdata hbody hregion => exact ⟨_, _, .body hdata hbody hregion⟩
  | global hentry hdata hisEntry _ hregion hstatement =>
    exact ⟨_, _, .global hentry hdata hisEntry hregion (List.of_mem_zip hstatement).1⟩

section

variable {d : Document} {options : Options} {c : Compilation} {scope : GlobalScope} {F : Findings}

section

variable (formed : c.program.Formed) {settled : List DiagnosticQueue} {s t : BindState}
  {pieces : List (Evaluated BoundCode)} {parts : CodeParts}
  (built : c.Built scope F settled s pieces t parts) {data : MethodData} {region : Chain}
include formed built

/-- The body of a method is one bound statement. -/
theorem Built.exists_bodyPart {method : SymbolId} {block : Block} {node : NodeId}
    (hblock : (method, block) ∈ scope.bodies)
    (hdata : c.program.symbols.method? method = .ok (some data)) (hbody : data.body = some node)
    (hregion : c.program.bodyScope method = .ok (some region)) :
    ∃ bound, c.program.bodyParts node block = [bound] ∧
      BoundAt.Runs c.program ⟨region, node, bound⟩ := by
  obtain ⟨x, hx, hkind⟩ := Program.exists_of_method? hdata
  obtain ⟨e, u, u', rfl, hcache, hrun⟩ := built.exists_run hblock
  have hentry := Program.CodeStart.isEntry_eq_false formed hdata hbody
  obtain ⟨_, region', v, v', ⟨rfl⟩, hregion', hrun⟩ :=
    Program.bindBody_eq_ok formed hx hcache hkind (by simp [hentry]) hrun
  obtain ⟨rfl⟩ := ok_unique hregion hregion'
  rw [hentry] at hrun
  obtain ⟨body, hbody', hrun⟩ := hrun
  obtain rfl := Option.mem_unique hbody hbody'
  exact Program.exists_bodyPart formed hdata hbody hregion hrun

/-- The bound global statements. -/
theorem Built.forall₂_globals {entry : SymbolId}
    (hentry : c.program.symbols.entry? = some entry)
    (hdata : c.program.symbols.method? entry = .ok (some data)) (hisEntry : data.isEntry = true)
    (hregion : c.program.scriptScope = .ok (some region))
    {statements : List Statement} (hcode : if c.options.script then scope.statements = statements
      else ∃ locals, (entry, ⟨statements, locals⟩) ∈ scope.bodies) :
    List.Forall₂ (fun node s => BoundAt.Runs c.program
        ⟨Chain.globalScopeOf c.program region, node, s⟩) c.program.tree.globalStatements
      statements := by
  obtain ⟨x, hx, hkind⟩ := Program.exists_of_method? hdata
  -- whichever run gave the statements, it bound the body of the entry method
  obtain ⟨e, u, u', hvalue, hcache, hrun⟩ : ∃ e u u', e.value.statements = statements ∧
      c.program.CacheSound u.findings.regions ∧ c.program.bindBody entry u = .ok (some e) u' := by
    split at hcode
    · next hscript =>
      obtain ⟨e, t', hrun, hparts⟩ := built.exists_entry formed hentry hdata
      refine ⟨e, t, t', ?_, built.sound.regions, hrun⟩
      rw [← hcode, built.statements, hparts]
      unfold CodeParts.addEntry
      rw [hscript]
      rfl
    · obtain ⟨locals, hmem⟩ := hcode
      obtain ⟨e, u, u', hvalue, hcache, hrun⟩ := built.exists_run hmem
      exact ⟨e, u, u', by rw [hvalue], hcache, hrun⟩
  obtain ⟨_, region', v, v', ⟨rfl⟩, hregion', hrun⟩ :=
    Program.bindBody_eq_ok formed hx hcache hkind (by simp [hentry]) hrun
  have hscript : c.program.bodyScope entry = c.program.scriptScope := by
    unfold Program.bodyScope
    rw [hdata]
    change (if data.isEntry = true then _ else _ : Except Fault _) = _
    rw [if_pos hisEntry]
  obtain ⟨rfl⟩ := ok_unique hregion (hscript ▸ hregion')
  rw [if_pos hisEntry] at hrun
  rw [← hvalue]
  exact Program.forall₂_globalStatements formed hregion hrun

end

/-- What the code starts from is bound by a run of its own. -/
theorem Starts.runs (h : Compiles d options c scope F) {a : BoundAt} (ha : c.Starts scope a) :
    a.Runs c.program := by
  have formed := h.formed
  obtain ⟨settled, s, pieces, t, parts, built⟩ := h.built
  cases ha with
  | body hblock hdata hbody hregion hstatement =>
    obtain ⟨bound, hbound, hruns⟩ := built.exists_bodyPart formed hblock hdata hbody hregion
    rw [hbound] at hstatement
    rw [List.mem_singleton.1 hstatement]
    exact hruns
  | global hentry hdata hisEntry hcode hregion hstatement =>
    exact (List.forall₂_iff_zip.1
      (built.forall₂_globals formed hentry hdata hisEntry hregion hcode)).2 hstatement

/-- Everything that code starts from is bound. -/
theorem exists_starts (h : Compiles d options c scope F) {region chain : Chain} {root node : NodeId}
    (hstart : c.program.CodeStart region root chain node) :
    ∃ statement, c.Starts scope ⟨chain, node, statement⟩ := by
  have formed := h.formed
  obtain ⟨settled, s, pieces, t, parts, built⟩ := h.built
  cases hstart with
  | body hdata hbody hregion =>
    obtain ⟨x, hx, hkind⟩ := Program.exists_of_method? hdata
    obtain ⟨block, hblock⟩ := built.exists_body formed hx hkind (by simp [hbody])
    obtain ⟨bound, hbound, -⟩ := built.exists_bodyPart formed hblock hdata hbody hregion
    exact ⟨bound, .body hblock hdata hbody hregion (by simp [hbound])⟩
  | @global entry data region node hentry hdata hisEntry hregion hmem =>
    obtain ⟨e, t', -, hparts⟩ := built.exists_entry formed hentry hdata
    have hcode : if c.options.script then scope.statements = e.value.statements
        else ∃ locals, (entry, ⟨e.value.statements, locals⟩) ∈ scope.bodies := by
      rw [built.statements, built.bodies, hparts]
      unfold CodeParts.addEntry
      split
      · rfl
      · exact ⟨e.value.locals, mem_insertBody_self _ _ _⟩
    have hruns := built.forall₂_globals formed hentry hdata hisEntry hregion hcode
    rw [← List.map_fst_zip (Nat.le_of_eq hruns.length_eq)] at hmem
    obtain ⟨⟨node, bound⟩, hbound, rfl⟩ := List.mem_map.1 hmem
    exact ⟨bound, .global hentry hdata hisEntry hcode hregion hbound⟩

/-! ### Origins -/

/-- Where a bound statement comes from: steps lead from a start of code to its place, and it is
bound by a run of its own. -/
structure Origin (p : Program) (b : BoundAt) (region : Chain) (root : NodeId)
    (scopes : List (NodeId × Chain)) (chain : Chain) (start : NodeId) (first own : Chain) : Prop where
  codeStart : p.CodeStart region root chain start
  mapped : Chain.Mapped p region root scopes
  first_eq : Chain.Scoped p region scopes chain start first
  own_eq : Chain.Scoped p region scopes b.chain b.node own
  inside : Place.Inside p ⟨first, start⟩ ⟨own, b.node⟩
  runs : b.Runs p

theorem BoundIn.origin (h : Compiles d options c scope F) {b : BoundAt} (hb : c.BoundIn scope b) :
    ∃ region root scopes chain start first own,
      Origin c.program b region root scopes chain start first own := by
  have formed := h.formed
  obtain ⟨a, ha, hab⟩ := hb
  obtain ⟨region, root, hstart⟩ := ha.codeStart
  obtain ⟨scopes, first, mapped, hfirst⟩ := hstart.exists_scope formed
  obtain ⟨own, hown, hinside⟩ := hab.inside formed.linked mapped hfirst
  exact ⟨region, root, scopes, a.chain, a.node, first, own, hstart, mapped, hfirst, hown, hinside,
    hab.runs formed.linked mapped hfirst (ha.runs h)⟩

/-- No statement of code is left out. -/
theorem exists_boundIn (h : Compiles d options c scope F) {node : NodeId}
    (hnode : c.program.InCode node) : ∃ b, c.BoundIn scope b ∧ b.node = node := by
  have formed := h.formed
  obtain ⟨start, hroot, hreaches⟩ := hnode
  obtain ⟨region, root, chain, hstart⟩ := hroot.exists_codeStart formed
  obtain ⟨statement, ha⟩ := exists_starts h hstart
  obtain ⟨scopes, first, mapped, hfirst⟩ := hstart.exists_scope formed
  obtain ⟨b, hab, hb⟩ :=
    BoundAt.exists_contains formed.linked mapped hfirst (ha.runs h) hreaches
  exact ⟨b, ⟨_, ha, hab⟩, hb⟩

/-- Bound statements are statements of code. -/
theorem BoundIn.inCode (h : Compiles d options c scope F) {b : BoundAt} (hb : c.BoundIn scope b) :
    c.program.InCode b.node := by
  obtain ⟨_, _, _, _, start, _, _, origin⟩ := hb.origin h
  exact ⟨start, origin.codeStart.codeRoot, origin.inside.reaches⟩

end

/-! ### A document with a loop -/

/-- `while (true) try break;`. -/
def breakDocument : Document := ⟨"break", [
  .literal (.bool true), .breakStatement, .tryStatement 1 none none, .whileStatement 0 2,
  .globalStatement 3, .compilationUnit [4]]⟩

set_option maxRecDepth 20000 in
theorem compiles_break : observe (inScope? fun _ => ()) breakDocument {} = some (some ()) := by cbv

theorem exists_compiles_break : ∃ c scope F, Compiles breakDocument {} c scope F ∧
    (∀ n, c.program.tree.node? n = breakDocument.nodes[n]?) ∧ c.program.InCode 1 := by
  obtain ⟨c, scope, F, h, -⟩ := exists_compiles compiles_break
  have hlook := h.look_eq (fun c => (c.program.tree.globalStatements, c.program.symbols.entry?,
      c.program.symbols.symbols[1]?.any (·.kind.isEntry)))
    (show observe _ breakDocument {} = some ([3], some 1, true) by decide +kernel)
  simp only [Prod.mk.injEq] at hlook
  obtain ⟨hglobals, hentry, hkind⟩ := hlook
  have hnodes := Tree.node?_of_ofDocument h.accepted
  refine ⟨c, scope, F, h, hnodes, 3, .inr ⟨by simp [hglobals], ?_⟩, ?_⟩
  · obtain ⟨x, hx, hisEntry⟩ := (Option.any_eq_true _ _).1 hkind
    cases hk : x.kind with
    | method data =>
      refine ⟨1, data, hentry, ?_, by rwa [hk] at hisEntry⟩
      rw [Program.method?_eq hx, hk]
      rfl
    | _ => simp [hk, SymbolKind.isEntry] at hisEntry
  · exact .tail (.single ⟨_, hnodes 3, by simp⟩)
      ⟨_, hnodes 2, by simp⟩

end Compilation
end Bindery
