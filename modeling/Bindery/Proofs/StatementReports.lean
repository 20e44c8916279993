import Bindery.Proofs.AnswerReports
import Bindery.Proofs.BoundStatements

/-! # Reports about statements

Three messages are only reported about jumps: a `return` out of a finally body, a `break` or
`continue` outside of loops, and a `goto` without its label.  Which of them a statement owes can be
read off its scope (`Place.Owes`).  Binding a statement reports what is owed by the statements in
it, and of other messages only such that may occur anywhere (`Program.bindStatement_tells`). -/

namespace Bindery

variable {p : Program}

/-! ### What is owed -/

/-- The diagnostic of a jump that its scope does not allow. -/
def Place.Owes (p : Program) (place : Place) (d : Diagnostic) : Prop :=
  match p.tree.node? place.node with
  | some (.returnStatement _) => place.scope.flags.inFinally = true ∧
      p.diagnostic place.node .returnInFinally [] = .ok d
  | some .breakStatement => place.scope.loop? = none ∧
      p.diagnostic place.node .jumpOutsideLoop ["break"] = .ok d
  | some .continueStatement => place.scope.loop? = none ∧
      p.diagnostic place.node .jumpOutsideLoop ["continue"] = .ok d
  | some (.goto name) => place.scope.lookupLabel? p name = .ok none ∧
      p.diagnostic place.node .undefinedLabel [name] = .ok d
  | _ => False

namespace Place

variable (linked : p.tree.Linked) {place : Place}
include linked

/-- Every node can be reported about. -/
theorem exists_diagnostic {node : NodeId} {kind : Node} (hnode : p.tree.node? node = some kind)
    (message : Message) (args : List String) :
    ∃ d, p.diagnostic node message args = .ok d ∧ d.message = message := by
  obtain ⟨span, hspan⟩ := linked.span_ok (Tree.lt_size_of_node? hnode)
  refine ⟨.placed p.tree.fileName span message args, ?_, rfl⟩
  unfold Program.diagnostic
  rw [hspan]
  rfl

theorem exists_owes_return_iff : (∃ d, place.Owes p d ∧ d.message = .returnInFinally) ↔
    (∃ value, p.tree.node? place.node = some (.returnStatement value)) ∧
      (Chain.flags place.scope).inFinally = true := by
  unfold Owes
  constructor
  · rintro ⟨d, howes, hmessage⟩
    split at howes
    · next value hnode => exact ⟨⟨value, hnode⟩, howes.1⟩
    all_goals first | exact howes.elim | simp [Program.message_of_diagnostic howes.2] at hmessage
  · rintro ⟨⟨value, hnode⟩, hflag⟩
    obtain ⟨d, hd, hmessage⟩ := exists_diagnostic linked hnode .returnInFinally []
    exact ⟨d, by rw [hnode]; exact ⟨hflag, hd⟩, hmessage⟩

theorem exists_owes_loop_iff : (∃ d, place.Owes p d ∧ d.message = .jumpOutsideLoop) ↔
    (p.tree.node? place.node = some .breakStatement ∨
      p.tree.node? place.node = some .continueStatement) ∧ Chain.loop? place.scope = none := by
  unfold Owes
  constructor
  · rintro ⟨d, howes, hmessage⟩
    split at howes
    case h_2 hnode => exact ⟨.inl hnode, howes.1⟩
    case h_3 hnode => exact ⟨.inr hnode, howes.1⟩
    all_goals first | exact howes.elim | simp [Program.message_of_diagnostic howes.2] at hmessage
  · rintro ⟨hnode | hnode, hloop⟩
    · obtain ⟨d, hd, hmessage⟩ := exists_diagnostic linked hnode .jumpOutsideLoop ["break"]
      exact ⟨d, by rw [hnode]; exact ⟨hloop, hd⟩, hmessage⟩
    · obtain ⟨d, hd, hmessage⟩ := exists_diagnostic linked hnode .jumpOutsideLoop ["continue"]
      exact ⟨d, by rw [hnode]; exact ⟨hloop, hd⟩, hmessage⟩

theorem exists_owes_label_iff : (∃ d, place.Owes p d ∧ d.message = .undefinedLabel) ↔
    ∃ name, p.tree.node? place.node = some (.goto name) ∧
      Chain.lookupLabel? p place.scope name = .ok none := by
  unfold Owes
  constructor
  · rintro ⟨d, howes, hmessage⟩
    split at howes
    case h_4 name hnode => exact ⟨name, hnode, howes.1⟩
    all_goals first | exact howes.elim | simp [Program.message_of_diagnostic howes.2] at hmessage
  · rintro ⟨name, hnode, hlabel⟩
    obtain ⟨d, hd, hmessage⟩ := exists_diagnostic linked hnode .undefinedLabel [name]
    exact ⟨d, by rw [hnode]; exact ⟨hlabel, hd⟩, hmessage⟩

end Place

/-- What is owed by a statement that is bound under a chain, with the statements in it. -/
def Owed (p : Program) (chain : Chain) (node : NodeId) (d : Diagnostic) : Prop :=
  ∃ own place, chain.innerOrSelf p node = .ok own ∧ Place.Inside p ⟨own, node⟩ place ∧
    place.Owes p d

section

variable (linked : p.tree.Linked) {region chain scope : Chain} {root node : NodeId}
  {scopes : List (NodeId × Chain)} (mapped : Chain.Mapped p region root scopes)
include linked mapped

/-- A statement owes what it owes itself and what its parts owe in its scope. -/
theorem owed_iff (h : Chain.Scoped p region scopes chain node scope) {kind : Node}
    (hnode : p.tree.node? node = some kind) (d : Diagnostic) :
    Owed p chain node d ↔
      Place.Owes p ⟨scope, node⟩ d ∨ ∃ part ∈ kind.statements, Owed p scope part d := by
  constructor
  · rintro ⟨own, place, hown, hinside, howes⟩
    obtain rfl := ok_unique h.inner_eq hown
    rcases Relation.ReflTransGen.cases_head hinside with rfl | ⟨⟨inner, part⟩, hstep, hinside⟩
    · exact .inl howes
    · obtain ⟨kind', hnode', hpart⟩ := hstep.hasStatement
      obtain rfl := Option.mem_unique hnode hnode'
      obtain ⟨q, hq, heq⟩ := hstep
      obtain ⟨rfl, rfl⟩ := Place.mk.inj heq
      exact .inr ⟨_, hpart, _, place, (h.part linked mapped hq).inner_eq, hinside, howes⟩
  · rintro (howes | ⟨part, hpart, own, place, hown, hinside, howes⟩)
    · exact ⟨scope, _, h.inner_eq, .refl, howes⟩
    · obtain ⟨q, hq, rfl⟩ := Chain.exists_part 0 scope ⟨kind, hnode, hpart⟩
      obtain rfl := ok_unique (h.part linked mapped hq).inner_eq hown
      exact ⟨scope, place, h.inner_eq, .head ⟨q, hq, rfl⟩ hinside, howes⟩

end

/-! ### Single statements -/

namespace Says

variable {α β : Type} {owed owed' : Diagnostic → Prop} {T : β → Prop}

/-- A step that is owed under a condition. -/
theorem may_owe {c : Prop} [Decidable c] {m : BindM PUnit} {k : PUnit → BindM β}
    (hm : Says p owed m fun _ => True) (hk : Quiet p (k ⟨⟩) T) :
    Says p (fun d => c ∧ owed d) (if c then m >>= k else k ⟨⟩) T := by
  split
  · next h => exact (bind_quiet hm fun _ _ => hk).owes fun d => (and_iff_right h).symm
  · next h => exact hk.owes fun d => (iff_of_false id fun hd => h hd.1)

end Says

namespace Program

theorem report_owed (node : NodeId) (message : Message) (args : List String) :
    Says p (fun d => p.diagnostic node message args = .ok d) (p.report node message args)
      fun _ => True := by
  refine .bind_lift fun d hd => (Says.push_owed d).owes fun d' => ?_
  rw [hd, Except.ok.injEq, eq_comm]

theorem jump_tells (target : Option Label) (statement : Label → Statement) (node : NodeId)
    (message : Message) (name : String) :
    Says p (fun d => target = none ∧ p.diagnostic node message [name] = .ok d)
      (p.jump target statement node message name) fun _ => True := by
  cases target with
  | some label => exact (Says.pure trivial).owes (by simp)
  | none =>
    refine (Says.bind_quiet (report_owed node message [name]) fun _ _ => .pure trivial).owes ?_
    simp

variable {scope : Chain} (carries : scope.Carries p)
include carries

omit carries in
theorem returnTarget_quiet (scope : Chain) : Quiet p (p.returnTarget p.answer scope) fun _ => True := by
  unfold returnTarget
  split
  · exact .bind_lift fun _ _ => .bind (answer_quiet.signature _) fun _ _ => .pure trivial
  · exact .bind_findings fun _ _ => .pure trivial
  · exact .pure trivial

theorem bindReturn_tells (expression : Option NodeId) (node : NodeId) :
    Says p (fun d => scope.flags.inFinally = true ∧ p.diagnostic node .returnInFinally [] = .ok d)
      (p.bindReturn p.answer scope expression node) fun _ => True := by
  unfold bindReturn
  refine .may_owe (c := scope.flags.inFinally = true) (report_owed node .returnInFinally []) ?_
  refine .bind (returnTarget_quiet scope) fun target _ => ?_
  obtain ⟨name, type⟩ := target
  cases expression with
  | none =>
    dsimp only
    split
    · exact .bind_lift fun _ _ => (quietLogic p).refuse trivial trivial
    · exact .pure trivial
  | some expression =>
    dsimp only
    split
    · refine .bind (CodeLogic.bindExpression answer_quiet.code carries expression _) fun _ _ => ?_
      exact (quietLogic p).refuse trivial trivial
    · refine .bind (CodeLogic.bindValue answer_quiet.code carries expression) fun _ _ => ?_
      exact .bind ((quietLogic p).convert _ _ _) fun _ _ => .pure trivial

theorem bindCondition_quiet (node : NodeId) :
    Quiet p (p.bindCondition p.answer scope node) fun _ => True :=
  Says.imp (CodeLogic.converted answer_quiet.code carries node _) fun _ _ => trivial

/-- A statement reports what it owes and what its parts owe. -/
theorem statementStep_tells {node : NodeId} {kind : Node} (hnode : p.tree.node? node = some kind)
    (hagain : scope.innerOrSelf p node = .ok scope)
    (hparts : ∀ part ∈ kind.statements,
      Says p (Owed p scope part) (p.bindStatement p.answer scope part) (fun _ => True) ∧
      Says p (Owed p scope part) (p.bindBlock p.answer scope part) (fun _ => True)) :
    Says p (fun d => Place.Owes p ⟨scope, node⟩ d ∨ ∃ part ∈ kind.statements, Owed p scope part d)
      (p.statementStep p.answer scope node kind) fun _ => True := by
  -- only jumps owe something themselves, and they have no parts
  have owes_iff : ∀ d, Place.Owes p ⟨scope, node⟩ d ↔ match (some kind : Option Node) with
      | some (.returnStatement _) => scope.flags.inFinally = true ∧
        p.diagnostic node .returnInFinally [] = .ok d
      | some .breakStatement => scope.loop? = none ∧
        p.diagnostic node .jumpOutsideLoop ["break"] = .ok d
      | some .continueStatement => scope.loop? = none ∧
        p.diagnostic node .jumpOutsideLoop ["continue"] = .ok d
      | some (.goto name) => scope.lookupLabel? p name = .ok none ∧
        p.diagnostic node .undefinedLabel [name] = .ok d
      | _ => False := by
    intro d
    unfold Place.Owes
    rw [hnode]
  have silent : Quiet p (p.statementStep p.answer scope node kind) (fun _ => True) →
      (∀ d, ¬ Place.Owes p ⟨scope, node⟩ d) → kind.statements = [] →
      Says p (fun d => Place.Owes p ⟨scope, node⟩ d ∨ ∃ part ∈ kind.statements, Owed p scope part d)
        (p.statementStep p.answer scope node kind) fun _ => True := by
    intro h howes hnil
    exact h.owes fun d => by rw [hnil]; simp [howes d]
  cases kind with
  | block statements =>
    refine .bind_lift fun own hown => ?_
    obtain rfl := ok_unique hagain hown
    refine (Says.bind_quiet (Says.mapM_owed fun part hpart => (hparts part hpart).1) fun _ _ =>
      .bind_lift fun _ _ => .pure trivial).owes fun d => ?_
    simp [owes_iff]
  | localFunction name returnType parameters body =>
    refine .bind (CodeLogic.bindFunctionHead answer_quiet.code carries Chain.inherited_carries node)
      fun function _ => ?_
    refine (Says.bind_quiet (hparts body (by simp)).2 fun _ _ =>
      .pure trivial).owes fun d => ?_
    simp [owes_iff]
  | ifStatement condition thenStatement elseStatement =>
    refine .bind (bindCondition_quiet carries condition) fun _ _ => ?_
    refine (Says.bind_both (hparts thenStatement (by simp)).1 fun _ _ =>
      .bind_quiet (.optionMapM_owed fun part hpart => (hparts part ?_).1) fun _ _ =>
        .pure trivial).owes fun d => ?_
    · simp [Option.mem_def.1 hpart]
    · simp [owes_iff]
  | whileStatement condition body =>
    unfold statementStep
    cases hloop : scope.loop? with
    | none => exact .of_throw
    | some loop =>
      refine .bind (bindCondition_quiet carries condition) fun _ _ => ?_
      refine (Says.bind_quiet (hparts body (by simp)).1 fun _ _ =>
        .pure trivial).owes fun d => ?_
      simp [owes_iff]
  | tryStatement body catchBody finallyBody =>
    refine (Says.bind_both (hparts body (by simp)).1 fun _ _ =>
      .bind_both (.optionMapM_owed fun part hpart => (hparts part ?_).1) fun _ _ =>
        .bind_quiet (.optionMapM_owed fun part hpart => (hparts part ?_).1) fun _ _ =>
          .pure trivial).owes fun d => ?_
    · simp [Option.mem_def.1 hpart]
    · simp [Option.mem_def.1 hpart]
    · simp [owes_iff, or_and_right, exists_or]
  | labeled name statement =>
    refine .bind_lift fun label _ => ?_
    cases label with
    | none => exact .of_throw
    | some label =>
      refine .bind_lift fun other _ => .may_bind (fun _ => (quietLogic p).report trivial) ?_
      refine (Says.bind_quiet (hparts statement (by simp)).1 fun _ _ =>
        .pure trivial).owes fun d => ?_
      simp [owes_iff]
  | returnStatement expression =>
    exact (bindReturn_tells carries expression node).owes fun d => by simp [owes_iff]
  | breakStatement =>
    refine (jump_tells _ _ node _ _).owes fun d => ?_
    simp [owes_iff, Chain.breakLabel?]
  | continueStatement =>
    refine (jump_tells _ _ node _ _).owes fun d => ?_
    simp [owes_iff, Chain.continueLabel?]
  | goto name =>
    refine .bind_lift fun label hlabel => (jump_tells _ _ node _ _).owes fun d => ?_
    simp [owes_iff, hlabel]
  | localDeclaration name type isConstant initializer =>
    exact silent (CodeLogic.bindLocalDeclaration answer_quiet.code carries hnode)
      (fun d => by simp [owes_iff]) rfl
  | expressionStatement expression =>
    exact silent (.bind (CodeLogic.bindExpression answer_quiet.code carries expression _) fun _ _ =>
      .pure trivial) (fun d => by simp [owes_iff]) rfl
  | _ =>
    refine silent ?_ (fun d => by simp [owes_iff]) rfl
    unfold statementStep
    dsimp only
    split
    · exact .bind (CodeLogic.bindExpression answer_quiet.code carries node _) fun _ _ => .pure trivial
    · exact (quietLogic p).refuse trivial trivial

omit carries

/-! ### All statements -/

section code

variable (linked : p.tree.Linked) {region : Chain} {root : NodeId}
  {scopes : List (NodeId × Chain)} (mapped : Chain.Mapped p region root scopes)

omit linked mapped in
/-- A body reports what it reports as a statement. -/
theorem bindBlock_tells {chain : Chain} {node : NodeId} (hlt : node < p.tree.size)
    {owed : Diagnostic → Prop}
    (hinner : chain.innerOrSelf p node = .ok scope) (hagain : scope.innerOrSelf p node = .ok scope)
    (h : Says p owed (p.bindStatement p.answer chain node) fun _ => True) :
    Says p owed (p.bindBlock p.answer chain node) fun _ => True := by
  obtain ⟨kind, hnode⟩ := Tree.exists_node_of_lt hlt
  intro s block s' hs hrun
  obtain ⟨statement, -, hrun⟩ := bindStatement_of_bindBlock hnode hinner hagain hrun
  obtain ⟨hs', -, hsaid⟩ := h s statement s' hs hrun
  exact ⟨hs', trivial, hsaid⟩

include linked mapped

/-- Binding a statement reports what is owed by the statements in it. -/
theorem bindStatement_tells {chain : Chain} {node : Nat} (hlt : node < p.tree.size)
    (hscoped : Chain.Scoped p region scopes chain node scope) (carries : chain.Carries p) :
    Says p (Owed p chain node) (p.bindStatement p.answer chain node) fun _ => True := by
  induction node using Nat.strongRecOn generalizing chain scope with
  | ind node ih =>
    obtain ⟨kind, hnode⟩ := Tree.exists_node_of_lt hlt
    have hcarries : scope.Carries p := Chain.inherited_carries.innerOrSelf carries hscoped.inner_eq
    rw [bindStatement_eq hnode, hscoped.inner_eq]
    refine (statementStep_tells hcarries hnode hscoped.again fun part hpart => ?_).owes fun d =>
      (owed_iff linked mapped hscoped hnode d).symm
    have hchild := Node.mem_children_of_mem_statements hpart
    obtain ⟨q, hq, rfl⟩ := Chain.exists_part 0 scope ⟨kind, hnode, hpart⟩
    have hown := hscoped.part linked mapped hq
    have hsize := Tree.child_lt_size hnode hchild
    have htells := ih _ (p.tree.child_lt hnode hchild) hsize hown hcarries
    exact ⟨htells, bindBlock_tells hsize hown.inner_eq hown.again htells⟩

end code

/-! ### Bodies -/

/-- What is owed by the code of a method, in the region of its body. -/
def BodyOwes (p : Program) (data : MethodData) (region : Chain) (d : Diagnostic) : Prop :=
  if data.isEntry then ∃ node ∈ p.tree.globalStatements, Owed p (Chain.globalScopeOf p region) node d
  else ∃ body ∈ data.body, Owed p region body d

section bodies

variable (formed : p.Formed) {i : Nat} {s : Symbol} (hs : p.symbols.symbols[i]? = some s)
  {data : MethodData} (hkind : s.kind = .method data)
include formed hs hkind

theorem bindGlobalStatements_tells {region : Chain} (hentry : p.symbols.entry? = some i)
    (hisEntry : data.isEntry = true) (hregion : p.scriptScope = .ok (some region))
    (carries : region.Carries p) :
    Says p (fun d => ∃ node ∈ p.tree.globalStatements, Owed p (Chain.globalScopeOf p region) node d)
      (p.bindGlobalStatements p.answer region) fun _ => True := by
  have hdata : p.symbols.method? i = .ok (some data) := by rw [method?_eq hs, hkind]; rfl
  obtain ⟨found, hfound, -, hspec, -⟩ := scriptChain_spec formed
  obtain rfl := ok_unique hfound hregion
  obtain ⟨members, hroot⟩ := formed.linked.root_eq
  have hscope := (hspec region rfl).1.innerOrSelf_root hroot
  refine .bind_lift fun scope hscope' => ?_
  obtain rfl := ok_unique hscope hscope'
  have hcarries := Chain.inherited_carries.innerOrSelf carries hscope
  refine .bind_quiet (.mapM_owed fun node hnode => ?_) fun _ _ => .bind_lift fun _ _ => .pure trivial
  have start : CodeStart p region p.tree.root _ node := .global hentry hdata hisEntry hregion hnode
  obtain ⟨scopes, own, mapped, hown⟩ := start.exists_scope formed
  obtain ⟨m, -, hm⟩ := Tree.exists_of_mem_globalStatementsOf hnode
  have hlt : node < p.tree.size := Tree.child_lt_size hm (by simp)
  exact bindStatement_tells formed.linked mapped hlt hown hcarries

theorem bindMethodBody_tells {region : Chain} {body : NodeId} (hbody : data.body = some body)
    (hregion : p.bodyScope i = .ok (some region)) (carries : region.Carries p) :
    Says p (Owed p region body) (p.bindBlock p.answer region body) fun _ => True := by
  have hdata : p.symbols.method? i = .ok (some data) := by rw [method?_eq hs, hkind]; rfl
  have start : CodeStart p region body region body := .body hdata hbody hregion
  obtain ⟨scopes, own, mapped, hown⟩ := start.exists_scope formed
  have hlt := mapped.isRegion.root_lt
  exact bindBlock_tells hlt hown.inner_eq hown.again
    (bindStatement_tells formed.linked mapped hlt hown carries)

/-- The diagnostics of the body of a method are those that its code owes, and others that may occur
anywhere. -/
theorem tells_of_bindBody (hentry : data.isEntry = true → p.symbols.entry? = some i)
    {t t' : BindState} (hcache : p.CacheSound t.findings.regions) (tidy : Tidy p t.findings)
    {found : Option (Evaluated Block)} (h : p.bindBody i t = .ok found t') :
    Tidy p t'.findings ∧ ∀ e ∈ found, ∃ region, p.bodyScope i = .ok (some region) ∧
      Tells p (BodyOwes p data region) e.diagnostics.items := by
  obtain ⟨region, hscope, hfetches, -⟩ := bodyChain_spec formed hs hkind
  obtain ⟨region', s₁, hregion, h⟩ := exists_of_run_bind h
  obtain ⟨tidy₁, hcarries, -⟩ := Says.regions (bodyChain_carrying i) t region' s₁ tidy hregion
  obtain rfl := regions_eq_ok hfetches hcache hregion
  rw [method?_eq hs, hkind] at h
  cases region' with
  | none =>
    obtain ⟨rfl, rfl⟩ := EStateM.Result.ok.inj h
    exact ⟨tidy₁, by simp⟩
  | some region =>
    have carries := hcarries region rfl
    -- either way the code is bound as a pass of its own
    have isolated : ∀ {m : BindM Block},
        Says p (BodyOwes p data region) m (fun _ => True) →
        (do return some (← BindM.isolated m)) s₁ = .ok found t' →
        Tidy p t'.findings ∧ ∀ e ∈ found, ∃ region, p.bodyScope i = .ok (some region) ∧
          Tells p (BodyOwes p data region) e.diagnostics.items := by
      intro m hm hrun
      obtain ⟨e, s₂, he, hrun⟩ := exists_of_run_bind hrun
      obtain ⟨tidy₂, ⟨-, htells⟩, -⟩ := hm.isolated s₁ e s₂ tidy₁ he
      obtain ⟨rfl, rfl⟩ := EStateM.Result.ok.inj hrun
      refine ⟨tidy₂, ?_⟩
      rintro _ ⟨rfl⟩
      exact ⟨region, hscope, htells⟩
    change (if data.isEntry = true then _ else _ : BindM _) s₁ = _ at h
    split at h
    · next hisEntry =>
      refine isolated ?_ h
      have hscript : p.scriptScope = .ok (some region) := by
        unfold bodyScope at hscope
        rw [method?_eq hs, hkind] at hscope
        change (if data.isEntry = true then _ else _ : Except Fault _) = _ at hscope
        rwa [if_pos hisEntry] at hscope
      exact (bindGlobalStatements_tells formed hs hkind (hentry hisEntry) hisEntry hscript carries).owes
        fun d => by simp [BodyOwes, hisEntry]
    · next hisEntry =>
      cases hbody : data.body with
      | none =>
        rw [hbody] at h
        obtain ⟨rfl, rfl⟩ := EStateM.Result.ok.inj h
        exact ⟨tidy₁, by simp⟩
      | some body =>
        rw [hbody] at h
        refine isolated ?_ h
        exact (bindMethodBody_tells formed hs hkind hbody hscope carries).owes
          fun d => by simp [BodyOwes, hisEntry, hbody]

end bodies

end Program
end Bindery
