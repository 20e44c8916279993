import Bindery.Proofs.StatementSteps

/-! # Binding members

Default values, template parameters, bodies and initializers are passes of their own: they leave no
trace around them, and their diagnostics come with their results. -/

namespace Bindery

variable (p : Program)

/-! ### Rules of members -/

/-- The body of a method was bound.  That of the entry method are the global statements. -/
inductive BindsBody (once : Prop) (F f : Findings) (method : SymbolId) (block : Block)
    (trace : Trace) : Prop
  | script (hentry : p.symbols.entry? = some method)
      (hdata : p.symbols.method? method = .ok (some data)) (hscript : data.isEntry = true)
      (hregion : chain.IsRegion p p.tree.root)
      (h : Binds p once F f (.statements (.symbol method) (Chain.globalScopeOf p chain)
        p.tree.globalStatements block.statements) trace) :
      BindsBody once F f method block trace
  | body (hdata : p.symbols.method? method = .ok (some data)) (hnode : data.body = some node)
      (hregion : chain.IsRegion p node)
      (h : Binds p once F f (.block (.symbol method) chain node block) trace) :
      BindsBody once F f method block trace

/-- The initializer of a field was bound and converted to the type of the field. -/
def BindsInitializer (F f : Findings) (field : SymbolId) (value : Expr) (trace : Trace) : Prop :=
  ∃ chain node known, chain.IsRegion p node ∧ F.fieldTypes.get? field = some known ∧
    Derives p F f (.converted chain node known.value value) trace

variable {p}

/-- The node that the code of a method starts from. -/
def SymbolKind.codeRoot? (root : NodeId) : SymbolKind → Option NodeId
  | .method data => if data.isEntry then some root else data.body
  | _ => none

/-- The nodes of the code of a symbol. -/
def InCode (p : Program) (kind : SymbolKind) (n : NodeId) : Prop :=
  ∃ root, kind.codeRoot? p.tree.root = some root ∧ Within p root n

namespace Program.Formed

variable (formed : p.Formed) (f : Findings)
include formed

/-! ### Default values -/

theorem bindParameterDefault_steps (hprogress : f.signaturesInProgress = []) {parameter : Nat}
    (h : parameter < p.symbols.size) :
    Steps (Stage p f) (p.bindParameterDefault parameter) (fun _ => True) fun F value trace =>
      (value = none → p.defaultNode? parameter = .ok none) ∧ ∀ e, value = some e →
        ∃ t, ParameterType p F parameter t ∧ GivesDefault p F f t e trace := by
  obtain ⟨s, hs⟩ := SymbolTable.exists_of_lt h
  obtain ⟨found, -, hfetches, hfound, hnone⟩ := defaultChain_spec formed hs
  refine Steps.bind_fetch hfetches (Steps.bind_lift ⟨_, parameter?_eq hs, rfl⟩ ?_)
  rintro _ hparameter rfl
  cases found with
  | none =>
    refine .pure trivial fun F => ⟨fun _ => ?_, by simp⟩
    unfold Program.defaultNode?
    rw [hparameter]
    exact congrArg Except.ok (hnone rfl)
  | some chain =>
    obtain ⟨data, node, method, hkind, hnode, hcontaining, hregion⟩ := hfound chain rfl
    have hdata : s.kind.parameter? = some data := by rw [hkind]; rfl
    rw [hdata] at hparameter ⊢
    dsimp only
    rw [hnode]
    dsimp only
    refine Steps.bind_lift ⟨_, containing?_eq hs, rfl⟩ ?_
    rintro _ hmethod rfl
    rw [hcontaining] at hmethod ⊢
    have hlt := Nat.lt_trans (formed.table.containing_lt hs hcontaining) h
    refine Steps.bind_answer (formed.answer_spec.signature f hlt) fun known hknown => ?_
    refine Steps.bind_lift (formed.table.name_yields h) fun name _ _ => ?_
    refine Steps.bind (formed.bindDefault_steps formed.answer_spec f hregion.known hregion.root_lt
      ?_ name) fun value _ => .pure trivial ?_
    · cases hordinal : known.value.parameters[data.ordinal]? with
      | none => exact Ty.known_error
      | some t => exact hknown.1 t (List.mem_of_getElem? hordinal)
    · rintro F _ ⟨first, second, rfl, -, hvalue⟩ ⟨-, hsignature⟩
      refine ⟨by simp, ?_⟩
      rintro _ ⟨rfl⟩
      exact ⟨_, ⟨method, data, known, hmethod, hparameter, hsignature (by simp [hprogress]), rfl⟩,
        chain, node, first, second, List.append_nil _, hvalue⟩

theorem defaultOf_steps (hprogress : f.signaturesInProgress = []) {parameter : Nat}
    (h : parameter < p.symbols.size) :
    Steps (Stage p f) (p.defaultOf parameter) (fun _ => True) fun F known trace =>
      trace = [] ∧ F.defaults.get? parameter = some known := by
  refine Steps.bind_findings fun g hg => ?_
  cases hdefault : g.defaults.get? parameter with
  | some known => exact .pure trivial fun F hF => ⟨rfl, hF.defaults hdefault⟩
  | none =>
    dsimp only
    refine Steps.bind_publish (formed.bindParameterDefault_steps f hprogress h).isolated ?_ ?_
    · intro evaluated g' trace _ hg' hlasting
      refine { grows := { Findings.Grows.refl g' with
        defaults := Registry.grows_publish _ _ _ }, defaults := fun hk => ?_ }
      rcases Registry.of_get?_publish hk with hk | ⟨rfl, rfl⟩
      · exact .inl hk
      · refine .inr fun F hF => ?_
        obtain ⟨-, inner, hinner, hnone, hdefault⟩ := hlasting F hF
        refine ⟨hnone, fun value hvalue => ?_⟩
        obtain ⟨t, ht, hgives⟩ := hdefault value hvalue
        exact ⟨f, t, inner, ht, hinner, hgives⟩
    · intro evaluated g' _ _
      obtain ⟨known, hget, -⟩ := g'.defaults.get?_publish_cases parameter evaluated
      rw [hget, Option.getD_some]
      refine .pure trivial ?_
      rintro F first ⟨rfl, -⟩ hF -
      exact ⟨rfl, hF.defaults hget⟩

/-! ### Template parameters -/

theorem bindTemplateParameters_steps {type : Nat} (h : type < p.symbols.size) :
    Steps (Stage p f) (p.bindTemplateParameters type) (fun _ => True) fun _ _ trace => trace = [] := by
  refine (Steps.isolated (K := fun _ => True) (R := fun _ _ _ => True) ?_).imp (fun _ _ => trivial)
    fun _ _ _ h => h.1
  obtain ⟨list, chain, hlist, -, houtside, hfetches⟩ := insideChain_spec formed h
  refine Steps.bind_lift ⟨list, hlist, rfl⟩ ?_
  rintro _ - rfl
  refine Steps.bind_fetch hfetches ?_
  refine Steps.bind_lift (formed.table.templateParameters_yields h) fun parameters _ hparameters => ?_
  refine (Steps.mapM (K := fun _ _ => True) (R := fun _ _ _ _ => True) fun parameter hparameter =>
    ?_).imp (fun _ _ => trivial) fun _ _ _ _ => trivial
  obtain ⟨s, hs⟩ := SymbolTable.exists_of_lt (hparameters parameter hparameter)
  refine Steps.bind_lift ⟨_, templateParameter?_eq hs, rfl⟩ ?_
  rintro _ - rfl
  split
  · next node hnode =>
    obtain ⟨data, hkind, hconstant⟩ := Option.bind_eq_some_iff.1 hnode
    refine Steps.bind_lift (formed.table.name_yields (hparameters parameter hparameter))
      fun name _ _ => ?_
    refine Steps.bind (formed.bindVariableType_steps formed.answer_spec f houtside.known
      (formed.constantTypeNode_lt hs hkind hconstant) name) fun _ _ => .pure trivial ?_
    exact fun _ _ _ => trivial
  · exact .pure trivial fun _ => trivial

/-! ### Code -/

omit f in
/-- A method with a body is not the entry method. -/
theorem isEntry_eq_false {i : Nat} {s : Symbol} (hs : p.symbols.symbols[i]? = some s)
    {data : MethodData} (hkind : s.kind = .method data) {body : NodeId}
    (hbody : data.body = some body) : data.isEntry = false :=
  (formed.table.declared_body hs hkind hbody).1

omit f in
/-- A body, in which no local has a type before if it is bound once. -/
theorem bindBody_steps {once : Prop} {method : Nat} {s : Symbol}
    (hs : p.symbols.symbols[method]? = some s) {state : BindState} (hsound : Sound p state.findings)
    (hunbound : once → ∀ root, s.kind.codeRoot? p.tree.root = some root →
      Unbound p state.findings root) :
    StepsAt (Walk p (InCode p s.kind) state.findings) (p.bindBody method) state (fun _ => True)
      fun F result trace => trace = [] ∧ (∀ data, s.kind = .method data → CodeCovered p F data) ∧
        ((∀ data, s.kind = .method data → data.isEntry = true → p.symbols.entry? = some method) →
          ∀ e, result = some e → ∃ g inner, state.findings.Grows g ∧
            e.diagnostics.items = Trace.diagnostics inner ∧
              BindsBody p once F g method e.value inner) := by
  have hdata := method?_eq hs
  cases hkind : s.kind.method? with
  | none =>
    rw [hkind] at hdata
    have hfetches : p.Fetches (p.bodyChain method) none := .bind_lift hdata (.pure _)
    refine (Steps.fetch hfetches state hsound.stage).bind ?_
    rintro _ s' first rfl hs' - - htrace
    refine StepsAt.bind_lift hdata (.pure ((Walk.refl hsound).stage hs') trivial fun F hF => ?_)
    refine ⟨by simp [htrace F hF], fun data hdata => ?_, by simp⟩
    simp [hdata, SymbolKind.method?] at hkind
  | some data =>
    rw [hkind] at hdata
    have hkind := method?_eq_some hkind
    have hnot : ∀ body, data.body = some body → data.isEntry = false := fun body =>
      formed.isEntry_eq_false hs hkind
    obtain ⟨found, -, hfetches, hfound, hnone⟩ := bodyChain_spec formed hs hkind
    refine (Steps.fetch hfetches state hsound.stage).bind ?_
    rintro result s' first hresult hs' hgrows - htrace
    subst hresult
    refine StepsAt.bind_lift hdata ?_
    have hfirst : first = [] := htrace s'.findings (.refl _)
    cases result with
    | none =>
      obtain ⟨hentry, hisEntry⟩ := hnone rfl
      refine .pure ((Walk.refl hsound).stage hs') trivial fun F hF =>
        ⟨by simp [hfirst], fun _ hdata => ?_, by simp⟩
      obtain rfl := SymbolKind.method.inj (hkind.symm.trans hdata)
      exact ⟨by simp [hentry], fun body hbody => by simp [hnot body hbody] at hisEntry⟩
    | some chain =>
      have hfound := hfound chain rfl
      dsimp only
      split at hfound
      · next hentry =>
        obtain ⟨hregion, entry, hentry', hmember⟩ := hfound
        rw [if_pos hentry]
        have hroot : s.kind.codeRoot? p.tree.root = some p.tree.root := by
          rw [hkind]
          exact if_pos hentry
        refine (StepsAt.isolated (formed.bindGlobalStatements_steps formed.answer_spec once
          hregion hmember (s := { s' with pass := {} }) hs'.sound fun h =>
            (hunbound h _ hroot).stage hs')).bind ?_
        intro evaluated s₂ second _ hs₂ _ _ hsecond
        refine .pure (((Walk.refl hsound).stage hs').trans (hs₂.mono fun n hn => ⟨_, hroot, hn⟩))
          trivial fun F hF => ?_
        obtain ⟨rfl, inner, hinner, hbinds, hcovered⟩ := hsecond F hF
        refine ⟨by simp [hfirst], fun _ hdata => ?_, fun hscript => ?_⟩
        · obtain rfl := SymbolKind.method.inj (hkind.symm.trans hdata)
          exact ⟨fun _ _ => hcovered, fun body hbody => by simp [hnot body hbody] at hentry⟩
        rintro _ ⟨rfl⟩
        have hmethod := hscript data hkind hentry
        obtain rfl := Option.mem_unique hmethod hentry'
        exact ⟨s'.findings, inner, hgrows, hinner, .script hmethod hdata hentry hregion hbinds⟩
      · next hentry =>
        obtain ⟨body, hbody, hregion, hmethod⟩ := hfound
        rw [if_neg hentry, hbody]
        have hroot : s.kind.codeRoot? p.tree.root = some body := by
          rw [hkind, ← hbody]
          exact if_neg hentry
        refine (StepsAt.isolated ((formed.codeSteps formed.answer_spec once body).2 _ chain
          (hregion.stands hmethod) { s' with pass := {} } hs'.sound fun h =>
            (hunbound h _ hroot).stage hs')).bind ?_
        intro evaluated s₂ second _ hs₂ _ _ hsecond
        refine .pure (((Walk.refl hsound).stage hs').trans (hs₂.mono fun n hn => ⟨_, hroot, hn⟩))
          trivial fun F hF => ?_
        obtain ⟨rfl, inner, hinner, hbinds, hcovered⟩ := hsecond F hF
        refine ⟨by simp [hfirst], fun _ hdata => ⟨fun h => ?_, fun body' hbody' => ?_⟩, fun _ => ?_⟩
        · obtain rfl := SymbolKind.method.inj (hkind.symm.trans hdata)
          exact absurd h hentry
        · obtain rfl := SymbolKind.method.inj (hkind.symm.trans hdata)
          exact Option.mem_unique hbody hbody' ▸ hcovered
        rintro _ ⟨rfl⟩
        exact ⟨s'.findings, inner, hgrows, hinner, .body hdata hbody hregion hbinds⟩

theorem bindInitializer_steps {field : Nat} (h : field < p.symbols.size) :
    Steps (Stage p f) (p.bindInitializer field) (fun _ => True) fun F result trace =>
      trace = [] ∧ ∀ e, result = some e → ∃ inner,
        e.diagnostics.items = Trace.diagnostics inner ∧
          BindsInitializer p F f field e.value inner := by
  obtain ⟨s, hs⟩ := SymbolTable.exists_of_lt h
  obtain ⟨found, -, hfetches, hfound, -⟩ := initializerChain_spec formed hs
  refine Steps.bind_fetch hfetches (Steps.bind_lift ⟨_, field?_eq hs, rfl⟩ ?_)
  rintro _ - rfl
  cases found with
  | none => exact .pure trivial fun F => ⟨rfl, by simp⟩
  | some chain =>
    obtain ⟨node, hnode, hregion⟩ := hfound chain rfl
    rw [hnode]
    refine Steps.bind_answer (formed.answer_spec.fieldType f [] h) fun known hknown => ?_
    refine Steps.bind (Steps.isolated (formed.converted_steps formed.answer_spec f hregion.known
      hregion.root_lt hknown)) fun evaluated _ => .pure trivial ?_
    rintro F _ ⟨rfl, inner, hinner, hvalue⟩ hknown
    refine ⟨rfl, ?_⟩
    rintro _ ⟨rfl⟩
    exact ⟨inner, hinner, chain, node, known, hregion, hknown, hvalue⟩

end Program.Formed
end Bindery
