import Bindery.Proofs.ConstantGraph
import Bindery.Proofs.ExpressionSteps

/-! # Answers to requests

Requests are answered by binding declarations, and doing that takes further requests.  If the
requests that an answer takes satisfy `AskerSpec`, so does the answer (`perform_spec`); so all of
them do, however deep they are nested (`answer_spec`).

The constants that a constant takes are explored first.  The exploration is done when every
dependency is a field of the graph, which there is enough room for, as there are no more fields than
symbols. -/

namespace Bindery

variable {p : Program}

/-! ### Nodes of declarations -/

namespace Program.Formed

variable (formed : p.Formed) {id : Nat} {s : Symbol} (hs : p.symbols.symbols[id]? = some s)
include formed hs

omit formed in
theorem templateParameter?_eq :
    p.symbols.templateParameter? id = .ok s.kind.templateParameter? :=
  SymbolTable.map_kind _ hs

theorem declaration_lt {n : NodeId} (hn : s.declaration = some n) : n < p.tree.size := by
  rcases (formed.table.entry hs).declared.cases with ⟨-, hroot⟩ | ⟨m, node, hm, hnode, -⟩
  · rw [(hroot n hn).1]
    exact formed.linked.root_lt
  · rw [Option.mem_unique hn hm]
    exact Tree.lt_size_of_node? hnode

theorem declarationOrRoot_yields :
    Yields (p.declarationOrRoot id) fun n => n < p.tree.size := by
  refine .map ⟨s.declaration, declaration?_eq hs, ?_⟩
  cases hn : s.declaration with
  | none => exact formed.linked.root_lt
  | some n => exact formed.declaration_lt hs hn

theorem parameterNode_lt {data : ParameterData} (hkind : s.kind.parameter? = some data) :
    data.type < p.tree.size ∧ ∀ node, data.defaultValue = some node → node < p.tree.size := by
  have hlt := fun {m} => formed.table.node_lt (m := m) hs
  rw [parameter?_eq_some hkind] at hlt
  exact ⟨hlt (by simp [SymbolKind.nodes]), fun node h => hlt (by simp [SymbolKind.nodes, h])⟩

theorem returnNode_lt {data : MethodData} (hkind : s.kind.method? = some data) {node : NodeId}
    (hnode : data.returnType = some node) : node < p.tree.size :=
  formed.table.node_lt hs (by simp [method?_eq_some hkind, SymbolKind.nodes, hnode])

theorem fieldNode_lt {data : FieldData} (hkind : s.kind.field? = some data) :
    (∀ node, data.type = some node → node < p.tree.size) ∧
      ∀ node, data.initializer = some node → node < p.tree.size := by
  have hlt := fun {m} => formed.table.node_lt (m := m) hs
  rw [field?_eq_some hkind] at hlt
  exact ⟨fun node h => hlt (by simp [SymbolKind.nodes, h]),
    fun node h => hlt (by simp [SymbolKind.nodes, h])⟩

theorem constantTypeNode_lt {data : TemplateParameterData}
    (hkind : s.kind.templateParameter? = some data) {node : NodeId}
    (hnode : data.constantType = some node) : node < p.tree.size := by
  refine formed.table.node_lt hs ?_
  cases h : s.kind <;> simp_all [SymbolKind.templateParameter?, SymbolKind.nodes]

end Program.Formed

/-! ### Signatures and field types -/

namespace Program.Formed

variable [Endless] (formed : p.Formed) {ask : Asker} (spec : AskerSpec p ask) (f : Findings)
include formed spec

variable {method : Nat}

theorem bindSignature_steps (hmethod : method < p.symbols.size) :
    Steps (Stage p f) (p.bindSignature ask method) (Signature.Known p) fun F signature trace =>
      TypesSignature p F f method signature trace := by
  obtain ⟨chain, -, houtside, hfetches⟩ := signatureChain_spec formed hmethod
  refine Steps.bind_fetch hfetches ?_
  refine Steps.bind_lift (formed.table.parameters_yields hmethod) fun ids hids hlt => ?_
  refine Steps.bind (Steps.mapM (K := fun _ t => t.Known p) (R := fun F id t trace =>
    (∃ data, p.symbols.parameter? id = .ok (some data) ∧
        Derives p F f (.variableType chain data.type t) trace) ∨
      p.symbols.parameter? id = .ok none ∧ t = .error ∧ trace = []) fun id hid => ?_)
    fun types htypes => ?_
  · obtain ⟨s, hs⟩ := SymbolTable.exists_of_lt (hlt id hid)
    refine Steps.bind_lift ⟨_, parameter?_eq hs, rfl⟩ ?_
    rintro _ hparameter rfl
    cases hkind : s.kind.parameter? with
    | none =>
      refine .pure Ty.known_error fun F => .inr ⟨?_, rfl, rfl⟩
      rw [hparameter, hkind]
    | some data =>
      refine Steps.bind_lift (formed.table.name_yields (hlt id hid)) fun name _ _ => ?_
      refine (formed.bindVariableType_steps spec f houtside.known
        (formed.parameterNode_lt hs hkind).1 name).mono fun F t trace h => ?_
      exact .inl ⟨data, by rw [hparameter, hkind], h⟩
  · have hknown := forall_of_forall₂ htypes
    obtain ⟨s, hs⟩ := SymbolTable.exists_of_lt hmethod
    refine Steps.bind_lift ⟨_, method?_eq hs, rfl⟩ ?_
    rintro _ - rfl
    split
    · next node hnode =>
      obtain ⟨data, hdata, hreturn⟩ := Option.bind_eq_some_iff.1 hnode
      exact Steps.bind_pure (formed.bindType_steps spec f houtside.known
        (formed.returnNode_lt hs hdata hreturn)) fun t ht => ⟨⟨hknown, ht⟩,
          fun F second hsecond first hfirst =>
            ⟨chain, ids, first, second, rfl, hids, hfirst, .inl ⟨node, hsecond⟩⟩⟩
    · refine .pure ⟨hknown, Ty.known_void⟩ fun F first hfirst => ?_
      exact ⟨chain, ids, first, [], rfl, hids, hfirst, .inr ⟨rfl, rfl⟩⟩

omit spec in
omit [Endless] in
theorem unknownSignature_yields (hmethod : method < p.symbols.size) :
    Yields (p.unknownSignature method) (Signature.Known p) := by
  refine .bind (formed.table.parameters_yields hmethod) fun ids _ => .pure ⟨?_, Ty.known_error⟩
  intro t ht
  obtain ⟨_, -, rfl⟩ := List.mem_map.1 ht
  exact Ty.known_error

theorem signature_steps (hmethod : method < p.symbols.size) :
    Steps (Stage p f) (p.signature ask method) (fun known => known.value.Known p)
      fun F known trace => trace = [] ∧ SeesSignature p F f method known.value ∧
        (method ∉ f.signaturesInProgress → F.signatures.get? method = some known) := by
  intro s hs
  refine StepsAt.bind_findings ?_
  cases hsignature : s.findings.signatures.get? method with
  | some known =>
    refine .pure hs (hs.sound.signatures hsignature).1 fun F hF => ?_
    have hknown := hF.signatures hsignature
    exact ⟨rfl, .inl ⟨known, hknown, rfl⟩, fun _ => hknown⟩
  | none =>
    have hnone : f.signatures.get? method = none := by
      refine Option.eq_none_iff_forall_ne_some.2 fun known hknown => ?_
      simp [hs.grows.signatures hknown] at hsignature
    dsimp only
    split
    · next hprogress =>
      rw [hs.progress] at hprogress
      obtain ⟨signature, hunknown, hknown⟩ := formed.unknownSignature_yields hmethod
      refine StepsAt.bind_lift hunknown (.pure hs hknown fun F _ => ⟨rfl, ?_, ?_⟩)
      · exact .inr ⟨hnone, hprogress, hunknown⟩
      · exact fun h => absurd hprogress h
    · refine StepsAt.modifyFindings { Findings.Grows.refl s.findings with } ?_
      have hinner := (hs.sound.withProgress (method :: s.findings.signaturesInProgress)).stage
      refine ((formed.bindSignature_steps spec _ hmethod).isolated { s with findings := _ }
        hinner).bind ?_
      intro evaluated s' first hknown hs' _ _ hR
      obtain ⟨rfl, -⟩ := hR s'.findings (.refl _)
      have hprogress : s'.findings.signaturesInProgress.erase method =
          s.findings.signaturesInProgress := by
        rw [hs'.progress]
        exact List.erase_cons_head ..
      have hadds : Adds p (LocalKey.IsParameter p)
          { s'.findings with signaturesInProgress := s.findings.signaturesInProgress }
          { s'.findings with
            signaturesInProgress := s.findings.signaturesInProgress
            signatures := s'.findings.signatures.publish method evaluated } := by
        refine { grows := { Findings.Grows.refl s'.findings with
          signatures := Registry.grows_publish _ _ _ }, signatures := fun hk => ?_ }
        rcases Registry.of_get?_publish hk with hk | ⟨rfl, rfl⟩
        · exact .inl hk
        · refine .inr ⟨hknown, fun F hF => ?_⟩
          obtain ⟨-, inner, hdiagnostics, hsignature⟩ := hR F { hF with }
          exact ⟨_, inner, hdiagnostics, hsignature⟩
      have hstage := (hs.around hs').add hadds
      refine StepsAt.modifyFindings ?_ ?_
      · exact { Findings.Grows.refl s'.findings with signatures := Registry.grows_publish _ _ _ }
      · rw [hprogress]
        obtain ⟨known, hget, hcases⟩ := s'.findings.signatures.get?_publish_cases method evaluated
        refine StepsAt.bind_findings ?_
        dsimp only
        rw [hget, Option.getD_some]
        refine .pure hstage (hstage.sound.signatures hget).1 fun F hF => ?_
        have hknown := hF.signatures hget
        exact ⟨rfl, .inl ⟨known, hknown, rfl⟩, fun _ => hknown⟩

variable {field : Nat}

theorem inferFieldType_steps {s : Symbol} {data : FieldData}
    (hs : p.symbols.symbols[field]? = some s) (hdata : s.kind.field? = some data)
    (htype : data.type = none) (beingBound : List SymbolId) :
    Steps (Stage p f) (p.inferFieldType ask field data beingBound) (Ty.Known p) fun F t trace =>
      TypesField p F f field t trace := by
  have inferred : ∀ d, p.symbols.field? field = .ok (some d) → d.type = none := by
    intro d hd
    rw [field?_eq hs, hdata] at hd
    obtain rfl := Option.some.inj (Except.ok.inj hd)
    exact htype
  refine Steps.bind_lift (formed.table.name_yields (SymbolTable.lt_of_getElem? hs)) fun name _ _ => ?_
  refine Steps.bind_lift (formed.declarationOrRoot_yields hs) fun declaration _ hdeclaration => ?_
  obtain ⟨found, -, hfetches, hfound, -⟩ := initializerChain_spec formed hs
  refine Steps.bind_fetch hfetches ?_
  cases found with
  | none =>
    exact formed.refused_steps hdeclaration rfl _ Ty.known_error fun _ => .inr (.inr inferred)
  | some chain =>
    obtain ⟨initializer, hinit, hregion⟩ := hfound chain rfl
    have hinitializer : data.initializer.getD declaration = initializer := by
      rw [hdata, Option.bind_some] at hinit
      rw [hinit, Option.getD_some]
    dsimp only
    rw [hinitializer]
    refine Steps.bind (Steps.quietly (formed.bindExpression_steps spec f
      (hregion.known.push (.fieldsBeingBound (field :: beingBound)) {} trivial) hregion.root_lt
      .rvalue)) fun value hvalue => ?_
    split
    · exact formed.refused_steps hregion.root_lt rfl _ Ty.known_error fun _ _ _ =>
        .inr (.inr inferred)
    · exact .pure hvalue.2.1 fun F trace _ => .inr (.inr inferred)

theorem bindFieldType_steps (hfield : field < p.symbols.size) (beingBound : List SymbolId) :
    Steps (Stage p f) (p.bindFieldType ask field beingBound) (Ty.Known p) fun F t trace =>
      TypesField p F f field t trace := by
  obtain ⟨s, hs⟩ := SymbolTable.exists_of_lt hfield
  refine Steps.bind_lift ⟨_, field?_eq hs, rfl⟩ ?_
  rintro _ hdata rfl
  cases hkind : s.kind.field? with
  | none =>
    refine .pure Ty.known_error fun F => .inr (.inr fun d hd => ?_)
    rw [hdata, hkind] at hd
    simp at hd
  | some data =>
    cases htype : data.type with
    | none =>
      dsimp only
      rw [htype]
      exact formed.inferFieldType_steps spec f hs hkind htype beingBound
    | some type =>
      dsimp only
      rw [htype]
      obtain ⟨chain, -, houtside, hfetches⟩ := fieldChain_spec formed hs
        (formed.declaration_ne_root hs (field?_eq_some hkind))
      refine Steps.bind_fetch hfetches ?_
      refine Steps.bind_lift (formed.table.name_yields hfield) fun name _ _ => ?_
      refine (formed.bindVariableType_steps spec f houtside.known
        ((formed.fieldNode_lt hs hkind).1 type htype) name).mono ?_
      exact fun F t trace h => .inr (.inl ⟨chain, type, h⟩)

theorem fieldType_steps (hfield : field < p.symbols.size) (beingBound : List SymbolId) :
    Steps (Stage p f) (p.fieldType ask field beingBound) (fun known => known.value.Known p)
      fun F known trace => trace = [] ∧ F.fieldTypes.get? field = some known := by
  obtain ⟨s, hs⟩ := SymbolTable.exists_of_lt hfield
  refine Steps.bind_findings fun g hg => ?_
  cases htype : g.fieldTypes.get? field with
  | some known =>
    exact .pure (hg.sound.fieldTypes htype).1 fun F hF => ⟨rfl, hF.fieldTypes htype⟩
  | none =>
    dsimp only
    refine Steps.bind_publish (Steps.isolated (K := Ty.Known p)
      (R := fun F t trace => TypesField p F f field t trace) ?_) ?_ ?_
    · split
      · refine Steps.bind_lift (formed.declarationOrRoot_yields hs) fun declaration _ hlt => ?_
        refine Steps.bind_lift (formed.table.name_yields hfield) fun name _ _ => ?_
        exact formed.refused_steps hlt rfl _ Ty.known_error fun htrace => .inl ⟨[], _, rfl, htrace⟩
      · exact formed.bindFieldType_steps spec f hfield beingBound
    · intro evaluated h trace hknown hh hlasting
      refine { grows := { Findings.Grows.refl h with
        fieldTypes := Registry.grows_publish _ _ _ }, fieldTypes := fun hk => ?_ }
      rcases Registry.of_get?_publish hk with hk | ⟨rfl, rfl⟩
      · exact .inl hk
      · refine .inr ⟨hknown, fun F hF => ?_⟩
        obtain ⟨-, inner, hinner, htype⟩ := hlasting F hF
        exact ⟨f, inner, hinner, htype⟩
    · intro evaluated h hknown hh
      obtain ⟨known, hget, hcases⟩ := h.fieldTypes.get?_publish_cases field evaluated
      rw [hget, Option.getD_some]
      refine .pure ?_ ?_
      · rcases hcases with hold | ⟨-, rfl⟩
        · exact (hh.sound.fieldTypes hold).1
        · exact hknown
      · rintro F first ⟨rfl, -⟩ hF -
        exact ⟨rfl, hF.fieldTypes hget⟩

end Program.Formed

/-! ### Constants -/

theorem Ledgers.mem_insertSorted {field d : SymbolId} {list : List SymbolId}
    (h : d ∈ insertSorted field list) : d = field ∨ d ∈ list := by
  induction list with
  | nil => exact .inl (List.mem_singleton.1 h)
  | cons next rest ih =>
    unfold insertSorted at h
    split at h
    · exact List.mem_cons.1 h
    · split at h
      · exact .inr h
      · rcases List.mem_cons.1 h with rfl | h
        · exact .inr List.mem_cons_self
        · exact (ih h).imp_right (List.mem_cons_of_mem _)

variable {l : Ledgers}

theorem Ledgers.Known.track (h : l.Known p) (field : SymbolId) :
    (l.track field).2.Known p := by
  intro ledger hledger d hd
  rcases List.mem_append.1 hledger with hledger | hledger
  · exact h ledger hledger d hd
  · rw [List.mem_singleton.1 hledger] at hd
    simp at hd

theorem Ledgers.Known.record (h : l.Known p) {field : Nat} (hfield : field < p.symbols.size)
    (ledger : Nat) :
    Ledgers.Known p ⟨l.entries.modify ledger (Ledgers.insertSorted field)⟩ := by
  intro list hlist d hd
  obtain ⟨i, hi⟩ := List.mem_iff_getElem?.1 hlist
  rw [List.getElem?_modify] at hi
  obtain ⟨old, hold, hlist⟩ := Option.map_eq_some_iff.1 hi
  have hmem := List.mem_of_getElem? hold
  split at hlist
  · subst hlist
    rcases Ledgers.mem_insertSorted hd with rfl | hd
    · exact hfield
    · exact h old hmem d hd
  · subst hlist
    exact h old hmem d hd

theorem Ledgers.Known.dependencies_lt (h : l.Known p) (tracker : Option Tracker) {d : Nat}
    (hd : d ∈ l.dependencies tracker) : d < p.symbols.size := by
  unfold Ledgers.dependencies at hd
  cases hledger : tracker.bind fun tracker => l.entries[tracker.ledger]? with
  | none => simp [hledger] at hd
  | some ledger =>
    rw [hledger, Option.getD_some] at hd
    obtain ⟨t, -, ht⟩ := Option.bind_eq_some_iff.1 hledger
    exact h ledger (List.mem_of_getElem? ht) d hd

section trackers

variable [Endless]

theorem newTracker_steps (f : Findings) (field : SymbolId) :
    Steps (Stage p f) (BindM.newTracker field) (fun _ => True) fun _ _ trace => trace = [] := by
  intro s hs
  have hadds : Adds p (LocalKey.IsParameter p) s.findings
      { s.findings with ledgers := (s.findings.ledgers.track field).2 } :=
    { grows := { Findings.Grows.refl s.findings with }, ledgers := fun h => h.track field }
  exact Ends.of_eq rfl ⟨hs.add hadds, hadds.grows, trivial, [], by simp, fun _ _ => rfl⟩

theorem dependencies_steps (f : Findings) (tracker : Option Tracker) :
    Steps (Stage p f) (BindM.dependencies tracker) (fun list => ∀ d : Nat, d ∈ list →
      d < p.symbols.size) fun _ _ trace => trace = [] :=
  Steps.bind_findings fun _ hg => .pure (fun _ => hg.sound.ledgers.dependencies_lt tracker)
    fun _ _ => rfl

theorem record_steps (f : Findings) (tracker : Tracker) {field : Nat}
    (hfield : field < p.symbols.size) :
    Steps (Stage p f) (BindM.record (some tracker) field) (fun _ => True)
      fun _ _ trace => trace = [] := by
  intro s hs
  have hadds : Adds p (LocalKey.IsParameter p) s.findings { s.findings with
      ledgers := ⟨s.findings.ledgers.entries.modify tracker.ledger (Ledgers.insertSorted field)⟩ } :=
    { grows := { Findings.Grows.refl s.findings with }, ledgers := fun h => h.record hfield _ }
  exact Ends.of_eq rfl ⟨hs.add hadds, hadds.grows, trivial, [], by simp, fun _ _ => rfl⟩

end trackers

namespace Program.Formed

variable [Endless] (formed : p.Formed) {ask : Asker} (spec : AskerSpec p ask) (f : Findings)
include formed spec

variable {field : Nat}

/-- The value of a constant and the constants that it asked for. -/
theorem constantValue_steps (hfield : field < p.symbols.size) {chain : Chain}
    (hchain : chain.Known p) {initializer : NodeId} (hlt : initializer < p.tree.size) :
    Steps (Stage p f) (p.constantValue ask field chain initializer)
      (fun r => r.1.Known p ∧ ∀ d : Nat, d ∈ r.2 → d < p.symbols.size) fun F r trace =>
        ∃ known tracker, F.fieldTypes.get? field = some known ∧
          Derives p F f (.converted (Chain.push chain (.constantFields (some tracker)) {}) initializer
            known.value r.1) trace := by
  refine Steps.bind (newTracker_steps f field) fun tracker _ => ?_
  refine Steps.bind (formed.bindExpression_steps spec f
    (hchain.push (.constantFields (some tracker)) {} trivial) hlt .rvalue) fun value hvalue => ?_
  refine Steps.bind (spec.fieldType f [] hfield) fun target htarget => ?_
  refine Steps.bind (formed.convert_steps hvalue htarget hlt) fun converted hconverted => ?_
  refine Steps.bind (dependencies_steps f (some tracker)) fun list hlist => ?_
  refine .pure ⟨hconverted, hlist⟩ ?_
  rintro F _ rfl second hsecond _ ⟨rfl, htype⟩ first hfirst _ rfl
  rw [List.append_nil, List.append_nil, List.nil_append, List.nil_append]
  exact ⟨target, tracker, htype, .converted hfirst hsecond⟩

/-- A constant, in a pass of its own. -/
theorem bindConstant_steps (hfield : field < p.symbols.size) (startsCycle : Bool) {s : BindState}
    (hs : Stage p f s.findings) (hpass : s.pass = {}) :
    StepsAt (Stage p f) (p.bindConstant ask field startsCycle) s
      (fun r => ∀ d : Nat, d ∈ r.2 → d < p.symbols.size) fun F r trace =>
        Derives p F f (.constant field r.1) trace ∧ (r.1 ≠ .bad → p.Grounded F field) := by
  obtain ⟨symbol, hsymbol⟩ := SymbolTable.exists_of_lt hfield
  obtain ⟨name, hname, -⟩ := formed.table.name_yields hfield
  obtain ⟨declaration, hdeclaration, hlt⟩ := formed.declarationOrRoot_yields hsymbol
  obtain ⟨found, hscope, hfetches, hfound, hnone⟩ := initializerChain_spec formed hsymbol
  refine StepsAt.bind_lift hname (StepsAt.bind_lift hdeclaration ?_)
  refine Steps.bind_fetch_at hfetches hs fun s hs hsame => ?_
  refine StepsAt.bind_lift (field?_eq hsymbol) ?_
  rw [← hsame] at hpass
  cases found with
  | none =>
    rw [hnone rfl]
    exact formed.refused_steps hlt rfl _ (by simp) (fun htrace =>
      ⟨.refusedConstant [] htrace, by simp⟩) s hs
  | some chain =>
    obtain ⟨initializer, hinitializer, hregion⟩ := hfound chain rfl
    have hnode : (p.symbols.field? field).map (·.bind (·.initializer)) = .ok (some initializer) := by
      rw [field?_eq hsymbol]
      exact congrArg Except.ok hinitializer
    rw [hinitializer]
    refine (formed.constantValue_steps spec f hfield hregion.known hregion.root_lt s hs).bind ?_
    rintro ⟨value, list⟩ s' first ⟨hknown, hlist⟩ hs' - hpass' hR
    rw [hpass] at hpass'
    dsimp only [concludeConstant]
    split
    · simp only [bind_assoc, pure_bind]
      exact formed.refused_steps hlt rfl _ hlist (fun htrace =>
        ⟨.refusedConstant first htrace, by simp⟩) s' hs'
    · cases hconstant : value.constant with
      | some constant =>
        -- the constants that are read are published by now, whatever is published later
        obtain ⟨_, _, -, hnow⟩ := hR s'.findings (.refl _)
        have hgrounded := hs'.sound.grounded_of_converted hscope hnode hnow hconstant
        refine StepsAt.pure hs' hlist fun F hgrows => ?_
        obtain ⟨known, tracker, htype, h⟩ := hR F hgrows
        rw [List.append_nil]
        exact ⟨.constantValue htype h hconstant, fun _ => hgrounded F hgrows⟩
      | none =>
        rw [bind_assoc]
        refine StepsAt.bind_sawBadConstant ?_
        split
        · simp only [bind_assoc, pure_bind]
          exact formed.refused_steps hregion.root_lt rfl _ hlist (fun htrace =>
            ⟨.refusedConstant first htrace, by simp⟩) s' hs'
        · next hquiet =>
          refine StepsAt.pure hs' hlist fun F hgrows => ?_
          obtain ⟨known, tracker, htype, h⟩ := hR F hgrows
          rw [List.append_nil]
          refine ⟨.variableConstant hscope hnode htype h hconstant ?_, by simp⟩
          rw [hpass'] at hquiet
          simpa [Pass.extend, Bool.or_eq_true, or_iff_not_imp_left] using hquiet

theorem evaluateConstant_steps (hfield : field < p.symbols.size) (startsCycle : Bool) :
    Steps (Stage p f) (p.evaluateConstant ask field startsCycle)
      (fun r => ∀ d : Nat, d ∈ r.2 → d < p.symbols.size) fun F r trace => trace = [] ∧
        ConstantFact p field r.1 F ∧ (r.1.value ≠ .bad → p.Grounded F field) := by
  have hbound : Steps (Stage p f) (BindM.isolated (p.bindConstant ask field startsCycle))
      (fun e => ∀ d : Nat, d ∈ e.value.2 → d < p.symbols.size) fun F e trace => trace = [] ∧
        ∃ inner, e.diagnostics.items = Trace.diagnostics inner ∧
          Derives p F f (.constant field e.value.1) inner ∧
          (e.value.1 ≠ .bad → p.Grounded F field) := fun s hs =>
    .isolated (formed.bindConstant_steps spec f hfield startsCycle hs rfl)
  refine Steps.bind hbound fun e he => .pure he ?_
  rintro F _ ⟨rfl, inner, hinner, h, hgrounded⟩
  exact ⟨rfl, ⟨f, inner, hinner, h⟩, hgrounded⟩

omit [Endless] f formed spec in
/-- Publishing a constant with a derivation. -/
theorem addsConstant {g : Findings} {field : SymbolId} {evaluated : Evaluated FieldConstant}
    (h : Lasting g fun F => ConstantFact p field evaluated F ∧
      (evaluated.value ≠ .bad → p.Grounded F field)) :
    Adds p (LocalKey.IsParameter p) g { g with constants := g.constants.publish field evaluated } := by
  refine { grows := { Findings.Grows.refl g with
    constants := Registry.grows_publish _ _ _ }, constants := fun hk => ?_, grounded := ?_ }
  · rcases Registry.of_get?_publish hk with hk | ⟨rfl, rfl⟩
    · exact .inl hk
    · exact .inr fun F hF => (h F hF).1
  · rintro other ⟨known, hk, hvalue⟩
    rcases Registry.of_get?_publish hk with hk | ⟨rfl, rfl⟩
    · exact .inl ⟨known, hk, hvalue⟩
    · exact .inr fun F hF => (h F hF).2 hvalue

theorem dependenciesOf_steps (hfield : field < p.symbols.size) :
    Steps (Stage p f) (p.dependenciesOf ask field) (fun list => ∀ d : Nat, d ∈ list →
      d < p.symbols.size) fun _ _ trace => trace = [] := by
  refine Steps.bind_findings fun g hg => ?_
  split
  · exact .pure (by simp) fun _ _ => rfl
  · intro s hs
    refine (formed.evaluateConstant_steps spec f hfield false s hs).bind ?_
    rintro ⟨evaluated, list⟩ s' first hlist hs' - - hR
    obtain ⟨rfl, -⟩ := hR s'.findings (.refl _)
    dsimp only
    split
    · have hadds := addsConstant fun F hF => (hR F hF).2
      exact StepsAt.modifyFindings hadds.grows (.pure (hs'.add hadds) hlist fun _ _ _ => rfl)
    · exact .pure hs' hlist fun _ _ _ => rfl

end Program.Formed

/-! ### Exploring what a constant needs -/

/-- A graph in the making: what is needed but is no field yet is on `pending`. -/
structure Explored (p : Program) (g : DependencyGraph) (pending : List SymbolId) : Prop where
  nodup : g.keys.Nodup
  keys_lt : ∀ field : Nat, field ∈ g.keys → field < p.symbols.size
  pending_lt : ∀ field : Nat, field ∈ pending → field < p.symbols.size
  needed : ∀ {a b : SymbolId}, a ∈ g.keys → g.DependsOn a b → b ∈ g.keys ∨ b ∈ pending

namespace Explored

variable {g : DependencyGraph} {pending rest list : List SymbolId} {field : Nat}

theorem start (hfield : field < p.symbols.size) : Explored p {} [field] where
  nodup := by simp [DependencyGraph.keys]
  keys_lt := by simp [DependencyGraph.keys]
  pending_lt := by simp [hfield]
  needed := by simp [DependencyGraph.keys]

theorem closed (h : Explored p g []) : g.Closed where
  nodup := h.nodup
  mem_keys := fun ha hb => (h.needed ha hb).resolve_right (by simp)

theorem skip (h : Explored p g (field :: rest)) (hfield : field ∈ g.keys) : Explored p g rest where
  nodup := h.nodup
  keys_lt := h.keys_lt
  pending_lt := fun other hother => h.pending_lt other (List.mem_cons_of_mem _ hother)
  needed := fun ha hb => by
    rcases h.needed ha hb with hkey | hpending
    · exact .inl hkey
    · rcases List.mem_cons.1 hpending with rfl | hrest
      · exact .inl hfield
      · exact .inr hrest

theorem keys_insert (g : DependencyGraph) (field : SymbolId) (list : List SymbolId) :
    (g.insert field list).keys = g.keys ++ [field] := by
  simp [DependencyGraph.keys, DependencyGraph.insert]

theorem dependencies_insert (hfield : field ∉ g.keys) (a : SymbolId) :
    (g.insert field list).dependencies a = if a = field then list else g.dependencies a := by
  unfold DependencyGraph.dependencies DependencyGraph.insert
  rw [List.find?_append]
  cases hfind : g.entries.find? fun entry => entry.1 = a with
  | some entry =>
    have hkey : entry.1 = a := by simpa using List.find?_some hfind
    have hmem : a ∈ g.keys := hkey ▸ List.mem_map_of_mem (List.mem_of_find?_eq_some hfind)
    have hne : a ≠ field := fun h => hfield (h ▸ hmem)
    rw [if_neg hne]
    rfl
  | none =>
    by_cases h : a = field
    · simp [h]
    · simp [h, Ne.symm h]

theorem insert (h : Explored p g (field :: rest)) (hfield : field ∉ g.keys)
    (hlist : ∀ d : Nat, d ∈ list → d < p.symbols.size) :
    Explored p (g.insert field list) (list.reverse ++ rest) where
  nodup := by
    rw [keys_insert]
    exact List.nodup_append.2 ⟨h.nodup, by simp, by
      rintro a ha _ hb rfl
      exact hfield (List.mem_singleton.1 hb ▸ ha)⟩
  keys_lt := by
    intro other hother
    rw [keys_insert] at hother
    rcases List.mem_append.1 hother with hother | hother
    · exact h.keys_lt other hother
    · rw [List.mem_singleton.1 hother]
      exact h.pending_lt field List.mem_cons_self
  pending_lt := by
    intro other hother
    rcases List.mem_append.1 hother with hother | hother
    · exact hlist other (List.mem_reverse.1 hother)
    · exact h.pending_lt other (List.mem_cons_of_mem _ hother)
  needed := by
    intro a b ha hb
    unfold DependencyGraph.DependsOn at hb
    rw [dependencies_insert hfield] at hb
    rw [keys_insert] at ha ⊢
    split at hb
    · exact .inr (List.mem_append_left _ (List.mem_reverse.2 hb))
    · next hne =>
      have ha : a ∈ g.keys := by simpa [hne] using ha
      rcases h.needed ha hb with hkey | hpending
      · exact .inl (List.mem_append_left _ hkey)
      · rcases List.mem_cons.1 hpending with rfl | hrest
        · exact .inl (by simp)
        · exact .inr (List.mem_append_right _ hrest)

/-- What is found from a field that is inserted is found from where it is pending. -/
theorem subset_of_insert {found : List SymbolId}
    (h : (g.insert field list).keys ++ (list.reverse ++ rest) ⊆ found) :
    g.keys ++ field :: rest ⊆ found := by
  rw [keys_insert] at h
  simp_all [List.append_subset]

/-- There are fewer fields than symbols as long as one is missing. -/
theorem length_lt (h : Explored p g (field :: rest)) (hfield : field ∉ g.keys) :
    g.keys.length < p.symbols.size := by
  have hnodup : (field :: g.keys).Nodup := List.nodup_cons.2 ⟨hfield, h.nodup⟩
  have hsub : field :: g.keys ⊆ List.range p.symbols.size := by
    intro other hother
    rw [List.mem_range]
    rcases List.mem_cons.1 hother with rfl | hother
    · exact h.pending_lt other List.mem_cons_self
    · exact h.keys_lt other hother
  have hle := (hnodup.subperm hsub).length_le
  rw [List.length_range, List.length_cons] at hle
  exact hle

end Explored

namespace Program.Formed

variable [Endless] (formed : p.Formed) {ask : Asker} (spec : AskerSpec p ask) (f : Findings)
include formed spec

theorem explore_steps {budget : Nat} {pending : List SymbolId} {g : DependencyGraph}
    (h : Explored p g pending) (hbudget : p.symbols.size < budget + g.keys.length) :
    Steps (Stage p f) (p.explore ask budget pending g) (fun found => Explored p found [] ∧
      g.keys ++ pending ⊆ found.keys) fun _ _ trace => trace = [] := by
  fun_induction explore p ask budget pending g with
  | case1 graph => exact .pure ⟨h, by simp⟩ fun _ => rfl
  | case2 graph budget field rest hcontains ih =>
    have hfield : field ∈ graph.keys := List.contains_iff_mem.1 hcontains
    refine (ih (h.skip hfield) hbudget).imp ?_ fun _ _ _ htrace => htrace
    rintro found ⟨hfound, hkeys⟩
    exact ⟨hfound, by grind⟩
  | case3 graph field rest hcontains =>
    have hfield : field ∉ graph.keys := fun hmem => hcontains (List.contains_iff_mem.2 hmem)
    have := h.length_lt hfield
    omega
  | case4 graph field rest hcontains budget ih =>
    have hfield : field ∉ graph.keys := fun hmem => hcontains (List.contains_iff_mem.2 hmem)
    refine Steps.bind (formed.dependenciesOf_steps spec f (h.pending_lt field List.mem_cons_self))
      fun list hlist => ?_
    refine (ih list (h.insert hfield hlist) ?_).imp ?_ ?_
    · rw [Explored.keys_insert, List.length_append, List.length_singleton]
      omega
    · exact fun found ⟨hfound, hkeys⟩ => ⟨hfound, Explored.subset_of_insert hkeys⟩
    · rintro F found _ rfl _ rfl
      rfl

/-- A constant that is taken from the order is published from then on. -/
theorem takeConstant_steps {field : Nat} (hfield : field < p.symbols.size) (startsCycle : Bool) :
    Steps (Stage p f) (p.takeConstant ask field startsCycle) (fun _ => True)
      fun F _ trace => trace = [] ∧ ∃ known, F.constants.get? field = some known := by
  refine Steps.bind_findings fun g hg => ?_
  split
  · intro s hs
    refine (formed.evaluateConstant_steps spec f hfield startsCycle s hs).bind ?_
    rintro ⟨evaluated, _⟩ s' first - hs' - - hR
    obtain ⟨rfl, -⟩ := hR s'.findings (.refl _)
    have hadds := addsConstant fun F hF => (hR F hF).2
    obtain ⟨known, hget, -⟩ := s'.findings.constants.get?_publish_cases field evaluated
    exact Ends.of_modify ⟨hs'.add hadds, hadds.grows, trivial, [], by simp,
      fun F hF _ => ⟨rfl, known, hF.constants hget⟩⟩
  · next hcontains =>
    obtain ⟨known, hget⟩ : ∃ known, g.constants.get? field = some known :=
      Option.ne_none_iff_exists'.1 (by simpa [Registry.contains] using hcontains)
    exact .pure trivial fun F hF => ⟨rfl, known, hF.constants hget⟩

theorem fieldConstant_steps {field : Nat} (hfield : field < p.symbols.size)
    (tracker : Option Tracker) :
    Steps (Stage p f) (p.fieldConstant ask field tracker) (fun _ => True) fun F found trace =>
      trace = [] ∧ SeesConstant p F f field tracker found := by
  refine Steps.bind_findings fun g hg => ?_
  cases hconstant : g.constants.get? field with
  | some known =>
    refine .pure trivial fun F hF => ⟨rfl, .inl ?_⟩
    obtain ⟨g', trace, -, h⟩ := hg.sound.constants hconstant F hF
    exact ⟨known, g', trace, rfl, hF.constants hconstant, h⟩
  | none =>
    cases tracker with
    | some tracker =>
      refine Steps.bind (record_steps f tracker hfield) fun _ _ => .pure trivial ?_
      rintro F _ rfl -
      refine ⟨rfl, .inr ⟨rfl, Option.eq_none_iff_forall_ne_some.2 fun known hknown => ?_, rfl⟩⟩
      simp [hg.grows.constants hknown] at hconstant
    | none =>
      refine Steps.bind (formed.explore_steps spec f (Explored.start hfield) (by omega)) ?_
      rintro graph ⟨hgraph, hmem⟩
      obtain ⟨order, horder, htaken, hperm⟩ := DependencyGraph.order_spec hgraph.closed
      refine Steps.bind_lift ⟨order, horder, rfl⟩ ?_
      rintro _ - rfl
      have htake := Steps.forM (l := order) (R := fun F a => ∃ known,
        F.constants.get? a.1 = some known) fun a ha =>
          formed.takeConstant_steps spec f (hgraph.keys_lt a.1 (htaken.mem_keys a ha)) a.2
      intro s hs
      refine (htake s hs).bind ?_
      rintro - s' first - hs' - - hR
      obtain ⟨rfl, hpublished⟩ := hR s'.findings (.refl _)
      obtain ⟨entry, hentry, rfl⟩ := List.mem_map.1 (hperm.mem_iff.2
        (hmem (List.mem_append_right _ List.mem_cons_self)))
      obtain ⟨known, hknown⟩ := hpublished entry hentry
      refine StepsAt.bind_findings (.pure hs' trivial fun F hF first htrace _ => ?_)
      obtain ⟨g', trace, -, h⟩ := hs'.sound.constants hknown F hF
      rw [List.append_nil, List.append_nil]
      exact ⟨htrace, .inl ⟨known, g', trace, hknown, hF.constants hknown, h⟩⟩

/-! ### Template parameters and local functions -/

theorem constantParameterType_steps {parameter : Nat} (hparameter : parameter < p.symbols.size) :
    Steps (Stage p f) (p.constantParameterType ask parameter)
      (fun found => ∀ t, found = some t → t.Known p) fun F found trace =>
        trace = [] ∧ Derives p F f (.constantParameter parameter found) [] := by
  obtain ⟨s, hs⟩ := SymbolTable.exists_of_lt hparameter
  refine Steps.bind_lift ⟨_, templateParameter?_eq hs, rfl⟩ ?_
  rintro _ hdata rfl
  refine Steps.bind_lift ⟨_, containing?_eq hs, rfl⟩ ?_
  rintro _ howner rfl
  split
  · next node owner hnode hcontaining =>
    obtain ⟨data, hkind, hconstant⟩ := Option.bind_eq_some_iff.1 hnode
    obtain ⟨list, chain, hlist, -, houtside, hfetches⟩ := insideChain_spec formed
      (Nat.lt_trans (formed.table.containing_lt hs hcontaining) hparameter)
    refine Steps.bind_lift ⟨list, hlist, rfl⟩ ?_
    rintro _ - rfl
    refine Steps.bind_fetch hfetches ?_
    refine Steps.bind (Steps.quietly (formed.bindType_steps spec f houtside.known
      (formed.constantTypeNode_lt hs hkind hconstant))) fun t ht => .pure ?_ ?_
    · rintro _ ⟨rfl⟩
      exact ht
    · rintro F _ ⟨rfl, inner, h⟩
      exact ⟨rfl, .constantParameter (hdata.trans (congrArg _ hkind)) hconstant h⟩
  · next hnone =>
    refine .pure (by simp) fun F => ⟨rfl, .typeParameter hdata howner ?_⟩
    cases hnode : s.kind.templateParameter?.bind (·.constantType) with
    | none => exact .inl rfl
    | some node =>
      cases hcontaining : s.containing with
      | none => exact .inr rfl
      | some owner => exact (hnone node owner hnode hcontaining).elim

theorem bindFunctionSignature_steps {chain : Chain} (hchain : chain.Known p)
    {function : LocalFunction} (hfunction : function.Known p) :
    Steps (Stage p f) (p.bindFunctionSignature ask chain function) (Signature.Known p)
      fun F signature trace => TypesFunction p F f chain function signature trace := by
  refine Steps.bind (Steps.mapM (K := fun _ t => t.Known p) (R := fun F parameter t trace =>
    ∃ node, parameter.type = some node ∧ Derives p F f (.variableType chain node t) trace)
    fun parameter hparameter => ?_) fun types htypes => ?_
  · obtain ⟨node, hnode, hlt⟩ := hfunction.parameterType_lt hparameter
    rw [hnode]
    refine (formed.bindVariableType_steps spec f hchain hlt _).mono ?_
    exact fun F t trace h => ⟨node, rfl, h⟩
  · have hknown := forall_of_forall₂ htypes
    split
    · next node hnode =>
      exact Steps.bind_pure (formed.bindType_steps spec f hchain (hfunction.returnType_lt hnode))
        fun t ht => ⟨⟨hknown, ht⟩, fun F second hsecond first hfirst =>
          ⟨first, second, rfl, hfirst, .inl ⟨node, hnode, hsecond⟩⟩⟩
    · next hnone =>
      refine .pure ⟨hknown, Ty.known_void⟩ fun F first hfirst => ?_
      exact ⟨first, [], rfl, hfirst, .inr ⟨hnone, rfl, rfl⟩⟩

/-! ### Answers -/

omit f in
/-- Answers are as assumed if those that they take are. -/
theorem perform_spec : AskerSpec p (p.perform ask) where
  signature f _ hmethod := formed.signature_steps spec f hmethod
  fieldType f _ beingBound hfield := formed.fieldType_steps spec f hfield beingBound
  fieldConstant f _ tracker hfield := formed.fieldConstant_steps spec f hfield tracker
  constantParameterType f _ hparameter := formed.constantParameterType_steps spec f hparameter
  functionSignature f _ _ hscope hfunction :=
    (formed.bindFunctionSignature_steps spec f hscope hfunction).quietly

end Program.Formed

instance : Endless := ⟨.endlessRequests⟩

namespace Program.Formed

variable (formed : p.Formed)
include formed

theorem answerWithin_spec (depth : Nat) : AskerSpec p (p.answerWithin depth) := by
  induction depth with
  | zero => exact ⟨fun _ _ _ => .of_throw, fun _ _ _ _ => .of_throw, fun _ _ _ _ => .of_throw,
    fun _ _ _ => .of_throw, fun _ _ _ _ _ => .of_throw⟩
  | succ depth ih => exact formed.perform_spec ih

theorem answer_spec : AskerSpec p p.answer := formed.answerWithin_spec p.requestDepth

end Program.Formed
end Bindery
