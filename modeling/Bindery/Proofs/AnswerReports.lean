import Bindery.Proofs.CodeReports

/-! # Reports about declarations

Requests are answered without anything being owed: each answer is computed as a pass of its own, and
what is published with it may occur anywhere (`Program.answer_quiet`).  So do the default values of
parameters, the types of template parameters and the initializers of fields. -/

namespace Bindery

variable {p : Program}

/-! ### Publishing -/

namespace Tidy

variable {f : Findings}

theorem publishSignature (h : Tidy p f) (method : SymbolId) (inProgress : List SymbolId)
    {evaluated : Evaluated Signature} (hvalue : evaluated.value.Proper) (htame : evaluated.Tame p) :
    Tidy p { f with
      signaturesInProgress := inProgress
      signatures := f.signatures.publish method evaluated } :=
  { h with signatures := fun hget =>
      (Registry.of_get?_publish hget).elim h.signatures fun hnew => hnew.2 ▸ ⟨hvalue, htame⟩ }

theorem publishFieldType (h : Tidy p f) (field : SymbolId) {evaluated : Evaluated Ty}
    (hvalue : evaluated.value.isVoid = false) (htame : evaluated.Tame p) :
    Tidy p { f with fieldTypes := f.fieldTypes.publish field evaluated } :=
  { h with fieldTypes := fun hget =>
      (Registry.of_get?_publish hget).elim h.fieldTypes fun hnew => hnew.2 ▸ ⟨hvalue, htame⟩ }

theorem publishConstant (h : Tidy p f) (field : SymbolId) {evaluated : Evaluated FieldConstant}
    (htame : evaluated.Tame p) :
    Tidy p { f with constants := f.constants.publish field evaluated } :=
  { h with constants := fun hget =>
      (Registry.of_get?_publish hget).elim h.constants fun hnew => hnew.2 ▸ htame }

theorem publishDefault (h : Tidy p f) (parameter : SymbolId) {evaluated : Evaluated (Option Expr)}
    (hvalue : ∀ e ∈ evaluated.value, e.IsValue) (htame : evaluated.Tame p) :
    Tidy p { f with defaults := f.defaults.publish parameter evaluated } :=
  { h with defaults := fun hget =>
      (Registry.of_get?_publish hget).elim h.defaults fun hnew => hnew.2 ▸ ⟨hvalue, htame⟩ }

end Tidy

/-- A pass of its own in which nothing is owed. -/
theorem Says.isolated_tame {α : Type} {m : BindM α} {Q : α → Prop} (hm : Quiet p m Q) :
    Quiet p (BindM.isolated m) fun e => Q e.value ∧ e.Tame p :=
  hm.isolated.imp fun _ h => ⟨h.1, h.2.mayOccur⟩

/-- What a registry gives, or else what was to be published in it. -/
theorem Registry.getD_of_get? {κ α : Type} [DecidableEq κ] {r : Registry κ α} {key : κ} {a : α}
    {P : α → Prop} (h : ∀ {b : α}, r.get? key = some b → P b) (ha : P a) :
    P ((r.get? key).getD a) := by
  cases hget : r.get? key with
  | none => exact ha
  | some b => exact h hget

namespace Program

variable {ask : Asker} (asker : QuietAsker p ask)
include asker

/-! ### Signatures -/

omit asker in
/-- From inside itself all that a signature says is an error. -/
theorem unknownSignature_proper {method : SymbolId} {signature : Signature}
    (h : p.unknownSignature method = .ok signature) : signature.Proper := by
  obtain ⟨parameters, -, rfl⟩ := exists_of_bind_pure_eq_ok h
  intro t ht
  obtain ⟨parameter, -, rfl⟩ := List.mem_map.1 ht
  rfl

theorem signature_quiet (method : SymbolId) : Quiet p (p.signature ask method) fun known =>
    known.value.Proper ∧ known.Tame p := by
  refine .bind_findings fun f hf => ?_
  cases hknown : f.signatures.get? method with
  | some known => exact .pure (hf.signatures hknown)
  | none =>
    dsimp only
    split
    · exact .bind_lift fun signature hsignature =>
        .pure ⟨unknownSignature_proper hsignature, by simp [Evaluated.Tame]⟩
    · refine .bind (.modifyFindings fun f hf => { hf with }) fun _ _ => ?_
      refine .bind (Says.isolated_tame (CodeLogic.bindSignature asker.code
        (.regions (signatureChain_carrying method)))) fun evaluated hevaluated => ?_
      refine .bind (.modifyFindings fun f hf =>
        hf.publishSignature method _ hevaluated.1 hevaluated.2) fun _ _ => ?_
      refine .bind_findings fun g hg => .pure ?_
      exact Registry.getD_of_get?
        (P := fun known : Evaluated Signature => known.value.Proper ∧ known.Tame p)
        hg.signatures hevaluated

/-! ### Field types -/

theorem inferFieldType_quiet (field : SymbolId) (data : FieldData) (beingBound : List SymbolId) :
    Quiet p (p.inferFieldType ask field data beingBound) fun t => t.isVoid = false := by
  refine .bind_lift fun name _ => .bind_lift fun declaration _ => ?_
  refine .bind (.regions (initializerChain_carrying field)) fun found hfound => ?_
  cases found with
  | none => exact (quietLogic p).refuse trivial rfl
  | some chain =>
    have carries := (hfound chain rfl).push (.fieldsBeingBound (field :: beingBound)) {}
    refine .bind (.quietly (CodeLogic.bindValue asker.code carries _)) fun value hvalue => ?_
    split
    · exact (quietLogic p).refuse trivial rfl
    · exact .pure hvalue.2

theorem bindFieldType_quiet (field : SymbolId) (beingBound : List SymbolId) :
    Quiet p (p.bindFieldType ask field beingBound) fun t => t.isVoid = false := by
  refine .bind_lift fun data _ => ?_
  cases data with
  | none => exact .pure rfl
  | some data =>
    dsimp only
    split
    · refine .bind (.regions (fieldChain_carrying field)) fun chain carries => ?_
      exact .bind_lift fun name _ => CodeLogic.bindVariableType asker.code carries _ name
    · exact inferFieldType_quiet asker field data beingBound

theorem fieldType_quiet (field : SymbolId) (beingBound : List SymbolId) :
    Quiet p (p.fieldType ask field beingBound) fun known =>
      known.value.isVoid = false ∧ known.Tame p := by
  refine .bind_findings fun f hf => ?_
  cases hknown : f.fieldTypes.get? field with
  | some known => exact .pure (hf.fieldTypes hknown)
  | none =>
    refine .bind (Says.isolated_tame (Q := fun t => t.isVoid = false) ?_)
      fun evaluated hevaluated => ?_
    · split
      · refine .bind_lift fun declaration _ => .bind_lift fun name _ => ?_
        exact (quietLogic p).refuse trivial rfl
      · exact bindFieldType_quiet asker field beingBound
    · refine .bind (.modifyFindings fun f hf =>
        hf.publishFieldType field hevaluated.1 hevaluated.2) fun _ _ => ?_
      refine .bind_findings fun g hg => .pure ?_
      exact Registry.getD_of_get?
        (P := fun known : Evaluated Ty => known.value.isVoid = false ∧ known.Tame p)
        hg.fieldTypes hevaluated

/-! ### Constants -/

omit asker in
theorem newTracker_quiet (field : SymbolId) : Quiet p (BindM.newTracker field) fun _ => True := by
  intro s a s' hs hrun
  obtain ⟨-, rfl⟩ := EStateM.Result.ok.inj hrun
  exact ⟨{ hs with }, trivial, [], by simp, .nil⟩

omit asker in
theorem record_quiet (tracker : Option Tracker) (field : SymbolId) :
    Quiet p (BindM.record tracker field) fun _ => True :=
  .bind_findings fun _ _ => .bind_lift fun _ _ => .modifyFindings fun _ hf => { hf with }

theorem constantValue_quiet (field : SymbolId) {chain : Chain} (carries : chain.Carries p)
    (initializer : NodeId) : Quiet p (p.constantValue ask field chain initializer) fun _ => True := by
  refine .bind (newTracker_quiet field) fun tracker _ => ?_
  refine .bind (CodeLogic.bindValue asker.code (carries.push _ {}) initializer) fun value _ => ?_
  refine .bind (asker.fieldType field []) fun target _ => ?_
  refine .bind ((quietLogic p).convert _ _ _) fun value _ => ?_
  exact .bind (R := fun _ => True) (.bind_findings fun _ _ => .pure trivial) fun _ _ => .pure trivial

omit asker in
theorem concludeConstant_quiet (startsCycle : Bool) (name : String)
    (declaration initializer : NodeId) (value : Expr) :
    Quiet p (p.concludeConstant startsCycle name declaration initializer value) fun _ => True := by
  unfold concludeConstant
  split
  · exact (quietLogic p).refuse trivial trivial
  · cases value.constant with
    | some constant => exact .pure trivial
    | none =>
      refine .bind .sawBadConstant fun saw _ => ?_
      exact .may_bind (fun _ => (quietLogic p).report trivial) (.pure trivial)

theorem bindConstant_quiet (field : SymbolId) (startsCycle : Bool) :
    Quiet p (p.bindConstant ask field startsCycle) fun _ => True := by
  refine .bind_lift fun name _ => .bind_lift fun declaration _ => ?_
  refine .bind (.regions (initializerChain_carrying field)) fun found hfound => ?_
  refine .bind_lift fun data _ => ?_
  split
  · next chain initializer _ =>
    refine .bind (constantValue_quiet asker field (hfound chain rfl) initializer) fun _ _ => ?_
    exact .bind (concludeConstant_quiet _ _ _ _ _) fun _ _ => .pure trivial
  · exact (quietLogic p).refuse trivial trivial

theorem evaluateConstant_quiet (field : SymbolId) (startsCycle : Bool) :
    Quiet p (p.evaluateConstant ask field startsCycle) fun result => result.1.Tame p :=
  .bind (bindConstant_quiet asker field startsCycle).isolated_tame fun _ h => .pure h.2

omit asker in
theorem publishConstant_quiet (field : SymbolId) {evaluated : Evaluated FieldConstant}
    (h : evaluated.Tame p) : Quiet p (publishConstant field evaluated) fun _ => True :=
  .modifyFindings fun _ hf => hf.publishConstant field h

theorem dependenciesOf_quiet (field : SymbolId) :
    Quiet p (p.dependenciesOf ask field) fun _ => True := by
  refine .bind_findings fun f _ => ?_
  split
  · exact .pure trivial
  · refine .bind (evaluateConstant_quiet asker field false) fun result hresult => ?_
    exact .may_bind (fun _ => publishConstant_quiet field hresult) (.pure trivial)

theorem explore_quiet (budget : Nat) (pending : List SymbolId) (graph : DependencyGraph) :
    Quiet p (p.explore ask budget pending graph) fun _ => True := by
  fun_induction p.explore ask budget pending graph with
  | case1 => exact .pure trivial
  | case2 _ _ _ _ _ ih => exact ih
  | case3 => exact .pure trivial
  | case4 _ field _ _ _ ih => exact .bind (dependenciesOf_quiet asker field) fun _ _ => ih _

theorem fieldConstant_quiet (field : SymbolId) (tracker : Option Tracker) :
    Quiet p (p.fieldConstant ask field tracker) fun found => ∀ known ∈ found, known.Tame p := by
  refine .bind_findings fun f hf => ?_
  cases hknown : f.constants.get? field with
  | some known =>
    refine .pure ?_
    rintro _ ⟨rfl⟩
    exact hf.constants hknown
  | none =>
    dsimp only
    split
    · exact .bind (record_quiet tracker field) fun _ _ => .pure (by simp)
    · refine .bind (explore_quiet asker _ _ _) fun graph _ => .bind_lift fun order _ => ?_
      refine .bind ((quietLogic p).forM fun step _ => .bind_findings fun g _ => ?_) fun _ _ => ?_
      · split
        · refine .bind (evaluateConstant_quiet asker _ _) fun result hresult => ?_
          exact publishConstant_quiet _ hresult
        · exact .pure trivial
      · exact .bind_findings fun g hg => .pure fun known hget => hg.constants hget

/-! ### Answers -/

theorem constantParameterType_quiet (parameter : SymbolId) :
    Quiet p (p.constantParameterType ask parameter) fun _ => True := by
  refine .bind_lift fun data _ => .bind_lift fun container _ => ?_
  split
  · refine .bind_lift fun containers _ => ?_
    refine .bind (.regions (containerChain_carrying containers)) fun chain carries => ?_
    exact .bind (.quietly (CodeLogic.bindType asker.code carries _)) fun _ _ => .pure trivial
  · exact .pure trivial

theorem perform_quiet : QuietAsker p (p.perform ask) where
  signature := signature_quiet asker
  fieldType := fieldType_quiet asker
  fieldConstant := fieldConstant_quiet asker
  constantParameterType := constantParameterType_quiet asker
  functionSignature _ function carries :=
    .quietly (CodeLogic.bindFunctionSignature asker.code carries function)

omit asker

theorem answerWithin_quiet (depth : Nat) : QuietAsker p (p.answerWithin depth) := by
  induction depth with
  | zero => exact ⟨fun _ => .of_throw, fun _ _ => .of_throw, fun _ _ => .of_throw, fun _ => .of_throw,
    fun _ _ _ => .of_throw⟩
  | succ depth ih => exact perform_quiet ih

theorem answer_quiet : QuietAsker p p.answer := answerWithin_quiet p.requestDepth

/-! ### Members -/

theorem bindParameterDefault_quiet (parameter : SymbolId) :
    Quiet p (p.bindParameterDefault parameter) fun value => ∀ e ∈ value, e.IsValue := by
  refine .bind (.regions (defaultChain_carrying parameter)) fun found hfound => ?_
  refine .bind_lift fun data _ => ?_
  split
  · next chain data _ =>
    cases data.defaultValue with
    | none => exact .pure (by simp)
    | some node =>
      refine .bind_lift fun container _ => ?_
      have bound : ∀ type : Ty, type.isVoid = false → Quiet p (do
          return some (← p.bindDefault p.answer chain node type (← p.symbols.name parameter)))
          fun value => ∀ e ∈ value, e.IsValue := by
        intro type htype
        refine .bind_lift fun name _ => .bind (CodeLogic.bindDefault answer_quiet.code
          (hfound chain rfl) node type name) fun value hvalue => .pure ?_
        rintro _ ⟨rfl⟩
        exact hvalue htype
      cases container with
      | none => exact bound _ rfl
      | some method =>
        refine .bind (answer_quiet.signature method) fun known hknown => bound _ ?_
        cases hget : known.value.parameters[data.ordinal]? with
        | none => rfl
        | some t => exact hknown.1 t (List.mem_of_getElem? hget)
  · exact .pure (by simp)

theorem defaultOf_quiet (parameter : SymbolId) :
    Quiet p (p.defaultOf parameter) fun known => known.Tame p := by
  refine .bind_findings fun f hf => ?_
  cases hknown : f.defaults.get? parameter with
  | some known => exact .pure (hf.defaults hknown).2
  | none =>
    refine .bind (bindParameterDefault_quiet parameter).isolated_tame
      fun evaluated hevaluated => ?_
    refine .bind (.modifyFindings fun f hf =>
      hf.publishDefault parameter hevaluated.1 hevaluated.2) fun _ _ => ?_
    refine .bind_findings fun g hg => .pure ?_
    exact Registry.getD_of_get? (P := fun known : Evaluated _ => known.Tame p)
      (fun hget => (hg.defaults hget).2) hevaluated.2

theorem bindTemplateParameters_quiet (type : SymbolId) :
    Quiet p (p.bindTemplateParameters type) fun known => known.Tame p := by
  refine (Says.isolated_tame (Q := fun _ => True) ?_).imp fun _ h => h.2
  refine .bind_lift fun containers _ => ?_
  refine .bind (.regions (containerChain_carrying containers)) fun chain carries => ?_
  refine .bind_lift fun parameters _ => (Says.mapM (T := fun _ _ => True) fun parameter _ => ?_).imp
    fun _ _ => trivial
  refine .bind_lift fun data _ => ?_
  split
  · refine .bind_lift fun name _ => ?_
    exact .bind (CodeLogic.bindVariableType answer_quiet.code carries _ name) fun _ _ => .pure trivial
  · exact .pure trivial

theorem bindInitializer_quiet (field : SymbolId) : Quiet p (p.bindInitializer field) fun bound =>
    ∀ e ∈ bound, e.value.IsValue ∧ e.Tame p := by
  refine .bind (.regions (initializerChain_carrying field)) fun found hfound => ?_
  refine .bind_lift fun data _ => ?_
  split
  · next chain initializer _ =>
    refine .bind (answer_quiet.fieldType field []) fun target htarget => ?_
    refine .bind (CodeLogic.converted answer_quiet.code (hfound chain rfl) initializer _).isolated_tame
      fun evaluated hevaluated => .pure ?_
    rintro _ ⟨rfl⟩
    exact ⟨hevaluated.1 htarget.1, hevaluated.2⟩
  · exact .pure (by simp)

end Program
end Bindery
