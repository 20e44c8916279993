import Bindery.Proofs.CodeLogic
import Bindery.Proofs.ConstantTypes

/-! # Inference of field types

The type of a field that declares none is the type of its initializer, which may take the types of
other such fields.  The fields whose types are being inferred are listed in the request, so one that
needs itself is found out.

* Where no type name has template arguments, only field types lead to further requests.
* `Accord` compares a computation with the same one under another asker.  It is a judgement about
  code, so a request for a field type is compared by way of its initializer
  (`Program.fieldType_accord`).
* Each request inside another has one field more on its list.  So the depth of requests is bounded
  (`Program.iterate_accord`), and every request is answered.
* `Program.Asks` says which requests a request makes, and `Program.Inferring` what holds of all of
  them.
-/

namespace Bindery

variable {p : Program} {α β : Type}

/-! ### Type names without arguments -/

/-- No type name has template arguments. -/
def Tree.Plain (t : Tree) : Prop := ∀ node name arguments isUnbound,
  t.node? node = some (.typeName name arguments isUnbound) → arguments = []

/-- Requests that are about types that are written down. -/
def Request.IsWritten : Request → Prop
  | .fieldType .. | .fieldConstant .. => False
  | _ => True

/-- The error type, with a report that it is circular and no other. -/
def Evaluated.IsCircular (known : Evaluated Ty) : Prop :=
  known.value = .error ∧ ∃ d : Diagnostic, known.diagnostics.items = [d] ∧ d.message = .circularFieldType

namespace Program

/-- Then binding a type asks nobody. -/
theorem bindType_eq (plain : p.tree.Plain) (ask ask' : Asker) (chain : Chain) (node : Nat) :
    p.bindType ask chain node = p.bindType ask' chain node := by
  induction node using Nat.strongRecOn with
  | ind node ih =>
    rw [bindType, bindType]
    split
    · next element hnode => rw [ih element (p.tree.child_lt hnode (by simp))]
    · next name arguments isUnbound hnode =>
      obtain rfl := plain _ _ _ _ hnode
      simp [collectArguments]
    · rfl
    · rfl

theorem perform_eq (plain : p.tree.Plain) (ask ask' : Asker) {r : Request}
    (h : r.IsWritten) : p.perform ask r = p.perform ask' r := by
  have htype : p.bindType ask = p.bindType ask' := by
    funext chain node
    exact bindType_eq plain ask ask' chain node
  cases r with
  | signature | constantParameterType | functionSignature =>
    simp only [perform, signature, bindSignature, constantParameterType, bindFunctionSignature,
      bindVariableType, htype]
  | fieldType | fieldConstant => exact h.elim

end Program

/-! ### Two askers -/

abbrev FieldTypes := Registry SymbolId (Evaluated Ty)

/-- The field types that are published when a computation has ended. -/
def typesAfter : EStateM.Result Fault BindState α → FieldTypes
  | .ok _ t | .error _ t => t.findings.fieldTypes

def returned : EStateM.Result Fault BindState α → Bool
  | .ok .. => true
  | .error .. => false

/-- What comes of a computation that starts with some field types.  They grow and satisfy `J` in the
end, the value satisfies `Q`, and the same comes of the other computation, unless `D` holds in the
end. -/
structure AccordAt (J : FieldTypes → Prop) (D : Bool → FieldTypes → Prop) (Q : α → Prop)
    (types : FieldTypes) (r r' : EStateM.Result Fault BindState α) : Prop where
  grows : types.Grows (typesAfter r)
  kept : J (typesAfter r)
  value : ∀ {a : α} {t : BindState}, r = .ok a t → Q a
  same : r' = r ∨ D (returned r) (typesAfter r)

/-- The same wherever the field types satisfy `J`. -/
def Accord (J : FieldTypes → Prop) (D : Bool → FieldTypes → Prop) (m m' : BindM α) (Q : α → Prop) :
    Prop :=
  ∀ s : BindState, J s.findings.fieldTypes → AccordAt J D Q s.findings.fieldTypes (m s) (m' s)

/-- What holds when a value has been returned holds ever after. -/
def IsLasting (D : Bool → FieldTypes → Prop) : Prop :=
  ∀ types types' returned, D true types → types.Grows types' → D returned types'

section accord

variable {J J' : FieldTypes → Prop} {D : Bool → FieldTypes → Prop} {m m' : BindM α}
  {k k' : α → BindM β} {Q R : α → Prop} {T : β → Prop}

theorem AccordAt.bind (lasting : IsLasting D) (hJ : ∀ types, J' types → J types) {s : BindState}
    {types : FieldTypes} (hm : AccordAt J' D R types (m s) (m' s))
    (hk : ∀ a t, R a → J' t.findings.fieldTypes →
      AccordAt J D T t.findings.fieldTypes (k a t) (k' a t)) :
    AccordAt J D T types ((m >>= k) s) ((m' >>= k') s) := by
  obtain ⟨hgrows, hkept, hvalue, hsame⟩ := hm
  change AccordAt J D T types (EStateM.bind m k s) (EStateM.bind m' k' s)
  unfold EStateM.bind
  cases h : m s with
  | ok a t =>
    rw [h] at hgrows hkept hsame
    have next := hk a t (hvalue h) hkept
    refine ⟨fun hget => next.grows (hgrows hget), next.kept, next.value, ?_⟩
    rcases hsame with hsame | hdiffers
    · rw [hsame]
      exact next.same
    · exact .inr (lasting _ _ _ hdiffers next.grows)
  | error fault t =>
    rw [h] at hgrows hkept hsame
    refine ⟨hgrows, hJ _ hkept, nofun, ?_⟩
    rcases hsame with hsame | hdiffers
    · rw [hsame]
      exact .inl rfl
    · exact .inr hdiffers

namespace Accord

/-- What leaves the field types alone. -/
theorem of_frame (h : ∀ s, typesAfter (m s) = s.findings.fieldTypes) (hQ : ∀ a, Q a) :
    Accord J D m m Q := by
  intro s hs
  rw [← h s] at hs ⊢
  exact ⟨id, hs, fun _ => hQ _, .inl rfl⟩

theorem pure {a : α} (h : Q a) : Accord J D (Pure.pure a) (Pure.pure a) Q :=
  fun _ hs => ⟨id, hs, fun hrun => (EStateM.Result.ok.inj hrun).1 ▸ h, .inl rfl⟩

theorem bind (lasting : IsLasting D) (hm : Accord J D m m' R)
    (hk : ∀ a, R a → Accord J D (k a) (k' a) T) : Accord J D (m >>= k) (m' >>= k') T := fun s hs =>
  (hm s hs).bind lasting (fun _ h => h) fun a t ha ht => hk a ha t ht

theorem isolated (lasting : IsLasting D) (hm : Accord J D m m' Q) :
    Accord J D (BindM.isolated m) (BindM.isolated m') fun e => Q e.value := fun s hs =>
  (hm { s with pass := {} } hs).bind lasting (fun _ h => h) fun _ _ ha ht =>
    ⟨id, ht, fun hrun => (EStateM.Result.ok.inj hrun).1 ▸ ha, .inl rfl⟩

theorem quietly (lasting : IsLasting D) (hm : Accord J D m m' Q) :
    Accord J D (BindM.quietly m) (BindM.quietly m') Q :=
  bind lasting (isolated lasting hm) fun _ h => pure h

theorem regions (m : RegionM α) :
    Accord J D (BindM.regions m) (BindM.regions m) fun _ => True := by
  refine of_frame (fun s => ?_) fun _ => trivial
  unfold BindM.regions
  cases m.run s.findings.regions <;> rfl

end Accord
end accord

/-- Code bound under two askers, while the types of the fields on some list are inferred. -/
def accordLogic (p : Program) (J : FieldTypes → Prop) {D : Bool → FieldTypes → Prop}
    (lasting : IsLasting D) (I : List SymbolId → Prop) : CodeLogic p where
  Holds := Accord J D
  pure := .pure
  bind := .bind lasting
  of_throw := fun _ hs => ⟨id, hs, nofun, .inl rfl⟩
  Scope chain := I chain.fieldsBeingBound
  Outer _ := True
  Inferring := I
  Variable _ := True
  Function _ := True
  May _ := True
  Tidied := False
  scope_push {chain kind} additional h hkind := by
    have hsame : (chain.push kind additional).fieldsBeingBound = chain.fieldsBeingBound := by
      cases kind <;> first | rfl | simp [FrameKind.isPassing] at hkind
    rwa [hsame]
  of_enclosing _ _ := trivial
  of_scope h := h
  of_lookup {_ _ _ found} _ _ := by cases found <;> trivial
  of_localAt? _ _ := trivial
  of_functionAt? _ _ := trivial
  may _ := trivial
  may_access _ _ := trivial
  may_lowLevel _ _ := trivial
  push _ := .of_frame (fun _ => rfl) fun _ => trivial
  modifyPass _ := .of_frame (fun _ => rfl) fun _ => trivial
  sawBadConstant := .of_frame (fun _ => rfl) fun _ => trivial
  reads_local _ _ := fun _ hk s hs => hk s.findings trivial s hs
  reads_default _ _ := fun _ hk s hs => hk s.findings trivial s hs
  reads_signature _ _ := fun _ hk s hs => hk s.findings False.elim s hs
  reads_defaults _ _ := fun _ hk s hs => hk s.findings trivial s hs
  publish_type _ _ := .of_frame (fun _ => rfl) fun _ => trivial
  publish_constant _ _ _ := .of_frame (fun _ => rfl) fun _ => trivial
  publish_signature _ _ := .of_frame (fun _ => rfl) fun _ => trivial
  publish_defaults _ _ := .of_frame (fun _ => rfl) fun _ => trivial

namespace Program

section accord

variable {J : FieldTypes → Prop} {D : Bool → FieldTypes → Prop} (lasting : IsLasting D)

/-! ### Written types -/

section written

/-- An asker that may be asked nothing. -/
abbrev noAsker : Asker := fun _ => throw .endlessRequests

theorem answers_noAsker (L : CodeLogic p) : L.Answers noAsker noAsker :=
  ⟨fun _ => L.of_throw, fun _ _ _ => L.of_throw, fun _ _ _ _ => L.of_throw, fun _ => L.of_throw,
    fun _ _ => L.of_throw⟩

include lasting

theorem signature_accord (method : SymbolId) : Accord J D (p.signature noAsker method)
    (p.signature noAsker method) fun _ => True := by
  let L := accordLogic p J lasting fun _ => True
  have step : ∀ {β : Type} {m : BindM β}, (∀ s, typesAfter (m s) = s.findings.fieldTypes) →
      L.Has m fun _ => True := fun h => .of_frame h fun _ => trivial
  refine L.bind (step fun _ => rfl) fun f _ => ?_
  split
  · exact L.pure trivial
  · split
    · exact L.bind_lift fun _ _ => L.pure trivial
    · refine L.bind (step fun _ => rfl) fun _ _ => ?_
      refine L.bind (.isolated lasting (CodeLogic.bindSignature (answers_noAsker L) (.regions _)))
        fun _ _ => ?_
      exact L.bind (step fun _ => rfl) fun _ _ => L.bind (step fun _ => rfl) fun _ _ => L.pure trivial

theorem constantParameterType_accord (parameter : SymbolId) :
    Accord J D (p.constantParameterType noAsker parameter)
      (p.constantParameterType noAsker parameter) fun _ => True := by
  let L := accordLogic p J lasting fun _ => True
  refine L.bind_lift fun _ _ => L.bind_lift fun _ _ => ?_
  split
  · refine L.bind_lift fun _ _ => L.bind (.regions _) fun chain _ => ?_
    exact L.bind (.quietly lasting (CodeLogic.bindType (answers_noAsker L) trivial _))
      fun _ _ => L.pure trivial
  · exact L.pure trivial

/-- Code is answered alike if its requests for field types are. -/
theorem answers_accord (plain : p.tree.Plain) {list : List SymbolId} (hlist : list ≠ [])
    {ask ask' : Asker} (h : ∀ {field : SymbolId} {data : FieldData},
      p.symbols.field? field = .ok (some data) → Accord J D (p.perform ask (.fieldType field list))
        (p.perform ask' (.fieldType field list)) fun _ => True) :
    (accordLogic p J lasting (· = list)).Answers (p.perform ask) (p.perform ask') where
  signature {method} _ := by
    rw [perform_eq plain ask noAsker (r := .signature method) trivial,
      perform_eq plain ask' noAsker (r := .signature method) trivial]
    exact signature_accord lasting method
  fieldType hfield _ hlist := hlist ▸ h hfield
  fieldConstant _ _ hnil := (hlist hnil.symm).elim
  constantParameterType parameter := by
    rw [perform_eq plain ask noAsker (r := .constantParameterType parameter) trivial,
      perform_eq plain ask' noAsker (r := .constantParameterType parameter) trivial]
    exact constantParameterType_accord lasting parameter
  functionSignature {scope} f _ := by
    rw [perform_eq plain ask noAsker (r := .functionSignature scope f) trivial,
      perform_eq plain ask' noAsker (r := .functionSignature scope f) trivial]
    exact .quietly lasting (CodeLogic.bindFunctionSignature
      (answers_noAsker (accordLogic p J lasting fun _ => True)) trivial f)

end written

/-! ### Field types -/

/-- The field declares no type. -/
def IsImplicit (p : Program) (field : SymbolId) : Prop :=
  ∃ data, p.symbols.field? field = .ok (some data) ∧ data.type = none

/-- What is published of a field whose type needs itself. -/
def circularType (p : Program) (field : SymbolId) : Except Fault (Evaluated Ty) := do
  let d ← p.diagnostic (← p.declarationOrRoot field) .circularFieldType [← p.symbols.name field]
  return ⟨.error, ⟨[d]⟩⟩

/-- If anything is published of the fields on a list, they are circular. -/
def Pending (p : Program) (list : List SymbolId) (types : FieldTypes) : Prop :=
  ∀ field ∈ list, ∀ {known : Evaluated Ty}, types.get? field = some known →
    p.circularType field = .ok known

variable {ask ask' : Asker} {field : SymbolId} {list : List SymbolId} {s : BindState}

/-- Publish the type of a field, and see which one stands. -/
def keepFieldType (field : SymbolId) (evaluated : Evaluated Ty) : BindM (Evaluated Ty) := do
  BindM.modifyFindings fun f => { f with fieldTypes := f.fieldTypes.publish field evaluated }
  return ((← BindM.findings).fieldTypes.get? field).getD evaluated

theorem fieldType_eq : p.fieldType ask field list s = (match s.findings.fieldTypes.get? field with
    | some known => pure known
    | none => (BindM.isolated do
        if field ∈ list then
          p.report (← p.declarationOrRoot field) .circularFieldType [← p.symbols.name field]
          return .error
        else p.bindFieldType ask field list) >>= keepFieldType field : BindM (Evaluated Ty)) s :=
  rfl

theorem fieldType_of_get? {known : Evaluated Ty}
    (h : s.findings.fieldTypes.get? field = some known) :
    p.fieldType ask field list s = .ok known s := by
  rw [fieldType_eq, h]
  rfl

theorem fieldType_of_mem {verdict : Evaluated Ty} (hmem : field ∈ list)
    (pending : p.Pending list s.findings.fieldTypes) (hverdict : p.circularType field = .ok verdict) :
    p.fieldType ask field list s = .ok verdict { s with findings := { s.findings with
      fieldTypes := s.findings.fieldTypes.publish field verdict } } := by
  cases hget : s.findings.fieldTypes.get? field with
  | some known =>
    obtain rfl := ok_unique hverdict (pending field hmem hget)
    rw [fieldType_of_get? hget, Registry.publish_of_get? _ hget]
  | none =>
    obtain ⟨node, hnode, h⟩ := exists_of_bind_eq_ok hverdict
    obtain ⟨name, hname, h⟩ := exists_of_bind_eq_ok h
    obtain ⟨d, hd, rfl⟩ := exists_of_bind_pure_eq_ok h
    have hreport : p.report node .circularFieldType [name] = BindM.push d := by
      unfold report
      rw [hd]
      rfl
    rw [fieldType_eq, hget]
    simp only [if_pos hmem, hnode, hname]
    change ((BindM.isolated do p.report node .circularFieldType [name]; return .error) >>=
      keepFieldType field) s = _
    rw [hreport]
    change EStateM.Result.ok (Option.getD (Registry.get? (Registry.publish _ _ _) _) _) _ = _
    rw [Registry.get?_publish_self _ hget]
    rfl

theorem circularType_yields (formed : p.Formed) {data : FieldData}
    (hfield : p.symbols.field? field = .ok (some data)) :
    ∃ verdict, p.circularType field = .ok verdict := by
  obtain ⟨x, hx, -⟩ := exists_of_field? hfield
  obtain ⟨node, hnode, hlt⟩ := formed.declarationOrRoot_yields hx
  obtain ⟨name, hname, -⟩ := formed.table.name_yields (SymbolTable.lt_of_getElem? hx)
  obtain ⟨span, hspan, -⟩ := formed.span_yields hlt
  simp [circularType, diagnostic, hnode, hname, hspan, bind, Except.bind, pure, Except.pure]

namespace Pending

variable {types : FieldTypes}

theorem nil : p.Pending [] types := fun _ h => absurd h List.not_mem_nil

theorem publish (pending : p.Pending list types) {verdict : Evaluated Ty}
    (h : field ∈ list → p.circularType field = .ok verdict) :
    p.Pending list (types.publish field verdict) := by
  intro other hother known hget
  rcases Registry.of_get?_publish hget with hold | ⟨rfl, rfl⟩
  · exact pending other hother hold
  · exact h hother

theorem cons (pending : p.Pending list types) (h : types.get? field = none) :
    p.Pending (field :: list) types := by
  intro other hother known hget
  rcases List.mem_cons.1 hother with rfl | hother
  · simp [h] at hget
  · exact pending other hother hget

theorem tail (pending : p.Pending (field :: list) types) : p.Pending list types :=
  fun other hother _ hget => pending other (List.mem_cons_of_mem _ hother) hget

end Pending

include lasting

theorem bindFieldType_accord (plain : p.tree.Plain) (asker : p.IsImplicit field →
      (accordLogic p J lasting (· = field :: list)).Answers ask ask') :
    Accord J D (p.bindFieldType ask field list) (p.bindFieldType ask' field list) fun _ => True := by
  let L := accordLogic p J lasting fun _ => True
  refine L.bind_lift fun data hdata => ?_
  cases data with
  | none => exact L.pure trivial
  | some data =>
    dsimp only
    split
    · next type htype =>
      refine L.bind (.regions _) fun chain _ => L.bind_lift fun name _ => ?_
      unfold bindVariableType
      rw [bindType_eq plain ask noAsker, bindType_eq plain ask' noAsker]
      exact L.imp (CodeLogic.bindVariableType (answers_noAsker L) trivial type name) fun _ _ => trivial
    · next htype =>
      refine L.bind_lift fun _ _ => L.bind_lift fun _ _ => L.bind (.regions _) fun found _ => ?_
      cases found with
      | none => exact L.bind (L.report trivial) fun _ _ => L.pure trivial
      | some chain =>
        refine L.bind (.quietly lasting (CodeLogic.bindValue (asker ⟨data, hdata, htype⟩)
          (show (Chain.push chain (.fieldsBeingBound (field :: list)) {}).fieldsBeingBound = _ from rfl)
          _)) fun value _ => ?_
        split
        · exact L.bind (L.report trivial) fun _ _ => L.pure trivial
        · exact L.pure trivial

theorem fieldType_accord (formed : p.Formed) (plain : p.tree.Plain) {data : FieldData}
    (hfield : p.symbols.field? field = .ok (some data))
    (asker : field ∉ list → p.IsImplicit field →
      (accordLogic p (p.Pending (field :: list)) lasting (· = field :: list)).Answers ask ask') :
    Accord (p.Pending list) D (p.fieldType ask field list) (p.fieldType ask' field list)
      fun _ => True := by
  intro s pending
  by_cases hmem : field ∈ list
  · obtain ⟨verdict, hverdict⟩ := circularType_yields formed hfield
    rw [fieldType_of_mem hmem pending hverdict, fieldType_of_mem hmem pending hverdict]
    exact ⟨Registry.grows_publish _ _ _, pending.publish fun _ => hverdict, fun _ => trivial, .inl rfl⟩
  · cases hget : s.findings.fieldTypes.get? field with
    | some known =>
      rw [fieldType_of_get? hget, fieldType_of_get? hget]
      exact ⟨id, pending, fun _ => trivial, .inl rfl⟩
    | none =>
      simp only [fieldType_eq, hget, if_neg hmem]
      refine AccordAt.bind lasting (fun _ h => h.tail) (Accord.isolated lasting
        (bindFieldType_accord lasting plain (asker hmem)) s (pending.cons hget)) fun e t _ ht => ?_
      exact ⟨Registry.grows_publish _ _ _, ht.tail.publish fun h => (hmem h).elim, fun _ => trivial,
        .inl rfl⟩

end accord

/-! ### The depth of requests -/

section depth

variable (bottom : Asker) {field : SymbolId} {list : List SymbolId} {data : FieldData} {s : BindState}

theorem isLasting_false : IsLasting fun _ _ => False := fun _ _ _ h _ => h

/-- How many symbols are not on a list. -/
def unlisted (p : Program) (list : List SymbolId) : Nat :=
  ((Finset.range p.symbols.size).filter (· ∉ list)).card

theorem unlisted_le (list : List SymbolId) : p.unlisted list ≤ p.symbols.size :=
  (Finset.card_filter_le _ _).trans_eq (Finset.card_range _)

theorem unlisted_cons_lt (hfield : field < p.symbols.size) (hmem : field ∉ list) :
    p.unlisted (field :: list) < p.unlisted list := by
  refine Finset.card_lt_card ((Finset.ssubset_iff_of_subset fun x hx => ?_).2 ⟨field, ?_, ?_⟩)
  · simp_all
  · simp [hfield, hmem]
  · simp

theorem answerWithin_eq_iterate (depth : Nat) : p.answerWithin depth = p.perform^[depth] noAsker := by
  induction depth with
  | zero => rfl
  | succ depth ih =>
    rw [Function.iterate_succ_apply', ← ih]
    rfl

variable (formed : p.Formed) (plain : p.tree.Plain)
include formed plain

/-- Requests for field types are answered alike at every depth that is large enough, whoever answers
the requests at the bottom.  By induction on the number of fields that are not being inferred. -/
theorem iterate_accord {bottom bottom' : Asker} {n : Nat} {list : List SymbolId} {d d' : Nat}
    (hlist : p.unlisted list < n) (hd : n ≤ d) (hd' : n ≤ d') {field : SymbolId} {data : FieldData}
    (hfield : p.symbols.field? field = .ok (some data)) :
    Accord (p.Pending list) (fun _ _ => False) (p.perform^[d] bottom (.fieldType field list))
      (p.perform^[d'] bottom' (.fieldType field list)) fun _ => True := by
  induction n generalizing list d d' field data with
  | zero => exact absurd hlist (Nat.not_lt_zero _)
  | succ n ih =>
    obtain ⟨e, rfl⟩ : ∃ e, d = e + 1 := Nat.exists_eq_add_one.2 (by omega)
    obtain ⟨e', rfl⟩ : ∃ e', d' = e' + 1 := Nat.exists_eq_add_one.2 (by omega)
    rw [Function.iterate_succ_apply', Function.iterate_succ_apply']
    refine fieldType_accord isLasting_false formed plain hfield fun hmem _ => ?_
    obtain ⟨x, hx, -⟩ := exists_of_field? hfield
    have hlt := unlisted_cons_lt (SymbolTable.lt_of_getElem? hx) hmem
    have ih : ∀ {other : SymbolId} {data : FieldData}, p.symbols.field? other = .ok (some data) →
        Accord (p.Pending (field :: list)) (fun _ _ => False)
          (p.perform^[e] bottom (.fieldType other (field :: list)))
          (p.perform^[e'] bottom' (.fieldType other (field :: list))) fun _ => True :=
      ih (by omega) (by omega) (by omega)
    obtain ⟨c, rfl⟩ : ∃ c, e = c + 1 := Nat.exists_eq_add_one.2 (by omega)
    obtain ⟨c', rfl⟩ : ∃ c', e' = c' + 1 := Nat.exists_eq_add_one.2 (by omega)
    rw [Function.iterate_succ_apply', Function.iterate_succ_apply'] at ih ⊢
    exact answers_accord isLasting_false plain (List.cons_ne_nil _ _) ih

variable (deep : p.symbols.size < p.requestDepth)
include deep

theorem answer_accord {d : Nat} (hd : p.symbols.size < d)
    (hfield : p.symbols.field? field = .ok (some data)) :
    Accord (p.Pending list) (fun _ _ => False) (p.answer (.fieldType field list))
      (p.perform^[d] bottom (.fieldType field list)) fun _ => True := by
  unfold answer
  rw [answerWithin_eq_iterate]
  exact iterate_accord formed plain (Nat.lt_succ_of_le (unlisted_le list)) deep hd hfield

theorem iterate_eq_answer {d : Nat} (hd : p.symbols.size < d)
    (hfield : p.symbols.field? field = .ok (some data))
    (pending : p.Pending list s.findings.fieldTypes) :
    p.perform^[d] bottom (.fieldType field list) s = p.answer (.fieldType field list) s :=
  (answer_accord bottom formed plain deep hd hfield s pending).same.resolve_right id

/-- What is published of the fields on the list does not matter to the answer itself. -/
theorem perform_answer (hfield : p.symbols.field? field = .ok (some data))
    (pending : p.Pending list s.findings.fieldTypes) :
    p.perform p.answer (.fieldType field list) s = p.answer (.fieldType field list) s := by
  have hsame := iterate_eq_answer noAsker formed plain deep
    (deep.trans (Nat.lt_succ_self _)) hfield pending
  rwa [Function.iterate_succ_apply', ← answerWithin_eq_iterate] at hsame

/-- Code gets the same answers whatever is below them. -/
theorem answer_answers (hlist : list ≠ []) : (accordLogic p (p.Pending list) isLasting_false
    (· = list)).Answers p.answer p.answer := by
  obtain ⟨depth, hanswer⟩ := answer_eq_perform deep
  rw [hanswer]
  refine answers_accord isLasting_false plain hlist fun hfield => ?_
  rw [← hanswer]
  exact fun s pending => { answer_accord noAsker formed plain deep deep hfield
    s pending with same := .inl rfl }

end depth

/-! ### Requests within requests -/

/-- Answering `x` takes the answer to `y`: with another answer to `y` alone, something else may come
of `x`. -/
def Asks (p : Program) (x y : Request × BindState) : Prop :=
  ∃ ask : Asker, (∀ r s, (r, s) ≠ y → ask r s = p.answer r s) ∧
    p.perform ask x.1 x.2 ≠ p.perform p.answer x.1 x.2

/-- Requests that are made while types of fields are inferred. -/
inductive Inferring (p : Program) : Request × BindState → Prop
  | fieldType (hfield : p.symbols.field? field = .ok (some data)) (nodup : list.Nodup)
      (implicit : ∀ other ∈ list, p.IsImplicit other) (pending : p.Pending list s.findings.fieldTypes) :
      Inferring p (.fieldType field list, s)
  | written (h : r.IsWritten) : Inferring p (r, s)

/-- The answer to `y` is part of what came about: it was returned if a value was, and what it
published stands. -/
structure Contains (p : Program) (y : Request × BindState) (hasReturned : Bool)
    (types : FieldTypes) : Prop where
  inferring : p.Inferring y
  returned : hasReturned = true → returned (p.answer y.1 y.2) = true
  grows : (typesAfter (p.answer y.1 y.2)).Grows types

theorem isLasting_contains (y : Request × BindState) : IsLasting (p.Contains y) := fun _ _ _ h hgrows =>
  ⟨h.inferring, fun _ => h.returned rfl, fun hget => hgrows (h.grows hget)⟩

theorem accord_of_agree {J : FieldTypes → Prop} {y : Request × BindState} {ask : Asker}
    (agree : ∀ r s, (r, s) ≠ y → ask r s = p.answer r s) {r : Request} {Q : r.Answer → Prop}
    (h : Accord J (fun _ _ => False) (p.answer r) (p.answer r) Q)
    (hy : ∀ s : BindState, J s.findings.fieldTypes → p.Inferring (r, s)) :
    Accord J (p.Contains y) (p.answer r) (ask r) Q := by
  intro s hs
  refine { h s hs with same := ?_ }
  by_cases heq : (r, s) = y
  · exact .inr (heq ▸ ⟨hy s hs, id, id⟩)
  · exact .inl (agree r s heq)

variable {x y : Request × BindState} (formed : p.Formed) (plain : p.tree.Plain)
  (deep : p.symbols.size < p.requestDepth)
include formed plain deep

theorem answers_of_agree {ask : Asker} (agree : ∀ r s, (r, s) ≠ y → ask r s = p.answer r s)
    {list : List SymbolId} (hlist : list ≠ []) (nodup : list.Nodup)
    (implicit : ∀ field ∈ list, p.IsImplicit field) :
    (accordLogic p (p.Pending list) (isLasting_contains (p := p) y) (· = list)).Answers
      p.answer ask := by
  have base := answer_answers formed plain deep hlist
  constructor
  case signature =>
    exact fun hmethod => accord_of_agree agree (base.signature hmethod) fun _ _ => .written trivial
  case fieldType =>
    exact fun hfield _ heq => accord_of_agree agree (base.fieldType hfield heq) fun _ hs =>
      heq ▸ .fieldType hfield nodup implicit hs
  case fieldConstant => exact fun _ _ hnil => (hlist hnil.symm).elim
  case constantParameterType =>
    exact fun parameter => accord_of_agree agree (base.constantParameterType parameter) fun _ _ =>
      .written trivial
  case functionSignature =>
    exact fun {scope} f hf => accord_of_agree (r := .functionSignature scope f) agree
      (base.functionSignature f hf) fun _ _ => .written trivial

/-- One request within another. -/
theorem Inferring.step (hx : p.Inferring x) (h : p.Asks x y) :
    p.Contains y (returned (p.answer x.1 x.2)) (typesAfter (p.answer x.1 x.2)) := by
  obtain ⟨ask, agree, hdiffers⟩ := h
  cases hx with
  | written hr => exact (hdiffers (congrFun (perform_eq plain ask p.answer hr) _)).elim
  | @fieldType field data list s hfield nodup implicit pending =>
    have haccord : Accord (p.Pending list) (p.Contains y) (p.fieldType p.answer field list)
        (p.fieldType ask field list) fun _ => True :=
      fieldType_accord (isLasting_contains y) formed plain hfield fun hmem himplicit =>
        answers_of_agree formed plain deep agree (List.cons_ne_nil _ _) (List.nodup_cons.2 ⟨hmem, nodup⟩)
          (List.forall_mem_cons.2 ⟨himplicit, implicit⟩)
    have hcontains := (haccord s pending).same.resolve_left hdiffers
    have hperform : p.fieldType p.answer field list s = _ :=
      perform_answer formed plain deep hfield pending
    rwa [hperform] at hcontains

/-- All requests within another, at any depth. -/
theorem Inferring.run (hx : p.Inferring x) (h : Relation.TransGen p.Asks x y) :
    p.Contains y (returned (p.answer x.1 x.2)) (typesAfter (p.answer x.1 x.2)) := by
  induction h with
  | single h => exact hx.step formed plain deep h
  | tail _ h ih =>
    have inner := ih.inferring.step formed plain deep h
    exact ⟨inner.inferring, fun hreturned => inner.returned (ih.returned hreturned),
      fun hget => ih.grows (inner.grows hget)⟩

/-! ### Verdicts -/

section verdict

variable {field : SymbolId} {data : FieldData} {list : List SymbolId} {s t : BindState}
  {known : Evaluated Ty}

omit formed plain deep

/-- The type that is returned is the one that stands. -/
theorem get?_of_fieldType {ask : Asker} (h : p.fieldType ask field list s = .ok known t) :
    t.findings.fieldTypes.get? field = some known := by
  cases hget : s.findings.fieldTypes.get? field with
  | some old =>
    rw [fieldType_of_get? hget] at h
    obtain ⟨rfl, rfl⟩ := EStateM.Result.ok.inj h
    exact hget
  | none =>
    rw [fieldType_eq, hget] at h
    obtain ⟨own, s₁, -, h⟩ := exists_of_run_bind h
    obtain ⟨b, hb, -⟩ := s₁.findings.fieldTypes.get?_publish_cases field own
    obtain ⟨rfl, rfl⟩ := EStateM.Result.ok.inj h
    change Registry.get? (Registry.publish _ _ _) _ = some (Option.getD (Registry.get? _ _) _)
    rw [hb]
    rfl

theorem answer_of_get? (deep : p.symbols.size < p.requestDepth)
    (h : s.findings.fieldTypes.get? field = some known) :
    p.answer (.fieldType field list) s = .ok known s := by
  obtain ⟨depth, hanswer⟩ := answer_eq_perform deep
  rw [hanswer]
  exact fieldType_of_get? h

/-- A request that makes others computes a type of its own. -/
theorem exists_own_of_asks (hpending : p.Pending list s.findings.fieldTypes) (formed : p.Formed)
    (hfield : p.symbols.field? field = .ok (some data)) (hasks : p.Asks (.fieldType field list, s) y)
    (h : p.fieldType p.answer field list s = .ok known t) :
    ∃ own u, BindM.isolated (p.bindFieldType p.answer field list) s = .ok own u := by
  obtain ⟨ask, -, hdiffers⟩ := hasks
  have hmem : field ∉ list := fun hmem => by
    obtain ⟨verdict, hverdict⟩ := circularType_yields formed hfield
    exact hdiffers ((fieldType_of_mem hmem hpending hverdict).trans
      (fieldType_of_mem hmem hpending hverdict).symm)
  have hget : s.findings.fieldTypes.get? field = none := by
    by_contra hget
    obtain ⟨old, hold⟩ := Option.ne_none_iff_exists'.1 hget
    exact hdiffers ((fieldType_of_get? hold).trans (fieldType_of_get? hold).symm)
  simp only [fieldType_eq, hget, if_neg hmem] at h
  obtain ⟨own, u, hown, -⟩ := exists_of_run_bind h
  exact ⟨own, u, hown⟩

theorem isCircular_of_circularType (h : p.circularType field = .ok known) : known.IsCircular := by
  obtain ⟨_, -, h⟩ := exists_of_bind_eq_ok h
  obtain ⟨_, -, h⟩ := exists_of_bind_eq_ok h
  obtain ⟨d, hd, rfl⟩ := exists_of_bind_pure_eq_ok h
  exact ⟨rfl, d, rfl, message_of_diagnostic hd⟩

end verdict

/-! ### Inference -/

section inference

variable {field : SymbolId} {data : FieldData} {s : BindState}

/-- A request for the type of a field returns.  It does not reach the bottom of the requests, so
that whatever fault stands there is not the fault it ends with. -/
theorem answer_fieldType_returns (hfield : p.symbols.field? field = .ok (some data))
    (sound : Sound p s.findings) : ∃ known t, p.answer (.fieldType field []) s = .ok known t := by
  obtain ⟨x, hx, -⟩ := exists_of_field? hfield
  have hends : ∀ fault, Ends (· = fault) (p.answer (.fieldType field [])) s fun _ _ => True := by
    intro fault
    let _ : Endless := ⟨fault⟩
    have spec : ∀ depth, AskerSpec p (p.perform^[depth] fun _ => throw fault) := by
      intro depth
      induction depth with
      | zero => exact ⟨fun _ _ _ => .of_throw, fun _ _ _ _ => .of_throw, fun _ _ _ _ => .of_throw,
        fun _ _ _ => .of_throw, fun _ _ _ _ _ => .of_throw⟩
      | succ depth ih =>
        rw [Function.iterate_succ_apply']
        exact formed.perform_spec ih
    have hsteps := (spec p.requestDepth).fieldType s.findings [] (SymbolTable.lt_of_getElem? hx) s
      sound.stage
    unfold Ends
    rw [← iterate_eq_answer (fun _ => throw fault) formed plain deep deep hfield .nil]
    exact Ends.imp hsteps fun _ _ _ => trivial
  cases h : p.answer (.fieldType field []) s with
  | ok known t => exact ⟨known, t, rfl⟩
  | error fault t =>
    have hfault := (hends .endlessRequests).excused_of_error h
    cases hfault.symm.trans ((hends .localWithoutScope).excused_of_error h)

/-- What is published of a field within a request for its type is what the request returns, whatever
type it computes itself. -/
theorem Inferring.outer {list : List SymbolId} {verdict : Evaluated Ty}
    (hs : p.Inferring (.fieldType field list, s))
    (hreturned : returned (p.answer (.fieldType field list) s) = true)
    (hwithin : Relation.TransGen p.Asks (.fieldType field list, s) y)
    (hverdict : (typesAfter (p.answer y.1 y.2)).get? field = some verdict) :
    ∃ own u t, BindM.isolated (p.bindFieldType p.answer field list) s = .ok own u ∧
      p.answer (.fieldType field list) s = .ok verdict t := by
  have hgrows := (hs.run formed plain deep hwithin).grows hverdict
  obtain ⟨z, hasks, -⟩ := Relation.TransGen.head'_iff.1 hwithin
  cases hs with
  | written h => exact h.elim
  | fieldType hfield _ _ pending =>
    cases h : p.answer (.fieldType field list) s with
    | error fault t =>
      rw [h] at hreturned
      cases hreturned
    | ok known t =>
      have hperform : p.fieldType p.answer field list s = .ok known t :=
        (perform_answer formed plain deep hfield pending).trans h
      rw [h] at hgrows
      obtain rfl := Option.mem_unique (get?_of_fieldType hperform) hgrows
      obtain ⟨own, u, hown⟩ := exists_own_of_asks pending formed hfield hasks hperform
      exact ⟨own, u, t, hown, rfl⟩

omit formed deep in
include plain in
/-- Inferring the type of a field comes to an end, at a depth that the number of symbols bounds.
The requests on the way list each field once, and only fields that declare no type.  A field that is
on the list already is circular: that is published at once, and it is what every later request
returns, also the one in which its own type is being inferred and which computes a type of its own
in the end. -/
theorem field_types_inferred {d : Document} {options : Options} (hp : p.IsOf d options)
    (hfield : p.symbols.field? field = .ok (some data)) (reached : p.Reached s.findings) :
    ∃ known t, p.answer (.fieldType field []) s = .ok known t ∧
      (∀ depth, p.symbols.size < depth → p.answerWithin depth (.fieldType field []) s = .ok known t) ∧
      ∀ {other : SymbolId} {list : List SymbolId} {u : BindState},
        Relation.TransGen p.Asks (.fieldType field [], s) (.fieldType other list, u) →
        list.Nodup ∧ (∀ g ∈ list, p.IsImplicit g) ∧
        (other ∈ list → ∃ verdict u', p.answer (.fieldType other list) u = .ok verdict u' ∧
          verdict.IsCircular ∧ u'.findings.fieldTypes.get? other = some verdict ∧
          u'.findings.fieldTypes.Grows t.findings.fieldTypes ∧
          (∀ later : BindState, u'.findings.fieldTypes.Grows later.findings.fieldTypes → ∀ beingBound,
            p.answer (.fieldType other beingBound) later = .ok verdict later) ∧
          ∀ {outer : List SymbolId} {v : BindState},
            Relation.ReflTransGen p.Asks (.fieldType field [], s) (.fieldType other outer, v) →
            Relation.TransGen p.Asks (.fieldType other outer, v) (.fieldType other list, u) →
            ∃ own v₁ v₂, BindM.isolated (p.bindFieldType p.answer other outer) v = .ok own v₁ ∧
              p.answer (.fieldType other outer) v = .ok verdict v₂) := by
  have formed := hp.formed
  have deep : p.symbols.size < p.requestDepth := by
    obtain ⟨c, hc, hsymbols, hdepth⟩ := hp.declared
    rw [← hsymbols, ← hdepth]
    exact Compilation.size_lt_requestDepth hc
  have sound := (formed.idle_of_reached reached).sound
  obtain ⟨known, t, hanswer⟩ := answer_fieldType_returns formed plain deep hfield sound
  refine ⟨known, t, hanswer, fun depth hdepth => ?_, fun {other list u} hnested => ?_⟩
  · rw [answerWithin_eq_iterate, iterate_eq_answer noAsker formed plain deep hdepth hfield .nil, hanswer]
  have start : p.Inferring (.fieldType field [], s) := .fieldType hfield .nil nofun .nil
  have hnext := start.run formed plain deep hnested
  rw [hanswer] at hnext
  cases hnext.inferring with
  | written h => exact h.elim
  | fieldType hother nodup implicit pending =>
    refine ⟨nodup, implicit, fun hmem => ?_⟩
    obtain ⟨verdict, hverdict⟩ := circularType_yields formed hother
    have hrun : p.fieldType p.answer other list u = _ := fieldType_of_mem hmem pending hverdict
    have hrequest := (perform_answer formed plain deep hother pending).symm.trans hrun
    have hstands := get?_of_fieldType hrun
    refine ⟨verdict, _, hrequest, isCircular_of_circularType hverdict, hstands, ?_,
      fun later hlater _ => answer_of_get? deep (hlater hstands), fun {outer v} hleads hwithin => ?_⟩
    · have hgrows : Registry.Grows (typesAfter (p.answer (.fieldType other list) u)) _ := hnext.grows
      rwa [hrequest] at hgrows
    · have houter : p.Inferring (.fieldType other outer, v) ∧
          returned (p.answer (.fieldType other outer) v) = true := by
        rcases Relation.reflTransGen_iff_eq_or_transGen.1 hleads with heq | hleads
        · obtain ⟨hrequests, rfl⟩ := Prod.mk.inj heq
          rw [hrequests, hanswer]
          exact ⟨start, rfl⟩
        · have hcontains := start.run formed plain deep hleads
          rw [hanswer] at hcontains
          exact ⟨hcontains.inferring, hcontains.returned rfl⟩
      exact houter.1.outer formed plain deep houter.2 hwithin (by rw [hrequest]; exact hstands)

end inference

omit formed plain deep

/-- Fields `a = b` and `b = a`, whose types need each other. -/
def mutualDocument : Document := ⟨"mutual", [
  .identifier "b", .fieldDeclaration "a" .none none (some 0), .identifier "a",
  .fieldDeclaration "b" .none none (some 2), .compilationUnit [1, 3]]⟩

/-- Whether the type of a field is found to be circular, with requests at most `depth` deep. -/
def circularWithin (depth : Nat) (field : SymbolId) (c : Compilation) : Bool :=
  match c.program.answerWithin depth (.fieldType field []) {} with
  | .ok known _ => decide (known.value = .error ∧
      known.diagnostics.items.map (·.message) = [.circularFieldType])
  | .error .. => false

set_option maxRecDepth 20000 in
theorem circularWithin_mutual : Compilation.observe (fun c => (circularWithin 4 1 c,
    c.program.symbols.size, (c.program.symbols.field? 1).toOption.join.isSome)) mutualDocument {} =
      some (true, 3, true) := by
  cbv

/-- The type of `a` is asked for within the request for it, so that request returns the circular
one. -/
theorem field_types_inferred_mutual : ∃ p : Program, p.IsOf mutualDocument {} ∧ p.tree.Plain ∧
    ∃ known t, p.answer (.fieldType 1 []) {} = .ok known t ∧ known.IsCircular := by
  obtain ⟨c, htree, hc, hlook⟩ := Compilation.exists_of_observe _ circularWithin_mutual
  simp only [Prod.mk.injEq] at hlook
  obtain ⟨hcircular, hsize, hfield⟩ := hlook
  have hp : c.program.IsOf mutualDocument {} := ⟨htree, c, hc, rfl, rfl⟩
  have plain : c.program.tree.Plain := by
    intro node name arguments isUnbound hnode
    rw [Tree.node?_of_ofDocument htree] at hnode
    simpa [mutualDocument] using List.mem_of_getElem? hnode
  obtain ⟨data, hdata⟩ := Option.isSome_iff_exists.1 hfield
  have hfield : c.program.symbols.field? 1 = .ok (some data) := by
    cases hfound : c.program.symbols.field? 1 <;> simp_all [Except.toOption]
  obtain ⟨known, t, hanswer, hdepth, -⟩ :=
    field_types_inferred plain hp hfield (s := {}) Reached.start
  unfold circularWithin at hcircular
  rw [hdepth 4 (hsize ▸ Nat.lt_succ_self 3)] at hcircular
  obtain ⟨hvalue, hmessages⟩ := of_decide_eq_true hcircular
  obtain ⟨d, hitems, hmessage⟩ := List.map_eq_singleton_iff.1 hmessages
  exact ⟨c.program, hp, plain, known, t, hanswer, hvalue, d, hitems, hmessage⟩

end Program
end Bindery
