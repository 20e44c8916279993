import Bindery.Proofs.StatementTyping

/-! # The places of parameters

A signature has one type for each parameter of its method.  The ordinal of a parameter is its place
in the list that the method was declared with, and what is no parameter is passed over there.
References and default values look up the type in the signature by the ordinal, so they see the type
of the parameter exactly as far as nothing was passed over before it
(`Compilation.parameters_typed_by_place`). -/

namespace Bindery

variable {p : Program} {F : Findings}

/-- The type of the parameter of an ordinal. -/
def Signature.typeAt (signature : Signature) (ordinal : Nat) : Ty :=
  (signature.parameters[ordinal]?).getD .error

/-- The `k`-th parameter of a method that was declared with the list `nodes`: where it stands there,
its own type in the signature, and the type that it is seen with. -/
structure TypedByPlace (p : Program) (F g : Findings) (chain : Chain) (nodes : List NodeId)
    (signature : Signature) (k : Nat) (s : Symbol) (data : ParameterData) : Prop where
  place : ∃ n, s.declaration = some n ∧ nodes[data.ordinal]? = some n
  counted : (nodes.take data.ordinal).countP p.tree.isParameter = k
  ordinal_eq_iff : data.ordinal = k ↔ ∀ n ∈ nodes.take data.ordinal, p.tree.isParameter n = true
  own : ∃ t trace, signature.parameters[k]? = some t ∧
    Derives p F g (.variableType chain data.type t) trace
  reference : ∀ state : BindState, F.Grows state.findings →
    p.parameterType p.answer s.id state = .ok (signature.typeAt data.ordinal) state
  default : ∀ node, data.defaultValue = some node → ∃ known value g trace,
    F.defaults.get? s.id = some known ∧ known.value = some value ∧
      GivesDefault p F g (signature.typeAt data.ordinal) value trace

theorem ordinal_eq_count_iff {nodes : List NodeId} {test : NodeId → Bool} {ordinal k : Nat} {n : NodeId}
    (hplace : nodes[ordinal]? = some n) (hcount : (nodes.take ordinal).countP test = k) :
    ordinal = k ↔ ∀ n ∈ nodes.take ordinal, test n = true := by
  have hlt : ordinal < nodes.length := (List.getElem?_eq_some_iff.1 hplace).1
  rw [← List.countP_eq_length, hcount, List.length_take, Nat.min_eq_left hlt.le]
  exact eq_comm

theorem Each.getElem? {α β : Type} {R : α → β → Trace → Prop} {list : List α} {results : List β}
    {trace : Trace} (h : Each R list results trace) {k : Nat} {a : α} (ha : list[k]? = some a) :
    ∃ b part, results[k]? = some b ∧ R a b part := by
  induction h generalizing k with
  | nil => simp at ha
  | cons head _ ih =>
    cases k with
    | zero =>
      obtain rfl := Option.some.inj ha
      exact ⟨_, _, rfl, head⟩
    | succ k => exact ih ha

namespace Program

variable {method parameter : SymbolId} {known : Evaluated Signature} {state : BindState}

/-- A signature that is published is not bound again. -/
theorem answer_signature (deep : p.symbols.size < p.requestDepth)
    (h : state.findings.signatures.get? method = some known) :
    p.answer (.signature method) state = .ok known state := by
  obtain ⟨depth, hanswer⟩ := answer_eq_perform deep
  rw [hanswer]
  change p.signature (p.answerWithin depth) method state = _
  simp only [signature, BindM.findings, bind, EStateM.bind, get, getThe, MonadStateOf.get, EStateM.get,
    pure, EStateM.pure, h]

theorem parameterType_published {data : ParameterData} (deep : p.symbols.size < p.requestDepth)
    (hmethod : p.symbols.containing? parameter = .ok (some method))
    (hdata : p.symbols.parameter? parameter = .ok (some data))
    (h : state.findings.signatures.get? method = some known) :
    p.parameterType p.answer parameter state = .ok (known.value.typeAt data.ordinal) state := by
  rw [parameterType, hmethod, hdata]
  change EStateM.bind (p.answer (.signature method)) _ state = _
  rw [EStateM.bind, answer_signature deep h]
  rfl

end Program

namespace Compilation

variable {d : Document} {options : Options} {c : Compilation} {scope : GlobalScope}

/-- Default values are published, converted to the type that the parameter is seen with. -/
theorem Compiles.exists_default (h : Compiles d options c scope F) {id : Nat} {s : Symbol}
    {data : ParameterData} {node : NodeId} (hs : c.program.symbols.symbols[id]? = some s)
    (hkind : s.kind = .parameter data) (hnode : data.defaultValue = some node) :
    ∃ known value g t trace, F.defaults.get? id = some known ∧ known.value = some value ∧
      ParameterType c.program F id t ∧ GivesDefault c.program F g t value trace := by
  obtain ⟨start, hgrows, settled, -⟩ := h.explained.code
  obtain ⟨q, hq, -⟩ := settled.declared hs
  unfold DeclaredIn at hq
  rw [hkind, (h.formed.table.entry hs).id_eq] at hq
  obtain ⟨known, hknown, -⟩ := hq (by rw [hnode]; rfl)
  have hpublished := hgrows.defaults hknown
  obtain ⟨hnone, hsome⟩ := h.sound.defaults hpublished F (.refl F)
  cases hvalue : known.value with
  | none =>
    have hno := hnone hvalue
    rw [Program.defaultNode?, Program.parameter?_eq hs, hkind] at hno
    cases hnode.symm.trans (Except.ok.inj hno)
  | some value =>
    obtain ⟨g, t, trace, htype, -, hgives⟩ := hsome value hvalue
    exact ⟨known, value, g, t, trace, hpublished, hvalue, htype, hgives⟩

/-- The signature of a method has one type for each of its parameters, bound from the type that is
written for it.  The parameters are seen with the types at their places in the list of the
method. -/
theorem parameters_typed_by_place (h : Compiles d options c scope F) {method : Nat} {m : Symbol}
    {data : MethodData} (hm : c.program.symbols.symbols[method]? = some m)
    (hdata : m.kind = .method data) :
    ∃ known g chain, F.signatures.get? method = some known ∧
      known.value.parameters.length = data.parameters.length ∧
      ∀ (k id : Nat), data.parameters[k]? = some id → ∃ s parameter,
        c.program.symbols.symbols[id]? = some s ∧ s.kind = .parameter parameter ∧
        TypedByPlace c.program F g chain (c.program.tree.parameterList m.declaration) known.value k s
          parameter := by
  obtain ⟨start, hgrows, settled, -⟩ := h.explained.code
  have hmethod : c.program.symbols.method? method = .ok (some data) := by
    rw [Program.method?_eq hm, hdata]
    rfl
  obtain ⟨known, hstart⟩ := settled.ownerKnown h.formed hmethod
  have hknown := hgrows.signatures hstart
  obtain ⟨g, trace, -, chain, ids, first, _, -, hids, heach, -⟩ :=
    (h.sound.signatures hknown).2 F (.refl F)
  obtain rfl : ids = data.parameters := by
    rw [SymbolTable.parameters, SymbolTable.map_kind _ hm, hdata] at hids
    exact (Except.ok.inj hids).symm
  refine ⟨known, g, chain, hknown, heach.length_eq, fun k id hid => ?_⟩
  obtain ⟨_, declares⟩ := h.declares
  have placed := declares.placed method m hm
  rw [hdata] at placed
  obtain ⟨s, parameter, n, hs, hkind, hcontaining, hn, hplace, hcount⟩ := placed k id hid
  have hparameter : c.program.symbols.parameter? id = .ok (some parameter) := by
    rw [Program.parameter?_eq hs, hkind]
    rfl
  have hseen : c.program.symbols.containing? id = .ok (some method) := by
    rw [Program.containing?_eq hs, hcontaining]
  refine ⟨s, parameter, hs, hkind, ⟨n, hn, hplace⟩, hcount,
    ordinal_eq_count_iff hplace hcount, ?_, ?_, ?_⟩
  · obtain ⟨t, part, ht, ⟨data', hdata', hderives⟩ | ⟨hnone, -⟩⟩ := heach.getElem? hid
    · obtain rfl := Option.some.inj (ok_unique hparameter hdata')
      exact ⟨t, part, ht, hderives⟩
    · cases hparameter.symm.trans hnone
  all_goals rw [(h.formed.table.entry hs).id_eq]
  · exact fun state hstate => Program.parameterType_published (size_lt_requestDepth h.declared) hseen
      hparameter (hstate.signatures hknown)
  · intro node hnode
    obtain ⟨found, value, g', t, part, hfound, hvalue, ⟨_, _, _, hmethod', hdata', hknown', rfl⟩,
      hgives⟩ := h.exists_default hs hkind hnode
    obtain rfl := Option.some.inj (ok_unique hseen hmethod')
    obtain rfl := Option.some.inj (ok_unique hparameter hdata')
    obtain rfl := Option.mem_unique hknown hknown'
    exact ⟨found, value, g', part, hfound, hvalue, hgives⟩

/-- `m(1, int p) {}`, where the list begins with a literal. -/
def shiftedDocument : Document := ⟨"shifted", [
  .literal (.int 1), .typeName "int" [] false, .parameter "p" 1 none, .block [],
  .methodDeclaration "m" .none none [0, 2] 3, .compilationUnit [4]]⟩

/-- The kinds of the symbols, and the types in the signature of a method. -/
def signatureSeen (method : SymbolId) (c : Compilation) : List SymbolKind × Option (List Ty) :=
  (c.program.symbols.symbols.toList.map (·.kind), match c.run with
    | .error _ => none
    | .ok (_, F) => (F.signatures.get? method).map (·.value.parameters))

set_option maxRecDepth 20000 in
theorem signatureSeen_shifted : observe (signatureSeen 1) shiftedDocument {} = some
    ([.global [1], .method { parameters := [2], body := some 3, isStatic := true },
      .parameter ⟨1, none, 1⟩], some [.primitive .int]) := by
  cbv

/-- The only parameter stands in the second place, so a reference to it has no type. -/
theorem parameters_typed_by_place_shifted : ∃ c scope F known,
    Compiles shiftedDocument {} c scope F ∧ F.signatures.get? 1 = some known ∧
    known.value.parameters = [.primitive .int] ∧
    c.program.parameterType c.program.answer 2 { findings := F } = .ok .error { findings := F } := by
  obtain ⟨c, htree, hc, h⟩ := exists_of_observe _ signatureSeen_shifted
  obtain ⟨hkinds, htypes⟩ := Prod.mk.inj h
  have hkind : ∀ i : Nat, (c.program.symbols.symbols[i]?).map (·.kind) = _ := fun i => by
    rw [← Array.getElem?_toList, ← List.getElem?_map, hkinds]
  split at htypes
  · cases htypes
  · next scope F hrun =>
    obtain ⟨known, hknown, htypes⟩ := Option.map_eq_some_iff.1 htypes
    have compiles : Compiles shiftedDocument {} c scope F := ⟨htree, hc, hrun⟩
    obtain ⟨m, hm, hdata⟩ := Option.map_eq_some_iff.1 (hkind 1)
    obtain ⟨known', g, chain, hknown', -, hplaces⟩ := parameters_typed_by_place compiles hm hdata
    obtain rfl := Option.mem_unique hknown hknown'
    obtain ⟨s, parameter, hs, hparameter, typed⟩ := hplaces 0 2 rfl
    obtain ⟨s', hs', hparameter'⟩ := Option.map_eq_some_iff.1 (hkind 2)
    obtain rfl := Option.mem_unique hs hs'
    obtain rfl := SymbolKind.parameter.inj (hparameter'.symm.trans hparameter)
    have href := typed.reference { findings := F } (.refl F)
    rw [(compiles.formed.table.entry hs).id_eq, Signature.typeAt, htypes] at href
    exact ⟨c, scope, F, known, compiles, hknown, htypes, href⟩

end Compilation
end Bindery
