import Bindery.Proofs.Rules

/-! # What a constant is computed from

`Operand p F scope node field` says that the value at a node of an initializer is computed from the
constant of a field, so that it has no constant where the field has none.

* A name or a member of a class stands for the field; operators and casts pass the constants of
  their operands on; calls, assignments and conditional accesses have no constant at all.
* An ordering comparison is `null` if one operand is, whatever the other one.  So the other one does
  not count, and `F`, the findings that tell what is `null`, matters.
* Nothing is computed from the receivers of members and from types.

`Program.DependsOn` relates a constant to those that its initializer is computed from.  A constant
is `Grounded` if no such dependencies go on for ever. -/

namespace Bindery

variable (p : Program)

/-- The parts of an expression that has no constant, as far as they are bound in its own scope. -/
def Node.unfoldedParts : Node → List NodeId
  | .call callee arguments => callee :: arguments
  | .assignment _ left right => [left, right]
  | .conditionalAccess receiver _ => [receiver]
  | _ => []

/-- The scope in which the initializer of a constant is bound. -/
abbrev Chain.constantFields (scope : Chain) (tracker : Option Tracker) : Chain :=
  scope.push (.constantFields tracker) {}

/-- The expression at a node of an initializer is the name of a class. -/
inductive NamesClass (scope : Chain) : NodeId → SymbolId → Prop
  | name (hnode : p.tree.node? node = some (.identifier name))
      (hlookup : scope.lookup p name node = .ok (.symbols [type]))
      (htype : p.symbols.isType type = .ok true) : NamesClass scope node type
  | member (hnode : p.tree.node? node = some (.memberAccess left name))
      (hleft : NamesClass scope left outer)
      (hfound : p.symbols.lookupInHierarchy outer name = .ok [type])
      (htype : p.symbols.isType type = .ok true) : NamesClass scope node type

/-- By what is published, the value at a node of an initializer is `null`. -/
def Program.IsNull (F : Findings) (scope : Chain) (node : NodeId) : Prop :=
  ∃ g f tracker e trace, g.Grows F ∧
    Derives p g f (.expression (scope.constantFields tracker) node .rvalue e) trace ∧
    e.constant = some .null

/-- The value at a node of an initializer is computed from the constant of a field. -/
inductive Operand (F : Findings) (scope : Chain) : NodeId → SymbolId → Prop
  | name (hnode : p.tree.node? node = some (.identifier name))
      (hlookup : scope.lookup p name node = .ok (.symbols [field])) : Operand F scope node field
  | member (hnode : p.tree.node? node = some (.memberAccess left name))
      (hleft : NamesClass p scope left type)
      (hfound : p.symbols.lookupInHierarchy type name = .ok [field]) : Operand F scope node field
  | unary (hnode : p.tree.node? node = some (.unary op operand)) (h : Operand F scope operand field) :
      Operand F scope node field
  | left (hnode : p.tree.node? node = some (.binary op left right))
      (hnull : op.isRelational = true → ¬p.IsNull F scope right) (h : Operand F scope left field) :
      Operand F scope node field
  | right (hnode : p.tree.node? node = some (.binary op left right))
      (hnull : op.isRelational = true → ¬p.IsNull F scope left) (h : Operand F scope right field) :
      Operand F scope node field
  | cast (hnode : p.tree.node? node = some (.cast type operand)) (h : Operand F scope operand field) :
      Operand F scope node field
  | argument (hnode : p.tree.node? node = some (.argument name value))
      (h : Operand F scope value field) : Operand F scope node field
  | part (hnode : p.tree.node? node = some kind) (hpart : part ∈ kind.unfoldedParts)
      (h : Operand F scope part field) : Operand F scope node field

/-- The initializer of a constant is computed from another constant. -/
def Program.DependsOn (F : Findings) (field other : SymbolId) : Prop :=
  field ∈ p.symbols.constantFields ∧ other ∈ p.symbols.constantFields ∧
    ∃ scope node, p.initializerScope field = .ok (some scope) ∧
      (p.symbols.field? field).map (·.bind (·.initializer)) = .ok (some node) ∧
      Operand p F scope node other

/-- The dependencies of a constant come to an end. -/
def Program.Grounded (F : Findings) (field : SymbolId) : Prop :=
  Acc (fun other field => p.DependsOn F field other) field

/-- The constant of a field is published, and it is not bad. -/
def Findings.HasConstant (F : Findings) (field : SymbolId) : Prop :=
  ∃ known, F.constants.get? field = some known ∧ known.value ≠ .bad

variable {p}

namespace SymbolTable

variable {t : SymbolTable} {id : SymbolId}

theorem kind_of_isType (h : t.isType id = .ok true) : ∃ data, t.kind id = .ok (.type data) := by
  obtain ⟨s, hs, htype⟩ := exists_of_map_fetch h
  cases hkind : s.kind with
  | type data => exact ⟨data, hkind ▸ map_fetch _ hs⟩
  | _ => simp [Symbol.isType, hkind] at htype

theorem kind_of_isMethod (h : t.isMethod id = .ok true) : ∃ data, t.kind id = .ok (.method data) := by
  obtain ⟨s, hs, hmethod⟩ := exists_of_map_fetch h
  cases hkind : s.kind with
  | method data => exact ⟨data, hkind ▸ map_fetch _ hs⟩
  | _ => simp [Symbol.isMethod, hkind] at hmethod

end SymbolTable

/-! ### Constants of expressions -/

section constants

variable {e e' : Expr} {trace : Trace} {c : Constant}

theorem Expr.ne_error_of_constant (hc : e.constant = some c) (node : NodeId) : e ≠ .error node := by
  rintro rfl
  simp [Expr.error, Expr.plain] at hc

theorem Expr.ne_error_of_isError (he : e.isError = false) (node : NodeId) : e ≠ .error node := by
  rintro rfl
  cases he

theorem Checks.eq_of_ne_error {kind : ValueKind} (h : Checks p kind e e' trace)
    (he : ∀ node, e' ≠ .error node) : e' = e := by
  cases h with
  | broken | passed => rfl
  | refused => exact absurd rfl (he e.node)

variable {node : NodeId} {target : Ty} {explicit : Bool}

theorem Converts.exists_constant (h : Converts p explicit e target e' trace)
    (hc : e'.constant = some c) :
    ∃ b, e.constant = some b := by
  cases h with
  | same => exact ⟨c, hc⟩
  | refused => simp [Expr.error, Expr.plain] at hc
  | done =>
    obtain ⟨b, hb, -⟩ := Option.bind_eq_some_iff.1 (show e.constant.bind _ = some c from hc)
    exact ⟨b, hb⟩

/-- Only `null` becomes `null`. -/
theorem Constant.eq_null_of_foldConversion {cast : Cast}
    (h : c.foldConversion target cast = some .null) : c = .null := by
  cases c with
  | null => rfl
  | value v =>
    simp only [foldConversion] at h
    split at h
    · simp at h
    · split at h <;> simp at h

theorem Converts.constant_eq_null (h : Converts p explicit e target e' trace)
    (hc : e'.constant = some .null) :
    e.constant = some .null := by
  cases h with
  | same => exact hc
  | refused => simp [Expr.error, Expr.plain] at hc
  | done =>
    obtain ⟨b, hb, hfold⟩ := Option.bind_eq_some_iff.1
      (show e.constant.bind _ = some Constant.null from hc)
    rw [hb, Constant.eq_null_of_foldConversion hfold]

theorem Negates.exists_constant {op : UnaryOp} (h : Negates op e node e' trace)
    (hc : e'.constant = some c) : ∃ b, e.constant = some b := by
  cases h with
  | broken | refused => simp [Expr.error, Expr.plain] at hc
  | done =>
    obtain ⟨b, hb, -⟩ := Option.bind_eq_some_iff.1 (show e.constant.bind _ = some c from hc)
    exact ⟨b, hb⟩

/-- An operation needs the constants of both operands, but for a comparison with `null`. -/
theorem Combines.exists_constants {op : BinaryOp} {left right : Expr}
    (h : Combines p op left right node e trace) (hc : e.constant = some c) :
    ((∃ a, left.constant = some a) ∨ op.isRelational = true ∧ right.constant = some .null) ∧
      ((∃ b, right.constant = some b) ∨ op.isRelational = true ∧ left.constant = some .null) := by
  cases h with
  | broken | refused => simp [Expr.error, Expr.plain] at hc
  | done _ _ _ ha hb _ =>
    change foldedConstant op _ _ = some c at hc
    unfold foldedConstant at hc
    split at hc
    · next hleft hright =>
      exact ⟨.inl (ha.exists_constant hleft), .inl (hb.exists_constant hright)⟩
    · simp at hc
  | null _ _ _ ha hb hnull =>
    simp only [comparesNull, Bool.and_eq_true, Bool.or_eq_true, decide_eq_true_eq] at hnull
    obtain ⟨hop, hnull | hnull⟩ := hnull
    · have hleft := ha.constant_eq_null hnull
      exact ⟨.inl ⟨_, hleft⟩, .inr ⟨hop, hleft⟩⟩
    · have hright := hb.constant_eq_null hnull
      exact ⟨.inr ⟨hop, hright⟩, .inl ⟨_, hright⟩⟩

theorem Assigns.constant_eq_none {op : Option BinaryOp} {left right : Expr}
    (h : Assigns p left right node op e trace) : e.constant = none := by
  cases h <;> rfl

end constants

namespace Derives

variable {F f : Findings} {chain : Chain} {node : NodeId} {kind : ValueKind} {e : Expr}
  {trace : Trace} {c : Constant}

theorem constant_of_call {callee : Expr} {arguments : List Argument}
    (h : Derives p F f (.call chain callee arguments node e) trace) : e.constant = none := by
  cases h <;> rfl

/-- Only nodes of types name types. -/
theorem type_eq_error {t : Ty} {n : Node} (h : Derives p F f (.type chain node t) trace)
    (hnode : p.tree.node? node = some n) (hn : n.isType = false) : t = .error := by
  cases h with
  | brokenType | refusedType => rfl
  | nullableType hkind | simpleType hkind | namedType hkind | constructedType hkind =>
    obtain rfl := Option.mem_unique hnode hkind
    cases hn

/-- What an expression that is not refused is made of, by the kind of its node. -/
theorem unchecked_form {n : Node} (h : Derives p F f (.unchecked chain node kind e) trace)
    (hnode : p.tree.node? node = some n) (he : e ≠ .error node) :
    match n with
    | .literal _ | .memberBinding _ => True
    | .identifier name => ∃ first, Derives p F f (.name chain name node e) first
    | .memberAccess left name => ∃ receiver first second,
      Derives p F f (.expression chain left .insignificant receiver) first ∧
      Derives p F f (.access chain receiver name node e) second
    | .argument _ value => ∃ first, Derives p F f (.unchecked chain value kind e) first
    | .binary op left right => ∃ a b first second third,
      Derives p F f (.expression chain left .rvalue a) first ∧
      Derives p F f (.expression chain right .rvalue b) second ∧ Combines p op a b node e third
    | .unary op operand => ∃ kind a first second,
      Derives p F f (.expression chain operand kind a) first ∧ Negates op a node e second
    | .cast _ operand => ∃ t a first second,
      Derives p F f (.expression chain operand .rvalue a) first ∧ Converts p true a t e second
    | _ => e.constant = none := by
  cases h with
  | literal hkind | memberBinding hkind =>
    obtain rfl := Option.mem_unique hnode hkind
    trivial
  | identifier hkind h =>
    obtain rfl := Option.mem_unique hnode hkind
    exact ⟨_, h⟩
  | memberAccess hkind hreceiver h =>
    obtain rfl := Option.mem_unique hnode hkind
    exact ⟨_, _, _, hreceiver, h⟩
  | argumentNode hkind h =>
    obtain rfl := Option.mem_unique hnode hkind
    exact ⟨_, h⟩
  | binary hkind hleft hright h =>
    obtain rfl := Option.mem_unique hnode hkind
    exact ⟨_, _, _, _, _, hleft, hright, h⟩
  | unary hkind hoperand h =>
    obtain rfl := Option.mem_unique hnode hkind
    exact ⟨_, _, _, _, hoperand, h⟩
  | cast hkind _ hoperand h =>
    obtain rfl := Option.mem_unique hnode hkind
    exact ⟨_, _, _, _, hoperand, h⟩
  | call hkind _ _ h =>
    obtain rfl := Option.mem_unique hnode hkind
    exact h.constant_of_call
  | assignment hkind _ _ h =>
    obtain rfl := Option.mem_unique hnode hkind
    exact h.constant_eq_none
  | conditionalAccess hkind =>
    obtain rfl := Option.mem_unique hnode hkind
    dsimp only
    unfold Program.conditionalAccess
    split <;> rfl
  | typeOf hkind =>
    obtain rfl := Option.mem_unique hnode hkind
    dsimp only
    split <;> rfl
  | typeExpression h =>
    cases hn : n.isType with
    | true =>
      cases n <;> simp only [Node.isType, reduceCtorEq] at hn
      all_goals
        dsimp only
        split <;> rfl
    | false =>
      refine absurd ?_ he
      rw [h.type_eq_error hnode hn]
      rfl
  | brokenConditional | refusedExpression | noExpression => exact absurd rfl he

theorem expression_form (h : Derives p F f (.expression chain node kind e) trace)
    (he : ∀ node, e ≠ .error node) :
    ∃ first, Derives p F f (.unchecked chain node kind e) first := by
  cases h with
  | expression h hchecks =>
    obtain rfl := hchecks.eq_of_ne_error he
    exact ⟨_, h⟩

variable {receiver : Option Expr} {field : SymbolId}

theorem members_constant
    (h : Derives p F f (.members chain receiver [field] node e) trace) (hc : e.constant = some c) :
    F.HasConstant field := by
  cases h with
  | constantField hfield _ _ _ hevaluated hvalue =>
    obtain rfl := List.mem_singleton.1 hfield
    exact ⟨_, hevaluated, by simp [hvalue]⟩
  | methods | field | badConstantField | typeMember | refusedMember =>
    simp [Expr.error, Expr.plain] at hc

/-- A name that members of one container share is bound to them. -/
theorem name_form {name : String} {found : List SymbolId}
    (h : Derives p F f (.name chain name node e) trace)
    (hlookup : chain.lookup p name node = .ok (.symbols found)) (he : e ≠ .error node) :
    ∃ first, Derives p F f (.members chain none found node e) first := by
  cases h with
  | memberName hfound h =>
    obtain rfl : _ = found := by simpa using hfound.symm.trans hlookup
    exact ⟨_, h⟩
  | refusedName => exact absurd rfl he
  | localVariable hother | constantLocal hother | localFunction hother | parameter hother
  | strayParameter hother | templateValue hother | templateType hother | primitiveName hother =>
    simp [hlookup] at hother

variable {type : SymbolId}

theorem members_type (h : Derives p F f (.members chain receiver [type] node e) trace)
    (htype : p.symbols.isType type = .ok true) (he : e.isError = false) :
    e.type.definition? = some type := by
  obtain ⟨data, hkind⟩ := SymbolTable.kind_of_isType htype
  cases h with
  | typeMember hmem =>
    obtain rfl := List.mem_singleton.1 hmem
    rfl
  | @methods methods _ _ _ _ _ hne hmethods =>
    obtain ⟨m, hm⟩ := List.exists_mem_of_ne_nil methods hne
    obtain ⟨hmem, hmethod⟩ := hmethods m hm
    obtain rfl := List.mem_singleton.1 hmem
    obtain ⟨data', hkind'⟩ := SymbolTable.kind_of_isMethod hmethod
    simp [hkind] at hkind'
  | field hmem hfield | constantField hmem hfield | badConstantField hmem hfield =>
    obtain rfl := List.mem_singleton.1 hmem
    simp [hkind] at hfield
  | refusedMember => cases he

variable {tracker : Option Tracker}

/-- What names a class is bound to the class, if it is not refused. -/
theorem definition_of_namesClass {scope : Chain} (hclass : NamesClass p scope node type)
    (h : Derives p F f (.expression (scope.constantFields tracker) node kind e) trace)
    (he : e.isError = false) : e.type.definition? = some type := by
  induction hclass generalizing kind e trace with
  | @name node name type hnode hlookup htype =>
    obtain ⟨first, h⟩ := h.expression_form (Expr.ne_error_of_isError he)
    obtain ⟨second, h⟩ := h.unchecked_form hnode (Expr.ne_error_of_isError he node)
    obtain ⟨third, h⟩ := h.name_form hlookup (Expr.ne_error_of_isError he node)
    exact h.members_type htype he
  | @member node left name outer type hnode _ hfound htype ih =>
    obtain ⟨first, h⟩ := h.expression_form (Expr.ne_error_of_isError he)
    obtain ⟨receiver, second, third, hreceiver, h⟩ :=
      h.unchecked_form hnode (Expr.ne_error_of_isError he node)
    cases h with
    | brokenAccess | refusedAccess => cases he
    | access hok hcontainer hlookup h =>
      obtain rfl : _ = outer := Option.mem_unique hcontainer (ih hreceiver hok)
      obtain rfl : _ = [type] := ok_unique hlookup hfound
      exact h.members_type htype he

/-- An initializer has a constant only if what it is computed from has. -/
theorem operand_constant {G : Findings} {scope : Chain}
    (hoperand : Operand p G scope node field) (hgrows : F.Grows G)
    (h : Derives p F f (.unchecked (scope.constantFields tracker) node kind e) trace)
    (hc : e.constant = some c) : F.HasConstant field := by
  induction hoperand generalizing kind e trace c with
  | @name node name field hnode hlookup =>
    obtain ⟨first, h⟩ := h.unchecked_form hnode (Expr.ne_error_of_constant hc node)
    obtain ⟨second, h⟩ := h.name_form hlookup (Expr.ne_error_of_constant hc node)
    exact h.members_constant hc
  | @member node left name type field hnode hleft hfound =>
    obtain ⟨receiver, first, second, hreceiver, h⟩ :=
      h.unchecked_form hnode (Expr.ne_error_of_constant hc node)
    cases h with
    | brokenAccess | refusedAccess => exact absurd rfl (Expr.ne_error_of_constant hc node)
    | access hok hcontainer hlookup h =>
      obtain rfl : _ = type := Option.some.inj
        (hcontainer.symm.trans (definition_of_namesClass hleft hreceiver hok))
      obtain rfl : _ = [field] := ok_unique hlookup hfound
      exact h.members_constant hc
  | @unary node _ _ _ hnode _ ih =>
    obtain ⟨_, a, first, second, h, hnegates⟩ :=
      h.unchecked_form hnode (Expr.ne_error_of_constant hc node)
    obtain ⟨_, ha⟩ := hnegates.exists_constant hc
    obtain ⟨_, h⟩ := h.expression_form (Expr.ne_error_of_constant ha)
    exact ih h ha
  | @left node _ _ _ _ hnode hnull _ ih =>
    obtain ⟨a, b, first, second, third, h, hother, hcombines⟩ :=
      h.unchecked_form hnode (Expr.ne_error_of_constant hc node)
    obtain ⟨_, ha⟩ := (hcombines.exists_constants hc).1.resolve_right fun ⟨hop, hb⟩ =>
      hnull hop ⟨F, f, tracker, b, second, hgrows, hother, hb⟩
    obtain ⟨_, h⟩ := h.expression_form (Expr.ne_error_of_constant ha)
    exact ih h ha
  | @right node _ _ _ _ hnode hnull _ ih =>
    obtain ⟨a, b, first, second, third, hother, h, hcombines⟩ :=
      h.unchecked_form hnode (Expr.ne_error_of_constant hc node)
    obtain ⟨_, hb⟩ := (hcombines.exists_constants hc).2.resolve_right fun ⟨hop, ha⟩ =>
      hnull hop ⟨F, f, tracker, a, first, hgrows, hother, ha⟩
    obtain ⟨_, h⟩ := h.expression_form (Expr.ne_error_of_constant hb)
    exact ih h hb
  | @cast node _ _ _ hnode _ ih =>
    obtain ⟨t, a, first, second, h, hconverts⟩ :=
      h.unchecked_form hnode (Expr.ne_error_of_constant hc node)
    obtain ⟨_, ha⟩ := hconverts.exists_constant hc
    obtain ⟨_, h⟩ := h.expression_form (Expr.ne_error_of_constant ha)
    exact ih h ha
  | @argument node _ _ _ hnode _ ih =>
    obtain ⟨first, h⟩ := h.unchecked_form hnode (Expr.ne_error_of_constant hc node)
    exact ih h hc
  | @part node n _ _ hnode hpart _ _ =>
    have hform := h.unchecked_form hnode (Expr.ne_error_of_constant hc node)
    have hnone : e.constant = none := by
      cases n <;> first | exact hform | simp [Node.unfoldedParts] at hpart
    simp [hnone] at hc

end Derives

end Bindery
