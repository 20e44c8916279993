import Bindery.Proofs.ConstantEvaluation
import Bindery.Proofs.Contracts
import Bindery.Proofs.Typing

/-! # Types of constants

The constant of an expression and its type are computed apart from each other: by folding and by the
signatures of operators, by what is published about a constant and about its type.
`Constant.HasType` is how they belong together: `null` is of every nullable type, and a value is of
its primitive type, nullable or not.

* Every folding rule gives a constant of the type that goes with it (`Constant.hasType_foldBinary`
  and its neighbours).
* Every derived expression has a constant of its type (`Derives.constantTyped`), as long as no
  constant is published with the error type.  Such a constant is the one gap: an expression of the
  error type is not converted, so its constant would reach a place of any other type as it is.
* So it is in every context, whatever has been asked of it before
  (`Program.constants_agree_with_types`). -/

namespace Bindery

/-! ### Constants of a type -/

def Constant.HasType : Constant → Ty → Prop
  | .null, t => t.nullable = true
  | .value v, t => t.primitive? = some v.primitive

/-- An expression with a constant is not an error, and the constant is of its type. -/
def Expr.ConstantTyped (e : Expr) : Prop :=
  ∀ c, e.constant = some c → e.isError = false ∧ c.HasType e.type

namespace Value

variable {op : BinaryOp} {v a b : Value}

theorem primitive_checkedInt {n : Int} (h : checkedInt n = some v) :
    v.primitive = .int := by
  unfold checkedInt at h
  split at h
  · exact Option.some.inj h ▸ rfl
  · simp at h

theorem primitive_foldInts {a b : Int} (h : foldInts op a b = some v) :
    v.primitive = if op.isRelational then .bool else .int := by
  cases op with
  | add | subtract | multiply => exact primitive_checkedInt h
  | divide =>
    simp only [foldInts] at h
    split at h
    · simp at h
    · exact primitive_checkedInt h
  | modulo =>
    simp only [foldInts] at h
    split at h
    · simp at h
    · exact Option.some.inj h ▸ rfl
  | less | lessEqual | greater | greaterEqual => exact Option.some.inj h ▸ rfl
  | equal | notEqual | logicalAnd | logicalOr => simp [foldInts] at h

theorem primitive_foldDecimals {a b : Decimal} (h : foldDecimals op a b = some v) :
    v.primitive = if op.isRelational then .bool else .decimal := by
  cases op with
  | add | subtract | multiply | less | lessEqual | greater | greaterEqual =>
    exact Option.some.inj h ▸ rfl
  | divide | modulo =>
    simp only [foldDecimals] at h
    split at h
    · simp at h
    · exact Option.some.inj h ▸ rfl
  | equal | notEqual | logicalAnd | logicalOr => simp [foldDecimals] at h

theorem primitive_foldUnary {op : UnaryOp} {w : Value} (h : foldUnary op v = some w) :
    w.primitive = v.primitive := by
  unfold foldUnary at h
  split at h
  · exact primitive_checkedInt h
  all_goals first
    | exact Option.some.inj h ▸ rfl
    | simp at h

theorem primitive_truncateDecimal {d : Decimal} (h : truncateDecimal d = some v) :
    v.primitive = .int := by
  unfold truncateDecimal at h
  dsimp only at h
  split at h
  · exact Option.some.inj h ▸ rfl
  · simp at h

/-- A converted value is one of the type asked for. -/
theorem primitive_convert {w : Value} {target : Primitive} (h : v.convert target = some w) :
    w.primitive = target := by
  unfold convert at h
  split at h
  · exact Option.some.inj h ▸ rfl
  · exact primitive_truncateDecimal h
  · exact Option.some.inj h ▸ rfl
  · exact Option.some.inj h ▸ rfl
  · obtain ⟨_, -, rfl⟩ := Option.map_eq_some_iff.1 h
    rfl
  · obtain ⟨_, -, rfl⟩ := Option.map_eq_some_iff.1 h
    rfl
  · split at h
    · next heq => exact Option.some.inj h ▸ heq
    · simp at h

/-- An operator on two numbers of one type. -/
theorem primitive_foldBinary (hop : op ≠ .equal ∧ op ≠ .notEqual)
    (hsame : b.primitive = a.primitive) (hnumeric : a.primitive.isNumeric = true)
    (h : foldBinary op a b = some v) :
    v.primitive = if op.isRelational then .bool else a.primitive := by
  cases a with
  | int a =>
    cases b with
    | int b =>
      have hfold : foldInts op a b = some v := by cases op <;> simp_all [foldBinary]
      exact primitive_foldInts hfold
    | _ => simp [primitive] at hsame
  | decimal a =>
    cases b with
    | decimal b =>
      have hfold : foldDecimals op a b = some v := by cases op <;> simp_all [foldBinary]
      exact primitive_foldDecimals hfold
    | _ => simp [primitive] at hsame
  | _ => simp [primitive, Primitive.isNumeric] at hnumeric

/-- Joining strings. -/
theorem primitive_foldBinary_join (hstring : a.primitive = .string ∨ b.primitive = .string)
    (h : foldBinary .add a b = some v) :
    v.primitive = .string := by
  cases a with
  | string a => exact Option.some.inj h ▸ rfl
  | _ =>
    cases b with
    | string b => exact Option.some.inj h ▸ rfl
    | _ => simp [primitive] at hstring

/-- A logical operator. -/
theorem primitive_foldBinary_logical (hop : op = .logicalAnd ∨ op = .logicalOr)
    (h : foldBinary op a b = some v) :
    v.primitive = .bool := by
  rcases hop with rfl | rfl <;> cases a <;> cases b <;>
    first
    | exact Option.some.inj h ▸ rfl
    | simp [foldBinary, foldInts, foldDecimals] at h

end Value

namespace BinarySignature

/-- The common type of numbers is a type of numbers. -/
theorem isNumeric_of_numericOperand? {p q : Primitive} {lifted : Bool} {t : Ty}
    (h : numericOperand? p q lifted = some t) :
    ∃ r : Primitive, t.primitive? = some r ∧ r.isNumeric = true := by
  unfold numericOperand? at h
  split at h
  · obtain rfl := Option.some.inj h
    refine ⟨_, rfl, ?_⟩
    split <;> rfl
  · simp at h

/-- What the primitive types in a signature are, by the operator. -/
inductive Shape (op : BinaryOp) (signature : BinarySignature) : Prop
  | equality (hop : op = .equal ∨ op = .notEqual) (hresult : signature.result = .primitive .bool)
  | join (hop : op = .add)
      (hstring : signature.left.primitive? = some .string ∨ signature.right.primitive? = some .string)
      (hresult : signature.result.primitive? = some .string)
  | numeric {common : Primitive} (hop : op ≠ .equal ∧ op ≠ .notEqual)
      (hnumeric : common.isNumeric = true) (hleft : signature.left.primitive? = some common)
      (hright : signature.right.primitive? = some common)
      (hresult : signature.result.primitive? = some (if op.isRelational then .bool else common))
  | logical (hop : op = .logicalAnd ∨ op = .logicalOr)
      (hresult : signature.result.primitive? = some .bool)

variable {signature : BinarySignature}

theorem shape_ofPrimitives? {op : BinaryOp} {left right : Ty} {p q : Primitive}
    (h : ofPrimitives? op left right p q = some signature)
    (hp : left.primitive? = some p) (hq : right.primitive? = some q) : Shape op signature := by
  have arithmetic : (op ≠ .equal ∧ op ≠ .notEqual) → op.isRelational = false →
      (numericOperand? p q (left.nullable || right.nullable)).map uniform = some signature →
      Shape op signature := by
    intro hop hrelational h
    obtain ⟨t, ht, rfl⟩ := Option.map_eq_some_iff.1 h
    obtain ⟨r, hr, hnumeric⟩ := isNumeric_of_numericOperand? ht
    exact .numeric hop hnumeric hr hr (by rw [hrelational]; exact hr)
  cases op with
  | add =>
    simp only [ofPrimitives?] at h
    split at h
    · next hstring =>
      split at h
      · obtain rfl := Option.some.inj h
        simp only [Bool.or_eq_true, decide_eq_true_eq] at hstring
        refine .join rfl ?_ rfl
        rcases hstring with rfl | rfl
        · exact .inl hp
        · exact .inr hq
      · simp at h
    · exact arithmetic (by simp) rfl h
  | subtract | multiply | divide | modulo => exact arithmetic (by simp) rfl h
  | less | lessEqual | greater | greaterEqual =>
    obtain ⟨t, ht, rfl⟩ := Option.map_eq_some_iff.1 h
    obtain ⟨r, hr, hnumeric⟩ := isNumeric_of_numericOperand? ht
    exact .numeric (by simp) hnumeric hr hr rfl
  | logicalAnd | logicalOr =>
    simp only [ofPrimitives?] at h
    split at h
    · exact .logical (by simp) (Option.some.inj h ▸ rfl)
    · simp at h
  | equal | notEqual => simp [ofPrimitives?] at h

theorem shape_of? {op : BinaryOp} {left right : Ty}
    (h : of? op left right = some signature) : Shape op signature := by
  unfold of? at h
  split at h
  · obtain ⟨t, -, rfl⟩ := Option.map_eq_some_iff.1 h
    exact .equality (.inl rfl) rfl
  · obtain ⟨t, -, rfl⟩ := Option.map_eq_some_iff.1 h
    exact .equality (.inr rfl) rfl
  · split at h
    · next hp hq => exact shape_ofPrimitives? h hp hq
    · simp at h

end BinarySignature

namespace Constant

variable {op : BinaryOp} {c a b : Constant}

theorem hasType_foldConversion {c' : Constant} {target : Ty} {cast : Cast}
    (h : c.foldConversion target cast = some c') : c'.HasType target := by
  cases c with
  | null =>
    simp only [foldConversion] at h
    split at h
    · next hnullable => exact Option.some.inj h ▸ hnullable
    · simp at h
  | value v =>
    simp only [foldConversion] at h
    split at h
    · simp at h
    · split at h
      · next p hp =>
        obtain ⟨w, hw, rfl⟩ := Option.map_eq_some_iff.1 h
        exact hp.trans (congrArg some (Value.primitive_convert hw).symm)
      · simp at h

theorem hasType_foldUnary {op : UnaryOp} {c' : Constant} {t : Ty} (h : foldUnary op c = some c')
    (hc : c.HasType t) : c'.HasType t := by
  cases c with
  | null => simp [foldUnary] at h
  | value v =>
    obtain ⟨w, hw, rfl⟩ := Option.map_eq_some_iff.1 h
    exact Eq.trans hc (congrArg some (Value.primitive_foldUnary hw).symm)

/-- Comparing for equality. -/
theorem hasType_foldBinary_equality (hop : op = .equal ∨ op = .notEqual)
    (h : foldBinary op a b = some c) : c.HasType (.primitive .bool) := by
  rcases hop with rfl | rfl <;> cases a <;> cases b <;> exact Option.some.inj h ▸ rfl

/-- Other operators need two values. -/
theorem exists_of_foldBinary (hop : op ≠ .equal ∧ op ≠ .notEqual) (h : foldBinary op a b = some c) :
    ∃ v w u, a = .value v ∧ b = .value w ∧ c = .value u ∧ Value.foldBinary op v w = some u := by
  cases a with
  | null => cases op <;> simp_all [foldBinary]
  | value v =>
    cases b with
    | null => cases op <;> simp_all [foldBinary]
    | value w =>
      obtain ⟨u, hu, rfl⟩ := Option.map_eq_some_iff.1 h
      exact ⟨v, w, u, rfl, rfl, rfl, hu⟩

/-- An operator gives a constant of the type in its signature. -/
theorem hasType_foldBinary {left right : Ty} {signature : BinarySignature}
    (hsignature : BinarySignature.of? op left right = some signature)
    (h : foldBinary op a b = some c) (ha : a.HasType signature.left)
    (hb : b.HasType signature.right) :
    c.HasType signature.result := by
  cases BinarySignature.shape_of? hsignature with
  | equality hop hresult =>
    rw [hresult]
    exact hasType_foldBinary_equality hop h
  | join hop hstring hresult =>
    subst hop
    obtain ⟨v, w, u, rfl, rfl, rfl, hu⟩ := exists_of_foldBinary (by simp) h
    have hstring : v.primitive = .string ∨ w.primitive = .string :=
      hstring.imp (fun h => Option.some.inj (Eq.trans (Eq.symm ha) h))
        fun h => Option.some.inj (Eq.trans (Eq.symm hb) h)
    exact hresult.trans (congrArg some (Value.primitive_foldBinary_join hstring hu).symm)
  | numeric hop hnumeric hleft hright hresult =>
    obtain ⟨v, w, u, rfl, rfl, rfl, hu⟩ := exists_of_foldBinary hop h
    obtain rfl := Option.mem_unique hleft ha
    have hsame := Option.some.inj (Eq.trans (Eq.symm hb) hright)
    exact hresult.trans (congrArg some (Value.primitive_foldBinary hop hsame hnumeric hu).symm)
  | logical hop hresult =>
    obtain ⟨v, w, u, rfl, rfl, rfl, hu⟩ := exists_of_foldBinary (by rcases hop with rfl | rfl <;> simp) h
    exact hresult.trans (congrArg some (Value.primitive_foldBinary_logical hop hu).symm)

end Constant

/-! ### Expressions -/

namespace Expr

theorem constantTyped_of_none {e : Expr} (h : e.constant = none) : e.ConstantTyped := by
  intro c hc
  simp [h] at hc

theorem constantTyped_plain (kind : ExprKind) (t : Ty) (node : NodeId) :
    (plain kind t node).ConstantTyped := constantTyped_of_none rfl

theorem constantTyped_error (node : NodeId) : (error node).ConstantTyped := constantTyped_of_none rfl

theorem constantTyped_ofLiteral (value : Literal) (node : NodeId) :
    (ofLiteral value node).ConstantTyped := by
  intro c hc
  unfold ofLiteral at hc ⊢
  split at hc <;> obtain rfl := Option.some.inj hc <;> exact ⟨rfl, rfl⟩

end Expr

variable {p : Program}

variable {e e' : Expr} {node : NodeId} {trace : Trace}

theorem Converts.constantTyped {explicit : Bool} {target : Ty}
    (h : Converts p explicit e target e' trace) (he : e.ConstantTyped) : e'.ConstantTyped := by
  cases h with
  | same => exact he
  | refused => exact Expr.constantTyped_error _
  | done hok ht =>
    intro c hc
    obtain ⟨_, -, hfold⟩ := Option.bind_eq_some_iff.1 hc
    refine ⟨Expr.isError_castTo _ hok ht _, ?_⟩
    change c.HasType (e.castTo target _).type
    rw [Expr.type_castTo]
    exact Constant.hasType_foldConversion hfold

theorem Checks.constantTyped {kind : ValueKind} (h : Checks p kind e e' trace)
    (he : e.ConstantTyped) : e'.ConstantTyped := by
  cases h with
  | broken | passed => exact he
  | refused => exact Expr.constantTyped_error _

theorem Assigns.constantTyped {left right : Expr} {op : Option BinaryOp}
    (h : Assigns p left right node op e trace) : e.ConstantTyped := by
  cases h with
  | broken | refused => exact Expr.constantTyped_error _
  | plain | compound => exact Expr.constantTyped_plain _ _ _

/-- The operands of an operator, converted, have constants of the types in its signature. -/
theorem Converts.hasType {target : Ty} (h : Converts p false e target e' trace)
    (he : e.ConstantTyped) (ht : target.isError = false) {c : Constant}
    (hc : e'.constant = some c) : c.HasType target := by
  obtain ⟨hok, hc⟩ := h.constantTyped he c hc
  exact (h.type_eq hok ht).1 ▸ hc

theorem Combines.constantTyped {op : BinaryOp} {left right : Expr}
    (h : Combines p op left right node e trace) (hleft : left.ConstantTyped)
    (hright : right.ConstantTyped) : e.ConstantTyped := by
  cases h with
  | broken | refused => exact Expr.constantTyped_error _
  | @done signature a _ b _ hl hr hsignature ha hb _ =>
    obtain ⟨hlne, hrne, hne⟩ := BinarySignature.of?_isError hsignature (Expr.isError_of_type hl)
      (Expr.isError_of_type hr)
    intro c hc
    change foldedConstant op a b = some c at hc
    unfold foldedConstant at hc
    split at hc
    · next ca cb hca hcb =>
      exact ⟨hne, Constant.hasType_foldBinary hsignature hc (ha.hasType hleft hlne hca)
        (hb.hasType hright hrne hcb)⟩
    · simp at hc
  | null hl hr hsignature =>
    obtain ⟨-, -, hne⟩ := BinarySignature.of?_isError hsignature (Expr.isError_of_type hl)
      (Expr.isError_of_type hr)
    intro c hc
    obtain rfl := Option.some.inj hc
    exact ⟨hne, rfl⟩

theorem Negates.constantTyped {op : UnaryOp} {operand : Expr} (h : Negates op operand node e trace)
    (hoperand : operand.ConstantTyped) : e.ConstantTyped := by
  cases h with
  | broken | refused => exact Expr.constantTyped_error _
  | done hok _ =>
    intro c hc
    obtain ⟨before, hbefore, hfold⟩ := Option.bind_eq_some_iff.1 hc
    have htype : operand.type.isError = false := Expr.isError_of_type hok
    exact ⟨htype, Constant.hasType_foldUnary hfold (hoperand before hbefore).2⟩

/-! ### Derivations -/

/-- No constant with a value is published with the error type. -/
structure Findings.ConstantsTyped (F : Findings) : Prop where
  fields : ∀ {field : SymbolId} {known : Evaluated Ty} {evaluated : Evaluated FieldConstant}
    {c : Constant}, F.fieldTypes.get? field = some known → F.constants.get? field = some evaluated →
      evaluated.value = .value c → known.value.isError = false
  locals : ∀ {key : LocalKey} {t : Ty} {c : Constant}, F.localTypes.get? key = some t →
    F.localConstants.get? key = some (some c) → t.isError = false

/-- What a judgement says of constants and their types. -/
def Judgement.ConstantTyped (F : Findings) : Judgement → Prop
  | .argumentValue _ _ e | .name _ _ _ e | .members _ _ _ _ e | .access _ _ _ _ e | .call _ _ _ _ e
  | .unchecked _ _ _ e | .expression _ _ _ e | .converted _ _ _ e => e.ConstantTyped
  | .constant field (.value c) => ∀ known : Evaluated Ty, F.fieldTypes.get? field = some known →
      known.value.isError = false → c.HasType known.value
  | .localConstant key c => ∀ t, F.localTypes.get? key = some t → t.isError = false → c.HasType t
  | _ => True

variable {F : Findings}

/-- Every derived expression has a constant of its type. -/
theorem Derives.constantTyped (typed : F.ConstantsTyped) {f : Findings} {j : Judgement}
    (h : Derives p F f j trace) : j.ConstantTyped F := by
  induction h with
  | nameArgument _ _ hchecks ih => exact hchecks.constantTyped ih
  | expressionArgument _ ih => exact ih
  | refusedArgument | refusedName | refusedExpression | noExpression | refusedMember | brokenAccess
  | refusedAccess | brokenCall | refusedCall | brokenConditional => exact Expr.constantTyped_error _
  | localVariable | field | badConstantField => exact Expr.constantTyped_of_none rfl
  | localFunction | parameter | strayParameter | templateValue | templateType | primitiveName
  | methods | typeMember | methodCall | functionCall => exact Expr.constantTyped_plain _ _ _
  | constantLocal _ _ _ htype hvalue _ hF _ ih =>
    intro c hc
    obtain rfl := Option.some.inj hc
    have hok := typed.locals (hF.localTypes htype)
      (hF.localConstants (Option.join_eq_some_iff.1 hvalue))
    exact ⟨hok, ih _ (hF.localTypes htype) hok⟩
  | constantField _ _ _ htype hevaluated hvalue _ ih =>
    intro c hc
    obtain rfl := Option.some.inj hc
    have hok := typed.fields htype hevaluated hvalue
    exact ⟨hok, ih _ htype hok⟩
  | memberName _ _ ih => exact ih
  | access _ _ _ _ ih => exact ih
  | literal => exact Expr.constantTyped_ofLiteral _ _
  | identifier _ _ ih => exact ih
  | memberAccess _ _ _ _ ih => exact ih
  | conditionalAccess =>
    refine Expr.constantTyped_of_none ?_
    unfold Program.conditionalAccess
    split <;> rfl
  | memberBinding _ _ _ _ _ ih => exact ih
  | call _ _ _ _ _ _ ih => exact ih
  | argumentNode _ _ ih => exact ih
  | assignment _ _ _ h => exact h.constantTyped
  | binary _ _ _ h ihleft ihright => exact h.constantTyped ihleft ihright
  | unary _ _ h ih => exact h.constantTyped ih
  | cast _ _ _ h _ ih => exact h.constantTyped ih
  | typeOf | typeExpression =>
    refine Expr.constantTyped_of_none ?_
    split <;> rfl
  | expression _ hchecks ih => exact hchecks.constantTyped ih
  | converted _ hconverts ih => exact hconverts.constantTyped ih
  | constantValue htype h hconstant ih =>
    intro known hknown hok
    obtain rfl := Option.mem_unique htype hknown
    obtain ⟨hvalue, hc⟩ := ih _ hconstant
    exact (h.typed.2 hvalue hok) ▸ hc
  | declaredLocal htype h hconstant ih =>
    intro t ht hok
    obtain rfl := Option.mem_unique htype ht
    obtain ⟨hvalue, hc⟩ := ih _ hconstant
    exact (h.typed.2 hvalue hok) ▸ hc
  | inferredLocal htype hcases h hconstant ih =>
    intro t ht hok
    obtain rfl := Option.mem_unique htype ht
    rcases hcases with rfl | rfl
    · exact (ih _ hconstant).2
    · simp [Ty.isError, Ty.error] at hok
  | _ => trivial

/-! ### Contexts -/

/-- What can be asked of a context. -/
inductive Inquiry where
  | signature (method : SymbolId)
  | fieldType (field : SymbolId) (beingBound : List SymbolId)
  /-- The constant of a field, perhaps while that of another field is tracked. -/
  | constant (field : SymbolId) (tracking : Option SymbolId)
  | default (parameter : SymbolId)
  | templateParameters (type : SymbolId)
  | body (method : SymbolId)
  | initializer (field : SymbolId)
  | type (chain : Chain) (node : NodeId)
  | expression (chain : Chain) (node : NodeId) (kind : ValueKind)

namespace Inquiry

/-- Asking, whatever the answer is. -/
def ask (p : Program) : Inquiry → BindM Unit
  | .signature method => do let _ ← p.signatureOf method
  | .fieldType field beingBound => do let _ ← p.fieldTypeOf field beingBound
  | .constant field tracking => do
    let _ ← p.fieldConstantOf field (← tracking.mapM BindM.newTracker)
  | .default parameter => do let _ ← p.defaultOf parameter
  | .templateParameters symbol => do let _ ← p.bindTemplateParameters symbol
  | .body method => do let _ ← p.bindBody method
  | .initializer field => do let _ ← p.bindInitializer field
  | .type chain node => do let _ ← p.bindType p.answer chain node
  | .expression chain node kind => do let _ ← p.bindExpression p.answer chain node kind

/-- The inquiry is about symbols, nodes and places that exist. -/
def Known (p : Program) : Inquiry → Prop
  | .signature symbol | .fieldType symbol _ | .constant symbol _ | .default symbol
  | .templateParameters symbol | .body symbol | .initializer symbol => symbol < p.symbols.size
  | .type chain node | .expression chain node _ => chain.Known p ∧ node < p.tree.size

end Inquiry

/-- The findings of a context after some inquiries. -/
inductive Program.Reached (p : Program) : Findings → Prop
  | start : Reached p {}
  | next {s t : BindState} (before : Reached p s.findings) {inquiry : Inquiry}
      (known : inquiry.Known p) (hrun : inquiry.ask p s = .ok () t) : Reached p t.findings

/-- Between inquiries what is published is sound, and no signature is in progress. -/
structure Findings.Idle (p : Program) (f : Findings) : Prop where
  sound : Sound p f
  progress : f.signaturesInProgress = []

theorem Findings.Idle.stage {f g : Findings} (h : f.Idle p) (hg : Stage p f g) : g.Idle p :=
  ⟨hg.sound, hg.progress.trans h.progress⟩

namespace Program.Formed

variable (formed : p.Formed)
include formed

/-- One inquiry. -/
theorem ask_ends {inquiry : Inquiry} (known : inquiry.Known p) {s : BindState}
    (hs : s.findings.Idle p) :
    Ends (· = .endlessRequests) (inquiry.ask p) s fun _ t => t.findings.Idle p := by
  -- all but bodies leave the locals of code alone
  have quiet : ∀ {α : Type} {m : BindM α} {K : α → Prop} {R : Findings → α → Trace → Prop},
      Steps (Stage p s.findings) m K R →
        Ends (· = .endlessRequests) (do let _ ← m) s fun _ t => t.findings.Idle p :=
    fun hm => Ends.bind (hm s hs.sound.stage) fun _ t ht => Ends.pure (hs.stage ht.1)
  have answers := formed.answer_spec
  cases inquiry with
  | signature method => exact quiet (answers.signature s.findings known)
  | fieldType field beingBound => exact quiet (answers.fieldType s.findings beingBound known)
  | constant field tracking =>
    refine Ends.bind (Steps.optionMapM (fun other _ => newTracker_steps s.findings other) s
      hs.sound.stage) fun tracker t ht => ?_
    refine Ends.bind (answers.fieldConstant s.findings tracker known t ht.1) fun _ u hu => ?_
    exact Ends.pure (hs.stage hu.1)
  | default parameter => exact quiet (formed.defaultOf_steps s.findings hs.progress known)
  | templateParameters symbol => exact quiet (formed.bindTemplateParameters_steps s.findings known)
  | body method =>
    obtain ⟨symbol, hsymbol⟩ := SymbolTable.exists_of_lt known
    -- the body may have been bound before
    have hunbound : False → ∀ root, symbol.kind.codeRoot? p.tree.root = some root →
        Unbound p s.findings root := False.elim
    exact Ends.bind (formed.bindBody_steps hsymbol hs.sound hunbound) fun _ t ht =>
      Ends.pure ⟨ht.1.sound, ht.1.progress.trans hs.progress⟩
  | initializer field => exact quiet (formed.bindInitializer_steps s.findings known)
  | type chain node => exact quiet (formed.bindType_steps answers s.findings known.1 known.2)
  | expression chain node kind =>
    exact quiet (formed.bindExpression_steps answers s.findings known.1 known.2 kind)

/-- Any number of inquiries. -/
theorem idle_of_reached {f : Findings} (h : p.Reached f) : f.Idle p := by
  induction h with
  | start => exact ⟨sound_empty, rfl⟩
  | next before known hrun ih => exact (formed.ask_ends known ih).of_ok hrun

/-- Binding an expression and converting it. -/
theorem bindConverted_steps {f : Findings} {chain : Chain} (hchain : chain.Known p) {node : NodeId}
    (hnode : node < p.tree.size) (kind : ValueKind) (explicit : Bool) {target : Ty}
    (htarget : target.Known p) :
    Steps (Stage p f) (do
      let e ← p.bindExpression p.answer chain node kind
      let converted ← p.convertWith explicit e target node
      return (e, converted)) (fun _ => True) fun F result _ =>
        F.ConstantsTyped → result.1.ConstantTyped ∧ result.2.ConstantTyped := by
  refine Steps.bind (formed.bindExpression_steps formed.answer_spec f hchain hnode kind) fun e he => ?_
  refine Steps.bind (formed.convertWith_steps explicit he htarget hnode) fun converted _ => ?_
  refine .pure trivial fun F second hconverts first hderives typed => ?_
  have hconstant : e.ConstantTyped := hderives.constantTyped typed
  exact ⟨hconstant, hconverts.constantTyped hconstant⟩

end Program.Formed

/-- The program of a document: the accepted tree with the symbols that are declared from it. -/
structure Program.IsOf (p : Program) (d : Document) (options : Options) : Prop where
  accepted : Tree.ofDocument d = .ok p.tree
  declared : ∃ c, Compilation.declare p.tree options = .ok c ∧ c.program.symbols = p.symbols ∧
    c.program.requestDepth = p.requestDepth

theorem Program.IsOf.formed {d : Document} {options : Options} (h : p.IsOf d options) : p.Formed := by
  obtain ⟨c, hc, hsymbols, -⟩ := h.declared
  obtain ⟨htree, formed⟩ := Compilation.declare_formed h.accepted hc
  exact ⟨htree ▸ formed.linked, hsymbols ▸ htree ▸ formed.table⟩

namespace Program

/-- In every context, an expression and what it is converted to have constants of their types,
unless a constant of the error type is published. -/
theorem constants_agree_with_types {d : Document} {options : Options} (hp : p.IsOf d options)
    {s : BindState} (reached : p.Reached s.findings) {chain : Chain} (hchain : chain.Known p)
    {node : NodeId} (hnode : node < p.tree.size) (kind : ValueKind) (explicit : Bool) {target : Ty}
    (htarget : target.Known p) :
    Ends (· = .endlessRequests) (do
      let e ← p.bindExpression p.answer chain node kind
      let converted ← p.convertWith explicit e target node
      return (e, converted)) s fun result t =>
        t.findings.ConstantsTyped → result.1.ConstantTyped ∧ result.2.ConstantTyped := by
  have hs := hp.formed.idle_of_reached reached
  refine Ends.imp (hp.formed.bindConverted_steps hchain hnode kind explicit htarget s
    hs.sound.stage) ?_
  rintro result t ⟨-, -, -, trace, -, htyped⟩
  exact htyped t.findings (.refl _)

/-- A literal is what it is in every position that takes a value. -/
theorem bindExpression_literal {ask : Asker} {chain : Chain} {node : NodeId} {value : Literal}
    (h : p.tree.node? node = some (.literal value)) :
    p.bindExpression ask chain node .rvalue = pure (.ofLiteral value node) := by
  rw [bindExpression, bindUnchecked_literal h, pure_bind]
  cases value <;> rfl

/-- The statement `7 / 2`. -/
def quotientDocument : Document := ⟨"quotient", [
  .literal (.int 7), .literal (.int 2), .binary .divide 0 1, .expressionStatement 2,
  .globalStatement 3, .compilationUnit [4]]⟩

theorem constants_agree_with_types_quotient : ∃ p : Program, p.IsOf quotientDocument {} ∧
    ∃ e converted, (do
      let e ← p.bindExpression p.answer p.globalScope 2 .rvalue
      let converted ← p.convertWith false e (.primitive .decimal) 2
      return (e, converted) : BindM (Expr × Expr)) {} = .ok (e, converted) {} ∧
      e.constant = some (.value (.int 3)) ∧
      converted.constant = some (.value (.decimal (.ofInt 3))) ∧
      e.ConstantTyped ∧ converted.ConstantTyped := by
  obtain ⟨c, htree, hc, hsize⟩ := Compilation.exists_of_observe (·.program.tree.size)
    (show Compilation.observe _ quotientDocument {} = some 6 by decide +kernel)
  have hof : c.program.IsOf quotientDocument {} := ⟨htree, c, hc, rfl, rfl⟩
  have hnodes := Tree.node?_of_ofDocument htree
  generalize c.program = p at *
  have hbound : p.bindExpression p.answer p.globalScope 2 .rvalue {} =
      .ok (.mk (.binary .divide (.ofLiteral (.int 7) 0) (.ofLiteral (.int 2) 1)) (.primitive .int)
        (some (.value (.int 3))) 2) {} := by
    rw [bindExpression, bindUnchecked_binary (hnodes 2), bindExpression_literal (hnodes 0),
      bindExpression_literal (hnodes 1)]
    rfl
  have reached : p.Reached ({} : BindState).findings := .start
  have hnode : 2 < p.tree.size := by rw [hsize]; decide
  have hdecimal : (Ty.primitive .decimal).Known p := trivial
  have htyped := constants_agree_with_types hof reached (globalScope_outside hof.formed).known
    hnode .rvalue false hdecimal
  obtain ⟨e, converted, hrun, he, hconverted⟩ : ∃ e converted, (do
      let e ← p.bindExpression p.answer p.globalScope 2 .rvalue
      let converted ← p.convertWith false e (.primitive .decimal) 2
      return (e, converted) : BindM (Expr × Expr)) {} = .ok (e, converted) {} ∧
      e.constant = some (.value (.int 3)) ∧
      converted.constant = some (.value (.decimal (.ofInt 3))) := by
    simp only [bind, EStateM.bind, hbound]
    exact ⟨_, _, rfl, rfl, rfl⟩
  exact ⟨p, hof, e, converted, hrun, he, hconverted, htyped.of_ok hrun ⟨by simp, by simp⟩⟩

end Program

end Bindery
