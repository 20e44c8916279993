import Bindery.Proofs.FindingsSound

/-! # Steps of operations

What becomes of expressions that are bound already: conversions, checks of positions and operators
follow the rules `Converts`, `Checks`, `Assigns`, `Combines` and `Negates`. -/

namespace Bindery

variable {p : Program} {I : Findings → Prop}

/-! ### Known expressions -/

namespace Expr

theorem type_castTo (e : Expr) (target : Ty) (cast : Cast) : (e.castTo target cast).type = target := by
  unfold castTo
  split
  · next h =>
    rw [Bool.and_eq_true, decide_eq_true_iff, decide_eq_true_iff] at h
    exact h.2
  · rfl

@[simp] theorem node_castTo (e : Expr) (target : Ty) (cast : Cast) :
    (e.castTo target cast).node = e.node := by
  unfold castTo
  split <;> rfl

@[simp] theorem isError_error (node : NodeId) : (error node).isError = true := rfl

variable {e : Expr}

theorem isError_of_type (h : e.isError = false) : e.type.isError = false := by
  unfold isError at h
  rw [Bool.or_eq_false_iff] at h
  exact h.2

/-- A conversion gives an error only where there was one. -/
theorem isError_castTo {target : Ty} (cast : Cast) (he : e.isError = false)
    (ht : target.isError = false) (constant : Option Constant) :
    ((e.castTo target cast).withConstant constant).isError = false := by
  unfold castTo
  split
  · exact he
  · unfold isError
    rw [Bool.or_eq_false_iff]
    exact ⟨rfl, ht⟩

theorem Known.converted (he : e.Known p) {target : Ty} (ht : target.Known p) (cast : Cast)
    (constant : Option Constant) : ((e.castTo target cast).withConstant constant).Known p := by
  unfold castTo
  split
  · exact he
  · exact ⟨he.1, ht, trivial⟩

theorem known_plain {kind : ExprKind} {t : Ty} {constant : Option Constant} {node : NodeId}
    (hnode : node < p.tree.size) (ht : t.Known p)
    (hkind : (match kind with
      | .field .. | .methods .. | .localFunction _ => False
      | _ => True)) : (Expr.mk kind t constant node).Known p := by
  refine ⟨hnode, ht, ?_⟩
  cases kind <;> trivial

end Expr

/-! ### Signatures of operators -/

namespace BinarySignature

variable {op : BinaryOp} {signature : BinarySignature} {left right : Ty}

/-- An operator takes and gives the types of its operands, `null` and primitive types other than
`void`. -/
theorem of?_all {P : Ty → Prop} (h : of? op left right = some signature) (hl : P left)
    (hr : P right) (hnull : P .null) (hprimitive : ∀ q, q ≠ .void → P (.primitive q))
    (hnullable : ∀ {t} b, P t → P (t.withNullable b)) :
    P signature.left ∧ P signature.right ∧ P signature.result := by
  have hequality : ∀ {t : Ty}, equalityOperand? left right = some t → P t := by
    intro t ht
    unfold equalityOperand? at ht
    split at ht
    · obtain rfl := Option.some.inj ht
      exact hnull
    · obtain ⟨-, ⟨rfl⟩⟩ := Option.ite_none_right_eq_some.1 ht
      exact hr
    · obtain ⟨-, ⟨rfl⟩⟩ := Option.ite_none_right_eq_some.1 ht
      exact hl
    · dsimp only at ht
      split at ht
      · obtain rfl := Option.some.inj ht
        exact hnullable _ hl
      · obtain ⟨-, ⟨rfl⟩⟩ := Option.ite_none_right_eq_some.1 ht
        exact hnullable _ (hprimitive _ (by decide))
  have hnumeric : ∀ {p q : Primitive} {lifted : Bool} {t : Ty},
      numericOperand? p q lifted = some t → P t := by
    intro p q lifted t ht
    obtain ⟨-, ⟨rfl⟩⟩ := Option.ite_none_right_eq_some.1 ht
    exact hnullable _ (hprimitive _ (by split <;> decide))
  have harithmetic : ∀ {p q : Primitive} {lifted : Bool} {s : BinarySignature},
      (numericOperand? p q lifted).map uniform = some s → P s.left ∧ P s.right ∧ P s.result := by
    intro p q lifted s hs
    obtain ⟨t, ht, rfl⟩ := Option.map_eq_some_iff.1 hs
    exact ⟨hnumeric ht, hnumeric ht, hnumeric ht⟩
  have hprimitives : ∀ {p q : Primitive}, ofPrimitives? op left right p q = some signature →
      P signature.left ∧ P signature.right ∧ P signature.result := by
    intro p q hs
    cases op with
    | add =>
      rw [ofPrimitives?] at hs
      split at hs
      · obtain ⟨-, ⟨rfl⟩⟩ := Option.ite_none_right_eq_some.1 hs
        exact ⟨hl, hr, hnullable _ (hprimitive _ (by decide))⟩
      · exact harithmetic hs
    | subtract | multiply | divide | modulo => exact harithmetic hs
    | less | lessEqual | greater | greaterEqual =>
      obtain ⟨t, ht, rfl⟩ := Option.map_eq_some_iff.1 hs
      exact ⟨hnumeric ht, hnumeric ht, hprimitive _ (by decide)⟩
    | logicalAnd | logicalOr =>
      obtain ⟨-, ⟨rfl⟩⟩ := Option.ite_none_right_eq_some.1 hs
      have hbool := fun b => hnullable b (hprimitive .bool (by decide))
      exact ⟨hbool _, hbool _, hbool _⟩
    | equal | notEqual => simp [ofPrimitives?] at hs
  unfold of? at h
  split at h
  · obtain ⟨t, ht, rfl⟩ := Option.map_eq_some_iff.1 h
    exact ⟨hequality ht, hequality ht, hprimitive _ (by decide)⟩
  · obtain ⟨t, ht, rfl⟩ := Option.map_eq_some_iff.1 h
    exact ⟨hequality ht, hequality ht, hprimitive _ (by decide)⟩
  · split at h
    · exact hprimitives h
    · simp at h

theorem of?_isError (h : of? op left right = some signature) (hl : left.isError = false)
    (hr : right.isError = false) :
    signature.left.isError = false ∧ signature.right.isError = false ∧
      signature.result.isError = false :=
  of?_all (P := fun t => t.isError = false) h hl hr rfl (fun _ _ => rfl) fun _ ht => ht

theorem of?_known (h : of? op left right = some signature) (hl : left.Known p)
    (hr : right.Known p) :
    signature.left.Known p ∧ signature.right.Known p ∧ signature.result.Known p :=
  of?_all h hl hr trivial (fun _ _ => trivial) fun _ ht => ht

theorem of?_isVoid (h : of? op left right = some signature) (hl : left.isVoid = false)
    (hr : right.isVoid = false) :
    signature.left.isVoid = false ∧ signature.right.isVoid = false ∧
      signature.result.isVoid = false :=
  of?_all (P := fun t => t.isVoid = false) h hl hr rfl
    (fun q hq => by simpa [Ty.isVoid, Ty.isPrimitive, Ty.primitive?, Ty.primitive] using hq)
    fun _ ht => ht

end BinarySignature

/-! ### Conversions and positions -/

theorem Converts.isError {explicit : Bool} {e e' : Expr} {target : Ty} {trace : Trace}
    (h : Converts p explicit e target e' trace) (he : e.isError = false)
    (ht : target.isError = false) (he' : e'.isError = true) : trace.Refuses := by
  cases h with
  | same h =>
    rw [he, ht] at h
    simp at h
  | refused _ _ h => exact h
  | done _ _ _ _ _ =>
    rw [Expr.isError_castTo _ he ht] at he'
    simp at he'

namespace Program.Formed

variable [Endless] (formed : p.Formed)
include formed

variable {e left right : Expr} {node rightNode : NodeId}

/-- Reporting an error about an expression, where the rules allow to refuse it. -/
theorem refuse_steps {place : NodeId} {R : Findings → Expr → Trace → Prop} (h : node < p.tree.size)
    (hplace : place < p.tree.size) {message : Message} (hmessage : message.category = .error)
    (args : List String) (hR : ∀ {F trace}, trace.Refuses → R F (.error place) trace) :
    Steps I (p.reject node message args place) (Expr.Known p) R :=
  formed.refused_steps h hmessage args (Expr.known_error hplace) hR

theorem convertWith_steps {target : Ty} (explicit : Bool) (he : e.Known p) (ht : target.Known p)
    (hnode : node < p.tree.size) :
    Steps I (p.convertWith explicit e target node) (Expr.Known p) fun _ e' trace =>
      Converts p explicit e target e' trace := by
  unfold convertWith
  split
  · next herror => exact .pure he fun _ => .same herror
  · next herror =>
    obtain ⟨hes, hts⟩ := Bool.or_eq_false_iff.1 (eq_false_of_ne_true herror)
    refine Steps.bind_lift (formed.conversion_yields he.2.1 ht) fun cast hcast _ => ?_
    split
    · exact Steps.bind_lift (formed.displayBoth_yields he.2.1 ht) fun _ _ _ =>
        formed.refuse_steps hnode he.1 rfl _ (.refused hes hts)
    · next hpossible =>
      split
      · exact Steps.bind_lift (formed.displayBoth_yields he.2.1 ht) fun _ _ _ =>
          formed.refuse_steps hnode he.1 rfl _ (.refused hes hts)
      · next himplicit =>
        refine .pure (he.converted ht cast _) fun _ => .done hes hts hcast (by simpa using hpossible) ?_
        cases explicit <;> simp_all

theorem convert_steps {target : Ty} (he : e.Known p) (ht : target.Known p)
    (hnode : node < p.tree.size) :
    Steps I (p.convert e target node) (Expr.Known p) fun _ e' trace =>
      Converts p false e target e' trace :=
  formed.convertWith_steps false he ht hnode

omit [Endless] in
theorem placeError?_yields (he : e.Known p) :
    Yields (p.placeError? e) fun _ => True := by
  obtain ⟨-, -, hkind⟩ := he
  unfold placeError?
  split
  · split <;> exact .pure trivial
  · exact .pure trivial
  · next field hfield =>
    rw [hfield] at hkind
    refine .bind (formed.table.ask_yields hkind) fun isConstant _ => ?_
    cases isConstant with
    | true => exact .bind (formed.table.name_yields hkind) fun _ _ => .pure trivial
    | false => exact .pure trivial
  · exact .pure trivial

theorem checkValueKind_steps (he : e.Known p) (kind : ValueKind) :
    Steps I (p.checkValueKind e kind) (Expr.Known p) fun _ e' trace => Checks p kind e e' trace := by
  unfold checkValueKind
  split
  · next herror => exact .pure he fun _ => .broken herror
  · next herror =>
    have herror := eq_false_of_ne_true herror
    split
    · next hplace =>
      refine Steps.bind_lift (formed.placeError?_yields he) fun found hfound _ => ?_
      cases found with
      | none =>
        refine .pure he fun _ => .passed herror ?_
        unfold MeetsKind
        rw [if_pos hplace]
        exact hfound
      | some error =>
        cases error with
        | constant name => exact formed.refuse_steps he.1 he.1 rfl _ (.refused herror)
        | noPlace => exact formed.refuse_steps he.1 he.1 rfl _ (.refused herror)
    · next hplace =>
      split
      · exact formed.refuse_steps he.1 he.1 rfl _ (.refused herror)
      · next hlacks =>
        refine .pure he fun _ => .passed herror ?_
        unfold MeetsKind
        rw [if_neg hplace]
        intro hvalue
        simpa [hvalue] using hlacks

/-! ### Operators -/

theorem rejectBinary_steps {left right : Ty} {R : Findings → Expr → Trace → Prop} (op : BinaryOp)
    (hl : left.Known p) (hr : right.Known p) (hnode : node < p.tree.size)
    (hR : ∀ {F trace}, trace.Refuses → R F (.error node) trace) :
    Steps I (p.rejectBinary op left right node) (Expr.Known p) R :=
  Steps.bind_lift (formed.displayBoth_yields hl hr) fun _ _ _ =>
    formed.refuse_steps hnode hnode rfl _ hR

/-- The right side of an assignment, or an error that is reported. -/
theorem assignedValue_steps (op : Option BinaryOp) (hl : left.Known p) (hr : right.Known p)
    (hrightNode : rightNode < p.tree.size) (hnode : node < p.tree.size) (hle : left.isError = false)
    (hre : right.isError = false) :
    Steps I (p.assignedValue op left right rightNode node) (Expr.Known p) fun _ value trace =>
      if value.isError then trace.Refuses
      else Assigns p left right node op (.plain (.assignment op left value) left.type node) trace := by
  have converted : ∀ {target : Ty}, target.Known p → target.isError = false →
      (∀ value trace, Converts p false right target value trace → value.isError = false →
        Assigns p left right node op (.plain (.assignment op left value) left.type node) trace) →
      Steps I (p.convert right target rightNode) (Expr.Known p) fun _ value trace =>
        if value.isError then trace.Refuses
        else Assigns p left right node op (.plain (.assignment op left value) left.type node)
          trace := by
    intro target ht hte hassigns
    refine (formed.convert_steps hr ht hrightNode).mono fun F value trace h => ?_
    split
    · next hvalue => exact h.isError hre hte hvalue
    · next hvalue => exact hassigns value trace h (eq_false_of_ne_true hvalue)
  have hlt := Expr.isError_of_type hle
  unfold assignedValue
  cases op with
  | none => exact converted hl.2.1 hlt fun _ _ h hvalue => .plain hle hre h hvalue
  | some op =>
    dsimp only
    cases hsignature : BinarySignature.of? op left.type right.type with
    | none => exact formed.rejectBinary_steps op hl.2.1 hr.2.1 hnode id
    | some signature =>
      obtain ⟨-, hright, hresult⟩ := BinarySignature.of?_known hsignature hl.2.1 hr.2.1
      refine Steps.bind_lift (formed.conversion_yields hresult hl.2.1) fun cast hcast _ => ?_
      split
      · next himplicit =>
        refine converted hright
          (BinarySignature.of?_isError hsignature hlt (Expr.isError_of_type hre)).2.1
          fun _ _ h hvalue => .compound hle hre hsignature hcast himplicit h hvalue
      · refine Steps.bind_lift (formed.displayBoth_yields hresult hl.2.1) fun _ _ _ => ?_
        refine formed.refuse_steps hnode hnode ?_ _ id
        split <;> rfl

theorem bindAssignment_steps (op : Option BinaryOp) (hl : left.Known p) (hr : right.Known p)
    (hrightNode : rightNode < p.tree.size) (hnode : node < p.tree.size) :
    Steps I (p.bindAssignment op left right rightNode node) (Expr.Known p) fun _ e trace =>
      Assigns p left right node op e trace := by
  unfold bindAssignment
  split
  · next herror => exact .pure (Expr.known_error hnode) fun _ => .broken herror
  · next herror =>
    obtain ⟨hle, hre⟩ := Bool.or_eq_false_iff.1 (eq_false_of_ne_true herror)
    refine Steps.bind (formed.assignedValue_steps op hl hr hrightNode hnode hle hre)
      fun value hvalue => ?_
    split
    · next hbroken =>
      exact .last (Expr.known_error hnode) fun _ trace htrace => .refused htrace
    · next hok =>
      exact .last (Expr.known_plain hnode hl.2.1 trivial) fun _ _ htrace => htrace

theorem bindBinary_steps {leftNode : NodeId} (op : BinaryOp) (hl : left.Known p)
    (hr : right.Known p) (hleftNode : leftNode < p.tree.size) (hrightNode : rightNode < p.tree.size)
    (hnode : node < p.tree.size) :
    Steps I (p.bindBinary op left right leftNode rightNode node) (Expr.Known p) fun _ e trace =>
      Combines p op left right node e trace := by
  unfold bindBinary
  split
  · next herror => exact .pure (Expr.known_error hnode) fun _ => .broken herror
  · next herror =>
    obtain ⟨hle, hre⟩ := Bool.or_eq_false_iff.1 (eq_false_of_ne_true herror)
    cases hsignature : BinarySignature.of? op left.type right.type with
    | none => exact formed.rejectBinary_steps op hl.2.1 hr.2.1 hnode .refused
    | some signature =>
      obtain ⟨hleft, hright, hresult⟩ := BinarySignature.of?_known hsignature hl.2.1 hr.2.1
      refine Steps.bind (formed.convert_steps hl hleft hleftNode) fun a ha => ?_
      refine Steps.bind (formed.convert_steps hr hright hrightNode) fun b hb => ?_
      split
      · next hnull =>
        refine Steps.bind_pure (formed.report_steps hnode _ _) fun _ _ =>
          ⟨Expr.known_plain hnode hresult trivial, fun F third h₃ second h₂ first h₁ => ?_⟩
        exact .null hle hre hsignature h₁ h₂ hnull h₃
      · next hnull =>
        refine .pure (Expr.known_plain hnode hresult trivial) fun F second h₂ first h₁ => ?_
        rw [List.append_nil]
        exact .done hle hre hsignature h₁ h₂ (eq_false_of_ne_true hnull)

theorem bindUnary_steps {operand : Expr} (op : UnaryOp) (h : operand.Known p)
    (hnode : node < p.tree.size) :
    Steps I (p.bindUnary op operand node) (Expr.Known p) fun _ e trace =>
      Negates op operand node e trace := by
  unfold bindUnary
  split
  · next herror => exact .pure (Expr.known_error hnode) fun _ => .broken herror
  · next herror =>
    split
    · next haccepts =>
      exact .pure (Expr.known_plain hnode h.2.1 trivial) fun _ =>
        .done (eq_false_of_ne_true herror) haccepts
    · refine Steps.bind_lift (formed.display_yields h.2.1) fun _ _ _ => ?_
      exact formed.refuse_steps hnode hnode rfl _ .refused

end Program.Formed
end Bindery
