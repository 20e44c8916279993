import Bindery.Proofs.ArgumentConstants
import Bindery.Proofs.ConversionChains

/-! # Operands of defined operators

Where an operator is defined on two types, its signature says what the operands are converted to:
the common type of two numbers, with `null` if one operand admits it.  These conversions are
implicit, unless one of them is the missing one from `int` to `decimal?`.

* `BinarySignature.Accepts`: both operands convert to what the signature says.
* `BinarySignature.accepts_iff`: they do exactly if they do not clash.
* `Program.defined_operators_accept`: if they do not, binding the operator reports nothing about
  conversions. -/

namespace Bindery

variable {t : SymbolTable}

namespace Ty

/-- Operands that have operators but no conversions to the operand types: `int` beside `decimal?`,
and `void` beside `void?`. -/
def Clashes (left right : Ty) : Prop :=
  left.IsGap right ∨ right.IsGap left ∨ left.kind = .primitive .void ∧ right.kind = .primitive .void ∧
    left.nullable ≠ right.nullable

instance (left right : Ty) : Decidable (left.Clashes right) := by
  unfold Clashes
  infer_instance

theorem convertsImplicitly_primitives_iff {p q : Primitive} {n m : Bool} :
    ConvertsImplicitly t ⟨.primitive p, n⟩ ⟨.primitive q, m⟩ ↔
      p = q ∧ n = m ∨ (Cast.ofPrimitives p q n m).isImplicit = true := by
  unfold ConvertsImplicitly
  rw [conversion_primitives]
  by_cases h : p = q ∧ n = m
  · simp [h, Cast.isImplicit]
  · simp [h]

theorem convertsImplicitly_of_isNull {source target : Ty} (h : source.isNull = true)
    (hs : source.isError = false) (ht : target.isError = false) :
    source.ConvertsImplicitly t target ↔ target.nullable = true := by
  unfold ConvertsImplicitly conversion
  rw [hs, ht, h]
  cases target.nullable <;> simp [pure, Except.pure, Cast.isImplicit]

theorem convertsImplicitly_self {source : Ty} (h : source.isNull = false) :
    source.ConvertsImplicitly t source :=
  ⟨_, conversion_self (by simpa [isNull] using h), rfl⟩

/-- A type converts to itself with as much `null` as there is on both sides. -/
theorem convertsImplicitly_lifted_iff {kind : TyKind} (hkind : kind ≠ .null) (n m : Bool) :
    ConvertsImplicitly t ⟨kind, n⟩ ⟨kind, n || m⟩ ↔
      ¬ (kind = .primitive .void ∧ n = false ∧ m = true) := by
  by_cases hvoid : kind = .primitive .void
  · subst hvoid
    rw [convertsImplicitly_primitives_iff]
    cases n <;> cases m <;> decide
  · refine iff_of_true ?_ fun h => hvoid h.1
    cases n with
    | true => exact ⟨_, conversion_self hkind, rfl⟩
    | false =>
      cases m with
      | false => exact ⟨_, conversion_self hkind, rfl⟩
      | true =>
        obtain ⟨cast, hcast, -, himplicit⟩ := exists_conversion_nullability hkind hvoid false
        exact ⟨cast, hcast, himplicit rfl⟩

theorem not_clashes_of_kind {left right : Ty} {kind : TyKind} (hl : left.kind = kind)
    (hr : right.kind = kind) (hvoid : kind ≠ .primitive .void) : ¬ left.Clashes right := by
  rintro (⟨rfl, rfl⟩ | ⟨rfl, rfl⟩ | ⟨hkind, -⟩)
  · exact absurd (hl.trans hr.symm) (by decide)
  · exact absurd (hl.trans hr.symm) (by decide)
  · exact hvoid (hl.symm.trans hkind)

theorem not_clashes_of_isNull {left right : Ty} (h : left.isNull = true ∨ right.isNull = true) :
    ¬ left.Clashes right := by
  rintro (⟨rfl, rfl⟩ | ⟨rfl, rfl⟩ | ⟨hl, hr, -⟩)
  · exact absurd h (by decide)
  · exact absurd h (by decide)
  · simp [isNull, hl, hr] at h

end Ty

/-! ### Signatures -/

namespace BinarySignature

variable {left right : Ty} {signature : BinarySignature}

variable (t) in
/-- Both operands convert to what the signature says. -/
def Accepts (signature : BinarySignature) (left right : Ty) : Prop :=
  left.ConvertsImplicitly t signature.left ∧ right.ConvertsImplicitly t signature.right

/-- Numbers have a common type, which both convert to or one of them does not. -/
theorem numbers_accept_iff {p q : Primitive} {n m : Bool} {type result : Ty}
    (h : numericOperand? p q (n || m) = some type) :
    Accepts t ⟨type, type, result⟩ ⟨.primitive p, n⟩ ⟨.primitive q, m⟩ ↔
      ¬ Ty.Clashes ⟨.primitive p, n⟩ ⟨.primitive q, m⟩ := by
  unfold numericOperand? at h
  split at h
  · next hnumeric =>
    obtain rfl := Option.some.inj h
    unfold Accepts Ty.primitive Ty.withNullable
    simp only [Ty.convertsImplicitly_primitives_iff]
    revert hnumeric
    cases p <;> cases q <;> cases n <;> cases m <;> decide
  · simp at h

theorem sameKind_accepts_iff {kind : TyKind} (hkind : kind ≠ .null) (n m : Bool) (result : Ty) :
    Accepts t ⟨⟨kind, n || m⟩, ⟨kind, n || m⟩, result⟩ ⟨kind, n⟩ ⟨kind, m⟩ ↔
      ¬ Ty.Clashes ⟨kind, n⟩ ⟨kind, m⟩ := by
  have hright := Ty.convertsImplicitly_lifted_iff (t := t) hkind m n
  rw [Bool.or_comm] at hright
  unfold Accepts
  rw [Ty.convertsImplicitly_lifted_iff hkind n m, hright]
  by_cases hvoid : kind = .primitive .void
  · subst hvoid
    cases n <;> cases m <;> decide
  · exact iff_of_true (by simp [hvoid]) (Ty.not_clashes_of_kind rfl rfl hvoid)

theorem equality_accepts_iff (hl : left.isError = false) (hr : right.isError = false) {type result : Ty}
    (h : equalityOperand? left right = some type) :
    Accepts t ⟨type, type, result⟩ left right ↔ ¬ left.Clashes right := by
  unfold equalityOperand? at h
  split at h
  · next hleft hright =>
    obtain rfl := Option.some.inj h
    refine iff_of_true ⟨?_, ?_⟩ (Ty.not_clashes_of_isNull (.inl hleft))
    · exact (Ty.convertsImplicitly_of_isNull hleft hl rfl).2 rfl
    · exact (Ty.convertsImplicitly_of_isNull hright hr rfl).2 rfl
  · next hleft hright =>
    obtain ⟨hnullable, rfl⟩ : right.nullable = true ∧ right = type := by simpa using h
    refine iff_of_true ⟨?_, Ty.convertsImplicitly_self hright⟩ (Ty.not_clashes_of_isNull (.inl hleft))
    exact (Ty.convertsImplicitly_of_isNull hleft hl hr).2 hnullable
  · next hleft hright =>
    obtain ⟨hnullable, rfl⟩ : left.nullable = true ∧ left = type := by simpa using h
    refine iff_of_true ⟨Ty.convertsImplicitly_self hleft, ?_⟩ (Ty.not_clashes_of_isNull (.inr hright))
    exact (Ty.convertsImplicitly_of_isNull hright hr hl).2 hnullable
  · next hleft _ =>
    obtain ⟨kind, n⟩ := left
    obtain ⟨kind', m⟩ := right
    dsimp only at h
    split at h
    · next hsame =>
      obtain rfl := Option.some.inj h
      obtain rfl : kind = kind' := by simpa [Ty.sameKind] using hsame
      exact sameKind_accepts_iff (by simpa [Ty.isNull] using hleft) n m result
    · next hkinds =>
      split at h
      · next hnumeric =>
        -- numbers of different kinds are compared as `decimal`
        obtain ⟨p, q, rfl, rfl, hp, hq⟩ : ∃ p q, kind = .primitive p ∧ kind' = .primitive q ∧
            p.isNumeric = true ∧ q.isNumeric = true := by
          cases kind <;> cases kind' <;> simp_all [Ty.isNumeric, Ty.primitive?]
        refine numbers_accept_iff (h ▸ ?_)
        revert hp hq hkinds
        cases p <;> cases q <;> cases n <;> cases m <;> decide
      · simp at h

theorem accepts_iff_of_primitives {op : BinaryOp} {p q : Primitive} {n m : Bool}
    (h : ofPrimitives? op ⟨.primitive p, n⟩ ⟨.primitive q, m⟩ p q = some signature) :
    Accepts t signature ⟨.primitive p, n⟩ ⟨.primitive q, m⟩ ↔
      ¬ Ty.Clashes ⟨.primitive p, n⟩ ⟨.primitive q, m⟩ := by
  have arithmetic (h : (numericOperand? p q (n || m)).map uniform = some signature) :
      Accepts t signature ⟨.primitive p, n⟩ ⟨.primitive q, m⟩ ↔
        ¬ Ty.Clashes ⟨.primitive p, n⟩ ⟨.primitive q, m⟩ := by
    obtain ⟨type, htype, rfl⟩ := Option.map_eq_some_iff.1 h
    exact numbers_accept_iff htype
  cases op with
  | add =>
    unfold ofPrimitives? at h
    dsimp only at h
    split at h
    · next hstring =>
      split at h
      · obtain rfl := Option.some.inj h
        refine iff_of_true ⟨Ty.convertsImplicitly_self rfl, Ty.convertsImplicitly_self rfl⟩ ?_
        revert hstring
        cases p <;> cases q <;> cases n <;> cases m <;> decide
      · simp at h
    · exact arithmetic h
  | subtract | multiply | divide | modulo => exact arithmetic h
  | less | lessEqual | greater | greaterEqual =>
    obtain ⟨type, htype, rfl⟩ := Option.map_eq_some_iff.1 h
    exact numbers_accept_iff htype
  | logicalAnd | logicalOr =>
    obtain ⟨hbool, rfl⟩ : (decide (p = .bool) && decide (q = .bool)) = true ∧ _ = signature := by
      simpa [ofPrimitives?] using h
    obtain ⟨rfl, rfl⟩ : p = .bool ∧ q = .bool := by simpa using hbool
    exact sameKind_accepts_iff (by decide) n m _
  | equal | notEqual => simp [ofPrimitives?] at h

/-- Where an operator is defined, the operands convert to what it takes exactly if they do not
clash. -/
theorem accepts_iff {op : BinaryOp} (hl : left.isError = false) (hr : right.isError = false)
    (h : of? op left right = some signature) :
    signature.Accepts t left right ↔ ¬ left.Clashes right := by
  have equality (h : (equalityOperand? left right).map (fun t => ⟨t, t, .primitive .bool⟩) =
      some signature) : signature.Accepts t left right ↔ ¬ left.Clashes right := by
    obtain ⟨type, htype, rfl⟩ := Option.map_eq_some_iff.1 h
    exact equality_accepts_iff hl hr htype
  unfold of? at h
  split at h
  · exact equality h
  · exact equality h
  · split at h
    · next p q hp hq =>
      obtain ⟨kind, n⟩ := left
      obtain ⟨kind', m⟩ := right
      obtain rfl : kind = .primitive p := Ty.kind_of_primitive? hp
      obtain rfl : kind' = .primitive q := Ty.kind_of_primitive? hq
      exact accepts_iff_of_primitives h
    · simp at h

end BinarySignature

/-! ### Binding operators -/

namespace Program

variable (p : Program)

/-- An expression that converts implicitly is converted without a report. -/
theorem exists_converted {e : Expr} {target : Ty} (he : e.isError = false)
    (ht : target.isError = false) (h : e.type.ConvertsImplicitly p.symbols target) :
    ∃ e', (∀ node, p.convert e target node = pure e') ∧ e'.type = target ∧ e'.isError = false := by
  obtain ⟨cast, hcast, himplicit⟩ := h
  exact ⟨_, p.convert_eq_pure he ht hcast himplicit, Expr.type_castTo e target cast,
    Expr.isError_castTo cast he ht _⟩

/-- What is left of binding an operator once its operands are converted: a comparison with the
constant `null` is reported. -/
theorem bindBinary_converted {op : BinaryOp} {left right a b : Expr} {signature : BinarySignature}
    (hl : left.isError = false) (hr : right.isError = false)
    (h : BinarySignature.of? op left.type right.type = some signature)
    (ha : ∀ node, p.convert left signature.left node = pure a)
    (hb : ∀ node, p.convert right signature.right node = pure b) (leftNode rightNode : NodeId)
    {node : NodeId} {span : Span} (hspan : p.tree.span node = .ok span) (s : BindState) :
    ∃ e s', p.bindBinary op left right leftNode rightNode node s = .ok e s' ∧
      e.kind = .binary op a b ∧
      (s' = s ∨ BindM.push (.placed p.tree.fileName span .alwaysValue ["null"]) s = .ok () s') := by
  unfold bindBinary
  simp only [hl, hr, h, ha, hb, Bool.or_self, Bool.false_eq_true, if_false, pure_bind]
  split
  · have hreport : p.report node .alwaysValue ["null"] =
        BindM.push (.placed p.tree.fileName span .alwaysValue ["null"]) := by
      unfold report diagnostic
      rw [hspan]
      rfl
    rw [hreport]
    exact ⟨_, _, rfl, rfl, .inr rfl⟩
  · exact ⟨_, _, rfl, rfl, .inl rfl⟩

/-- A defined operator accepts its operands, unless they clash, in every symbol table.  Binding it
then converts both without a report, to what its signature says; all that may be reported is that a
comparison always gives `null`. -/
theorem defined_operators_accept {op : BinaryOp} {left right : Ty} {signature : BinarySignature}
    (hl : left.isError = false) (hr : right.isError = false)
    (h : BinarySignature.of? op left right = some signature) :
    (left.ConvertsImplicitly p.symbols signature.left ∧
      right.ConvertsImplicitly p.symbols signature.right ↔ ¬ left.Clashes right) ∧
    (¬ left.Clashes right → ∀ a b : Expr, a.type = left → b.type = right → a.isError = false →
      b.isError = false → ∃ a' b' : Expr, (a'.type = signature.left ∧ a'.isError = false) ∧
        (b'.type = signature.right ∧ b'.isError = false) ∧
        ∀ leftNode rightNode node span s, p.tree.span node = .ok span →
          ∃ e s', p.bindBinary op a b leftNode rightNode node s = .ok e s' ∧
            e.kind = .binary op a' b' ∧
            (s' = s ∨
              BindM.push (.placed p.tree.fileName span .alwaysValue ["null"]) s = .ok () s')) := by
  refine ⟨BinarySignature.accepts_iff hl hr h, ?_⟩
  rintro hclash a b rfl rfl ha hb
  obtain ⟨hleft, hright⟩ := (BinarySignature.accepts_iff hl hr h).2 hclash
  obtain ⟨hleftError, hrightError, -⟩ := BinarySignature.of?_isError h hl hr
  obtain ⟨a', ha', htype, herror⟩ := p.exists_converted ha hleftError hleft
  obtain ⟨b', hb', htype', herror'⟩ := p.exists_converted hb hrightError hright
  exact ⟨a', b', ⟨htype, herror⟩, ⟨htype', herror'⟩, fun leftNode rightNode node span s hspan =>
    p.bindBinary_converted ha hb h ha' hb' leftNode rightNode hspan s⟩

/-- An `int?` and a `decimal` are compared as `decimal?`. -/
theorem defined_operators_accept_comparison : ∃ tree span e s',
    Tree.ofDocument Candidate.emptyDocument = .ok tree ∧ tree.span 0 = .ok span ∧
      BinarySignature.of? .less (Ty.primitive .int).asNullable (.primitive .decimal) =
        some ⟨(Ty.primitive .decimal).asNullable, (Ty.primitive .decimal).asNullable,
          .primitive .bool⟩ ∧
      bindBinary { tree, symbols := .empty } .less (.plain .literal (Ty.primitive .int).asNullable 0)
        (.plain .literal (.primitive .decimal) 0) 0 0 0 {} = .ok e s' ∧
      (s' = {} ∨ BindM.push (.placed tree.fileName span .alwaysValue ["null"]) {} = .ok () s') := by
  obtain ⟨tree, htree⟩ : ∃ tree, Tree.ofDocument Candidate.emptyDocument = .ok tree := ⟨_, rfl⟩
  obtain ⟨span, hspan⟩ := (Tree.ofDocument_linked htree).span_ok (n := 0) (by
    obtain rfl := Except.ok.inj htree
    decide)
  obtain ⟨signature, hsignature⟩ : ∃ signature, BinarySignature.of? .less
      (Ty.primitive .int).asNullable (.primitive .decimal) = some signature := ⟨_, rfl⟩
  obtain ⟨-, hbind⟩ := defined_operators_accept { tree, symbols := .empty } rfl rfl hsignature
  obtain ⟨a, b, -, -, hbound⟩ := hbind (by decide) (.plain .literal _ 0) (.plain .literal _ 0) rfl rfl
    rfl rfl
  obtain ⟨e, s', he, -, hs'⟩ := hbound 0 0 0 span {} hspan
  exact ⟨tree, span, e, s', htree, hspan, rfl, he, hs'⟩

/-- Addition is defined on `decimal?` and `int`, but the `int` is not converted. -/
theorem defined_operator_refuses_int : ∃ tree e s',
    Tree.ofDocument Candidate.emptyDocument = .ok tree ∧
      BinarySignature.of? .add (Ty.primitive .decimal).asNullable (.primitive .int) =
        some (.uniform (Ty.primitive .decimal).asNullable) ∧
      bindBinary { tree, symbols := .empty } .add (.plain .literal (Ty.primitive .decimal).asNullable 0)
        (.ofLiteral (.int 1) 0) 0 0 0 {} = .ok e s' ∧
      s'.pass.diagnostics.items.map (·.message) = [.noConversion] :=
  ⟨_, _, _, rfl, rfl, rfl, rfl⟩

end Program
end Bindery
