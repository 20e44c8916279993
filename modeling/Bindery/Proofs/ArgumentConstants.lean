import Bindery.Proofs.ConstantTypes
import Bindery.Proofs.ImplicitConversions

/-! # Constants of passed arguments

A candidate converts the arguments that it takes by itself.  It makes the same cast to the same type
as `Program.convert`, but leaves the constant of the argument as it is, where `Program.convert`
converts it.

* An implicit conversion leaves a constant as it is exactly if the constant is of the new type
  already (`Constant.foldConversion_eq_self_iff`).
* So a passed argument is the converted one exactly if its constant is of its type
  (`Candidate.passed_arguments_converted`).  Integers passed as `decimal` and values passed as `any`
  are not. -/

namespace Bindery

/-! ### Constants that a conversion keeps -/

theorem Cast.eq_any_of_involvesAny {p q : Primitive} {n m : Bool}
    (himplicit : (ofPrimitives p q n m).isImplicit = true)
    (hany : (ofPrimitives p q n m).involvesAny = true) : q = .any := by
  revert himplicit hany
  cases p <;> cases q <;> cases n <;> cases m <;> decide

variable {cast : Cast} {e : Expr} {t : SymbolTable} {source target : Ty}

/-- Only what becomes `any` is put into a box. -/
theorem Ty.involvesAny_of_conversion {q : Primitive} {m : Bool}
    (h : source.conversion t ⟨.primitive q, m⟩ = .ok cast) (himplicit : cast.isImplicit = true)
    (hq : q ≠ .any) : cast.involvesAny = false := by
  obtain ⟨kind, n⟩ := source
  cases kind with
  | primitive p =>
    rw [conversion_primitives] at h
    split at h <;> obtain rfl := Except.ok.inj h
    · rfl
    · exact Bool.eq_false_iff.2 fun hany => hq (Cast.eq_any_of_involvesAny himplicit hany)
  | error =>
    obtain rfl := Except.ok.inj h
    rfl
  | null =>
    obtain rfl := Except.ok.inj h
    cases m <;> rfl
  | named | constructed | parameter =>
    have hnone : cast = .none := by
      simpa [conversion, isError, isNull, primitive?, sameKind, hq, referenceConversion, definition?,
        pure, Except.pure, eq_comm] using h
    simp [hnone, Cast.isImplicit] at himplicit

theorem Value.convert_self (v : Value) : v.convert v.primitive = some v := by
  cases v <;> rfl

theorem Constant.foldConversion_eq_self_iff (h : source.conversion t target = .ok cast)
    (himplicit : cast.isImplicit = true) {c : Constant} :
    c.foldConversion target cast = some c ↔ c.HasType target := by
  refine ⟨hasType_foldConversion, fun htype => ?_⟩
  cases c with
  | null => exact if_pos htype
  | value v =>
    have hprimitive : target.primitive? = some v.primitive := htype
    obtain ⟨kind, m⟩ := target
    obtain rfl : kind = .primitive v.primitive := Ty.kind_of_primitive? hprimitive
    have hany := Ty.involvesAny_of_conversion h himplicit (by cases v <;> simp [Value.primitive])
    simp [foldConversion, hany, hprimitive, Value.convert_self]

/-- A constant of the old type is of the new one, unless it is a value and the types are of
different kinds. -/
theorem Constant.HasType.converted_iff {tree : Tree} (formed : t.Formed tree)
    (hs : source.isError = false) (ht : target.isError = false)
    (h : source.ConvertsImplicitly t target) {c : Constant} (hc : c.HasType source) :
    c.HasType target ↔ ∀ v, c = .value v → source.sameKind target = true := by
  cases c with
  | null => simpa [HasType] using (Ty.Widens.of_conversion formed hs ht h).nullable hc
  | value v =>
    have hsource := Ty.kind_of_primitive? hc
    constructor
    · intro htarget _ _
      simp [Ty.sameKind, hsource, Ty.kind_of_primitive? htarget]
    · intro hkind
      have hsame : source.kind = target.kind := by simpa [Ty.sameKind] using hkind v rfl
      simp [HasType, Ty.primitive?, ← hsame, hsource]

/-! ### Converted expressions -/

namespace Expr

@[simp] theorem constant_castTo (e : Expr) (target : Ty) (cast : Cast) :
    (e.castTo target cast).constant = e.constant := by
  unfold castTo
  split <;> rfl

@[simp] theorem withConstant_constant (e : Expr) : e.withConstant e.constant = e := by
  cases e
  rfl

@[simp] theorem withConstant_withConstant (e : Expr) (c c' : Option Constant) :
    (e.withConstant c).withConstant c' = e.withConstant c' := rfl

end Expr

theorem Program.convert_eq_pure (p : Program) (he : e.isError = false) (ht : target.isError = false)
    (hcast : e.type.conversion p.symbols target = .ok cast) (himplicit : cast.isImplicit = true)
    (node : NodeId) : p.convert e target node =
      pure ((e.castTo target cast).withConstant (e.constant.bind (·.foldConversion target cast))) := by
  unfold convert convertWith
  rw [he, ht, hcast]
  simp only [Bool.or_self, Bool.false_eq_true, if_false]
  change (if !cast.isPossible then _ else if !false && !cast.isImplicit then _ else _) = _
  rw [Cast.isPossible_of_isImplicit himplicit, himplicit]
  rfl

/-- Keeping the constant gives the converted expression exactly if the constant is of the new
type. -/
theorem Expr.castTo_eq_converted_iff (hcast : e.type.conversion t target = .ok cast)
    (himplicit : cast.isImplicit = true) :
    e.castTo target cast =
        (e.castTo target cast).withConstant (e.constant.bind (·.foldConversion target cast)) ↔
      ∀ c, e.constant = some c → c.HasType target := by
  have hconstants : e.castTo target cast =
      (e.castTo target cast).withConstant (e.constant.bind (·.foldConversion target cast)) ↔
        e.constant = e.constant.bind (·.foldConversion target cast) := by
    constructor
    · intro h
      exact (constant_castTo ..).symm.trans (congrArg constant h)
    · intro h
      rw [← h, ← constant_castTo e target cast, withConstant_constant]
  rw [hconstants]
  cases e.constant with
  | none => simp
  | some c =>
    simpa [eq_comm] using Constant.foldConversion_eq_self_iff hcast himplicit

/-- A cast that keeps the constant gives a well-typed one under the same condition. -/
theorem Expr.constantTyped_castTo_iff (cast : Cast) (he : e.isError = false)
    (ht : target.isError = false) :
    (e.castTo target cast).ConstantTyped ↔ ∀ c, e.constant = some c → c.HasType target := by
  have hok : (e.castTo target cast).isError = false := by
    have := isError_castTo cast he ht (e.castTo target cast).constant
    rwa [withConstant_constant] at this
  simp only [ConstantTyped, hok, constant_castTo, type_castTo, true_and]

/-! ### Passed arguments -/

namespace Candidate

variable {α : Type}

/-- A candidate passes an argument with the cast that conversions make everywhere, and the constant
that it had before.  So it passes what `Program.convert` gives exactly if the constant is of the
parameter's type: in a well-formed program, unless the argument is a constant value of a type of
another kind. -/
theorem passed_arguments_converted (p : Program) (c : Candidate α) (arguments : List Argument)
    {passed : List Expr} {cost : Nat}
    (h : (c.apply p.symbols arguments).run = .ok (.ok (passed, cost))) :
    ∃ slot, c.Assigns arguments 0 slot ∧ ∀ i,
      let e := (arguments.get i).expression
      let target := (c.parameters.get (slot i)).type
      e.isError = false → target.isError = false → ∃ given converted,
        passed[(slot i).val]? = some given ∧
        (∀ node, p.convert e target node = pure converted) ∧
        given = converted.withConstant e.constant ∧
        (given = converted ↔ given.ConstantTyped) ∧
        (p.Formed → e.ConstantTyped → (given = converted ↔
          ∀ v, e.constant = some (.value v) → e.type.sameKind target = true)) := by
  obtain ⟨-, slot, assigns, hpasses, -⟩ := exists_assigns_of_apply h
  refine ⟨slot, assigns, fun i => ?_⟩
  intro e target he ht
  obtain ⟨_, hgiven, cast, hcast, himplicit, rfl⟩ := hpasses i
  have heq := Expr.castTo_eq_converted_iff (e := e) hcast himplicit
  refine ⟨_, _, hgiven, p.convert_eq_pure he ht hcast himplicit, ?_, ?_, fun formed htyped => ?_⟩
  · rw [Expr.withConstant_withConstant, ← Expr.constant_castTo e target cast,
      Expr.withConstant_constant]
  · exact heq.trans (Expr.constantTyped_castTo_iff cast he ht).symm
  · have hconverts : e.type.ConvertsImplicitly p.symbols target := ⟨cast, hcast, himplicit⟩
    have hkind {constant : Constant} (hconstant : e.constant = some constant) :=
      (htyped _ hconstant).2.converted_iff formed.table (Expr.isError_of_type he) ht hconverts
    rw [heq]
    constructor
    · intro htype v hv
      exact (hkind hv).1 (htype _ hv) v rfl
    · intro hsame constant hconstant
      refine (hkind hconstant).2 ?_
      rintro v rfl
      exact hsame v hconstant

def emptyDocument : Document := ⟨"empty", [.compilationUnit []]⟩

/-- `f(x)` with a parameter of this type. -/
def unary (type : Ty) : Candidate Unit := ⟨(), "f", [⟨"x", type, none⟩]⟩

/-- For an `int?`, the number in `f(1)` is converted and stays `1`. -/
theorem passed_arguments_converted_nullable : ∃ tree declared given,
    Tree.ofDocument emptyDocument = .ok tree ∧ Declarations.declare tree [] = .ok () declared ∧
    ((unary ((Ty.primitive .int).withNullable true)).apply declared.table
      [⟨none, .ofLiteral (.int 1) 0, 0⟩]).run = .ok (.ok ([given], 1)) ∧
    (∀ node, Program.convert { tree, symbols := declared.table } (.ofLiteral (.int 1) 0)
      ((Ty.primitive .int).withNullable true) node = pure given) ∧
    given.ConstantTyped := by
  obtain ⟨tree, htree⟩ : ∃ tree, Tree.ofDocument emptyDocument = .ok tree := ⟨_, rfl⟩
  have linked := Tree.ofDocument_linked htree
  obtain ⟨declared, hdeclared, formed, -⟩ := Declarations.declare_formed linked []
  obtain ⟨given, happly⟩ : ∃ given, ((unary ((Ty.primitive .int).withNullable true)).apply
      declared.table [⟨none, .ofLiteral (.int 1) 0, 0⟩]).run = .ok (.ok ([given], 1)) := ⟨_, rfl⟩
  obtain ⟨slot, -, hpassed⟩ := passed_arguments_converted { tree, symbols := declared.table } _ _ happly
  have hslot : slot (0 : Fin 1) = (0 : Fin 1) := Subsingleton.elim (α := Fin 1) _ _
  have hfirst := hpassed (0 : Fin 1)
  rw [hslot] at hfirst
  obtain ⟨_, converted, hgiven, hconverted, -, htyped, hkinds⟩ := hfirst rfl rfl
  obtain rfl := Option.some.inj hgiven
  obtain rfl := (hkinds ⟨linked, formed⟩ (Expr.constantTyped_ofLiteral (.int 1) 0)).2 fun _ _ => rfl
  exact ⟨tree, declared, given, htree, hdeclared, happly, hconverted, htyped.1 rfl⟩

/-- For a `decimal`, the number in `f(1)` stays an integer.  Elsewhere it is converted to a
decimal. -/
theorem passed_constant_kept : ∃ tree given converted, Tree.ofDocument emptyDocument = .ok tree ∧
    ((unary (.primitive .decimal)).apply .empty [⟨none, .ofLiteral (.int 1) 0, 0⟩]).run =
      .ok (.ok ([given], 1)) ∧
    (∀ node, Program.convert { tree, symbols := .empty } (.ofLiteral (.int 1) 0) (.primitive .decimal)
      node = pure converted) ∧
    given.constant = some (.value (.int 1)) ∧
    converted.constant = some (.value (.decimal (.ofInt 1))) :=
  ⟨_, _, _, rfl, rfl, fun _ => rfl, rfl, rfl⟩

end Candidate
end Bindery
