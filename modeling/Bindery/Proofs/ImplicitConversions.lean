import Bindery.Proofs.Inheritance
import Bindery.Proofs.Known

/-! # Implicit conversions

`Ty.Widens` gives the rules by which a value of one type is taken for one of another, and
`Ty.convertsImplicitly_iff` says that classifying conversions follows them.

* A value is never taken for one of a type that does not admit its `null` (`Widens.nullable`).
* No two types widen to each other (`Widens.antisymm`): a rule leads from a class to a base, from
  `int` to `decimal` or into `any`, and no way leads back.
* What was widened can be cast back (`Widens.exists_back`).

So it is in every table that declarations give (`Declarations.implicit_conversions_safe`). -/

namespace Bindery

/-! ### Between primitive types -/

namespace Cast

variable {n m : Bool}

theorem isImplicit_ofPrimitives_iff {p q : Primitive} :
    (ofPrimitives p q n m).isImplicit = true ↔ p ≠ .void ∧ q ≠ .void ∧
      (p = q ∧ (n = true → m = true) ∨ p ≠ .any ∧ q = .any ∧ (n = true → m = true) ∨
        p = .int ∧ q = .decimal ∧ n = m) := by
  cases p <;> cases q <;> cases n <;> cases m <;> decide

theorem isPossible_ofPrimitives_back {p q : Primitive}
    (h : (ofPrimitives p q n m).isImplicit = true) : (ofPrimitives q p m n).isPossible = true := by
  revert h
  cases p <;> cases q <;> cases n <;> cases m <;> decide

theorem isImplicit_intoAny_iff :
    (intoAny n m).isImplicit = true ↔ (n = true → m = true) := by
  cases n <;> cases m <;> decide

theorem isPossible_outOfAny (n m : Bool) : (outOfAny n m).isPossible = true := by
  cases n <;> cases m <;> decide

theorem isImplicit_outOfAny (n m : Bool) : (outOfAny n m).isImplicit = false := by
  cases n <;> cases m <;> decide

end Cast

namespace Ty

variable {tree : Tree} {t : SymbolTable} {source target : Ty}

/-! ### The rules -/

/-- Whether values of the type are put into a box when they become `any`. -/
def IsBoxed (source : Ty) : Prop :=
  source.isBoxable = true ∨ ∃ p, source.kind = .primitive p ∧ p ≠ .any ∧ p ≠ .void

/-- A value of the first type is taken for one of the second. -/
inductive Widens (t : SymbolTable) : Ty → Ty → Prop where
  | ofNull (nullable : Bool) {target : Ty} : target.nullable = true → Widens t ⟨.null, nullable⟩ target
  | refl {source : Ty} : source.kind ≠ .null → Widens t source source
  | toNullable {kind : TyKind} : kind ≠ .null → kind ≠ .primitive .void →
      Widens t ⟨kind, false⟩ ⟨kind, true⟩
  /-- Both admit `null` or neither. -/
  | toDecimal (nullable : Bool) :
      Widens t ⟨.primitive .int, nullable⟩ ⟨.primitive .decimal, nullable⟩
  | toAny {source : Ty} {nullable : Bool} : source.IsBoxed →
      (source.nullable = true → nullable = true) → Widens t source ⟨.primitive .any, nullable⟩
  | toBase {source target : Ty} {derived base : SymbolId} : source.definition? = some derived →
      target.definition? = some base → Relation.TransGen t.BaseOf derived base →
      (source.nullable = true → target.nullable = true) → Widens t source target

/-- The conversion is classified as one that needs no cast. -/
def ConvertsImplicitly (t : SymbolTable) (source target : Ty) : Prop :=
  ∃ cast, source.conversion t target = .ok cast ∧ cast.isImplicit = true

/-! ### Classification by the kinds of types -/

theorem kind_of_primitive? {type : Ty} {p : Primitive} (h : type.primitive? = some p) :
    type.kind = .primitive p := by
  unfold primitive? at h
  split at h <;> simp_all

theorem conversion_self (h : source.kind ≠ .null) : source.conversion t source = .ok .identity := by
  simp only [conversion, isNull, h, decide_false]
  split <;> rfl

theorem conversion_primitives (p q : Primitive) (n m : Bool) :
    conversion t ⟨.primitive p, n⟩ ⟨.primitive q, m⟩ =
      .ok (if p = q ∧ n = m then .identity else .ofPrimitives p q n m) := by
  by_cases heq : p = q ∧ n = m
  · obtain ⟨rfl, rfl⟩ := heq
    rw [conversion_self (by simp), if_pos ⟨rfl, rfl⟩]
  · rw [if_neg heq]
    simp [conversion, isError, isNull, primitive?, heq, pure, Except.pure]

theorem conversion_intoAny (h : source.isBoxable = true) (m : Bool) :
    conversion t source ⟨.primitive .any, m⟩ = .ok (.intoAny source.nullable m) := by
  obtain ⟨kind, n⟩ := source
  cases kind <;> simp_all [conversion, isError, isNull, primitive?, isBoxable] <;> rfl

theorem conversion_outOfAny (h : source.isBoxable = true) (m : Bool) :
    conversion t ⟨.primitive .any, m⟩ source = .ok (.outOfAny m source.nullable) := by
  obtain ⟨kind, n⟩ := source
  cases kind <;> simp_all [conversion, isError, isNull, primitive?, isBoxable] <;> rfl

theorem conversion_sameKind {kind : TyKind} {n : Bool} (h : isBoxable ⟨kind, n⟩ = true) :
    conversion t ⟨kind, n⟩ ⟨kind, !n⟩ =
      .ok (if n then .explicitNullable else .implicitNullable) := by
  cases kind <;> cases n <;>
    simp_all [conversion, isError, isNull, primitive?, isBoxable, sameKind] <;> rfl

/-- A type converts to itself with `null`, and by a cast to itself without. -/
theorem exists_conversion_nullability {kind : TyKind} (hkind : kind ≠ .null)
    (hvoid : kind ≠ .primitive .void) (n : Bool) :
    ∃ cast, conversion t ⟨kind, n⟩ ⟨kind, !n⟩ = .ok cast ∧ cast.isPossible = true ∧
      (n = false → cast.isImplicit = true) := by
  cases kind with
  | primitive p =>
    refine ⟨_, conversion_primitives .., ?_⟩
    cases p <;> cases n <;> simp_all <;> decide
  | named | constructed | parameter =>
    refine ⟨_, conversion_sameKind rfl, ?_⟩
    cases n <;> decide
  | null => exact absurd rfl hkind
  | error => exact ⟨.identity, rfl, rfl, fun _ => rfl⟩

/-- Values are put into boxes implicitly and taken out by a cast. -/
theorem IsBoxed.conversions (h : source.IsBoxed) {m : Bool}
    (hnull : source.nullable = true → m = true) :
    source.ConvertsImplicitly t ⟨.primitive .any, m⟩ ∧
      ∃ back, conversion t ⟨.primitive .any, m⟩ source = .ok back ∧ back.isPossible = true := by
  rcases h with hboxable | ⟨p, hp, hany, hvoid⟩
  · exact ⟨⟨_, conversion_intoAny hboxable m, Cast.isImplicit_intoAny_iff.2 hnull⟩,
      _, conversion_outOfAny hboxable m, Cast.isPossible_outOfAny ..⟩
  · obtain ⟨kind, n⟩ := source
    obtain rfl : kind = .primitive p := hp
    have himplicit : (Cast.ofPrimitives p .any n m).isImplicit = true :=
      Cast.isImplicit_ofPrimitives_iff.2 ⟨hvoid, by simp, .inr (.inl ⟨hany, rfl, hnull⟩)⟩
    refine ⟨⟨_, conversion_primitives .., ?_⟩, _, conversion_primitives .., ?_⟩
    · rwa [if_neg fun heq => hany heq.1]
    · rw [if_neg fun heq => hany heq.1.symm]
      exact Cast.isPossible_ofPrimitives_back himplicit

theorem conversion_classes {derived base : SymbolId} (hs : source.definition? = some derived)
    (ht : target.definition? = some base) (hne : derived ≠ base) :
    source.conversion t target = referenceConversion t source target := by
  obtain ⟨kind, n⟩ := source
  obtain ⟨kind', m⟩ := target
  cases kind <;> cases kind' <;>
    simp_all [conversion, isError, isNull, primitive?, isBoxable, sameKind, definition?]

/-! ### Along the base chain -/

section Chain

variable (formed : t.Formed tree) {derived base : SymbolId}
include formed

theorem isDerivedFrom_iff_transGen (hne : derived ≠ base) :
    t.isDerivedFrom derived base = .ok true ↔ Relation.TransGen t.BaseOf derived base := by
  rw [formed.isDerivedFrom_iff, Relation.reflTransGen_iff_eq_or_transGen]
  exact or_iff_right fun heq => hne heq.symm

theorem ne_of_transGen (hup : Relation.TransGen t.BaseOf derived base) : derived ≠ base := by
  rintro rfl
  exact formed.not_transGen_base _ hup

theorem conversion_up (hs : source.definition? = some derived) (ht : target.definition? = some base)
    (hup : Relation.TransGen t.BaseOf derived base) : source.conversion t target =
      .ok (if source.nullable && !target.nullable then .explicitNullable else .implicitReference) := by
  have hne := ne_of_transGen formed hup
  rw [conversion_classes hs ht hne]
  simp only [referenceConversion, hs, ht, if_neg hne,
    (isDerivedFrom_iff_transGen formed hne).2 hup]
  rfl

theorem conversion_down (hs : source.definition? = some derived) (ht : target.definition? = some base)
    (hup : Relation.TransGen t.BaseOf derived base) :
    target.conversion t source = .ok .explicitReference := by
  have hne := ne_of_transGen formed hup
  obtain ⟨_, hstep, -⟩ := Relation.TransGen.head'_iff.1 hup
  obtain ⟨chain, hchain⟩ := formed.bases hstep.lt_size
  have hbase : base < t.size := hchain.lt_size (hchain.mem_iff.2 hup.to_reflTransGen)
  obtain ⟨down, hdown, -⟩ := formed.isDerivedFrom_yields derived hbase
  obtain rfl : down = false := by
    cases down with
    | false => rfl
    | true =>
      have hback := (isDerivedFrom_iff_transGen formed hne.symm).1 hdown
      exact absurd (hup.trans hback) (formed.not_transGen_base _)
  rw [conversion_classes ht hs hne.symm]
  simp only [referenceConversion, ht, hs, if_neg hne.symm, hdown,
    (isDerivedFrom_iff_transGen formed hne).2 hup]
  rfl

end Chain

/-! ### Classification follows the rules -/

theorem Widens.of_reference (formed : t.Formed tree) {cast : Cast}
    (h : referenceConversion t source target = .ok cast) (himplicit : cast.isImplicit = true) :
    source.Widens t target := by
  unfold referenceConversion at h
  split at h
  · next derived base hderived hbase =>
    split at h
    · obtain rfl := Except.ok.inj h
      simp [Cast.isImplicit] at himplicit
    · next hne =>
      obtain ⟨up, hup, h⟩ := exists_of_bind_eq_ok h
      cases up with
      | true =>
        obtain rfl := Except.ok.inj h
        refine .toBase hderived hbase ((isDerivedFrom_iff_transGen formed hne).1 hup) fun hnull => ?_
        cases htarget : target.nullable <;> simp_all [Cast.isImplicit]
      | false =>
        obtain ⟨down, -, h⟩ := exists_of_bind_eq_ok h
        cases down <;> obtain rfl := Except.ok.inj h <;> simp [Cast.isImplicit] at himplicit
  · obtain rfl := Except.ok.inj h
    simp [Cast.isImplicit] at himplicit

theorem Widens.of_primitives {p q : Primitive} {n m : Bool} (hne : ¬ (p = q ∧ n = m))
    (h : (Cast.ofPrimitives p q n m).isImplicit = true) :
    Widens t ⟨.primitive p, n⟩ ⟨.primitive q, m⟩ := by
  obtain ⟨hp, -, ⟨rfl, hnull⟩ | ⟨hany, rfl, hnull⟩ | ⟨rfl, rfl, rfl⟩⟩ :=
    Cast.isImplicit_ofPrimitives_iff.1 h
  · obtain ⟨rfl, rfl⟩ : n = false ∧ m = true := by cases n <;> cases m <;> simp_all
    exact .toNullable (by simp) (by simpa using hp)
  · exact .toAny (.inr ⟨p, rfl, hany, hp⟩) hnull
  · exact .toDecimal n

theorem Widens.of_conversion (formed : t.Formed tree) (hs : source.isError = false)
    (ht : target.isError = false) (h : source.ConvertsImplicitly t target) :
    source.Widens t target := by
  obtain ⟨cast, h, himplicit⟩ := h
  obtain ⟨kind, n⟩ := source
  obtain ⟨kind', m⟩ := target
  unfold conversion at h
  rw [if_neg (by simp [hs, ht])] at h
  split at h
  · next hnull =>
    obtain rfl := Except.ok.inj h
    obtain rfl : kind = .null := by simpa [isNull] using hnull
    refine .ofNull n ?_
    cases m <;> simp_all [Cast.isImplicit]
  next hvalue =>
  have hnull : kind ≠ .null := by simpa [isNull] using hvalue
  split at h
  · next heq => exact heq ▸ .refl hnull
  next hne =>
  split at h
  · next p q hp hq =>
    obtain rfl := Except.ok.inj h
    obtain rfl : kind = .primitive p := kind_of_primitive? hp
    obtain rfl : kind' = .primitive q := kind_of_primitive? hq
    exact .of_primitives (fun heq => hne (by rw [heq.1, heq.2])) himplicit
  split at h
  · next hany =>
    obtain rfl := Except.ok.inj h
    obtain ⟨hany, hboxable⟩ := Bool.and_eq_true_iff.1 hany
    obtain rfl : kind' = .primitive .any := kind_of_primitive? (by simpa using hany)
    exact .toAny (.inl hboxable) (Cast.isImplicit_intoAny_iff.1 himplicit)
  split at h
  · obtain rfl := Except.ok.inj h
    simp [Cast.isImplicit_outOfAny] at himplicit
  split at h
  · next hkind =>
    obtain rfl := Except.ok.inj h
    obtain rfl : kind = kind' := by simpa [sameKind] using hkind
    obtain rfl : m = true := by cases m <;> simp_all [Cast.isImplicit]
    obtain rfl : n = false := by cases n <;> simp_all
    exact .toNullable hnull (by rintro rfl; simp_all [primitive?])
  · exact .of_reference formed h himplicit

theorem Widens.convertsImplicitly (formed : t.Formed tree) (h : source.Widens t target) :
    source.ConvertsImplicitly t target := by
  cases h with
  | ofNull n htarget =>
    refine ⟨.identity, ?_, rfl⟩
    simp only [conversion, isNull, htarget, decide_true, if_true]
    split <;> rfl
  | refl hkind => exact ⟨_, conversion_self hkind, rfl⟩
  | toNullable hkind hvoid =>
    obtain ⟨cast, hcast, -, himplicit⟩ := exists_conversion_nullability hkind hvoid false
    exact ⟨cast, hcast, himplicit rfl⟩
  | toDecimal n => exact ⟨_, conversion_primitives .., by cases n <;> rfl⟩
  | toAny hboxed hnull => exact (hboxed.conversions hnull).1
  | toBase hderived hbase hup hnull =>
    refine ⟨_, conversion_up formed hderived hbase hup, ?_⟩
    cases hsource : source.nullable <;> simp_all [Cast.isImplicit]

/-- Implicit conversions between types without errors are those that the rules give. -/
theorem convertsImplicitly_iff (formed : t.Formed tree) (hs : source.isError = false)
    (ht : target.isError = false) : source.ConvertsImplicitly t target ↔ source.Widens t target :=
  ⟨.of_conversion formed hs ht, fun h => h.convertsImplicitly formed⟩

/-! ### What the rules keep -/

theorem Widens.nullable (h : source.Widens t target) (hsource : source.nullable = true) :
    target.nullable = true := by
  cases h with
  | ofNull _ htarget => exact htarget
  | refl | toDecimal => exact hsource
  | toNullable => rfl
  | toAny _ hnull | toBase _ _ _ hnull => exact hnull hsource

theorem Widens.antisymm (formed : t.Formed tree) (h : source.Widens t target)
    (h' : target.Widens t source) : source = target := by
  have hkind : source.kind = target.kind := by
    cases h with
    | refl | toNullable => rfl
    | ofNull n _ =>
      cases h' with
      | ofNull | refl | toNullable => rfl
      | toBase _ hdefinition => simp [definition?] at hdefinition
    | toDecimal n =>
      cases h' with
      | toBase hdefinition => simp [definition?] at hdefinition
    | toAny hboxed _ =>
      cases h' with
      | refl | toNullable | toAny => rfl
      | toBase hdefinition => simp [definition?] at hdefinition
    | toBase hderived hbase hup _ =>
      cases h' with
      | refl | toNullable => rfl
      | ofNull => simp [definition?] at hbase
      | toDecimal | toAny => simp [definition?] at hderived
      | toBase hbase' hderived' hdown _ =>
        -- two classes above each other would close a cycle of bases
        obtain rfl := Option.mem_unique hderived hderived'
        obtain rfl := Option.mem_unique hbase hbase'
        exact absurd (hup.trans hdown) (formed.not_transGen_base _)
  have hnull : source.nullable = target.nullable := Bool.eq_iff_iff.2 ⟨h.nullable, h'.nullable⟩
  cases source
  cases target
  simp_all

theorem Widens.exists_back (formed : t.Formed tree) (h : source.Widens t target)
    (hnull : source.isNull = false) :
    ∃ back, target.conversion t source = .ok back ∧ back.isPossible = true := by
  cases h with
  | ofNull => simp [isNull] at hnull
  | refl hkind => exact ⟨_, conversion_self hkind, rfl⟩
  | toNullable hkind hvoid =>
    obtain ⟨cast, hcast, hpossible, -⟩ := exists_conversion_nullability hkind hvoid true
    exact ⟨cast, hcast, hpossible⟩
  | toDecimal n => exact ⟨_, conversion_primitives .., by cases n <;> rfl⟩
  | toAny hboxed hnull => exact (hboxed.conversions hnull).2
  | toBase hderived hbase hup _ => exact ⟨_, conversion_down formed hderived hbase hup, rfl⟩

end Ty

/-! ### Declared types -/

namespace Declarations

/-- Implicit conversions are safe, whatever library types and whatever tree a table is made of.
They never lead from a type that admits `null` to one that does not, never both ways between two
types, and what they convert, unless it is `null`, can be cast back.  Types that are made of
declared symbols are always classified. -/
theorem implicit_conversions_safe {d : Document} {tree : Tree} (h : Tree.ofDocument d = .ok tree)
    (libraryTypes : List String) :
    ∃ declared, declare tree libraryTypes = .ok () declared ∧
      ∀ source target : Ty, source.isError = false → target.isError = false →
        (source.ConvertsImplicitly declared.table target →
          (source.nullable = true → target.nullable = true) ∧
          (target.ConvertsImplicitly declared.table source → source = target) ∧
          (source.isNull = false → ∃ back,
            target.conversion declared.table source = .ok back ∧ back.isPossible = true)) ∧
        (source.Known { tree, symbols := declared.table } →
          target.Known { tree, symbols := declared.table } →
          ∃ cast, source.conversion declared.table target = .ok cast) := by
  have linked := Tree.ofDocument_linked h
  obtain ⟨declared, hdeclared, formed, -⟩ := declare_formed linked libraryTypes
  refine ⟨declared, hdeclared, fun source target hs ht => ?_⟩
  refine ⟨fun himplicit => ?_, fun hsource htarget => ?_⟩
  · have hwidens := (Ty.convertsImplicitly_iff formed hs ht).1 himplicit
    refine ⟨hwidens.nullable, fun hback => ?_, hwidens.exists_back formed⟩
    exact hwidens.antisymm formed ((Ty.convertsImplicitly_iff formed ht hs).1 hback)
  · have hprogram : Program.Formed { tree, symbols := declared.table } := ⟨linked, formed⟩
    obtain ⟨cast, hcast, -⟩ := hprogram.conversion_yields hsource htarget
    exact ⟨cast, hcast⟩

/-- `class Animal {}  class Dog<T> : Animal {}`. -/
def animalsDocument : Document := ⟨"animals", [
  .classDeclaration "Animal" .none [] none [],
  .templateParameter "T" none, .typeName "Animal" [] false,
  .classDeclaration "Dog" .none [1] (some 2) [], .compilationUnit [0, 3]]⟩

/-- A `Dog<int>` is an `Animal?`, which may be cast to `Dog<int>`. -/
theorem implicit_conversions_safe_animals : ∃ tree declared,
    Tree.ofDocument animalsDocument = .ok tree ∧ declare tree ["List"] = .ok () declared ∧
      ∃ dog animal : Ty, dog = ⟨.constructed 3 [.type (.primitive .int) false], false⟩ ∧
        animal = ⟨.named 2, true⟩ ∧ dog.ConvertsImplicitly declared.table animal ∧
        ∃ back, animal.conversion declared.table dog = .ok back ∧ back.isPossible = true := by
  obtain ⟨tree, h⟩ : ∃ tree, Tree.ofDocument animalsDocument = .ok tree := ⟨_, rfl⟩
  obtain ⟨declared, hrun, hsafe⟩ := implicit_conversions_safe h ["List"]
  let dog : Ty := ⟨.constructed 3 [.type (.primitive .int) false], false⟩
  let animal : Ty := ⟨.named 2, true⟩
  have hconverts : dog.ConvertsImplicitly declared.table animal :=
    ⟨.implicitReference, eq_of_seen? (dog.conversion ·.table animal) h hrun (by decide +kernel), rfl⟩
  exact ⟨tree, declared, h, hrun, dog, animal, rfl, rfl, hconverts,
    ((hsafe dog animal rfl rfl).1 hconverts).2.2 rfl⟩

end Declarations
end Bindery
