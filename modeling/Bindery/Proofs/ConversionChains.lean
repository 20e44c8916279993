import Bindery.Proofs.ImplicitConversions

/-! # Chains of implicit conversions

What converts implicitly in two steps does so in one, but for one pair of types.  `int` widens to
`decimal` where both admit `null` or neither does.  So nothing leads from `int` to `decimal?`
directly, and two ways do in two steps, over `int?` and over `decimal`.

* `Widens.trans`: this pair apart, the rules of widening can be chained.
* `Widens.asNullable`: this pair and `void` apart, a type that widens to another also widens to the
  other with `null`. -/

namespace Bindery
namespace Ty

variable {t : SymbolTable} {source middle target : Ty}

/-- From `int` to `decimal?`. -/
def IsGap (source target : Ty) : Prop :=
  source = primitive .int ∧ target = (primitive .decimal).asNullable

instance (source target : Ty) : Decidable (source.IsGap target) := by
  unfold IsGap
  infer_instance

theorem IsGap.not_widens (h : source.IsGap target) : ¬ source.Widens t target := by
  obtain ⟨rfl, rfl⟩ := h
  intro hwidens
  cases hwidens with
  | toBase hdefinition => simp [definition?, primitive] at hdefinition

/-! ### Two steps -/

theorem IsBoxed.congr (h : middle.IsBoxed) (hkind : source.kind = middle.kind) : source.IsBoxed := by
  unfold IsBoxed isBoxable at h ⊢
  rwa [hkind]

theorem IsBoxed.of_definition {type : SymbolId} (h : source.definition? = some type) :
    source.IsBoxed := by
  obtain ⟨kind, n⟩ := source
  cases kind <;> simp_all [IsBoxed, isBoxable, definition?]

/-- Adding `null` comes before widening as well as after it, but for numbers. -/
theorem Widens.of_nullable {kind : TyKind} (hkind : kind ≠ .null) (hvoid : kind ≠ .primitive .void)
    (h : Widens t ⟨kind, true⟩ target) (hgap : ¬ IsGap ⟨kind, false⟩ target) :
    Widens t ⟨kind, false⟩ target := by
  cases h with
  | ofNull => exact absurd rfl hkind
  | refl => exact .toNullable hkind hvoid
  | toDecimal => exact absurd ⟨rfl, rfl⟩ hgap
  | toAny hboxed => exact .toAny (hboxed.congr rfl) (by simp)
  | toBase hderived hbase hup => exact .toBase hderived hbase hup (by simp)

theorem Widens.of_any {nullable : Bool} (hboxed : source.IsBoxed)
    (hnull : source.nullable = true → nullable = true)
    (h : Widens t ⟨.primitive .any, nullable⟩ target) : source.Widens t target := by
  cases h with
  | refl => exact .toAny hboxed hnull
  | toNullable => exact .toAny hboxed fun _ => rfl
  | toAny => exact .toAny hboxed fun h => by simp_all
  | toBase hdefinition => simp [definition?] at hdefinition

theorem Widens.of_base {derived base : SymbolId} (hderived : source.definition? = some derived)
    (hbase : middle.definition? = some base) (hup : Relation.TransGen t.BaseOf derived base)
    (hnull : source.nullable = true → middle.nullable = true) (h : middle.Widens t target) :
    source.Widens t target := by
  have hnullable : source.nullable = true → target.nullable = true := fun hs => h.nullable (hnull hs)
  cases h with
  | ofNull | toDecimal => simp [definition?] at hbase
  | refl | toNullable => exact .toBase hderived hbase hup hnullable
  | toAny => exact .toAny (.of_definition hderived) hnullable
  | toBase hmiddle htop hup' =>
    obtain rfl := Option.mem_unique hbase hmiddle
    exact .toBase hderived htop (hup.trans hup') hnullable

theorem Widens.trans (h : source.Widens t middle) (h' : middle.Widens t target)
    (hgap : ¬ source.IsGap target) : source.Widens t target := by
  cases h with
  | ofNull n hmiddle => exact .ofNull n (h'.nullable hmiddle)
  | refl => exact h'
  | toNullable hkind hvoid => exact h'.of_nullable hkind hvoid hgap
  | toDecimal n =>
    cases h' with
    | refl => exact .toDecimal n
    | toNullable => exact absurd ⟨rfl, rfl⟩ hgap
    | toAny _ hnull => exact .toAny (.inr ⟨.int, rfl, by simp, by simp⟩) hnull
    | toBase hdefinition => simp [definition?] at hdefinition
  | toAny hboxed hnull => exact h'.of_any hboxed hnull
  | toBase hderived hbase hup hnull => exact h'.of_base hderived hbase hup hnull

/-! ### Adding `null` -/

theorem Widens.asNullable (h : source.Widens t target) (hvoid : target ≠ .void)
    (hgap : ¬ source.IsGap target.asNullable) : source.Widens t target.asNullable := by
  obtain ⟨kind, nullable⟩ := target
  cases nullable with
  | true => exact h
  | false =>
    by_cases hkind : kind = .null
    · -- nothing but `null` itself widens to its type
      subst hkind
      cases h with
      | ofNull n => exact .ofNull n rfl
      | refl => exact .ofNull false rfl
      | toBase _ hdefinition => simp [definition?] at hdefinition
    · refine h.trans (.toNullable hkind ?_) hgap
      rintro rfl
      exact hvoid rfl

theorem not_widens_void_asNullable (h : source.Widens t .void) :
    ¬ source.Widens t Ty.void.asNullable := by
  intro h'
  cases h with
  | ofNull _ hnullable => simp [void, primitive] at hnullable
  | refl =>
    cases h' with
    | toNullable _ hvoid => exact hvoid rfl
    | toBase hdefinition => simp [definition?, void, primitive] at hdefinition
  | toBase _ hdefinition => simp [definition?, void, primitive] at hdefinition

end Ty

/-! ### Declared types -/

namespace Declarations

/-- Implicit conversions can be chained, whatever library types and whatever tree a table is made
of, unless the chain leads from `int` to `decimal?`: that conversion is missing.  In particular a
type that converts to another also converts to the other with `null`, unless the two are `int` and
`decimal`, or `void`. -/
theorem implicit_conversions_chain {d : Document} {tree : Tree} (h : Tree.ofDocument d = .ok tree)
    (libraryTypes : List String) :
    ∃ declared, declare tree libraryTypes = .ok () declared ∧
      ∀ source target : Ty, source.isError = false → target.isError = false →
        (∀ middle : Ty, middle.isError = false → source.ConvertsImplicitly declared.table middle →
          middle.ConvertsImplicitly declared.table target →
          (source.ConvertsImplicitly declared.table target ↔ ¬ source.IsGap target)) ∧
        (source.ConvertsImplicitly declared.table target →
          (source.ConvertsImplicitly declared.table target.asNullable ↔
            ¬ source.IsGap target.asNullable ∧ target ≠ .void)) := by
  obtain ⟨declared, hdeclared, formed, -⟩ := declare_formed (Tree.ofDocument_linked h) libraryTypes
  refine ⟨declared, hdeclared, fun source target hs ht => ⟨fun middle hm hfirst hsecond => ?_,
    fun himplicit => ?_⟩⟩
  · rw [Ty.convertsImplicitly_iff formed hs hm] at hfirst
    rw [Ty.convertsImplicitly_iff formed hm ht] at hsecond
    rw [Ty.convertsImplicitly_iff formed hs ht]
    exact ⟨fun hwidens hgap => hgap.not_widens hwidens, hfirst.trans hsecond⟩
  · have ht' : target.asNullable.isError = false := ht
    rw [Ty.convertsImplicitly_iff formed hs ht] at himplicit
    rw [Ty.convertsImplicitly_iff formed hs ht']
    refine ⟨fun hwidens => ⟨fun hgap => hgap.not_widens hwidens, ?_⟩,
      fun ⟨hgap, hvoid⟩ => himplicit.asNullable hvoid hgap⟩
    rintro rfl
    exact Ty.not_widens_void_asNullable himplicit hwidens

/-- A `Dog<int>` is an `Animal`, an `Animal` is an `Animal?`, and so a `Dog<int>` is an
`Animal?`. -/
theorem implicit_conversions_chain_animals : ∃ tree declared,
    Tree.ofDocument animalsDocument = .ok tree ∧ declare tree ["List"] = .ok () declared ∧
      ∃ dog animal : Ty, dog = ⟨.constructed 3 [.type (.primitive .int) false], false⟩ ∧
        animal = .named 2 ∧ dog.ConvertsImplicitly declared.table animal ∧
        animal.ConvertsImplicitly declared.table animal.asNullable ∧
        dog.ConvertsImplicitly declared.table animal.asNullable := by
  obtain ⟨tree, h⟩ : ∃ tree, Tree.ofDocument animalsDocument = .ok tree := ⟨_, rfl⟩
  obtain ⟨declared, hrun, hchain⟩ := implicit_conversions_chain h ["List"]
  let dog : Ty := ⟨.constructed 3 [.type (.primitive .int) false], false⟩
  let animal : Ty := .named 2
  have hbase : dog.ConvertsImplicitly declared.table animal :=
    ⟨.implicitReference, eq_of_seen? (dog.conversion ·.table animal) h hrun (by decide +kernel), rfl⟩
  have hnullable : animal.ConvertsImplicitly declared.table animal.asNullable :=
    ⟨.implicitNullable, Ty.conversion_sameKind rfl, rfl⟩
  exact ⟨tree, declared, h, hrun, dog, animal, rfl, rfl, hbase, hnullable,
    ((hchain dog animal.asNullable rfl rfl).1 animal rfl hbase hnullable).2 (by decide)⟩

/-- Chains that do not close: an `int` is an `int?` and a `decimal`, each of them is a `decimal?`,
and an `int` is none. -/
theorem implicit_conversions_not_transitive : ∃ tree declared,
    Tree.ofDocument animalsDocument = .ok tree ∧ declare tree [] = .ok () declared ∧
      ∃ int decimal : Ty, int = .primitive .int ∧ decimal = .primitive .decimal ∧
        int.ConvertsImplicitly declared.table int.asNullable ∧
        int.asNullable.ConvertsImplicitly declared.table decimal.asNullable ∧
        int.ConvertsImplicitly declared.table decimal ∧
        decimal.ConvertsImplicitly declared.table decimal.asNullable ∧
        ¬ int.ConvertsImplicitly declared.table decimal.asNullable := by
  obtain ⟨tree, h⟩ : ∃ tree, Tree.ofDocument animalsDocument = .ok tree := ⟨_, rfl⟩
  obtain ⟨declared, hrun, -⟩ := declare_formed (Tree.ofDocument_linked h) []
  refine ⟨tree, declared, h, hrun, .primitive .int, .primitive .decimal, rfl, rfl,
    ⟨_, rfl, rfl⟩, ⟨_, rfl, rfl⟩, ⟨_, rfl, rfl⟩, ⟨_, rfl, rfl⟩, ?_⟩
  rintro ⟨cast, hcast, himplicit⟩
  obtain rfl := Except.ok.inj hcast
  exact absurd himplicit (by decide)

end Declarations
end Bindery
