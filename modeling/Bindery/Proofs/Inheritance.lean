import Bindery.Proofs.BaseResolution

/-! # Inheritance is acyclic

A base is entered only if it does not derive from the type that names it.  So no type ever derives
from itself: neither when the bases of all classes are resolved, nor when only those of the first
classes are (`Declarations.inheritance_acyclic`).  Walks along bases then end, and
`SymbolTable.Inherits` says what they answer. -/

namespace Bindery

namespace SymbolTable

/-- No type derives from itself, and questions about bases are answered from the base chain. -/
structure Inherits (t : SymbolTable) : Prop where
  acyclic : ∀ type, ¬ Relation.TransGen t.BaseOf type type
  /-- Every symbol leads to one without a base; the members of a name are those of the first type on
  the way that has some. -/
  chain : ∀ {type : Nat}, type < t.size → ∃ chain, t.BaseChain type chain ∧
    (∀ ancestor, t.isDerivedFrom type ancestor = .ok (decide (ancestor ∈ chain))) ∧
    ∀ name, t.lookupInHierarchy type name =
      .ok (((chain.map (t.lookup · name)).find? (!·.isEmpty)).getD [])
  derived_iff : ∀ {type ancestor : SymbolId},
    t.isDerivedFrom type ancestor = .ok true ↔ Relation.ReflTransGen t.BaseOf type ancestor
  refl : ∀ type, t.isDerivedFrom type type = .ok true
  trans : ∀ {a b c : SymbolId}, t.isDerivedFrom a b = .ok true → t.isDerivedFrom b c = .ok true →
    t.isDerivedFrom a c = .ok true
  antisymm : ∀ {a b : SymbolId}, t.isDerivedFrom a b = .ok true → t.isDerivedFrom b a = .ok true →
    a = b

variable {tree : Tree} {t : SymbolTable}

theorem BaseOf.lt_size {type base : SymbolId} (h : t.BaseOf type base) : type < t.size := by
  obtain ⟨s, hs, -⟩ := exists_of_base? h
  exact lt_of_getElem? hs

/-- A number that no symbol has derives from nothing but itself. -/
theorem isDerivedFrom_of_size_le {type ancestor : Nat} (h : t.size ≤ type) :
    t.isDerivedFrom type ancestor = .ok true ↔ type = ancestor := by
  have hnone : t.symbols[type]? = none := Array.getElem?_eq_none h
  have hbase : t.base? type = .error (.outOfRange t.size type) := by
    simp [base?, SymbolTable.kind, fetch, hnone, Functor.map, Except.map]
  by_cases heq : type = ancestor <;>
    simp [isDerivedFrom, walkLimit, search, heq, hbase, bind, Except.bind, pure, Except.pure,
      Functor.map, Except.map]

namespace Formed

variable (formed : t.Formed tree)
include formed

theorem isDerivedFrom_iff {type ancestor : Nat} :
    t.isDerivedFrom type ancestor = .ok true ↔ Relation.ReflTransGen t.BaseOf type ancestor := by
  rcases Nat.lt_or_ge type t.size with hlt | hge
  · obtain ⟨chain, hchain⟩ := formed.bases hlt
    rw [hchain.isDerivedFrom_eq, ← hchain.mem_iff]
    simp
  · rw [isDerivedFrom_of_size_le hge]
    constructor
    · rintro rfl
      exact .refl
    · intro h
      rcases h.cases_head with heq | ⟨base, hstep, -⟩
      · exact heq
      · exact absurd hstep.lt_size (Nat.not_lt.2 hge)

theorem not_transGen_base (type : SymbolId) : ¬ Relation.TransGen t.BaseOf type type := by
  intro hcycle
  obtain ⟨base, hstep, -⟩ := Relation.TransGen.head'_iff.1 hcycle
  obtain ⟨chain, hchain⟩ := formed.bases hstep.lt_size
  exact hchain.not_transGen hcycle

theorem inherits : t.Inherits := by
  constructor
  case acyclic => exact formed.not_transGen_base
  case chain =>
    intro type htype
    obtain ⟨chain, hchain⟩ := formed.bases htype
    exact ⟨chain, hchain, hchain.isDerivedFrom_eq, hchain.lookupInHierarchy_eq⟩
  case derived_iff => exact formed.isDerivedFrom_iff
  case refl => exact fun type => formed.isDerivedFrom_iff.2 .refl
  case trans =>
    intro a b c hab hbc
    exact formed.isDerivedFrom_iff.2
      ((formed.isDerivedFrom_iff.1 hab).trans (formed.isDerivedFrom_iff.1 hbc))
  case antisymm =>
    intro a b hab hba
    rcases Relation.reflTransGen_iff_eq_or_transGen.1 (formed.isDerivedFrom_iff.1 hab) with heq | hab
    · exact heq.symm
    · exact absurd (hab.trans_left (formed.isDerivedFrom_iff.1 hba)) (formed.not_transGen_base a)

end Formed
end SymbolTable

namespace Declarations

/-- Whatever library types it starts from, declaring the symbols of an accepted tree ends without a
cycle of bases.  Nor is there one before, when the bases of some classes are resolved and those of
the others are not. -/
theorem inheritance_acyclic {d : Document} {tree : Tree} (h : Tree.ofDocument d = .ok tree)
    (libraryTypes : List String) :
    ∃ start declared, declareMembers tree (ofLibrary libraryTypes) = .ok () start ∧
      declare tree libraryTypes = .ok () declared ∧ declared.table.Inherits ∧
      ∀ before after, start.types = before ++ after →
        ∃ between, before.forM (resolveBase tree) start = .ok () between ∧
          after.forM (resolveBase tree) between = .ok () declared ∧ between.table.Inherits := by
  obtain ⟨start, declared, hstart, -, hrun, resolves, -, hparts⟩ :=
    declare_in_order (Tree.ofDocument_linked h) libraryTypes
  refine ⟨start, declared, hstart, hrun, resolves.sound.formed.inherits, fun before after htypes => ?_⟩
  obtain ⟨between, hbetween, resolves', hafter⟩ := hparts before after htypes
  exact ⟨between, hbetween, hafter, resolves'.sound.formed.inherits⟩

/-- `class A { class B : A {} }  class C : C {}  class D : A {}  class A : D {}`: the second `A` is
never found by its name. -/
def basesDocument : Document := ⟨"bases", [
  .typeName "A" [] false, .classDeclaration "B" .none [] (some 0) [],
  .classDeclaration "A" .none [] none [1],
  .typeName "C" [] false, .classDeclaration "C" .none [] (some 3) [],
  .typeName "A" [] false, .classDeclaration "D" .none [] (some 5) [],
  .typeName "D" [] false, .classDeclaration "A" .none [] (some 7) [],
  .compilationUnit [2, 4, 6, 8]]⟩

theorem inheritance_acyclic_bases : ∃ tree declared, Tree.ofDocument basesDocument = .ok tree ∧
    declare tree ["List"] = .ok () declared ∧ declared.table.Inherits ∧
    declared.table.symbols.toList.map (·.kind.base?) =
      [none, none, none, some 2, none, some 2, some 5] := by
  obtain ⟨tree, h⟩ : ∃ tree, Tree.ofDocument basesDocument = .ok tree := ⟨_, rfl⟩
  obtain ⟨start, declared, -, hrun, hinherits, -⟩ := inheritance_acyclic h ["List"]
  exact ⟨tree, declared, h, hrun, hinherits,
    eq_of_seen? (·.table.symbols.toList.map (·.kind.base?)) h hrun (by decide +kernel)⟩

end Declarations
end Bindery
