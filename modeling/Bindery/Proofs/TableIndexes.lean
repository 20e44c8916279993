import Bindery.Proofs.BaseResolution

/-! # The indexes of a symbol table

A table answers four questions from data that is kept apart: which symbol has a number (the array of
symbols), what lies in a container (the lists of members), which members have a name (the index by
names) and what a node declares (the index by declarations).  `SymbolTable.Indexed` says that the
answers agree.

All four are written when a symbol is appended, and stay in step (`InStep.pushed`).  A well-formed
table is indexed (`Formed.indexed`), so declaring the symbols of any accepted tree gives an indexed
table, whatever the library supplies (`Declarations.declare_indexed`). -/

namespace Bindery

theorem Symbol.isMember_iff (s : Symbol) : s.kind.isMember = true ↔
    s.isType = true ∨ s.isMethod = true ∨ s.isField = true := by
  unfold Symbol.isType Symbol.isMethod Symbol.isField
  cases s.kind <;> simp [SymbolKind.isMember]

namespace SymbolTable

/-- Whether the symbol of a number has a name. -/
def hasName (t : SymbolTable) (name : String) (id : SymbolId) : Bool :=
  t.symbols[id]?.any (·.name = name)

/-- Numbers, containers, names and declarations agree. -/
structure Indexed (t : SymbolTable) : Prop where
  id_eq : ∀ {i : Nat} {s : Symbol}, t.symbols[i]? = some s → s.id = i
  /-- The global container lies in nothing. -/
  top : ∃ s, t.symbols[global]? = some s ∧ s.containing = none
  /-- Everything else lies in what was there before it. -/
  inside : ∀ {i : Nat} {s : Symbol}, t.symbols[i]? = some s → i ≠ global →
    ∃ (c : Nat) (o : Symbol), s.containing = some c ∧ c < i ∧ t.symbols[c]? = some o ∧
      (c = global ∨ o.isType = true ∨ o.isMethod = true)
  members_eq : ∀ {c : Nat}, c < t.size → ∃ list : List SymbolId, t.members c = .ok list ∧
    list.Pairwise (· < ·) ∧
    (∀ id, id ∈ list ↔ ∃ s, t.symbols[id]? = some s ∧ s.containing = some c ∧
      (s.isType = true ∨ s.isMethod = true ∨ s.isField = true)) ∧
    ∀ name, t.lookup c name = list.filter (t.hasName name)
  declared_once : ∀ {i j : Nat} {s u : Symbol} {n : NodeId}, t.symbols[i]? = some s →
    t.symbols[j]? = some u → s.declaration = some n → u.declaration = some n → i = j
  declaredAt?_iff : ∀ {n : NodeId} {id : SymbolId}, t.declaredAt? n = some id ↔
    ∃ s, t.symbols[id]? = some s ∧ s.declaration = some n

variable {tree : Tree} {t : SymbolTable}

namespace Framed

variable (framed : t.Framed tree)
include framed

theorem map_id_symbols : t.symbols.toList.map (·.id) = List.range t.size := by
  refine List.ext_getElem? fun (i : Nat) => ?_
  rw [List.getElem?_map, Array.getElem?_toList]
  rcases Nat.lt_or_ge i t.size with hlt | hge
  · obtain ⟨s, hs⟩ := exists_of_lt hlt
    rw [hs, List.getElem?_range hlt, Option.map_some, (framed.entry hs).id_eq]
  · rw [Array.getElem?_eq_none hge, List.getElem?_eq_none (by simpa using hge)]
    rfl

theorem pairwise_contained (c : SymbolId) : (t.contained c).Pairwise (· < ·) := by
  refine List.Pairwise.sublist (List.filter_sublist.map _) ?_
  rw [framed.map_id_symbols]
  exact List.pairwise_lt_range

/-- Looking a name up is going through what lies in the container. -/
theorem lookup_eq (c : SymbolId) (name : String) :
    t.lookup c name = (t.contained c).filter (t.hasName name) := by
  rw [framed.inStep.lookup_eq]
  unfold contained idsWhere
  rw [List.filter_map, List.filter_filter]
  refine congrArg (List.map _) (List.filter_congr fun s hs => ?_)
  simp only [hasName, Function.comp_apply, framed.getElem?_id hs, Option.any_some]
  rw [Bool.and_comm]

variable {s : Symbol}

/-- Nothing may hold a global container, so there is one. -/
theorem eq_global {i : Nat} {members : List SymbolId} (hs : t.symbols[i]? = some s)
    (hkind : s.kind = .global members) : i = global := by
  rcases (framed.entry hs).containing with ⟨hzero, -⟩ | ⟨c, hc, -⟩
  · exact hzero
  · obtain ⟨o, -, hold⟩ := framed.held hs c hc
    simp [hkind, SymbolKind.mayHold] at hold

/-- What lies in another symbol lies in the global container, a type or a method. -/
theorem exists_container {i : Nat} (hs : t.symbols[i]? = some s) (hi : i ≠ global) :
    ∃ (c : Nat) (o : Symbol), s.containing = some c ∧ c < i ∧ t.symbols[c]? = some o ∧
      (c = global ∨ o.isType = true ∨ o.isMethod = true) := by
  rcases (framed.entry hs).containing with ⟨hzero, -⟩ | ⟨c, hc, hlt⟩
  · exact absurd hzero hi
  · obtain ⟨o, ho, hold⟩ := framed.held hs c hc
    refine ⟨c, o, hc, hlt, ho, ?_⟩
    cases hkind : o.kind with
    | global members => exact .inl (framed.eq_global ho hkind)
    | type data => exact .inr (.inl (by simp [Symbol.isType, hkind]))
    | method data => exact .inr (.inr (by simp [Symbol.isMethod, hkind]))
    | field _ | parameter _ | templateParameter _ =>
      cases hinner : s.kind <;>
        simp [hkind, hinner, SymbolKind.mayHold, SymbolKind.isContainer] at hold

end Framed

theorem Formed.indexed (formed : t.Formed tree) : t.Indexed := by
  constructor
  case id_eq => exact fun hs => (formed.entry hs).id_eq
  case top =>
    obtain ⟨s, members, hs, hkind⟩ := formed.global_eq
    rcases (formed.entry hs).containing with ⟨-, hnone⟩ | ⟨c, -, hlt⟩
    · exact ⟨s, hs, hnone⟩
    · exact absurd hlt (Nat.not_lt_zero c)
  case inside => exact fun hs hi => formed.toFramed.exists_container hs hi
  case members_eq =>
    intro c hc
    obtain ⟨o, ho⟩ := exists_of_lt hc
    have hmembers : t.members c = .ok (t.contained c) := by
      rw [← formed.members_eq ho]
      exact map_kind _ ho
    refine ⟨_, hmembers, formed.toFramed.pairwise_contained c, fun id => ?_,
      formed.toFramed.lookup_eq c⟩
    simp only [contained, formed.mem_idsWhere, Bool.and_eq_true, decide_eq_true_eq, Symbol.isMember_iff]
  case declared_once => exact formed.declared_once
  case declaredAt?_iff => exact formed.declaredAt?_iff

end SymbolTable

namespace Declarations

/-- Whatever library types it starts from, declaring the symbols of an accepted tree ends with a
table whose indexes agree. -/
theorem declare_indexed {d : Document} {tree : Tree} (h : Tree.ofDocument d = .ok tree)
    (libraryTypes : List String) :
    ∃ declared, declare tree libraryTypes = .ok () declared ∧ declared.table.Indexed := by
  obtain ⟨declared, hrun, hformed, -⟩ := declare_formed (Tree.ofDocument_linked h) libraryTypes
  exact ⟨declared, hrun, hformed.indexed⟩

/-- `class A<T> { class A {}  m(int x) {}  int m; }  class List {}  1;` -/
def nestedDocument : Document := ⟨"nested", [
  .templateParameter "T" none, .classDeclaration "A" .none [] none [], .typeName "int" [] false,
  .parameter "x" 2 none, .block [], .methodDeclaration "m" .none none [3] 4,
  .typeName "int" [] false, .fieldDeclaration "m" .none (some 6) none,
  .classDeclaration "A" .none [0] none [1, 5, 7], .classDeclaration "List" .none [] none [],
  .literal (.int 1), .expressionStatement 10, .globalStatement 11,
  .compilationUnit [8, 9, 12]]⟩

theorem declare_indexed_nested : ∃ tree declared, Tree.ofDocument nestedDocument = .ok tree ∧
    declare tree ["List"] = .ok () declared ∧ declared.table.Indexed ∧
    declared.table.lookup 2 "m" = [5, 7] ∧ declared.table.lookup 0 "List" = [1, 8] ∧
    declared.table.declaredAt? 3 = some 6 := by
  obtain ⟨tree, h⟩ : ∃ tree, Tree.ofDocument nestedDocument = .ok tree := ⟨_, rfl⟩
  obtain ⟨declared, hrun, hindexed⟩ := declare_indexed h ["List"]
  exact ⟨tree, declared, h, hrun, hindexed,
    eq_of_seen? (·.table.lookup 2 "m") h hrun (by decide +kernel),
    eq_of_seen? (·.table.lookup 0 "List") h hrun (by decide +kernel),
    eq_of_seen? (·.table.declaredAt? 3) h hrun (by decide +kernel)⟩

end Declarations
end Bindery
