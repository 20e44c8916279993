import Bindery.Proofs.TableFormed
import Mathlib.Data.List.Perm.Subperm
import Mathlib.Logic.Relation

/-! # Base chains

From base to base a symbol of a well-formed table leads to one without a base, so the questions that
walk along bases are questions about a list: the base chain.

* A chain passes no symbol twice, so it is no longer than the table and no walk is cut short.
* `isDerivedFrom` asks whether the ancestor is on the chain, and `lookupInHierarchy` gives what the
  first type on the chain that has the name says.
* A base whose chain does not lead back to the type may be entered: every chain then still ends
  (`Formed.rebase`). -/

namespace Bindery.SymbolTable

variable {tree : Tree} {t : SymbolTable} {start : SymbolId} {chain : List SymbolId}

/-- `base` is the base of `type`. -/
def BaseOf (t : SymbolTable) (type base : SymbolId) : Prop := t.base? type = .ok (some base)

namespace BaseChain

variable (h : t.BaseChain start chain)
include h

theorem start_mem : start ∈ chain := by
  cases h <;> simp

theorem exists_rest {base : SymbolId} (hbase : t.BaseOf start base) :
    ∃ rest, chain = start :: rest ∧ t.BaseChain base rest := by
  cases h with
  | last hlast => simp [BaseOf, hlast] at hbase
  | step hstep hrest =>
    rw [BaseOf, hstep] at hbase
    obtain rfl := Option.some.inj (Except.ok.inj hbase)
    exact ⟨_, rfl, hrest⟩

theorem eq_of_same_start {chain' : List SymbolId} (h' : t.BaseChain start chain') :
    chain = chain' := by
  induction h generalizing chain' with
  | last hlast =>
    cases h' with
    | last => rfl
    | step hstep => simp [hlast] at hstep
  | step hstep _ ih =>
    obtain ⟨rest, rfl, hrest⟩ := h'.exists_rest hstep
    rw [ih hrest]

/-- What lies on a chain has the rest of the chain as its own. -/
theorem exists_suffix {type : SymbolId} (hmem : type ∈ chain) :
    ∃ rest, t.BaseChain type rest ∧ rest <:+ chain := by
  induction h with
  | last hlast =>
    obtain rfl := List.mem_singleton.1 hmem
    exact ⟨_, .last hlast, List.suffix_refl _⟩
  | step hstep htail ih =>
    rcases List.mem_cons.1 hmem with rfl | hmem
    · exact ⟨_, .step hstep htail, List.suffix_refl _⟩
    · obtain ⟨rest, hrest, hsuffix⟩ := ih hmem
      exact ⟨rest, hrest, hsuffix.trans (List.suffix_cons _ _)⟩

theorem start_lt : start < t.size := by
  cases h with
  | last hbase | step hbase =>
    obtain ⟨s, hs, -⟩ := exists_of_base? hbase
    exact lt_of_getElem? hs

theorem lt_size {type : SymbolId} (hmem : type ∈ chain) : type < t.size := by
  obtain ⟨rest, hrest, -⟩ := h.exists_suffix hmem
  exact hrest.start_lt

/-- A chain that came back to its start would be shorter than itself. -/
theorem nodup : chain.Nodup := by
  induction h with
  | last => exact List.pairwise_singleton _ _
  | @step type base tail hstep htail ih =>
    refine List.nodup_cons.2 ⟨fun hmem => ?_, ih⟩
    obtain ⟨rest, hrest, hsuffix⟩ := htail.exists_suffix hmem
    have hsame := hrest.eq_of_same_start (.step hstep htail)
    have hlength := hsuffix.length_le
    rw [hsame, List.length_cons] at hlength
    omega

theorem length_le : chain.length ≤ t.size := by
  have hsub : chain ⊆ List.range t.size := fun type hmem => List.mem_range.2 (h.lt_size hmem)
  simpa using (List.Nodup.subperm h.nodup hsub).length_le

theorem mem_iff {ancestor : SymbolId} :
    ancestor ∈ chain ↔ Relation.ReflTransGen t.BaseOf start ancestor := by
  constructor
  · intro hmem
    induction h with
    | last =>
      obtain rfl := List.mem_singleton.1 hmem
      exact .refl
    | step hstep _ ih =>
      rcases List.mem_cons.1 hmem with rfl | hmem
      · exact .refl
      · exact .head hstep (ih hmem)
  · intro hreach
    induction hreach using Relation.ReflTransGen.head_induction_on generalizing chain with
    | refl => exact h.start_mem
    | head hstep _ ih =>
      obtain ⟨rest, rfl, hrest⟩ := h.exists_rest hstep
      exact List.mem_cons_of_mem _ (ih hrest)

/-- No chain leads back to its start. -/
theorem not_transGen : ¬ Relation.TransGen t.BaseOf start start := by
  intro hcycle
  obtain ⟨base, hstep, hback⟩ := Relation.TransGen.head'_iff.1 hcycle
  obtain ⟨rest, rfl, hrest⟩ := h.exists_rest hstep
  exact (List.nodup_cons.1 h.nodup).1 (hrest.mem_iff.2 hback)

/-! ### Walks -/

/-- A walk along bases that may take as many steps as the chain has symbols asks all of them. -/
theorem search_eq {α : Type} (answer : SymbolId → Option α) {fuel : Nat}
    (hfuel : chain.length ≤ fuel) :
    search t.base? (fun type => return answer type) fuel start = .ok (chain.findSome? answer) := by
  induction h generalizing fuel with
  | @last type hlast =>
    obtain ⟨fuel, rfl⟩ : ∃ n, fuel = n + 1 := ⟨fuel - 1, by simp at hfuel; omega⟩
    cases hanswer : answer type <;>
      simp [search, hanswer, hlast, bind, Except.bind, pure, Except.pure]
  | @step type base tail hstep htail ih =>
    rw [List.length_cons] at hfuel
    obtain ⟨fuel, rfl⟩ : ∃ n, fuel = n + 1 := ⟨fuel - 1, by omega⟩
    have hrest := @ih fuel (by omega)
    cases hanswer : answer type <;>
      simp_all [search, bind, Except.bind, pure, Except.pure]

theorem search_walkLimit {α : Type} (answer : SymbolId → Option α) :
    search t.base? (fun type => return answer type) t.walkLimit start =
      .ok (chain.findSome? answer) :=
  h.search_eq answer (Nat.le_succ_of_le h.length_le)

theorem isDerivedFrom_eq (ancestor : SymbolId) :
    t.isDerivedFrom start ancestor = .ok (decide (ancestor ∈ chain)) := by
  unfold isDerivedFrom
  rw [h.search_walkLimit]
  refine congrArg Except.ok (Bool.eq_iff_iff.2 ?_)
  simp only [List.isSome_findSome?, List.any_eq_true, decide_eq_true_eq, Option.isSome_ite]
  exact ⟨fun ⟨type, hmem, heq⟩ => heq ▸ hmem, fun hmem => ⟨ancestor, hmem, rfl⟩⟩

theorem lookupInHierarchy_eq (name : String) :
    t.lookupInHierarchy start name =
      .ok (((chain.map (t.lookup · name)).find? (!·.isEmpty)).getD []) := by
  unfold lookupInHierarchy
  rw [h.search_walkLimit]
  have hfound : chain.findSome? (fun type =>
      if (t.lookup type name).isEmpty then none else some (t.lookup type name)) =
      (chain.map (t.lookup · name)).find? (!·.isEmpty) := by
    rw [List.find?_eq_findSome?_guard, List.findSome?_map]
    refine congrArg (fun answer => chain.findSome? answer) (funext fun type => ?_)
    cases h : (t.lookup type name).isEmpty <;> simp [Option.guard, h]
  exact congrArg (fun found => Except.ok (Option.getD found [])) hfound

end BaseChain

/-! ### Entering a base -/

/-- A type whose base is changed to one that does not derive from it still leads to an end, and so
does everything that derives from it. -/
theorem Formed.rebase (formed : t.Formed tree) {type base : Nat} (hchain : t.BaseChain base chain)
    (hnot : type ∉ chain) {f : SymbolKind → SymbolKind}
    (hshape : ∀ kind, (f kind).shape = kind.shape)
    (hrefs : ∀ kind (r : Nat), r ∈ (f kind).references → r ∈ kind.references ∨ r < t.size)
    (hmembers : ∀ kind, (f kind).members = kind.members)
    (hbase : ∀ kind, (f kind).base? = kind.base? ∨ (f kind).base? = some base) :
    (t.mapKind type f).Formed tree := by
  have hkept : ∀ other : Nat, type ≠ other → ∀ found, t.base? other = .ok found →
      (t.mapKind type f).base? other = .ok found := by
    intro other hne found h
    obtain ⟨s, hs, rfl⟩ := exists_of_base? h
    exact base?_of_getElem? (by rw [getElem?_mapKind, hs, Option.map_some, if_neg hne])
  have hchain' : (t.mapKind type f).BaseChain base chain :=
    hchain.of_base? fun other hmem => hkept other fun heq => hnot (heq ▸ hmem)
  -- where the bases lead to an end, so does the symbol: on its old way or on that of the new base
  have extend : ∀ {i : Nat} {found : Option SymbolId}, t.base? i = .ok found →
      (∀ b, found = some b → ∃ rest, (t.mapKind type f).BaseChain b rest) →
      ∃ rest, (t.mapKind type f).BaseChain i rest := by
    intro i found h hrest
    have onward : (t.mapKind type f).base? i = .ok found →
        ∃ rest, (t.mapKind type f).BaseChain i rest := by
      intro h
      cases found with
      | none => exact ⟨[i], .last h⟩
      | some b =>
        obtain ⟨rest, hrest⟩ := hrest b rfl
        exact ⟨i :: rest, .step h hrest⟩
    by_cases hi : type = i
    · subst hi
      obtain ⟨s, hs, rfl⟩ := exists_of_base? h
      have hnew : (t.mapKind type f).base? type = .ok (f s.kind).base? :=
        base?_of_getElem? (s := { s with kind := f s.kind })
          (by rw [getElem?_mapKind, hs, Option.map_some, if_pos rfl])
      rcases hbase s.kind with hsame | hbase
      · exact onward (hnew.trans (congrArg Except.ok hsame))
      · exact ⟨type :: chain, .step (hnew.trans (congrArg Except.ok hbase)) hchain'⟩
    · exact onward (hkept i hi found h)
  refine ⟨formed.toFramed.mapKind hshape hrefs, formed.members_mapKind hshape hmembers,
    fun {i} hi => ?_⟩
  rw [size_mapKind] at hi
  obtain ⟨old, hold⟩ := formed.bases hi
  clear hi
  induction hold with
  | last hlast => exact extend hlast (by simp)
  | step hstep _ ih => exact extend hstep fun b hb => Option.some.inj hb ▸ ih

end Bindery.SymbolTable
