import Bindery.Proofs.Inheritance

/-! # Who may refer to a member

A member of a type is private, protected or public.  Code lies in a type, that type perhaps in
another, and so on (`SymbolTable.LiesIn`); types derive from their bases (`SymbolTable.BaseOf`).

* The types around a type are those that it lies in at any depth, so a question about all of them is
  answered by nesting (`Formed.anyAround_spec`).
* `SymbolTable.Guards` says from where a member may be referred to: nesting decides for private
  members, nesting and inheritance for protected ones.  So it is in every table of declarations
  (`Declarations.access_follows_nesting`). -/

namespace Bindery

namespace SymbolTable

/-- A symbol lies directly in a type. -/
def LiesIn (t : SymbolTable) (inner outer : SymbolId) : Prop :=
  t.containing? inner = .ok (some outer) ∧ t.isType outer = .ok true

/-- A type is another one or lies in it at any depth. -/
def Inside (t : SymbolTable) : SymbolId → SymbolId → Prop := Relation.ReflTransGen t.LiesIn

/-- Whether a member of `owner` may be referred to in a type. -/
def Admits (t : SymbolTable) (owner type : SymbolId) : Access → Prop
  | .publicAccess => True
  | .protectedAccess => ∃ outer, t.Inside type outer ∧ Relation.ReflTransGen t.BaseOf outer owner
  | .privateAccess => t.Inside type owner

/-- From where the members of types may be referred to.  The place is a type, or none for code that
lies in no type. -/
structure Guards (t : SymbolTable) : Prop where
  answered : ∀ {id : SymbolId} {place : Option SymbolId}, id < t.size →
    (∀ type ∈ place, t.isType type = .ok true) → ∃ b, t.isAccessible id place = .ok b
  /-- Whatever may be referred to in a type may be referred to in the types that lie in it. -/
  inward : ∀ {id owner type inner : SymbolId}, t.LiesIn id owner → t.isType type = .ok true →
    t.isType inner = .ok true → t.Inside inner type → t.isAccessible id (some type) = .ok true →
      t.isAccessible id (some inner) = .ok true
  private_iff : ∀ {id owner type : SymbolId} {s : Symbol}, t.LiesIn id owner →
    t.symbols[id]? = some s → s.access = .privateAccess → t.isType type = .ok true →
      (t.isAccessible id (some type) = .ok true ↔ t.Inside type owner)
  protected_iff : ∀ {id owner type : SymbolId} {s : Symbol}, t.LiesIn id owner →
    t.symbols[id]? = some s → s.access = .protectedAccess → t.isType type = .ok true →
      (t.isAccessible id (some type) = .ok true ↔
        ∃ outer, t.Inside type outer ∧ Relation.ReflTransGen t.BaseOf outer owner)
  /-- What is accessible as a private member would be so as a protected one. -/
  private_le_protected : ∀ {id other owner type : SymbolId} {s s' : Symbol}, t.LiesIn id owner →
    t.LiesIn other owner → t.symbols[id]? = some s → t.symbols[other]? = some s' →
    s.access = .privateAccess → s'.access = .protectedAccess → t.isType type = .ok true →
    t.isAccessible id (some type) = .ok true → t.isAccessible other (some type) = .ok true
  outside_iff : ∀ {id owner : SymbolId} {s : Symbol}, t.LiesIn id owner → t.symbols[id]? = some s →
    (t.isAccessible id none = .ok true ↔ s.access = .publicAccess)

variable {t : SymbolTable} {id : SymbolId}

theorem isType_eq_true_iff :
    t.isType id = .ok true ↔ ∃ s, t.symbols[id]? = some s ∧ s.isType = true := by
  unfold isType fetch
  cases t.symbols[id]? <;> simp [Functor.map, Except.map]

theorem containing?_eq_ok_iff {container : Option SymbolId} :
    t.containing? id = .ok container ↔ ∃ s, t.symbols[id]? = some s ∧ s.containing = container := by
  unfold containing? fetch
  cases t.symbols[id]? <;> simp [Functor.map, Except.map]

theorem LiesIn.owner?_eq {owner : SymbolId} {s : Symbol} (h : t.LiesIn id owner)
    (hs : t.symbols[id]? = some s) : t.owner? s = .ok (some owner) := by
  obtain ⟨_, hs', hcontaining⟩ := containing?_eq_ok_iff.1 h.1
  obtain rfl := Option.mem_unique hs hs'
  simp [owner?, hcontaining, h.2, bind, Except.bind, pure, Except.pure]

namespace Formed

variable {tree : Tree} {t : SymbolTable} (formed : t.Formed tree)
include formed

/-- A type lies in a type, and this is the next one around it, or it lies in no type. -/
theorem around_type {type : SymbolId} (htype : t.isType type = .ok true) :
    ∃ container, t.containing? type = .ok (some container) ∧ container < type ∧
      (t.isType container = .ok true ∧ t.containingType? container = .ok (some container) ∨
        t.isType container = .ok false ∧ t.containingType? container = .ok none) := by
  obtain ⟨s, hs, hkind⟩ := isType_eq_true_iff.1 htype
  rcases (formed.entry hs).containing with ⟨rfl, -⟩ | ⟨container, hcontaining, hlt⟩
  · obtain ⟨g, members, hg, hglobal⟩ := formed.global_eq
    obtain rfl := Option.mem_unique hg hs
    simp [Symbol.isType, hglobal] at hkind
  · obtain ⟨o, ho, hholds⟩ := formed.held hs container hcontaining
    have hisType : t.isType container = .ok o.isType := map_fetch _ ho
    refine ⟨container, containing?_eq_ok_iff.2 ⟨s, hs, hcontaining⟩, hlt, ?_⟩
    cases hcase : o.isType with
    | true =>
      refine .inl ⟨hcase ▸ hisType, ?_⟩
      simp [containingType?, walkLimit, search, hisType, hcase, bind, Except.bind, pure, Except.pure]
    | false =>
      -- what is no type and holds one is the global container, which lies nowhere
      have hnowhere : o.containing = none := by
        refine Option.eq_none_iff_forall_ne_some.2 fun c hc => ?_
        obtain ⟨_, -, hheld⟩ := formed.held ho c hc
        cases hs' : s.kind <;> cases ho' : o.kind <;>
          simp_all [Symbol.isType, SymbolKind.mayHold, SymbolKind.isContainer]
      refine .inr ⟨hcase ▸ hisType, ?_⟩
      simp [containingType?, walkLimit, search, hisType, hcase,
        containing?_eq_ok_iff.2 ⟨o, ho, hnowhere⟩, bind, Except.bind, pure, Except.pure]

/-- A question about a type and all types around it. -/
theorem anyAround_spec {T : SymbolId → Except Fault Bool} {P : SymbolId → Prop}
    (htest : ∀ type, t.isType type = .ok true → ∃ b, T type = .ok b ∧ (b = true ↔ P type))
    {fuel type : SymbolId} (hfuel : type < fuel) (htype : t.isType type = .ok true) :
    ∃ b, t.anyAround T fuel type = .ok b ∧ (b = true ↔ ∃ outer, t.Inside type outer ∧ P outer) := by
  induction fuel generalizing type with
  | zero => exact absurd hfuel (Nat.not_lt_zero _)
  | succ fuel ih =>
    obtain ⟨container, hcontainer, hlt, haround⟩ := formed.around_type htype
    obtain ⟨here, hhere, hiff⟩ := htest type htype
    -- the types around are the type itself and those around its container, if that is a type
    have hsplit : (∃ outer, t.Inside type outer ∧ P outer) ↔ here = true ∨
        t.isType container = .ok true ∧ ∃ outer, t.Inside container outer ∧ P outer := by
      rw [hiff]
      constructor
      · rintro ⟨outer, hinside, houter⟩
        rcases hinside.cases_head with rfl | ⟨next, ⟨hnext, hnextType⟩, hrest⟩
        · exact .inl houter
        · obtain rfl := Option.some.inj (ok_unique hcontainer hnext)
          exact .inr ⟨hnextType, outer, hrest, houter⟩
      · rintro (htrue | ⟨hcontainerType, outer, hinside, houter⟩)
        · exact ⟨type, .refl, htrue⟩
        · exact ⟨outer, .head ⟨hcontainer, hcontainerType⟩ hinside, houter⟩
    rw [hsplit, anyAround, hcontainer]
    rcases haround with ⟨hcontainerType, hnext⟩ | ⟨hcontainerType, hnext⟩
    · obtain ⟨rest, hrest, hrestIff⟩ := ih (Nat.lt_of_lt_of_le hlt (Nat.le_of_lt_succ hfuel))
        hcontainerType
      simp only [bind, Except.bind, hnext, hhere]
      cases here with
      | true => exact ⟨true, rfl, by simp⟩
      | false => exact ⟨rest, hrest, by simp [hrestIff, hcontainerType]⟩
    · simp only [bind, Except.bind, hnext, hhere]
      cases here with
      | true => exact ⟨true, rfl, by simp⟩
      | false => exact ⟨false, rfl, by simp [hcontainerType]⟩

/-- Where a member of a type may be referred to, by its access. -/
theorem isAccessible_iff {id owner type : SymbolId} {s : Symbol} (hmember : t.LiesIn id owner)
    (hs : t.symbols[id]? = some s) (htype : t.isType type = .ok true) :
    t.isAccessible id (some type) = .ok true ↔ t.Admits owner type s.access := by
  suffices h : ∃ b, t.isAccessible id (some type) = .ok b ∧
      (b = true ↔ t.Admits owner type s.access) by
    obtain ⟨b, hb, hiff⟩ := h
    rw [← hiff, hb, Except.ok.injEq]
  have hfuel : type < t.walkLimit := by
    obtain ⟨_, htype, -⟩ := isType_eq_true_iff.1 htype
    exact Nat.lt_succ_of_lt (lt_of_getElem? htype)
  simp only [isAccessible, fetch_of_getElem? hs, bind, Except.bind, hmember.owner?_eq hs]
  cases s.access with
  | publicAccess => exact ⟨true, rfl, by simp [Admits]⟩
  | privateAccess =>
    obtain ⟨b, hb, hiff⟩ := formed.anyAround_spec (T := fun type => return decide (type = owner))
      (P := (· = owner)) (fun type _ => ⟨_, rfl, decide_eq_true_iff⟩) hfuel htype
    exact ⟨b, hb, by simp [hiff, Admits]⟩
  | protectedAccess =>
    refine formed.anyAround_spec (fun type htype => ?_) hfuel htype
    obtain ⟨_, htype, -⟩ := isType_eq_true_iff.1 htype
    obtain ⟨b, hb, -⟩ := formed.isDerivedFrom_yields owner (lt_of_getElem? htype)
    exact ⟨b, hb, by rw [← formed.isDerivedFrom_iff, hb]; simp⟩

theorem guards : t.Guards := by
  constructor
  case answered =>
    intro id place hid hplace
    obtain ⟨b, hb, -⟩ : Yields (t.isAccessible id place) fun _ => True :=
      formed.isAccessible_yields hid fun type htype => by
        obtain ⟨_, hs, -⟩ := isType_eq_true_iff.1 (hplace type htype)
        exact lt_of_getElem? hs
    exact ⟨b, hb⟩
  case inward =>
    intro id owner type inner hmember htype hinner hinside h
    obtain ⟨s, hs, -⟩ := containing?_eq_ok_iff.1 hmember.1
    rw [formed.isAccessible_iff hmember hs htype] at h
    rw [formed.isAccessible_iff hmember hs hinner]
    cases hcase : s.access <;> rw [hcase] at h
    · trivial
    · obtain ⟨outer, houter, hderived⟩ := h
      exact ⟨outer, hinside.trans houter, hderived⟩
    · exact hinside.trans h
  case private_iff =>
    intro id owner type s hmember hs haccess htype
    rw [formed.isAccessible_iff hmember hs htype, haccess, Admits]
  case protected_iff =>
    intro id owner type s hmember hs haccess htype
    rw [formed.isAccessible_iff hmember hs htype, haccess, Admits]
  case private_le_protected =>
    intro id other owner type s s' hmember hmember' hs hs' haccess haccess' htype h
    rw [formed.isAccessible_iff hmember hs htype, haccess] at h
    rw [formed.isAccessible_iff hmember' hs' htype, haccess']
    exact ⟨owner, h, .refl⟩
  case outside_iff =>
    intro id owner s hmember hs
    simp only [isAccessible, fetch_of_getElem? hs, hmember.owner?_eq hs, bind, Except.bind]
    cases s.access <;> simp [pure, Except.pure]

end Formed
end SymbolTable

namespace Declarations

/-- In the table of every accepted tree, nesting and inheritance decide who may refer to a
member. -/
theorem access_follows_nesting {d : Document} {tree : Tree} (h : Tree.ofDocument d = .ok tree)
    (libraryTypes : List String) :
    ∃ declared, declare tree libraryTypes = .ok () declared ∧ declared.table.Guards := by
  obtain ⟨declared, hdeclared, formed, -⟩ := declare_formed (Tree.ofDocument_linked h) libraryTypes
  exact ⟨declared, hdeclared, formed.guards⟩

/-- `class A { private int x;  protected int y;  class B {} }  class C : A { class D {} }` -/
def membersDocument : Document := ⟨"members", [
  .typeName "int" [] false, .fieldDeclaration "x" .isPrivate (some 0) none,
  .typeName "int" [] false, .fieldDeclaration "y" .isProtected (some 2) none,
  .classDeclaration "B" .none [] none [], .classDeclaration "A" .none [] none [1, 3, 4],
  .typeName "A" [] false, .classDeclaration "D" .none [] none [],
  .classDeclaration "C" .none [] (some 6) [7], .compilationUnit [5, 8]]⟩

theorem access_follows_nesting_members : ∃ tree declared, Tree.ofDocument membersDocument = .ok tree ∧
    declare tree [] = .ok () declared ∧ declared.table.Guards ∧
    [2, 3].map (fun member => [some 1, some 4, some 5, some 6, none].map fun place =>
        (declared.table.isAccessible member place).toOption) =
      [[some true, some true, some false, some false, some false],
        [some true, some true, some true, some true, some false]] := by
  obtain ⟨tree, h⟩ : ∃ tree, Tree.ofDocument membersDocument = .ok tree := ⟨_, rfl⟩
  obtain ⟨declared, hrun, hguards⟩ := access_follows_nesting h []
  exact ⟨tree, declared, h, hrun, hguards, eq_of_seen? (fun d => [2, 3].map fun member =>
    [some 1, some 4, some 5, some 6, none].map fun place =>
      (d.table.isAccessible member place).toOption) h hrun (by decide +kernel)⟩

end Declarations
end Bindery
