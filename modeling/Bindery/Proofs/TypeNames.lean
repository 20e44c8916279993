import Bindery.Binding.Member
import Bindery.Proofs.InnerScopes
import Bindery.Proofs.KeptChains
import Bindery.Proofs.Steps

/-! # Plain type names

A type name without arguments is looked for twice: among the template parameters of the whole chain,
and only if none of them has the name, as every other name is, from the inside to the outside.

* A template parameter that a look-up finds is found by the first search as well
  (`Chain.lookupTemplateParameter?_of_lookup`).
* Where no template parameter of the chain has the name, the type is the one that the look-up names
  (`Lookup.Names`).
* So the two searches agree unless the name is declared further inside than a template parameter of
  that name (`Program.type_names_agree_with_lookup`).  There the template parameter wins
  (`Program.template_parameter_hides_inner_type`). -/

namespace Bindery

/-! ### The two searches -/

namespace Frame

variable {p : Program} {f : Frame} {name : String} {node : NodeId}

/-- A frame that does not know a name has no template parameter of that name. -/
theorem findTemplateParameter?_of_none (h : f.lookup? p name node = .ok none) :
    f.findTemplateParameter? p name = .ok none := by
  unfold lookup? at h
  unfold findTemplateParameter?
  split
  · next type hkind =>
    rw [hkind] at h
    obtain ⟨parameters, hparameters, h⟩ := exists_of_bind_eq_ok h
    obtain ⟨found, hfound, h⟩ := exists_of_bind_eq_ok h
    rw [hparameters]
    obtain rfl := Option.map_eq_none_iff.1 (Except.ok.inj h)
    exact hfound
  · rfl

theorem findTemplateParameter?_of_some {x : SymbolId}
    (h : f.lookup? p name node = .ok (some (.templateParameter x))) :
    f.findTemplateParameter? p name = .ok (some x) := by
  have hmeans := means_of_lookup? h
  unfold findTemplateParameter?
  generalize f.kind = kind at hmeans
  cases hmeans with
  | templateParameter hparameters hx =>
    dsimp only
    rw [hparameters]
    exact hx

end Frame

/-- A template parameter that a name refers to is the innermost one of that name. -/
theorem Chain.lookupTemplateParameter?_of_lookup {p : Program} {chain : Chain} {name : String}
    {node : NodeId} {x : SymbolId} (h : chain.lookup p name node = .ok (.templateParameter x)) :
    chain.lookupTemplateParameter? p name = .ok (some x) := by
  induction chain with
  | nil => cases Except.ok.inj h
  | cons frame rest ih =>
    unfold lookup at h
    unfold lookupTemplateParameter?
    rw [List.findSomeM?] at h ⊢
    cases hframe : frame.lookup? p name node with
    | error fault =>
      rw [hframe] at h
      cases h
    | ok answer =>
      rw [hframe] at h
      cases answer with
      | some found =>
        obtain rfl : found = .templateParameter x := Except.ok.inj h
        rw [Frame.findTemplateParameter?_of_some hframe]
        rfl
      | none =>
        rw [Frame.findTemplateParameter?_of_none hframe]
        exact ih h

/-- The type that a name without arguments stands for, by what it refers to: a template parameter,
or the first type among the members of that name, if it may be used there and takes no arguments. -/
inductive Lookup.Names (p : Program) (chain : Chain) : Lookup → Ty → Prop
  | parameter (x : SymbolId) : Names p chain (.templateParameter x) (.parameter x)
  | type {found : List SymbolId} {c : SymbolId}
      (hfirst : found.findM? p.symbols.isType = .ok (some c))
      (haccessible : chain.isAccessible p c = .ok true)
      (hplain : p.symbols.templateParameters c = .ok []) : Names p chain (.symbols found) (.named c)

namespace Program

variable {p : Program} {chain : Chain} {name : String} {node : NodeId}

section binding

variable (formed : p.Formed) (known : chain.Known p)
include formed known

/-- The class that a name refers to: the first type of that name, if it may be used there. -/
theorem bindDefinition_spec (hnode : node < p.tree.size) {found : Lookup}
    (hlookup : chain.lookup p name node = .ok found) (s : BindState) :
    Succeeds (p.bindDefinition chain name node) s fun definition _ => ∀ c,
      definition = some c ↔ chain.isAccessible p c = .ok true ∧
        ∃ list, found = .symbols list ∧ list.findM? p.symbols.isType = .ok (some c) := by
  have refuse : ∀ message : Message, Succeeds (do
      p.report node message [name]
      return (none : Option SymbolId)) s fun definition _ => definition = none := fun message =>
    Ends.bind (formed.report_succeeds hnode message [name] s) fun _ _ _ => Ends.pure rfl
  unfold bindDefinition
  rw [hlookup]
  cases found with
  | symbols list =>
    have hknown : ∀ c ∈ list, Yields (p.symbols.isType c) fun _ => True := fun c hc =>
      (formed.table.isType_yields ((formed.lookup_yields known name hnode).of_ok hlookup c hc)).imp
        fun _ _ => trivial
    obtain ⟨first, hfirst, -⟩ := Yields.findM? hknown
    change Succeeds (((list.findM? fun c => liftM (p.symbols.isType c)) : BindM _) >>= _) s _
    rw [findM?_lift]
    refine Ends.bind_lift (R := (· = first)) ⟨first, hfirst, rfl⟩ ?_
    rintro first rfl
    cases first with
    | none =>
      refine (refuse .unknownType).imp ?_
      rintro _ _ rfl c
      simp [hfirst]
    | some first =>
      have hlt := (formed.lookup_yields known name hnode).of_ok hlookup first
        (mem_of_findM? hfirst)
      obtain ⟨accessible, haccessible, -⟩ := formed.isAccessible_yields known hlt
      dsimp only
      rw [haccessible]
      cases accessible with
      | true =>
        refine Ends.pure fun c => ?_
        simp only [Option.some.injEq, Lookup.symbols.injEq, exists_eq_left', hfirst,
          Except.ok.injEq]
        exact ⟨fun h => ⟨h ▸ haccessible, h⟩, fun h => h.2⟩
      | false =>
        refine (refuse .inaccessible).imp ?_
        rintro _ _ rfl c
        simp only [reduceCtorEq, false_iff, not_and]
        rintro hc ⟨_, ⟨rfl⟩, hlist⟩
        obtain rfl := Option.some.inj (ok_unique hfirst hlist)
        simp [haccessible] at hc
  | _ =>
    refine (refuse .unknownType).imp ?_
    rintro _ _ rfl c
    simp

/-- A plain name: the template parameter of the chain, or else what the look-up names. -/
theorem bindType_plain (hnode : p.tree.node? node = some (.typeName name [] false))
    (hname : Primitive.ofName? name = none) {found : Lookup}
    (hlookup : chain.lookup p name node = .ok found) {outer : Option SymbolId}
    (houter : chain.lookupTemplateParameter? p name = .ok outer) (ask : Asker) (s : BindState) :
    Succeeds (p.bindType ask chain node) s fun t _ => (∀ x, t = .parameter x ↔ outer = some x) ∧
      (outer = none → (t = .error ∨ found.Names p chain t) ∧ ∀ u, found.Names p chain u → t = u) := by
  have hlt := Tree.lt_size_of_node? hnode
  have hsimple : p.simpleType? chain name = .ok (outer.map .parameter) := by
    unfold simpleType?
    rw [hname, houter]
    rfl
  rw [bindType]
  split
  case h_2 name' arguments isUnbound hkind =>
    obtain ⟨rfl, rfl, rfl⟩ := Node.typeName.inj (Option.mem_unique hnode hkind)
    refine Ends.bind_lift ⟨_, hsimple, rfl⟩ (R := (· = outer.map .parameter)) ?_
    rintro _ rfl
    cases outer with
    | some x => exact Ends.pure ⟨fun y => by simp [Ty.parameter], by simp⟩
    | none =>
      -- a template parameter that is referred to would have been found
      have hparameter : ∀ x, found ≠ .templateParameter x := by
        rintro x rfl
        rw [Chain.lookupTemplateParameter?_of_lookup hlookup] at houter
        cases houter
      refine Ends.bind (bindDefinition_spec formed known hlt hlookup s) fun definition s' hspec => ?_
      cases definition with
      | none =>
        refine Ends.pure ⟨by simp [Ty.error, Ty.parameter], fun _ => ⟨.inl rfl, fun u hu => ?_⟩⟩
        cases hu with
        | parameter x => exact absurd rfl (hparameter x)
        | type hfirst haccessible _ =>
          have := (hspec _).2 ⟨haccessible, _, rfl, hfirst⟩
          cases this
      | some c =>
        obtain ⟨haccessible, list, rfl, hfirst⟩ := (hspec c).1 rfl
        have hc : c < p.symbols.size :=
          (formed.lookup_yields known name hlt).of_ok hlookup c (mem_of_findM? hfirst)
        obtain ⟨parameters, hparameters, -⟩ := formed.table.templateParameters_yields hc
        refine Ends.bind_lift ⟨parameters, hparameters, rfl⟩ (R := (parameters = ·)) ?_
        rintro _ rfl
        have unique : ∀ u, (Lookup.symbols list).Names p chain u → .named c = u ∧ parameters = [] := by
          intro u hu
          cases hu with
          | type hfirst' _ hplain =>
            obtain rfl := Option.some.inj (ok_unique hfirst hfirst')
            exact ⟨rfl, ok_unique hparameters hplain⟩
        cases parameters with
        | nil =>
          refine Ends.pure ⟨by simp [Ty.named, Ty.parameter], fun _ => ⟨.inr ?_, fun u hu => ?_⟩⟩
          · exact .type hfirst haccessible hparameters
          · exact (unique u hu).1
        | cons first rest =>
          refine Ends.bind (formed.report_succeeds hlt _ _ s') fun _ s'' _ => Ends.pure ?_
          refine ⟨by simp [Ty.error, Ty.parameter], fun _ => ⟨.inl rfl, fun u hu => ?_⟩⟩
          cases (unique u hu).2
  case h_1 | h_3 | h_4 => simp_all

end binding

/-! ### Chains of queries -/

/-- A chain that queries give: that of a region, or of a scope in one. -/
inductive Serves (p : Program) : Chain → Prop
  | region {region : Region} {kept kept' : RegionCache} {chain : Chain} (sound : p.CacheSound kept)
      (h : p.fetch region kept = .ok (some chain) kept') : Serves p chain
  | scope {chain scope : Chain} {node : NodeId} (outer : Serves p chain)
      (h : chain.inner? p node = .ok (some scope)) : Serves p scope

theorem Serves.known (formed : p.Formed) (holds : p.symbols.HoldsEntry p.tree) (h : p.Serves chain) :
    chain.Known p := by
  induction h with
  | @region region kept kept' chain sound hfetch =>
    obtain ⟨answer, hanswer, hknown⟩ := exists_answer formed holds region
    obtain ⟨hquery, -⟩ := hanswer kept sound
    unfold query at hquery
    rw [hfetch] at hquery
    exact hknown chain hquery.symm
  | scope _ h ih => exact (Chain.inner?_yields ih _).of_ok h _ rfl

/-- A plain type name under any chain that queries give.  It is bound to a template parameter
exactly if one of the chain has the name, and else to the type that the look-up names, if it names
one.  So the look-up and the binding agree exactly if no template parameter of the chain has the
name, or the look-up itself finds one. -/
theorem type_names_agree_with_lookup {d : Document} {tree : Tree} (h : Tree.ofDocument d = .ok tree)
    (libraryTypes : List String) :
    ∃ declared, Declarations.declare tree libraryTypes = .ok () declared ∧
      ∀ p : Program, p.tree = tree → p.symbols = declared.table → ∀ chain, p.Serves chain →
        ∀ node name, tree.node? node = some (.typeName name [] false) →
          Primitive.ofName? name = none →
          ∃ found outer, chain.lookup p name node = .ok found ∧
            chain.lookupTemplateParameter? p name = .ok outer ∧
            (∀ x, found = .templateParameter x → outer = some x) ∧
            ∀ ask s, ∃ t s', p.bindType ask chain node s = .ok t s' ∧
              (∀ x, t = .parameter x ↔ outer = some x) ∧
              (outer = none → t = .error ∨ found.Names p chain t) ∧
              ∀ u, found.Names p chain u →
                (t = u ↔ outer = none ∨ ∃ x, found = .templateParameter x) := by
  have linked := Tree.ofDocument_linked h
  obtain ⟨declared, hrun, hformed, holds⟩ := Declarations.declare_formed linked libraryTypes
  refine ⟨declared, hrun, ?_⟩
  rintro p rfl hsymbols chain hserves node name hnode hname
  rw [← hsymbols] at hformed holds
  have formed : p.Formed := ⟨linked, hformed⟩
  have known := hserves.known formed holds
  obtain ⟨found, hfound, -⟩ := formed.lookup_yields known name (Tree.lt_size_of_node? hnode)
  obtain ⟨outer, houter, -⟩ := formed.lookupTemplateParameter?_yields known name
  have hinner : ∀ x, found = .templateParameter x → outer = some x := by
    rintro x rfl
    exact ok_unique houter (Chain.lookupTemplateParameter?_of_lookup hfound)
  refine ⟨found, outer, hfound, houter, hinner, fun ask s => ?_⟩
  obtain ⟨t, s', ht, hparameter, hplain⟩ :=
    (bindType_plain formed known hnode hname hfound houter ask s).exists_ok
  refine ⟨t, s', ht, hparameter, fun hnone => (hplain hnone).1, fun u hu => ⟨fun heq => ?_, ?_⟩⟩
  · cases houter' : outer with
    | none => exact .inl rfl
    | some x =>
      obtain rfl := (hparameter x).2 houter'
      subst heq
      cases hu with
      | parameter => exact .inr ⟨x, rfl⟩
  · rintro (hnone | ⟨x, rfl⟩)
    · exact (hplain hnone).2 u hu
    · cases hu with
      | parameter => exact (hparameter x).2 (hinner x rfl)

/-- `class Outer<T> { class Inner { class T {}  T f; } }` -/
def hidingDocument : Document := ⟨"hiding", [
  .templateParameter "T" none, .classDeclaration "T" .none [] none [], .typeName "T" [] false,
  .fieldDeclaration "f" .none (some 2) none, .classDeclaration "Inner" .none [] none [1, 3],
  .classDeclaration "Outer" .none [0] none [4], .compilationUnit [5]]⟩

/-- Whether the name `T` is looked up as the class `4` where it is the template parameter `2`. -/
def hidesParameter (tree : Tree) : Bool :=
  match Declarations.declare tree [] with
  | .ok _ declared =>
    match fetch { tree, symbols := declared.table } (.field 5) {} with
    | .ok (some chain) _ => decide (
      chain.lookup { tree, symbols := declared.table } "T" 2 = .ok (.symbols [4]) ∧
      chain.lookupTemplateParameter? { tree, symbols := declared.table } "T" = .ok (some 2) ∧
      [4].findM? declared.table.isType = .ok (some 4) ∧
      chain.isAccessible { tree, symbols := declared.table } 4 = .ok true ∧
      declared.table.templateParameters 4 = .ok [])
    | _ => false
  | .error _ _ => false

/-- At the type of `f` the look-up finds the class `T`, which has the number `4`. -/
theorem hidingDocument_scope : ∃ tree declared chain kept, Tree.ofDocument hidingDocument = .ok tree ∧
    tree.node? 2 = some (.typeName "T" [] false) ∧
    Declarations.declare tree [] = .ok () declared ∧
    fetch { tree, symbols := declared.table } (.field 5) {} = .ok (some chain) kept ∧
    chain.lookup { tree, symbols := declared.table } "T" 2 = .ok (.symbols [4]) ∧
    chain.lookupTemplateParameter? { tree, symbols := declared.table } "T" = .ok (some 2) ∧
    (Lookup.symbols [4]).Names { tree, symbols := declared.table } chain (.named 4) := by
  obtain ⟨tree, h⟩ : ∃ tree, Tree.ofDocument hidingDocument = .ok tree := ⟨_, rfl⟩
  obtain ⟨declared, hrun, -⟩ := Declarations.declare_formed (Tree.ofDocument_linked h) []
  have hseen : (Tree.ofDocument hidingDocument).toOption.map hidesParameter = some true := by
    decide +kernel
  simp only [h, Except.toOption, Option.map_some, hidesParameter, hrun, Option.some.injEq] at hseen
  split at hseen
  · next chain kept hfetch =>
    obtain ⟨hlookup, houter, hfirst, haccessible, hplain⟩ := of_decide_eq_true hseen
    exact ⟨tree, declared, chain, kept, h, Tree.node?_of_ofDocument h 2, hrun, hfetch, hlookup, houter,
      .type hfirst haccessible hplain⟩
  · cases hseen

theorem type_names_agree_with_lookup_hiding : ∃ tree declared chain t s',
    Tree.ofDocument hidingDocument = .ok tree ∧
    Declarations.declare tree [] = .ok () declared ∧
    Serves { tree, symbols := declared.table } chain ∧
    bindType { tree, symbols := declared.table } (answer { tree, symbols := declared.table }) chain 2
      {} = .ok t s' ∧
    t = .parameter 2 := by
  obtain ⟨tree, declared, chain, kept, h, hnode, hrun, hfetch, hlookup, houter, -⟩ :=
    hidingDocument_scope
  obtain ⟨declared', hrun', hnames⟩ := type_names_agree_with_lookup h []
  obtain rfl : declared = declared' := (EStateM.Result.ok.inj (hrun.symm.trans hrun')).2
  have hserves : Serves { tree, symbols := declared.table } chain := .region cacheSound_empty hfetch
  obtain ⟨found, outer, -, houter', -, hbinds⟩ :=
    hnames { tree, symbols := declared.table } rfl rfl chain hserves 2 "T" hnode (by decide)
  obtain rfl := ok_unique houter houter'
  obtain ⟨t, s', ht, hparameter, -⟩ := hbinds (answer { tree, symbols := declared.table }) {}
  exact ⟨tree, declared, chain, t, s', h, hrun, hserves, ht, (hparameter 2).2 rfl⟩

/-- A template parameter of the class around wins over a type of that name further inside. -/
theorem template_parameter_hides_inner_type : ∃ tree declared chain kept s',
    Tree.ofDocument hidingDocument = .ok tree ∧
    Declarations.declare tree [] = .ok () declared ∧
    fetch { tree, symbols := declared.table } (.field 5) {} = .ok (some chain) kept ∧
    chain.lookup { tree, symbols := declared.table } "T" 2 = .ok (.symbols [4]) ∧
    (Lookup.symbols [4]).Names { tree, symbols := declared.table } chain (.named 4) ∧
    bindType { tree, symbols := declared.table } (answer { tree, symbols := declared.table }) chain 2
      {} = .ok (.parameter 2) s' := by
  obtain ⟨tree, declared, chain, kept, h, hnode, hrun, hfetch, hlookup, houter, hnames⟩ :=
    hidingDocument_scope
  have linked := Tree.ofDocument_linked h
  obtain ⟨declared', hrun', hformed, holds⟩ := Declarations.declare_formed linked []
  obtain rfl : declared = declared' := (EStateM.Result.ok.inj (hrun.symm.trans hrun')).2
  have formed : Formed { tree, symbols := declared.table } := ⟨linked, hformed⟩
  have known := (Serves.region cacheSound_empty hfetch).known formed holds
  obtain ⟨t, s', ht, hparameter, -⟩ :=
    (bindType_plain formed known hnode (by decide) hlookup houter
      (answer { tree, symbols := declared.table }) {}).exists_ok
  obtain rfl := (hparameter 2).2 rfl
  exact ⟨tree, declared, chain, kept, s', h, hrun, hfetch, hlookup, hnames, ht⟩

end Program
end Bindery
