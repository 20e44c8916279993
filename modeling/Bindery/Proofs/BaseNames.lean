import Bindery.Proofs.BaseResolution
import Bindery.Proofs.TypeNames

/-! # The names of bases

The base of a class is looked for while symbols are declared, and its name can be bound like that of
any other type, under the chain of the base.  The declaration pass looks into the container of the
class and at the top only (`SymbolTable.nearestType?`), the chain leads through all containers
around the class and through what they inherit.

* Resolving bases changes nothing but bases, and gives a class only the base that it names
  (`SymbolTable.Rebased`).
* What the name is bound to is the first type of that name in one container; it is the one around
  the class if that has the name at all (`Program.Formed.lookup_near`).
* So a class is given the base that its name is bound to exactly if that type is a member of the
  container of the class or of the global one (`Declarations.base_names_found_near`).  One that is
  found further out is left out (`Declarations.base_name_not_found`). -/

namespace Bindery

/-! ### Binding the name -/

/-- Where only answers are of interest, a question may go unanswered. -/
theorem Ends.bind_question {σ α β : Type} {x : Except Fault α} {k : α → EStateM Fault σ β} {s : σ}
    {Q : β → σ → Prop} (hk : ∀ a, x = .ok a → Ends (fun _ => True) (k a) s Q) :
    Ends (fun _ => True) (liftM x >>= k) s Q := by
  cases x with
  | ok a => exact hk a rfl
  | error fault => trivial

/-- What a scope in a container sees are the members of one container, which is this one if it has
the name. -/
theorem SymbolTable.Formed.lookup_of_seen {tree : Tree} {t : SymbolTable} (formed : t.Formed tree)
    {container : SymbolId} {name : String} {found : List SymbolId}
    (h : t.seen container name = .ok found) :
    ∃ k, found = t.lookup k name ∧ (t.lookup container name ≠ [] → k = container) := by
  unfold seen at h
  obtain ⟨isType, htype, h⟩ := exists_of_bind_eq_ok h
  cases isType with
  | false => exact ⟨container, (Except.ok.inj h).symm, fun _ => rfl⟩
  | true =>
    have hlt : container < t.size := by
      by_contra hge
      rw [isType, fetch_of_size_le (Nat.not_lt.1 hge)] at htype
      cases htype
    obtain ⟨bases, hbases⟩ := formed.bases hlt
    rw [if_pos rfl, hbases.lookupInHierarchy_eq] at h
    obtain rfl := Except.ok.inj h
    by_cases hempty : t.lookup container name = []
    · cases hfind : (bases.map (t.lookup · name)).find? (!·.isEmpty) with
      | none => exact ⟨container, hempty.symm, fun _ => rfl⟩
      | some list =>
        obtain ⟨k, -, rfl⟩ := List.mem_map.1 (List.mem_of_find?_eq_some hfind)
        exact ⟨k, rfl, fun hne => absurd hempty hne⟩
    · obtain ⟨rest, rfl⟩ : ∃ rest, bases = container :: rest := by
        cases hbases <;> exact ⟨_, rfl⟩
      exact ⟨container, by simp [hempty], fun _ => rfl⟩

namespace Program

variable {p : Program} {chain : Chain} {name : String} {node : NodeId} {isUnbound : Bool}

/-- A plain name is bound to a class only if the look-up finds it. -/
theorem bindType_named (formed : p.Formed) (known : chain.Known p)
    (hnode : p.tree.node? node = some (.typeName name [] isUnbound)) (ask : Asker) (s : BindState) :
    Ends (fun _ => True) (p.bindType ask chain node) s fun t _ => ∀ b, t = .named b →
      ∃ list, chain.lookup p name node = .ok (.symbols list) ∧
        list.findM? p.symbols.isType = .ok (some b) := by
  have hlt := Tree.lt_size_of_node? hnode
  obtain ⟨found, hfound, -⟩ := formed.lookup_yields known name hlt
  obtain ⟨definition, s', hdefinition, hspec⟩ :=
    (bindDefinition_spec formed known hlt hfound s).exists_ok
  have ends : ∀ {k : Option SymbolId → BindM Ty},
      Ends (fun _ => True) (k definition) s' (fun t _ => ∀ b, t = .named b → definition = some b) →
      Ends (fun _ => True) (p.bindDefinition chain name node >>= k) s fun t _ => ∀ b, t = .named b →
        ∃ list, chain.lookup p name node = .ok (.symbols list) ∧
          list.findM? p.symbols.isType = .ok (some b) := by
    intro k hk
    refine Ends.bind (Ends.of_eq hdefinition (Q := fun a t => a = definition ∧ t = s') ⟨rfl, rfl⟩) ?_
    rintro _ _ ⟨rfl, rfl⟩
    refine hk.imp fun t _ ht b hb => ?_
    obtain ⟨-, list, rfl, hfirst⟩ := (hspec b).1 (ht b hb)
    exact ⟨list, hfound, hfirst⟩
  have anyhow : ∀ {m : BindM Unit}, Ends (fun _ => True) m s' fun _ _ => True := by
    intro m
    unfold Ends
    split <;> trivial
  rw [bindType]
  split
  case h_2 name' arguments isUnbound' hkind =>
    obtain ⟨rfl, rfl, rfl⟩ := Node.typeName.inj (Option.mem_unique hnode hkind)
    cases isUnbound with
    | false =>
      refine Ends.bind_question fun simple hsimple => ?_
      cases simple with
      | some type =>
        refine Ends.pure fun b hb => ?_
        subst hb
        unfold simpleType? at hsimple
        split at hsimple
        · cases hsimple
        · obtain ⟨outer, -, hsimple⟩ := exists_of_bind_eq_ok hsimple
          cases outer <;> cases hsimple
      | none =>
        refine ends ?_
        cases definition with
        | none => exact Ends.pure (by simp [Ty.error, Ty.named])
        | some c =>
          refine Ends.bind_question fun parameters _ => ?_
          cases parameters with
          | nil => exact Ends.pure fun b hb => by simpa [Ty.named] using hb
          | cons first rest =>
            exact Ends.bind anyhow fun _ _ _ => Ends.pure (by simp [Ty.error, Ty.named])
    | true =>
      refine ends ?_
      cases definition with
      | none => exact Ends.pure (by simp [Ty.error, Ty.named])
      | some c =>
        refine Ends.bind_question fun parameters _ => ?_
        dsimp only
        rw [if_pos rfl]
        split
        · exact Ends.pure fun b hb => by simpa [Ty.named] using hb
        · exact Ends.bind anyhow fun _ _ _ => Ends.pure (by simp [Ty.error, Ty.named])
  case h_1 | h_3 | h_4 => simp_all

variable {s : Symbol}

/-- The chain of a base begins with frames of template parameters and the container of the class. -/
theorem baseScope_eq (formed : p.Formed) {type c : Nat}
    (hs : p.symbols.symbols[type]? = some s) (hkind : s.isType = true) (hc : s.containing = some c)
    (h : p.baseScope type = .ok chain) :
    ∃ before frame after, chain = before ++ frame :: after ∧ frame.kind = .inContainer c ∧
      ∀ f ∈ before, ∃ t, f.kind = .templateParameters t := by
  obtain ⟨rest, hpath⟩ := formed.table.containers_tail hs hc
  obtain ⟨o, ho, hold⟩ := formed.table.held hs c hc
  obtain ⟨outer, houter, rfl⟩ := exists_of_bind_pure_eq_ok h
  rw [outerScope, hpath] at houter
  change p.containerScope (c :: rest) = .ok outer at houter
  rw [containerScope] at houter
  obtain ⟨isType, htype, houter⟩ := exists_of_bind_eq_ok houter
  cases isType with
  | true =>
    obtain ⟨inner, -, rfl⟩ := exists_of_bind_pure_eq_ok houter
    exact ⟨[_, _], _, inner, rfl, rfl, by simp⟩
  | false =>
    obtain rfl := Except.ok.inj houter
    -- only the global container holds a type and is none
    obtain ⟨data, hdata⟩ : ∃ data, s.kind = .type data := by
      cases hk : s.kind <;> simp [Symbol.isType, hk] at hkind ⊢
    rw [hdata] at hold
    have hisType : p.symbols.isType c = .ok o.isType := SymbolTable.map_fetch _ ho
    obtain ⟨members, hmembers⟩ : ∃ members, o.kind = .global members := by
      have hno := ok_unique htype hisType
      cases hk : o.kind <;>
        simp [Symbol.isType, hk, SymbolKind.mayHold, SymbolKind.isContainer] at hno hold ⊢
    have hglobal : c = SymbolTable.global := by
      rcases (formed.table.entry ho).containing with ⟨rfl, -⟩ | ⟨outer, houter, -⟩
      · rfl
      · obtain ⟨_, -, hheld⟩ := formed.table.held ho outer houter
        rw [hmembers] at hheld
        cases hheld
    subst hglobal
    exact ⟨[_], _, _, rfl, rfl, by simp⟩

variable {found : List SymbolId}

/-- What a name under the chain of a base refers to. -/
theorem Formed.lookup_near (formed : p.Formed) {type c : Nat}
    (hs : p.symbols.symbols[type]? = some s) (hkind : s.isType = true) (hc : s.containing = some c)
    (h : p.baseScope type = .ok chain) (hlookup : chain.lookup p name node = .ok (.symbols found)) :
    ∃ k, found = p.symbols.lookup k name ∧ (p.symbols.lookup c name ≠ [] → k = c) := by
  obtain ⟨first, near, outer, hchain, hnear, hfirst⟩ := baseScope_eq formed hs hkind hc h
  obtain ⟨before, frame, after, hchain', hbefore, hmeans⟩ := Chain.means_of_lookup hlookup (by simp)
  obtain ⟨container, hcontainer, hseen⟩ : ∃ container, frame.kind = .inContainer container ∧
      p.symbols.seen container name = .ok found := by
    generalize frame.kind = kind at hmeans
    cases hmeans with
    | members hfound _ => exact ⟨_, rfl, hfound⟩
  obtain ⟨k, rfl, hk⟩ := formed.table.lookup_of_seen hseen
  refine ⟨k, rfl, fun hne => ?_⟩
  -- the container of the class says nothing of the name if it is not the one that answers
  have silent : near ∈ before → False := by
    intro hmem
    have hnone := hbefore near hmem
    rw [Frame.lookup?_inContainer name node hnear] at hnone
    obtain ⟨own, hown, hnone⟩ := exists_of_bind_eq_ok hnone
    obtain ⟨k', rfl, hk'⟩ := formed.table.lookup_of_seen hown
    rw [hk' hne] at hnone
    simp [hne, pure, Except.pure] at hnone
  rcases List.append_eq_append_iff.1 (hchain.symm.trans hchain') with ⟨l, hl, hr⟩ | ⟨l, hl, hr⟩
  · cases l with
    | nil =>
      obtain ⟨rfl, -⟩ := List.cons.inj hr
      obtain rfl := FrameKind.inContainer.inj (hcontainer.symm.trans hnear)
      exact hk hne
    | cons f l =>
      obtain ⟨rfl, -⟩ := List.cons.inj hr
      exact absurd (by simp [hl]) silent
  · cases l with
    | nil =>
      obtain ⟨rfl, -⟩ := List.cons.inj hr
      obtain rfl := FrameKind.inContainer.inj (hcontainer.symm.trans hnear)
      exact hk hne
    | cons f l =>
      obtain ⟨rfl, -⟩ := List.cons.inj hr
      obtain ⟨type, htype⟩ := hfirst frame (by simp [hl])
      cases hcontainer.symm.trans htype

/-- The type that the name of a base is bound to is the one that the class names exactly if it is
declared in the container of the class or at the top. -/
theorem Formed.namesBase_iff (formed : p.Formed) {type c : Nat}
    (hs : p.symbols.symbols[type]? = some s) (hkind : s.isType = true) (hc : s.containing = some c)
    (h : p.baseScope type = .ok chain) (hbase : p.symbols.baseNode? type = .ok (some node))
    {arguments : List NodeId}
    (hname : p.tree.node? node = some (.typeName name arguments isUnbound))
    (hlookup : chain.lookup p name node = .ok (.symbols found))
    {b : SymbolId} (hfirst : found.findM? p.symbols.isType = .ok (some b)) :
    p.symbols.NamesBase p.tree type b ↔
      p.symbols.containing? b = p.symbols.containing? type ∨
        p.symbols.containing? b = .ok (some SymbolTable.global) := by
  have hplace : p.symbols.containing? type = .ok (some c) := by rw [containing?_eq hs, hc]
  have hnearest : p.symbols.nearestType? type name = (p.symbols.lookup c name ++
      p.symbols.lookup SymbolTable.global name).findM? p.symbols.isType := by
    rw [SymbolTable.nearestType?, hplace]
    rfl
  have member : ∀ k, b ∈ p.symbols.lookup k name → p.symbols.containing? b = .ok (some k) := by
    intro k hb
    obtain ⟨u, hu, hcontaining, -⟩ := formed.table.mem_lookup hb
    rw [containing?_eq hu, hcontaining]
  obtain ⟨k, rfl, hk⟩ := formed.lookup_near hs hkind hc h hlookup
  have hb := member k (mem_of_findM? hfirst)
  constructor
  · rintro ⟨node', name', _, _, hnode', hname', hnear⟩
    obtain rfl := Option.some.inj (ok_unique hbase hnode')
    obtain ⟨rfl, -⟩ := Node.typeName.inj (Option.mem_unique hname hname')
    rw [hnearest] at hnear
    rcases List.mem_append.1 (mem_of_findM? hnear) with hmem | hmem
    · exact .inl ((member c hmem).trans hplace.symm)
    · exact .inr (member _ hmem)
  · intro hplaces
    refine ⟨node, name, arguments, isUnbound, hbase, hname, hnearest.trans ?_⟩
    by_cases hown : p.symbols.lookup c name = []
    · rcases hplaces with heq | heq
      · -- the container of the class would have the name
        obtain rfl := Option.some.inj (ok_unique hb (heq.trans hplace))
        rw [hown] at hfirst
        cases hfirst
      · obtain rfl := Option.some.inj (ok_unique hb heq)
        rw [hown]
        exact hfirst
    · obtain rfl := hk hown
      exact findM?_append_of_some hfirst _

end Program

namespace Declarations

open SymbolTable

/-- A class whose base is written as a plain name that is bound to a type `b`, where giving the
class this base closes no cycle among the bases before it.  The class is given `b` exactly if `b` is
a member of the container of the class or of the global container. -/
theorem base_names_found_near {d : Document} {tree : Tree} (h : Tree.ofDocument d = .ok tree)
    (libraryTypes : List String) :
    ∃ start declared, declareMembers tree (ofLibrary libraryTypes) = .ok () start ∧
      declare tree libraryTypes = .ok () declared ∧
      ∀ type baseNode name isUnbound, declared.table.baseNode? type = .ok (some baseNode) →
        tree.node? baseNode = some (.typeName name [] isUnbound) →
        type ∈ start.types ∧ ∀ before after, start.types = before ++ type :: after →
          ∃ between, before.forM (resolveBase tree) start = .ok () between ∧
            ∀ p : Program, p.tree = tree → p.symbols = declared.table →
              ∀ kept kept' chain, p.CacheSound kept →
                p.fetch (.base type) kept = .ok (some chain) kept' →
                ∀ ask s s' b, p.bindType ask chain baseNode s = .ok (.named b) s' →
                  between.table.isDerivedFrom b type = .ok false →
                  (declared.table.base? type = .ok (some b) ↔
                    declared.table.containing? b = declared.table.containing? type ∨
                    declared.table.containing? b = .ok (some SymbolTable.global)) := by
  have linked := Tree.ofDocument_linked h
  obtain ⟨start, declared, hstart, laid, hrun, ⟨sound, -, rebased⟩, -, hparts⟩ :=
    declare_in_order linked libraryTypes
  refine ⟨start, declared, hstart, hrun, fun type baseNode name isUnbound hbase hname => ⟨?_, ?_⟩⟩
  · rw [← baseNode?_withoutBases, rebased.same, baseNode?_withoutBases] at hbase
    obtain ⟨s, _, hs, -, -, hnode⟩ := laid.formed.exists_of_baseNode? hbase
    exact (laid.unresolved hs).2 (by simp [hnode])
  intro before after htypes
  obtain ⟨between, hbetween, ⟨sound', grown', rebased'⟩, hafter⟩ := hparts before (type :: after) htypes
  refine ⟨between, hbetween, ?_⟩
  rintro p rfl hsymbols kept kept' chain cached hfetch ask s s' b hbinds hderived
  have formed : p.Formed := ⟨linked, hsymbols ▸ sound.formed⟩
  rw [← hsymbols] at hbase rebased ⊢
  obtain ⟨u, c, hu, hkind, hc, -⟩ := formed.table.exists_of_baseNode? hbase
  obtain ⟨_, hscope, houtside, hfetches⟩ :=
    Program.baseChain_spec formed (SymbolTable.lt_of_getElem? hu)
  obtain ⟨heq, -⟩ := (hfetches.map kept cached).of_ok hfetch
  obtain rfl := Option.some.inj heq
  obtain ⟨list, hlookup, hfirst⟩ :=
    (Program.bindType_named formed houtside.known hname ask s).of_ok hbinds b rfl
  rw [← formed.namesBase_iff hu hkind hc hscope hbase hname hlookup hfirst]
  constructor
  · intro hgiven
    rcases rebased.entered type with hsame | ⟨b', hb', hentered⟩
    · -- before bases are resolved there are none
      rw [hsame] at hgiven
      obtain ⟨v, hv, hsome⟩ := exists_of_base? hgiven
      cases (laid.unresolved hv).1.symm.trans hsome
    · obtain rfl := Option.some.inj (ok_unique hentered hgiven)
      exact hb'.of_same rebased.same
  · intro hnames
    have hnames' : ∀ {t : SymbolTable}, t.withoutBases = start.table.withoutBases →
        t.NamesBase p.tree type b := fun hsame => hnames.of_same (hsame.trans rebased.same.symm)
    have hlt : ∀ i : Nat, i ∈ type :: after → i < between.table.size := fun i hi =>
      Nat.lt_of_lt_of_le (laid.types_lt i (htypes ▸ List.mem_append_right _ hi)) grown'.size_le
    have hends : Succeeds ((type :: after).forM (resolveBase p.tree)) between
        fun _ d' => d'.table.base? type = .ok (some b) := by
      refine Ends.bind (resolveBase_spec linked sound' (hlt type (by simp))) ?_
      rintro _ d₁ ⟨⟨sound₁, grown₁, rebased₁⟩, hentered⟩
      refine (resolveBases_spec linked sound₁ fun i hi => Nat.lt_of_lt_of_le
        (hlt i (List.mem_cons_of_mem _ hi)) grown₁.size_le).imp fun _ d₂ h => h.rebased.base?_eq ?_ ?_
      · exact hnames' (rebased₁.same.trans rebased'.same)
      · exact hentered b (hnames' rebased'.same) hderived
    rw [hsymbols]
    exact hends.of_ok hafter

/-- `class A { class X {}  class B { class C : X {} }  class D : X {} }` -/
def nestedBasesDocument : Document := ⟨"bases", [
  .classDeclaration "X" .none [] none [], .typeName "X" [] false,
  .classDeclaration "C" .none [] (some 1) [], .classDeclaration "B" .none [] none [2],
  .typeName "X" [] false, .classDeclaration "D" .none [] (some 4) [],
  .classDeclaration "A" .none [] none [0, 3, 5], .compilationUnit [6]]⟩

/-- What is found of a class and its base node. -/
def basesNested (type node : Nat) (tree : Tree) : Bool :=
  match declareMembers tree (ofLibrary []), declare tree [] with
  | .ok _ start, .ok _ declared =>
    match ([1, 2, 3, 4].take (type - 1)).forM (resolveBase tree) start,
      Program.fetch { tree, symbols := declared.table } (.base type) {} with
    | .ok _ between, .ok (some chain) _ => decide (start.types = [1, 2, 3, 4, 5] ∧
      between.table.isDerivedFrom 2 type = .ok false ∧
      declared.table.baseNode? type = .ok (some node) ∧
      chain.lookup { tree, symbols := declared.table } "X" node = .ok (.symbols [2]) ∧
      chain.lookupTemplateParameter? { tree, symbols := declared.table } "X" = .ok none ∧
      [2].findM? declared.table.isType = .ok (some 2) ∧
      chain.isAccessible { tree, symbols := declared.table } 2 = .ok true ∧
      declared.table.templateParameters 2 = .ok [] ∧
      declared.table.base? type = .ok (if type = 4 then none else some 2) ∧
      declared.table.containing? 2 = .ok (some 1) ∧
      declared.table.containing? type = .ok (some (if type = 4 then 3 else 1)))
    | _, _ => false
  | _, _ => false

/-- The bases of `C`, which has the number `4`, and of `D`, which is the last, are both bound to the
class `X` with the number `2`. -/
theorem nestedBasesDocument_scope (type node : Nat) (hclass : (type, node) ∈ [(4, 1), (5, 4)]) :
    ∃ tree start between declared chain kept s', Tree.ofDocument nestedBasesDocument = .ok tree ∧
      tree.node? node = some (.typeName "X" [] false) ∧
      declareMembers tree (ofLibrary []) = .ok () start ∧ start.types = [1, 2, 3, 4, 5] ∧
      ([1, 2, 3, 4].take (type - 1)).forM (resolveBase tree) start = .ok () between ∧
      between.table.isDerivedFrom 2 type = .ok false ∧
      declare tree [] = .ok () declared ∧ declared.table.baseNode? type = .ok (some node) ∧
      Program.fetch { tree, symbols := declared.table } (.base type) {} = .ok (some chain) kept ∧
      Program.bindType { tree, symbols := declared.table }
        (Program.answer { tree, symbols := declared.table }) chain node {} = .ok (.named 2) s' ∧
      declared.table.base? type = .ok (if type = 4 then none else some 2) ∧
      declared.table.containing? 2 = .ok (some 1) ∧
      declared.table.containing? type = .ok (some (if type = 4 then 3 else 1)) := by
  obtain ⟨tree, h⟩ : ∃ tree, Tree.ofDocument nestedBasesDocument = .ok tree := ⟨_, rfl⟩
  have linked := Tree.ofDocument_linked h
  obtain ⟨start, declared, hstart, -, hrun, ⟨⟨hformed, -⟩, -⟩, holds, -⟩ := declare_in_order linked []
  have hseen : ∀ x ∈ [(4, 1), (5, 4)], (Tree.ofDocument nestedBasesDocument).toOption.map
      (basesNested x.1 x.2) = some true := by
    decide +kernel
  have hseen := hseen _ hclass
  simp only [h, Except.toOption, Option.map_some, basesNested, hstart, hrun, Option.some.injEq] at hseen
  split at hseen
  · next between chain kept hbetween hfetch =>
    obtain ⟨htypes, hderived, hbase, hlookup, houter, hfirst, haccessible, hplain, hends⟩ :=
      of_decide_eq_true hseen
    have hnode : tree.node? node = some (.typeName "X" [] false) := by
      rw [Tree.node?_of_ofDocument h]
      simp only [List.mem_cons, Prod.mk.injEq, List.not_mem_nil, or_false] at hclass
      rcases hclass with ⟨-, rfl⟩ | ⟨-, rfl⟩ <;> rfl
    have formed : Program.Formed { tree, symbols := declared.table } := ⟨linked, hformed⟩
    have known := (Program.Serves.region Program.cacheSound_empty hfetch).known formed holds
    obtain ⟨t, s', ht, -, hnames⟩ :=
      (Program.bindType_plain formed known hnode (by decide) hlookup houter
        (Program.answer { tree, symbols := declared.table }) {}).exists_ok
    obtain rfl := (hnames rfl).2 _ (.type hfirst haccessible hplain)
    exact ⟨tree, start, between, declared, chain, kept, s', h, hnode, hstart, htypes, hbetween,
      hderived, hrun, hbase, hfetch, ht, hends⟩
  · cases hseen

/-- The container of `D` declares `X`. -/
theorem base_names_found_near_sibling : ∃ tree declared,
    Tree.ofDocument nestedBasesDocument = .ok tree ∧ declare tree [] = .ok () declared ∧
    declared.table.base? 5 = .ok (some 2) := by
  obtain ⟨tree, start, between, declared, chain, kept, s', h, hnode, hstart, htypes, hbetween, hderived,
    hrun, hbase, hfetch, hbinds, -, hplace, hplace'⟩ := nestedBasesDocument_scope 5 4 (by simp)
  obtain ⟨start', declared', hstart', hrun', hnames⟩ := base_names_found_near h []
  obtain rfl : start = start' := (EStateM.Result.ok.inj (hstart.symm.trans hstart')).2
  obtain rfl : declared = declared' := (EStateM.Result.ok.inj (hrun.symm.trans hrun')).2
  obtain ⟨-, hnames⟩ := hnames 5 4 "X" false hbase hnode
  obtain ⟨between', hbetween', hnames⟩ := hnames [1, 2, 3, 4] [] htypes
  obtain rfl : between = between' := (EStateM.Result.ok.inj (hbetween.symm.trans hbetween')).2
  exact ⟨tree, declared, h, hrun, (hnames _ rfl rfl {} kept chain Program.cacheSound_empty hfetch
    _ _ _ 2 hbinds hderived).2 (.inl (hplace.trans hplace'.symm))⟩

/-- `C` stands one class further inside.  Its base is bound to `X` and closes no cycle, but it is
given none. -/
theorem base_name_not_found : ∃ tree start between declared chain kept s',
    Tree.ofDocument nestedBasesDocument = .ok tree ∧
    declareMembers tree (ofLibrary []) = .ok () start ∧ start.types = [1, 2, 3] ++ 4 :: [5] ∧
    [1, 2, 3].forM (resolveBase tree) start = .ok () between ∧
    between.table.isDerivedFrom 2 4 = .ok false ∧
    declare tree [] = .ok () declared ∧ declared.table.baseNode? 4 = .ok (some 1) ∧
    Program.fetch { tree, symbols := declared.table } (.base 4) {} = .ok (some chain) kept ∧
    Program.bindType { tree, symbols := declared.table }
      (Program.answer { tree, symbols := declared.table }) chain 1 {} = .ok (.named 2) s' ∧
    declared.table.base? 4 = .ok none := by
  obtain ⟨tree, start, between, declared, chain, kept, s', h, -, hstart, htypes, hbetween, hderived,
    hrun, hbase, hfetch, hbinds, hnone, -⟩ := nestedBasesDocument_scope 4 1 (by simp)
  exact ⟨tree, start, between, declared, chain, kept, s', h, hstart, htypes, hbetween, hderived, hrun,
    hbase, hfetch, hbinds, hnone⟩

end Declarations
end Bindery
