import Bindery.Proofs.DeclarationTable

/-! # Resolving bases

Once the members are declared, every class that names a base is given the one that is found first in
its container or at the top, unless it is derived from the class.  Nothing else changes
(`SymbolTable.Rebased`), and the table stays well-formed.

With this, declaring the symbols of an accepted tree never faults
(`Declarations.declare_formed`). -/

namespace Bindery

/-! ### Tables that differ in bases -/

def SymbolKind.withoutBase : SymbolKind → SymbolKind
  | .type data => .type { data with base := none }
  | kind => kind

namespace SymbolTable

variable {tree : Tree} {t t' t'' : SymbolTable}

/-- All that a table says but for bases. -/
def withoutBases (t : SymbolTable) : SymbolTable :=
  { t with symbols := t.symbols.map fun s => { s with kind := s.kind.withoutBase } }

/-- The node that names the base of a class. -/
def baseNode? (t : SymbolTable) (type : SymbolId) : Except Fault (Option NodeId) :=
  (·.bind (·.baseNode)) <$> t.type? type

/-- The first type of a name in the container of a class, or else at the top. -/
def nearestType? (t : SymbolTable) (type : SymbolId) (name : String) :
    Except Fault (Option SymbolId) := do
  let container := (← t.containing? type).getD global
  (t.lookup container name ++ t.lookup global name).findM? t.isType

/-- The base that a class is given unless it is derived from the class. -/
def NamesBase (t : SymbolTable) (tree : Tree) (type base : SymbolId) : Prop :=
  ∃ node name arguments isUnbound, t.baseNode? type = .ok (some node) ∧
    tree.node? node = some (.typeName name arguments isUnbound) ∧
    t.nearestType? type name = .ok (some base)

theorem NamesBase.unique {type b b' : SymbolId} (h : t.NamesBase tree type b)
    (h' : t.NamesBase tree type b') : b = b' := by
  obtain ⟨node, name, _, _, hnode, hname, hb⟩ := h
  obtain ⟨node', name', _, _, hnode', hname', hb'⟩ := h'
  obtain rfl := Option.some.inj (ok_unique hnode hnode')
  obtain ⟨rfl, -⟩ := Node.typeName.inj (Option.mem_unique hname hname')
  exact Option.some.inj (ok_unique hb hb')

theorem fetch_withoutBases (t : SymbolTable) (id : SymbolId) : t.withoutBases.fetch id =
    (fun s => { s with kind := s.kind.withoutBase }) <$> t.fetch id := by
  unfold fetch
  rw [withoutBases, Array.getElem?_map]
  cases t.symbols[id]? with
  | none => simp [size, Functor.map, Except.map]
  | some s => rfl

theorem baseNode?_withoutBases (t : SymbolTable) (type : SymbolId) :
    t.withoutBases.baseNode? type = t.baseNode? type := by
  unfold baseNode? type? kind
  rw [fetch_withoutBases]
  cases t.fetch type with
  | error fault => rfl
  | ok s => cases hkind : s.kind <;> simp [Functor.map, Except.map, hkind, SymbolKind.withoutBase,
    SymbolKind.type?]

theorem nearestType?_withoutBases (t : SymbolTable) (type : SymbolId) (name : String) :
    t.withoutBases.nearestType? type name = t.nearestType? type name := by
  have hplace : t.withoutBases.containing? type = t.containing? type := by
    unfold containing?
    rw [fetch_withoutBases]
    cases t.fetch type <;> rfl
  have htype : t.withoutBases.isType = t.isType := by
    funext id
    unfold isType
    rw [fetch_withoutBases]
    cases t.fetch id with
    | error fault => rfl
    | ok s => cases hkind : s.kind <;> simp [Functor.map, Except.map, hkind, SymbolKind.withoutBase,
      Symbol.isType]
  simp only [nearestType?, hplace, htype]
  rfl

theorem exists_of_baseNode? {type : Nat} {node : Option NodeId} (h : t.baseNode? type = .ok node) :
    ∃ s, t.symbols[type]? = some s ∧ s.kind.type?.bind (·.baseNode) = node := by
  rw [baseNode?, type?, Functor.map_map] at h
  exact exists_of_map_kind h

/-- A class that names a base lies in a container. -/
theorem Formed.exists_of_baseNode? (formed : t.Formed tree) {type : Nat} {node : NodeId}
    (h : t.baseNode? type = .ok (some node)) :
    ∃ s c, t.symbols[type]? = some s ∧ s.isType = true ∧ s.containing = some c ∧
      s.kind.type?.bind (·.baseNode) = some node := by
  obtain ⟨s, hs, hnode⟩ := SymbolTable.exists_of_baseNode? h
  obtain ⟨data, hdata⟩ : ∃ data, s.kind = .type data := by
    cases hk : s.kind <;> simp [hk, SymbolKind.type?] at hnode ⊢
  rcases (formed.entry hs).containing with ⟨rfl, -⟩ | ⟨c, hc, -⟩
  · obtain ⟨_, _, hglobal, hmembers⟩ := formed.global_eq
    obtain rfl := Option.mem_unique hs hglobal
    cases hdata.symm.trans hmembers
  · exact ⟨s, c, hs, by rw [Symbol.isType, hdata], hc, hnode⟩

theorem NamesBase.of_same (h : t'.withoutBases = t.withoutBases) {type base : SymbolId}
    (hnames : t.NamesBase tree type base) : t'.NamesBase tree type base := by
  unfold NamesBase at hnames ⊢
  simpa only [← baseNode?_withoutBases t', ← nearestType?_withoutBases t', h,
    baseNode?_withoutBases, nearestType?_withoutBases] using hnames

/-- Bases were entered, each of them the one that its class names. -/
structure Rebased (tree : Tree) (t t' : SymbolTable) : Prop where
  same : t'.withoutBases = t.withoutBases
  entered : ∀ i, t'.base? i = t.base? i ∨ ∃ b, t.NamesBase tree i b ∧ t'.base? i = .ok (some b)

theorem Rebased.refl : t.Rebased tree t := ⟨rfl, fun _ => .inl rfl⟩

theorem Rebased.trans (h : t.Rebased tree t') (h' : t'.Rebased tree t'') : t.Rebased tree t'' := by
  refine ⟨h'.same.trans h.same, fun i => ?_⟩
  rcases h'.entered i with heq | ⟨b, hb, heq⟩
  · rw [heq]
    exact h.entered i
  · exact .inr ⟨b, hb.of_same h.same.symm, heq⟩

/-- A base that is named stays. -/
theorem Rebased.base?_eq (h : t.Rebased tree t') {type base : SymbolId}
    (hnames : t.NamesBase tree type base) (hbase : t.base? type = .ok (some base)) :
    t'.base? type = .ok (some base) := by
  rcases h.entered type with heq | ⟨b, hb, heq⟩
  · rw [heq, hbase]
  · rw [heq, hb.unique hnames]

theorem withoutBases_mapKind (type : SymbolId) {f : SymbolKind → SymbolKind}
    (h : ∀ kind, (f kind).withoutBase = kind.withoutBase) :
    (t.mapKind type f).withoutBases = t.withoutBases := by
  have hview : ∀ i : Nat, (t.mapKind type f).withoutBases.symbols[i]? = t.withoutBases.symbols[i]? := by
    intro i
    rw [withoutBases, withoutBases, Array.getElem?_map, Array.getElem?_map, getElem?_mapKind,
      Option.map_map]
    refine Option.map_congr fun s _ => ?_
    dsimp only [Function.comp_apply]
    split
    · rw [h]
    · rfl
  exact congrArg (fun symbols => { t with symbols }) (Array.ext_getElem? hview)

/-- Entering the base that a class names. -/
theorem NamesBase.enter {type base : SymbolId} (h : t.NamesBase tree type base) :
    let t' := t.mapKind type fun kind =>
      match kind with
      | .type data => .type { data with base := some base }
      | kind => kind
    t.Rebased tree t' ∧ t'.base? type = .ok (some base) := by
  intro t'
  have ⟨node, _, _, _, hnode, _⟩ := h
  have hentered : t'.base? type = .ok (some base) := by
    obtain ⟨s, hs, hnode⟩ := exists_of_baseNode? hnode
    have hs' : t'.symbols[(type : Nat)]? = _ := getElem?_mapKind type _ type
    rw [hs, Option.map_some, if_pos rfl] at hs'
    rw [base?_of_getElem? hs']
    cases hkind : s.kind <;> simp [hkind, SymbolKind.type?, SymbolKind.base?] at hnode ⊢
  refine ⟨⟨withoutBases_mapKind type ?_, fun i => ?_⟩, hentered⟩
  · intro kind
    cases kind <;> rfl
  · by_cases hi : type = i
    · subst hi
      exact .inr ⟨base, h, hentered⟩
    · have hsame : t'.symbols[(i : Nat)]? = t.symbols[(i : Nat)]? := by
        rw [getElem?_mapKind]
        simp [hi]
      left
      simp [base?, kind, fetch, hsame, t', size_mapKind]

end SymbolTable

/-! ### Resolving -/

namespace Declarations

open SymbolTable

variable {tree : Tree} {d d' d'' : Declarations} {type : Nat}

/-- The step from `d` to `d'` enters only bases that classes name. -/
structure Resolves (tree : Tree) (d d' : Declarations) : Prop where
  sound : d'.Sound tree
  grown : d.table.Grown (fun _ => False) d'.table
  rebased : d.table.Rebased tree d'.table

theorem Resolves.trans (h : Resolves tree d d') (h' : Resolves tree d' d'') : Resolves tree d d'' :=
  ⟨h'.sound, h.grown.trans h'.grown, h.rebased.trans h'.rebased⟩

theorem Sound.resolves (sound : d.Sound tree) (h : d.SameTable d') : Resolves tree d d' := by
  refine ⟨sound.of_sameTable h, ?_, ?_⟩ <;> rw [h.1]
  exacts [.refl, .refl]

/-- Entering a base that is not derived from the class. -/
theorem Sound.rebase (sound : d.Sound tree) {base : Nat} (hnames : d.table.NamesBase tree type base)
    {chain : List SymbolId} (hchain : d.table.BaseChain base chain) (hnot : type ∉ chain) :
    Resolves tree d { d with table := d.table.mapKind type fun kind =>
      match kind with
      | .type data => .type { data with base := some base }
      | kind => kind } := by
  have hshape : ∀ kind : SymbolKind, (match kind with
      | .type data => SymbolKind.type { data with base := some base }
      | kind => kind).shape = kind.shape := by
    intro kind
    cases kind <;> rfl
  refine ⟨⟨sound.formed.rebase hchain hnot hshape ?_ ?_ ?_, ?_, sound.mild,
    sound.placed.mapKind hshape ?_⟩, .mapKind hshape, hnames.enter.1⟩
  · intro kind r hr
    have hbase := hchain.start_lt
    cases kind <;> simp_all [SymbolKind.references, SymbolKind.members, SymbolKind.parameters,
      SymbolKind.templateParameters, SymbolKind.base?, SymbolKind.type?, SymbolKind.method?]
    grind
  · intro kind
    cases kind <;> rfl
  · intro kind
    cases kind <;> first | exact .inl rfl | exact .inr rfl
  · rw [size_mapKind]
    exact sound.types_lt
  · intro kind
    cases kind <;> rfl

/-- A class is given the base that it names, unless that is derived from it; all else stays. -/
theorem resolveBase_spec (linked : tree.Linked) (sound : d.Sound tree)
    (htype : type < d.table.size) : Succeeds (resolveBase tree type) d fun _ d' =>
      Resolves tree d d' ∧ ∀ b, d.table.NamesBase tree type b →
        d.table.isDerivedFrom b type = .ok false → d'.table.base? type = .ok (some b) := by
  have formed := sound.formed
  -- where nothing is entered, no base is named or it is derived from the class
  have left : ∀ {d' : Declarations},
      (∀ b, d.table.NamesBase tree type b → d.table.isDerivedFrom b type ≠ .ok false) →
      d.SameTable d' → Resolves tree d d' ∧ ∀ b, d.table.NamesBase tree type b →
        d.table.isDerivedFrom b type = .ok false → d'.table.base? type = .ok (some b) :=
    fun hnot hsame => ⟨sound.resolves hsame, fun b hb hderived => absurd hderived (hnot b hb)⟩
  unfold resolveBase
  refine Ends.bind_get ?_
  obtain ⟨s, hs⟩ := exists_of_lt htype
  have hdata : d.table.type? type = .ok s.kind.type? := map_kind _ hs
  refine Ends.bind_lift ⟨_, hdata, rfl⟩ ?_
  rintro _ rfl
  have hbaseNode : d.table.baseNode? type = .ok (s.kind.type?.bind (·.baseNode)) := by
    rw [baseNode?, hdata]
    rfl
  split
  · next hnone =>
    refine Ends.pure (left ?_ ⟨rfl, rfl, id⟩)
    rintro b ⟨node, _, _, _, hnode, -⟩
    rw [hbaseNode, hnone] at hnode
    cases hnode
  · next baseNode hsome =>
    rw [hsome] at hbaseNode
    have hlt := formed.node_lt (m := baseNode) hs (by
      cases hkind : s.kind <;> simp_all [SymbolKind.type?, SymbolKind.nodes])
    split
    · next name arguments isUnbound hname =>
      have nearest : ∀ b, d.table.NamesBase tree type b →
          d.table.nearestType? type name = .ok (some b) := by
        rintro b ⟨node, name', _, _, hnode, hname', hb⟩
        obtain rfl := Option.some.inj (ok_unique hbaseNode hnode)
        obtain ⟨rfl, -⟩ := Node.typeName.inj (Option.mem_unique hname hname')
        exact hb
      obtain ⟨container, hcontainer, -⟩ := formed.containing?_yields htype
      refine Ends.bind_lift ⟨container, hcontainer, rfl⟩ ?_
      rintro _ rfl
      have hcandidates : ∀ base : Nat, base ∈ d.table.lookup (container.getD SymbolTable.global) name ++
          d.table.lookup SymbolTable.global name → base < d.table.size := by
        intro base hbase
        rcases List.mem_append.1 hbase with h | h <;> exact formed.lookup_lt h
      obtain ⟨found, hfound, hmem⟩ := Yields.findM? fun candidate hcandidate =>
        (formed.isType_yields (hcandidates candidate hcandidate)).imp fun _ _ => trivial
      have hnearest : d.table.nearestType? type name = .ok found := by
        rw [nearestType?, hcontainer]
        exact hfound
      dsimp only
      rw [findM?_lift]
      refine Ends.bind_lift ⟨found, hfound, rfl⟩ ?_
      rintro _ rfl
      cases found with
      | none =>
        refine (report_spec linked hlt (by trivial) _ d).imp fun _ _ => left fun b hb => ?_
        cases hnearest.symm.trans (nearest b hb)
      | some base =>
        have hb := hcandidates base (hmem base rfl).1
        have only : ∀ b, d.table.NamesBase tree type b → base = b := fun b hb =>
          Option.some.inj (ok_unique hnearest (nearest b hb))
        obtain ⟨chain, hchain⟩ := formed.bases hb
        refine Ends.bind_lift ⟨_, hchain.isDerivedFrom_eq type, rfl⟩ ?_
        rintro _ rfl
        split
        · next hderived =>
          refine Ends.bind_lift (formed.name_yields htype) fun _ _ => ?_
          refine Ends.bind_lift (formed.name_yields hb) fun _ _ => ?_
          refine (report_spec linked hlt (by trivial) _ d).imp fun _ _ => left fun b hb => ?_
          rw [← only b hb, hchain.isDerivedFrom_eq, hderived]
          simp
        · next hnot =>
          have hnames : d.table.NamesBase tree type base :=
            ⟨baseNode, name, arguments, isUnbound, hbaseNode, hname, hnearest⟩
          exact Ends.of_modify ⟨sound.rebase hnames hchain (by simpa using hnot), fun b hb _ =>
            only b hb ▸ hnames.enter.2⟩
    · next hother =>
      refine (report_spec linked hlt (by trivial) _ d).imp fun _ _ => left ?_
      rintro b ⟨node, name, arguments, isUnbound, hnode, hname, -⟩
      obtain rfl := Option.some.inj (ok_unique hbaseNode hnode)
      exact absurd hname (hother _ _ _)

theorem resolveBases_spec (linked : tree.Linked) {types : List SymbolId} (sound : d.Sound tree)
    (htypes : ∀ type : Nat, type ∈ types → type < d.table.size) :
    Succeeds (types.forM (resolveBase tree)) d fun _ d' => Resolves tree d d' := by
  refine (Ends.forM (I := fun rest d' => Resolves tree d d' ∧
    ∀ type : Nat, type ∈ rest → type < d'.table.size)
    ⟨sound.resolves ⟨rfl, rfl, id⟩, htypes⟩ ?_).imp fun _ d' h => h.1
  rintro type rest d₁ ⟨hd₁, hrest⟩
  refine (resolveBase_spec linked hd₁.sound (hrest type (by simp))).imp fun _ d₂ hd₂ => ?_
  exact ⟨hd₁.trans hd₂.1, fun t ht =>
    Nat.lt_of_lt_of_le (hrest t (List.mem_cons_of_mem _ ht)) hd₂.1.grown.size_le⟩

/-- Members are declared first, then the bases are resolved.  Resolving the bases of the first types
and then those of the others leads to the same declarations. -/
theorem declare_in_order (linked : tree.Linked) (libraryTypes : List String) :
    ∃ start declared, declareMembers tree (ofLibrary libraryTypes) = .ok () start ∧ start.Laid tree ∧
      declare tree libraryTypes = .ok () declared ∧ Resolves tree start declared ∧
      declared.table.HoldsEntry tree ∧ ∀ before after, start.types = before ++ after →
        ∃ between, before.forM (resolveBase tree) start = .ok () between ∧ Resolves tree start between ∧
          after.forM (resolveBase tree) between = .ok () declared := by
  obtain ⟨⟨⟩, start, hstart, laid, hentry⟩ := (declareMembers_spec linked libraryTypes).exists_ok
  obtain ⟨⟨⟩, declared, hdeclared, resolves⟩ :=
    (resolveBases_spec linked laid.toSound laid.types_lt).exists_ok
  refine ⟨start, declared, hstart, laid, ?_, resolves, hentry.of_grown resolves.grown, ?_⟩
  · change (declareMembers tree >>= fun _ => resolveBases tree) (ofLibrary libraryTypes) = _
    simp only [bind, EStateM.bind, hstart]
    exact hdeclared
  · intro before after htypes
    have hbefore : ∀ type : Nat, type ∈ before → type < start.table.size := fun type htype =>
      laid.types_lt type (htypes ▸ List.mem_append_left after htype)
    obtain ⟨⟨⟩, between, hbetween, resolves'⟩ :=
      (resolveBases_spec linked laid.toSound hbefore).exists_ok
    have hparts : (before ++ after).forM (resolveBase tree) =
        (before.forM (resolveBase tree) >>= fun _ => after.forM (resolveBase tree)) :=
      List.forM_append
    rw [htypes, hparts] at hdeclared
    exact ⟨between, hbetween, resolves', by
      simpa only [bind, EStateM.bind, hbetween] using hdeclared⟩

/-- Declaring the symbols of an accepted tree never faults, the table is well-formed, and global
statements have an entry method. -/
theorem declare_formed (linked : tree.Linked) (libraryTypes : List String) :
    ∃ d, declare tree libraryTypes = .ok () d ∧ d.table.Formed tree ∧ d.table.HoldsEntry tree := by
  obtain ⟨_, declared, -, -, hrun, resolves, holds, -⟩ := declare_in_order linked libraryTypes
  exact ⟨declared, hrun, resolves.sound.formed, holds⟩

/-- What is seen of the symbols of a document. -/
def seen? {α : Type} (d : Document) (libraryTypes : List String) (view : Declarations → α) : Option α :=
  match (Tree.ofDocument d).toOption.map fun tree => declare tree libraryTypes with
  | some (.ok _ declared) => some (view declared)
  | _ => none

theorem eq_of_seen? {α : Type} (view : Declarations → α) {d : Document} {libraryTypes : List String}
    {a : α} {declared : Declarations} (h : Tree.ofDocument d = .ok tree)
    (hrun : declare tree libraryTypes = .ok () declared) (ha : seen? d libraryTypes view = some a) :
    view declared = a := by
  simpa [seen?, h, hrun, Except.toOption] using ha

end Declarations
end Bindery
