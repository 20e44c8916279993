import Bindery.Proofs.BaseChains
import Bindery.Symbol.Declaration

/-! # Declaring gives a well-formed table

Declaring the members of an accepted tree never faults and ends with a well-formed table, in which
an entry method stands for the global statements (`Declarations.declareMembers_spec`).  No symbol
has a base yet, every class that names one is listed, and the parameters of a method stand for the
parameters of its list, with their places in it as ordinals (`Declarations.Laid`).

Each step is described by how the table grows: `SymbolTable.Grown P t t'` says that `t'` keeps the
symbols of `t` up to their lists and bases, and that the nodes of the symbols it adds satisfy `P`.
Members are declared from disjoint subtrees, so no node declares twice. -/

namespace Bindery

/-- Messages that may be reported about any piece of code, whatever the flags. -/
def Message.Anywhere : Message → Prop
  | .returnInFinally | .jumpOutsideLoop | .undefinedLabel | .inaccessible | .lowLevelRequired => False
  | _ => True

namespace Tree

variable (t : Tree)

def isParameter (n : NodeId) : Bool := t.node? n matches some (.parameter ..)

/-- The list of the method that a node declares. -/
def parameterList : Option NodeId → List NodeId
  | none => []
  | some n =>
    match t.node? n with
    | some (.methodDeclaration _ _ _ parameters _) => parameters
    | _ => []

end Tree

variable {tree : Tree}

namespace SymbolTable

/-- How a table grows: the symbols are kept up to lists and bases, and every new one is declared by
a node that satisfies `P`. -/
structure Grown (P : NodeId → Prop) (t t' : SymbolTable) : Prop where
  kept : ∀ {i : Nat} {s : Symbol}, t.symbols[i]? = some s →
    ∃ s', t'.symbols[i]? = some s' ∧ s'.kind.shape = s.kind.shape ∧ s'.declaration = s.declaration
  same_place : ∀ {i : Nat} {s s' : Symbol}, t.symbols[i]? = some s → t'.symbols[i]? = some s' →
    s'.name = s.name ∧ s'.containing = s.containing
  added : ∀ {i : Nat} {s' : Symbol}, t'.symbols[i]? = some s' → t.size ≤ i →
    ∃ n, s'.declaration = some n ∧ P n

/-- Whether no node that satisfies `P` declares a symbol of the table. -/
def Undeclared (t : SymbolTable) (P : NodeId → Prop) : Prop :=
  ∀ (i : Nat) (s : Symbol) (n : NodeId), t.symbols[i]? = some s → s.declaration = some n → ¬ P n

variable {t t' t'' : SymbolTable} {P Q : NodeId → Prop}

namespace Grown

theorem size_le (h : Grown P t t') : t.size ≤ t'.size := by
  rcases Nat.eq_zero_or_pos t.size with h0 | hpos
  · omega
  · obtain ⟨s, hs⟩ := exists_of_lt (t := t) (i := t.size - 1) (by omega)
    obtain ⟨s', hs', -⟩ := h.kept hs
    have := lt_of_getElem? hs'
    omega

theorem refl : Grown P t t :=
  ⟨fun hs => ⟨_, hs, rfl, rfl⟩, fun hs hs' => Option.mem_unique hs hs' ▸ ⟨rfl, rfl⟩,
    fun hs hle => absurd (lt_of_getElem? hs) (Nat.not_lt.2 hle)⟩

theorem trans (h : Grown P t t') (h' : Grown P t' t'') : Grown P t t'' := by
  refine ⟨fun hs => ?_, fun hs hs'' => ?_, fun {i s''} hs'' hle => ?_⟩
  · obtain ⟨s', hs', hkind, hdecl⟩ := h.kept hs
    obtain ⟨s'', hs'', hkind', hdecl'⟩ := h'.kept hs'
    exact ⟨s'', hs'', hkind'.trans hkind, hdecl'.trans hdecl⟩
  · obtain ⟨s', hs', -⟩ := h.kept hs
    obtain ⟨hname, hplace⟩ := h.same_place hs hs'
    obtain ⟨hname', hplace'⟩ := h'.same_place hs' hs''
    exact ⟨hname'.trans hname, hplace'.trans hplace⟩
  · rcases Nat.lt_or_ge i t'.size with hlt | hge
    · obtain ⟨s', hs'⟩ := exists_of_lt hlt
      obtain ⟨_, hs''', -, hdecl⟩ := h'.kept hs'
      obtain rfl := Option.mem_unique hs'' hs'''
      rw [hdecl]
      exact h.added hs' hle
    · exact h'.added hs'' hge

theorem imp (h : Grown P t t') (hPQ : ∀ n, P n → Q n) : Grown Q t t' :=
  ⟨h.kept, h.same_place, fun hs hle => (h.added hs hle).imp fun n hn => ⟨hn.1, hPQ n hn.2⟩⟩

/-- What nothing declared before and `P` does not allow, nothing declares after. -/
theorem undeclared (h : Grown P t t') (ht : t.Undeclared Q) (hPQ : ∀ n, P n → ¬ Q n) :
    t'.Undeclared Q := by
  intro i s' n hs' hn
  rcases Nat.lt_or_ge i t.size with hlt | hge
  · obtain ⟨s, hs⟩ := exists_of_lt hlt
    obtain ⟨_, hs'', -, hdecl⟩ := h.kept hs
    obtain rfl := Option.mem_unique hs' hs''
    exact ht i s n hs (hdecl ▸ hn)
  · obtain ⟨m, hm, hP⟩ := h.added hs' hge
    obtain rfl := Option.mem_unique hm hn
    exact hPQ _ hP

theorem mapKind {id : SymbolId} {f : SymbolKind → SymbolKind}
    (hshape : ∀ kind, (f kind).shape = kind.shape) : Grown P t (t.mapKind id f) := by
  refine ⟨fun {i s} hs => ?_, fun hs hs' => ?_, fun hs hle => ?_⟩
  · rw [getElem?_mapKind, hs]
    refine ⟨_, rfl, ?_, ?_⟩
    · split
      · exact hshape _
      · rfl
    · split <;> rfl
  · rw [getElem?_mapKind, hs] at hs'
    obtain rfl := Option.some.inj hs'
    split <;> exact ⟨rfl, rfl⟩
  · have := lt_of_getElem? hs
    rw [size_mapKind] at this
    exact absurd this (Nat.not_lt.2 hle)

theorem insert {name : String} {kind : SymbolKind} {access : Access} {c : Nat} {n : NodeId}
    (hc : c < t.size) (hn : P n) : Grown P t (t.insert name kind access c (some n)) := by
  refine ⟨fun {i s} hs => ?_, fun {i s s'} hs hs' => ?_, fun hs hle => ?_⟩
  · rw [getElem?_insert hc, if_neg (Nat.ne_of_lt (lt_of_getElem? hs)), hs]
    refine ⟨_, rfl, ?_⟩
    split
    · exact ⟨s.kind.shape_addMember _, rfl⟩
    · exact ⟨rfl, rfl⟩
  · rw [getElem?_insert hc, if_neg (Nat.ne_of_lt (lt_of_getElem? hs)), hs] at hs'
    obtain rfl := Option.some.inj hs'
    split <;> exact ⟨rfl, rfl⟩
  · rcases of_getElem?_insert hc hs with ⟨-, rfl⟩ | ⟨u, hu, -⟩
    · exact ⟨n, rfl, hn⟩
    · exact absurd (lt_of_getElem? hu) (Nat.not_lt.2 hle)

end Grown

theorem Undeclared.imp (h : t.Undeclared Q) (hPQ : ∀ n, P n → Q n) : t.Undeclared P :=
  fun i s n hs hn hP => h i s n hs hn (hPQ n hP)

/-! ### Places of parameters -/

/-- The parameters of a method stand for the parameters in a list of nodes, in this order, and their
ordinals are their places in the list. -/
def Placed (tree : Tree) (t : SymbolTable) (method : SymbolId) (nodes : List NodeId)
    (parameters : List SymbolId) : Prop :=
  ∀ (k id : Nat), parameters[k]? = some id → ∃ s data n, t.symbols[id]? = some s ∧
    s.kind = .parameter data ∧ s.containing = some method ∧ s.declaration = some n ∧
    nodes[data.ordinal]? = some n ∧ (nodes.take data.ordinal).countP tree.isParameter = k

theorem Placed.grown {method : SymbolId} {nodes : List NodeId} {parameters : List SymbolId}
    (h : t.Placed tree method nodes parameters) (grown : t.Grown P t') :
    t'.Placed tree method nodes parameters := by
  intro k id hid
  obtain ⟨s, data, n, hs, hkind, hmethod, hn, hplace⟩ := h k id hid
  obtain ⟨s', hs', hshape, hdeclaration⟩ := grown.kept hs
  refine ⟨s', data, n, hs', ?_, (grown.same_place hs hs').2.trans hmethod, hdeclaration.trans hn,
    hplace⟩
  rw [hkind] at hshape
  cases hk : s'.kind <;> simp_all [SymbolKind.shape]

/-- The parameters of every method have their places in its list. -/
def PlacesParameters (tree : Tree) (t : SymbolTable) : Prop := ∀ (i : Nat) (s : Symbol),
  t.symbols[i]? = some s → t.Placed tree i (tree.parameterList s.declaration) s.kind.parameters

namespace PlacesParameters

variable {id : SymbolId} {f : SymbolKind → SymbolKind}

/-- New symbols have no parameters yet, and old ones keep theirs. -/
theorem grown (h : t.PlacesParameters tree) (grown : t.Grown P t')
    (hsame : ∀ {i : Nat} {s' : Symbol}, t'.symbols[i]? = some s' → s'.kind.parameters = [] ∨
      ∃ s, t.symbols[i]? = some s ∧ s'.kind.parameters = s.kind.parameters) :
    t'.PlacesParameters tree := by
  intro i s' hs'
  rcases hsame hs' with hnil | ⟨s, hs, hparameters⟩
  · simp [hnil, Placed]
  · obtain ⟨u, hu, -, hdeclaration⟩ := grown.kept hs
    obtain rfl := Option.mem_unique hs' hu
    rw [hparameters, hdeclaration]
    exact (h i s hs).grown grown

theorem mapKind (h : t.PlacesParameters tree) (hshape : ∀ kind, (f kind).shape = kind.shape)
    (hsame : ∀ kind, (f kind).parameters = kind.parameters) :
    (t.mapKind id f).PlacesParameters tree := by
  refine h.grown (P := fun _ => True) (.mapKind hshape) fun hs' => ?_
  rw [getElem?_mapKind] at hs'
  obtain ⟨s, hs, rfl⟩ := Option.map_eq_some_iff.1 hs'
  refine .inr ⟨s, hs, ?_⟩
  split
  · exact hsame _
  · rfl

end PlacesParameters

end SymbolTable

/-! ### The entry method -/

theorem SymbolKind.isEntry_shape (kind : SymbolKind) : kind.shape.isEntry = kind.isEntry := by
  cases kind <;> rfl

namespace SymbolTable

/-- An entry method stands at the top exactly if there are global statements. -/
structure HoldsEntry (tree : Tree) (t : SymbolTable) : Prop where
  exists_entry : tree.globalStatements ≠ [] → ∃ (i : Nat) (s : Symbol), t.symbols[i]? = some s ∧
    s.kind.isEntry = true ∧ s.name = entryName ∧ s.containing = some global
  globals : ∀ {i : Nat} {s : Symbol}, t.symbols[i]? = some s → s.kind.isEntry = true →
    tree.globalStatements ≠ []

theorem HoldsEntry.of_grown {t t' : SymbolTable} (h : t.HoldsEntry tree)
    (grown : t.Grown (fun _ => False) t') : t'.HoldsEntry tree := by
  refine ⟨fun hglobals => ?_, fun {i s'} hs' hentry => ?_⟩
  · obtain ⟨i, s, hs, hentry, hname, hplace⟩ := h.exists_entry hglobals
    obtain ⟨s', hs', hshape, -⟩ := grown.kept hs
    obtain ⟨hname', hplace'⟩ := grown.same_place hs hs'
    refine ⟨i, s', hs', ?_, hname'.trans hname, hplace'.trans hplace⟩
    rw [← SymbolKind.isEntry_shape, hshape, SymbolKind.isEntry_shape, hentry]
  · rcases Nat.lt_or_ge i t.size with hlt | hge
    · obtain ⟨s, hs⟩ := exists_of_lt hlt
      obtain ⟨_, hs'', hshape, -⟩ := grown.kept hs
      obtain rfl := Option.mem_unique hs' hs''
      refine h.globals hs ?_
      rw [← SymbolKind.isEntry_shape, ← hshape, SymbolKind.isEntry_shape, hentry]
    · obtain ⟨_, -, hfalse⟩ := grown.added hs' hge
      exact hfalse.elim

end SymbolTable

/-- What a library supplies: no node declares it, and it has neither parameters nor a base. -/
def Symbol.IsBare (s : Symbol) : Prop := s.declaration = none ∧ s.kind.parameters = [] ∧
  s.kind.base? = none ∧ s.kind.type?.bind (·.baseNode) = none

namespace Declarations

open SymbolTable

/-- Everything reported so far may be reported about any code. -/
def Mild (d : Declarations) : Prop := ∀ x ∈ d.diagnostics.items, x.message.Anywhere

/-- What declaring keeps true: the table is well-formed, the classes listed are in it, and
parameters have their places. -/
structure Sound (tree : Tree) (d : Declarations) : Prop where
  formed : d.table.Formed tree
  types_lt : ∀ type : Nat, type ∈ d.types → type < d.table.size
  mild : d.Mild
  placed : d.table.PlacesParameters tree

/-- What holds before bases are resolved: no symbol has one, and every class that names one is
listed. -/
structure Laid (tree : Tree) (d : Declarations) : Prop extends Sound tree d where
  unresolved : ∀ {i : Nat} {s : Symbol}, d.table.symbols[i]? = some s → s.kind.base? = none ∧
    (s.kind.type?.bind (·.baseNode) ≠ none → i ∈ d.types)

/-- The step from `d` to `d'` declares only by nodes that satisfy `P`. -/
def Declares (tree : Tree) (P : NodeId → Prop) (d d' : Declarations) : Prop :=
  d'.Laid tree ∧ d.table.Grown P d'.table

variable {d d' : Declarations} {type : Nat} {node : NodeId} {P : NodeId → Prop} {o : Symbol}

theorem Declares.trans {d'' : Declarations} (h : Declares tree P d d')
    (h' : Declares tree P d' d'') : Declares tree P d d'' :=
  ⟨h'.1, h.2.trans h'.2⟩

/-- Only mild diagnostics are added. -/
def SameTable (d d' : Declarations) : Prop :=
  d'.table = d.table ∧ d'.types = d.types ∧ (d.Mild → d'.Mild)

theorem Sound.of_sameTable (sound : d.Sound tree) (h : d.SameTable d') : d'.Sound tree := by
  obtain ⟨table, diagnostics, types⟩ := d'
  obtain ⟨rfl, rfl, hmild⟩ := h
  exact ⟨sound.formed, sound.types_lt, hmild sound.mild, sound.placed⟩

theorem Laid.of_sameTable (laid : d.Laid tree) (h : d.SameTable d') : d'.Laid tree := by
  refine ⟨laid.toSound.of_sameTable h, ?_⟩
  rw [h.1, h.2.1]
  exact laid.unresolved

theorem report_spec (linked : tree.Linked) (hnode : node < tree.size) {message : Message}
    (h : message.Anywhere) (args : List String) (d : Declarations) :
    Succeeds (report tree node message args) d fun _ d' => d.SameTable d' := by
  obtain ⟨span, hspan⟩ := linked.span_ok hnode
  unfold report
  rw [hspan]
  refine Ends.of_modify ⟨rfl, rfl, fun mild x hx => ?_⟩
  rcases List.mem_append.1 (DiagnosticQueue.items_push .. ▸ hx) with hx | hx
  · exact mild x hx
  · rw [List.mem_singleton.1 hx]
    exact h

variable {container : Nat}

theorem checkDuplicate_spec (linked : tree.Linked) (hnode : node < tree.size) (name : String)
    (isMethod : Bool) (formed : d.table.Formed tree) (hc : container < d.table.size) :
    Succeeds (checkDuplicate tree node name container isMethod) d fun _ d' => d.SameTable d' := by
  unfold checkDuplicate
  refine Ends.bind_get ?_
  refine Ends.bind_reads (Ends.Reads.anyM fun existing hexisting => ?_) fun clashes _ => ?_
  · exact Ends.bind_lift (formed.ask_yields (formed.lookup_lt hexisting))
      fun _ _ => Ends.Reads.pure trivial
  · split
    · exact Ends.bind_lift (formed.name_yields hc) fun _ _ =>
        report_spec linked hnode (by trivial) _ d
    · exact Ends.pure ⟨rfl, rfl, id⟩

variable {kind : SymbolKind} {access : Access} {name : String}

/-- Appending a symbol to one that may hold it. -/
theorem add_spec {c : Nat} {declaration : Option NodeId} (ho : d.table.symbols[c]? = some o)
    (hold : o.kind.mayHold kind = true) :
    Succeeds (add name kind access c declaration) d fun id d' => id = d.table.size ∧
      d' = { d with table := d.table.insert name kind access c declaration } := by
  have hc : c < d.table.size := lt_of_getElem? ho
  have hcheck : (d.table.insert name kind access c declaration).checkInserted kind c = .ok () := by
    unfold checkInserted
    split
    · next hmember =>
      have hcont : (o.kind.addMember d.table.size).isContainer = true := by
        rw [← SymbolKind.isContainer_shape, SymbolKind.shape_addMember, SymbolKind.isContainer_shape]
        exact SymbolKind.isContainer_of_mayHold hold hmember
      simp [SymbolTable.kind, fetch, getElem?_insert hc, Nat.ne_of_lt hc, ho, hmember, hcont, bind,
        Except.bind, Functor.map, Except.map, pure, Except.pure]
    · rfl
  refine Ends.bind_get (Ends.bind_modify (Ends.bind_get ?_))
  exact Ends.bind_lift ⟨(), hcheck, rfl⟩ fun _ _ => Ends.pure ⟨rfl, rfl⟩

theorem baseNode_shape (kind : SymbolKind) :
    kind.shape.type?.bind (·.baseNode) = kind.type?.bind (·.baseNode) := by
  cases kind <;> rfl

/-- A class is listed with its symbol. -/
theorem Laid.insert (laid : d.Laid tree) (name : String) (access : Access) {c : Nat} {n : NodeId}
    {types : List SymbolId} (ho : d.table.symbols[c]? = some o) (hold : o.kind.mayHold kind = true)
    (hrefs : kind.references = [])
    (hdecl : ∀ id containing, Symbol.Declared tree ⟨id, name, kind, access, containing, some n⟩)
    (hn : P n) (hfresh : d.table.Undeclared (· = n))
    (htypes : types = d.types ∧ kind.type?.bind (·.baseNode) = none ∨
      types = d.types ++ [d.table.size]) :
    Declares tree P d { d with table := d.table.insert name kind access c (some n), types } := by
  have hc : c < d.table.size := lt_of_getElem? ho
  have grown : d.table.Grown P (d.table.insert name kind access c (some n)) := .insert hc hn
  have hmem : ∀ i, i ∈ d.types → i ∈ types := by
    rcases htypes with ⟨rfl, -⟩ | rfl <;> simp +contextual
  refine ⟨⟨⟨?_, fun type htype => ?_, laid.mild, laid.placed.grown grown fun hs' => ?_⟩,
    fun hs' => ?_⟩, grown⟩
  · exact laid.formed.insert ho hold hrefs (hdecl _ _) fun i u m hu hum heq =>
      hfresh i u m hu hum (Option.some.inj heq).symm
  · have hold : ∀ type ∈ d.types, type < d.table.size + 1 := fun type htype =>
      Nat.lt_succ_of_lt (laid.types_lt type htype)
    rw [size_insert]
    rcases htypes with ⟨rfl, -⟩ | rfl
    · exact hold type htype
    · rcases List.mem_append.1 htype with htype | htype
      · exact hold type htype
      · exact List.mem_singleton.1 htype ▸ Nat.lt_succ_self _
  · rcases of_getElem?_insert hc hs' with ⟨-, rfl⟩ | ⟨s, hs, rfl⟩
    · exact .inl (SymbolKind.parameters_of_references hrefs)
    · refine .inr ⟨s, hs, ?_⟩
      split
      · cases s.kind <;> rfl
      · rfl
  · rcases of_getElem?_insert hc hs' with ⟨rfl, rfl⟩ | ⟨s, hs, rfl⟩
    · refine ⟨SymbolKind.base?_of_references hrefs, fun hnode => ?_⟩
      rcases htypes with ⟨-, hnone⟩ | rfl
      · exact absurd hnone hnode
      · simp
    · obtain ⟨hbase, hlisted⟩ := laid.unresolved hs
      split
      · refine ⟨(SymbolKind.base?_addMember ..).trans hbase, fun hnode => hmem _ (hlisted ?_)⟩
        rwa [← baseNode_shape, SymbolKind.shape_addMember, baseNode_shape] at hnode
      · exact ⟨hbase, fun hnode => hmem _ (hlisted hnode)⟩

/-- Entering a symbol that was just appended with what it belongs to. -/
theorem Laid.fill (laid : d.Laid tree) (target : SymbolId) {f : SymbolKind → SymbolKind}
    (hshape : ∀ kind, (f kind).shape = kind.shape)
    (hrefs : ∀ kind (r : Nat), r ∈ (f kind).references → r ∈ kind.references ∨ r < d.table.size)
    (hmembers : ∀ kind, (f kind).members = kind.members)
    (hbase : ∀ kind, (f kind).base? = kind.base?)
    (hplaced : (d.table.mapKind target f).PlacesParameters tree) :
    Declares tree P d { d with table := d.table.mapKind target f } := by
  refine ⟨⟨⟨laid.formed.mapKind hshape hrefs hmembers hbase, ?_, laid.mild, hplaced⟩, fun hs => ?_⟩,
    .mapKind hshape⟩
  · rw [size_mapKind]
    exact laid.types_lt
  · rw [getElem?_mapKind] at hs
    obtain ⟨u, hu, rfl⟩ := Option.map_eq_some_iff.1 hs
    obtain ⟨hnone, hlisted⟩ := laid.unresolved hu
    split
    · refine ⟨(hbase _).trans hnone, fun hnode => hlisted ?_⟩
      rwa [← baseNode_shape, hshape, baseNode_shape] at hnode
    · exact ⟨hnone, hlisted⟩

theorem declareTemplateParameter_spec (ordinal : Nat) (laid : d.Laid tree) {data : TypeData}
    (ho : d.table.symbols[type]? = some o) (hkind : o.kind = .type data)
    (hfresh : d.table.Undeclared (· = node)) :
    Succeeds (declareTemplateParameter tree type node ordinal) d fun _ d' =>
      Declares tree (· = node) d d' := by
  have hold : ∀ data, o.kind.mayHold (.templateParameter data) = true := fun _ => by rw [hkind]; rfl
  unfold declareTemplateParameter
  split
  · next name constantType hnode =>
    refine Ends.bind (add_spec ho (hold _)) ?_
    rintro _ _ ⟨rfl, rfl⟩
    have hadd := laid.insert (P := (· = node)) name .publicAccess ho
      (hold ⟨constantType, ordinal⟩) rfl (fun _ _ => ⟨node, rfl, hnode⟩) rfl hfresh (.inl ⟨rfl, rfl⟩)
    refine Ends.of_modify (hadd.trans (hadd.1.fill type ?_ ?_ ?_ ?_ (hadd.1.placed.mapKind ?_ ?_)))
    case refine_2 =>
      intro kind r hr
      cases kind <;> simp_all [SymbolKind.references, SymbolKind.members, SymbolKind.parameters,
        SymbolKind.templateParameters, SymbolKind.base?, SymbolKind.type?, SymbolKind.method?]
      grind
    all_goals
      intro kind
      cases kind <;> rfl
  · exact Ends.pure ⟨laid, .refl⟩

/-- A method with one more parameter. -/
def withParameter (id : SymbolId) : SymbolKind → SymbolKind
  | .method data => .method { data with parameters := data.parameters ++ [id] }
  | kind => kind

variable {data : MethodData} {before rest : List NodeId}

/-- A parameter is listed by its method. -/
theorem placesParameters_withParameter {t : SymbolTable} {method id : Nat}
    (h : t.PlacesParameters tree) (ho : t.symbols[method]? = some o) (hkind : o.kind = .method data)
    (hlist : tree.parameterList o.declaration = before ++ node :: rest)
    (hcount : data.parameters.length = before.countP tree.isParameter)
    {type : NodeId} {defaultValue : Option NodeId}
    (hid : t.symbols[id]? = some ⟨id, name, .parameter { type, defaultValue, ordinal := before.length },
      access, some method, some node⟩) :
    (t.mapKind method (withParameter id)).PlacesParameters tree := by
  have grown : t.Grown (fun _ => True) (t.mapKind method (withParameter id)) :=
    .mapKind fun kind => by cases kind <;> rfl
  intro i s hs
  rw [getElem?_mapKind] at hs
  obtain ⟨u, hu, rfl⟩ := Option.map_eq_some_iff.1 hs
  have old := (h i u hu).grown grown
  split
  · next hi =>
    subst hi
    obtain rfl := Option.mem_unique ho hu
    rw [hkind] at old ⊢
    intro k j hj
    change (data.parameters ++ [id])[k]? = some j at hj
    rcases Nat.lt_or_ge k data.parameters.length with hk | hk
    · exact old k j ((List.getElem?_append_left hk).symm.trans hj)
    · -- the one that was just entered
      obtain ⟨rfl, rfl⟩ : k = data.parameters.length ∧ j = id := by
        rw [List.getElem?_append_right hk, List.getElem?_singleton] at hj
        split at hj
        · exact ⟨by omega, (Option.some.inj hj).symm⟩
        · cases hj
      refine ⟨⟨j, name, .parameter ⟨type, defaultValue, before.length⟩, access, some method, some node⟩,
        _, node, ?_, rfl, rfl, rfl, ?_, ?_⟩
      · rw [getElem?_mapKind, hid, Option.map_some]
        split <;> rfl
      · simp [hlist]
      · simp [hlist, hcount]
  · exact old

theorem declareParameters_spec (linked : tree.Linked) {method : Nat} (before : List NodeId)
    {nodes : List NodeId} (hnodes : ∀ node : Nat, node ∈ nodes → node < tree.size)
    (hnodup : nodes.Nodup) {ordinal : Nat} (seen : List String) (laid : d.Laid tree)
    (ho : d.table.symbols[method]? = some o) (hkind : o.kind = .method data)
    (hlist : tree.parameterList o.declaration = before ++ nodes)
    (hcount : data.parameters.length = before.countP tree.isParameter)
    (hordinal : ordinal = before.length) (hfresh : d.table.Undeclared (· ∈ nodes)) :
    Succeeds (declareParameters tree method nodes ordinal seen) d fun _ d' =>
      Declares tree (· ∈ nodes) d d' := by
  induction nodes generalizing before ordinal seen d o data with
  | nil => exact Ends.pure ⟨laid, .refl⟩
  | cons node rest ih =>
    subst hordinal
    obtain ⟨hnotin, hrest⟩ := List.nodup_cons.1 hnodup
    have hlt : ∀ n : Nat, n ∈ rest → n < tree.size := fun n hn =>
      hnodes n (List.mem_cons_of_mem _ hn)
    have hlist' : tree.parameterList o.declaration = before ++ [node] ++ rest := by simp [hlist]
    rw [declareParameters]
    split
    · next name type defaultValue hnode =>
      have hparameter : tree.isParameter node = true := by simp [Tree.isParameter, hnode]
      have hold : ∀ data, o.kind.mayHold (.parameter data) = true := fun _ => by rw [hkind]; rfl
      -- a report leaves the table alone, so the rest is argued from any state with this table
      have onward : ∀ d₁ : Declarations, d.SameTable d₁ → Succeeds (do
          let id ← add name (.parameter ⟨type, defaultValue, before.length⟩) .publicAccess method
            (some node)
          modify fun d => { d with table := d.table.mapKind method (withParameter id) }
          declareParameters tree method rest (before.length + 1) (name :: seen)) d₁
          fun _ d' => Declares tree (· ∈ node :: rest) d d' := by
        intro d₁ hsame
        have laid₁ := laid.of_sameTable hsame
        obtain ⟨htable, -⟩ := hsame
        rw [← htable] at ho hfresh
        have hmethod := lt_of_getElem? ho
        refine Ends.bind (add_spec ho (hold _)) ?_
        rintro _ _ ⟨rfl, rfl⟩
        refine Ends.bind_modify ?_
        have hadd := laid₁.insert (P := (· ∈ [node])) name .publicAccess ho
          (hold ⟨type, defaultValue, before.length⟩) rfl (fun _ _ => ⟨node, rfl, hnode⟩) (by simp)
          (hfresh.imp fun n hn => by simp [hn]) (.inl ⟨rfl, rfl⟩)
        have ho₂ : (d₁.table.insert name (.parameter ⟨type, defaultValue, before.length⟩) .publicAccess
            method (some node)).symbols[method]? = some o := by
          rw [getElem?_insert hmethod, if_neg (Nat.ne_of_lt hmethod), ho]
          simp [SymbolKind.isMember]
        have hfill := hadd.trans (hadd.1.fill (P := (· ∈ [node])) method ?_ ?_ ?_ ?_
          (placesParameters_withParameter hadd.1.placed ho₂ hkind hlist hcount
            ((getElem?_insert hmethod _).trans (if_pos rfl))))
        · have ho₃ := (getElem?_mapKind method (withParameter d₁.table.size) method).trans
            (congrArg _ ho₂)
          rw [Option.map_some, if_pos rfl, hkind] at ho₃
          have hfresh₃ := hfill.2.undeclared (Q := (· ∈ rest))
            (hfresh.imp fun n hn => List.mem_cons_of_mem _ hn) fun n hn hmem =>
              hnotin (List.mem_singleton.1 hn ▸ hmem)
          refine (ih _ hlt hrest (name :: seen) hfill.1 ho₃ rfl hlist' (by simp [hcount, hparameter])
            (by simp) hfresh₃).imp fun _ d₄ hd₄ => ⟨hd₄.1, htable ▸ (hfill.2.imp fun n hn => ?_).trans
              (hd₄.2.imp fun n hn => List.mem_cons_of_mem _ hn)⟩
          exact List.mem_singleton.1 hn ▸ List.mem_cons_self
        case refine_2 =>
          intro kind r hr
          cases kind <;> simp_all [withParameter, SymbolKind.references, SymbolKind.members,
            SymbolKind.parameters, SymbolKind.templateParameters, SymbolKind.base?, SymbolKind.type?,
            SymbolKind.method?]
          grind
        all_goals
          intro kind
          cases kind <;> rfl
      split
      · exact Ends.bind (report_spec linked (hnodes node (by simp)) (by trivial) _ d) fun _ d₁ h₁ =>
          onward d₁ h₁
      · exact onward d ⟨rfl, rfl, id⟩
    · next hnode =>
      have hother : tree.isParameter node = false := by
        unfold Tree.isParameter
        split
        · next hparameter => exact absurd hparameter (hnode _ _ _)
        · rfl
      refine (ih _ hlt hrest seen laid ho hkind hlist' (by simp [hcount, hother]) (by simp)
        (hfresh.imp fun n hn => List.mem_cons_of_mem _ hn)).imp fun _ d' hd' => ?_
      exact ⟨hd'.1, hd'.2.imp fun n hn => List.mem_cons_of_mem _ hn⟩

/-! ### Members -/

/-- Whether a symbol of the table may hold members. -/
def HasContainer (d : Declarations) (c : Nat) : Prop :=
  ∃ o, d.table.symbols[c]? = some o ∧ o.kind.isContainer = true

theorem HasContainer.of_grown {c : Nat} (h : d.HasContainer c) (grown : d.table.Grown P d'.table) :
    d'.HasContainer c := by
  obtain ⟨o, ho, hkind⟩ := h
  obtain ⟨o', ho', hshape, -⟩ := grown.kept ho
  refine ⟨o', ho', ?_⟩
  rw [← SymbolKind.isContainer_shape, hshape, SymbolKind.isContainer_shape]
  exact hkind

/-- Declaring from one subtree after the other, where the subtrees have nothing in common.  What the
steps need of the state, `I`, is kept as the table grows. -/
theorem forM_spec {α : Type} {f : α → DeclareM Unit} {g : α → NodeId} {I : Declarations → Prop}
    (hneed : ∀ {P : NodeId → Prop} {d d' : Declarations}, I d → d.table.Grown P d'.table → I d')
    {list : List α} (hnodup : (list.map g).Nodup)
    (hapart : ∀ a ∈ list, ∀ b ∈ list, ∀ n, tree.Under (g a) n → tree.Under (g b) n → g a = g b)
    (step : ∀ a ∈ list, ∀ d : Declarations, d.Laid tree → I d →
      d.table.Undeclared (tree.Under (g a)) →
      Succeeds (f a) d fun _ d' => Declares tree (tree.Under (g a)) d d') (laid : d.Laid tree)
    (start : I d) (hfresh : ∀ a ∈ list, d.table.Undeclared (tree.Under (g a))) :
    Succeeds (list.forM f) d fun _ d' =>
      Declares tree (fun n => ∃ a ∈ list, tree.Under (g a) n) d d' := by
  induction list generalizing d with
  | nil => exact Ends.pure ⟨laid, .refl⟩
  | cons a rest ih =>
    obtain ⟨hnotin, hrest⟩ := List.nodup_cons.1 hnodup
    refine Ends.bind (step a (by simp) d laid start (hfresh a (by simp))) ?_
    rintro _ d₁ ⟨laid₁, grown₁⟩
    refine (ih hrest (fun x hx y hy => hapart x (by simp [hx]) y (by simp [hy]))
      (fun x hx => step x (by simp [hx])) laid₁ (hneed start grown₁) ?_).imp ?_
    · intro b hb
      refine grown₁.undeclared (hfresh b (by simp [hb])) fun n hn hn' => ?_
      have heq := hapart a (by simp) b (by simp [hb]) n hn hn'
      exact hnotin (heq ▸ List.mem_map_of_mem hb)
    · rintro _ d₂ ⟨laid₂, grown₂⟩
      refine ⟨laid₂, (grown₁.imp fun n hn => ⟨a, by simp, hn⟩).trans
        (grown₂.imp ?_)⟩
      rintro n ⟨b, hb, hn⟩
      exact ⟨b, by simp [hb], hn⟩

/-- Whether a symbol of the table is a type. -/
def HasType (d : Declarations) (type : Nat) : Prop :=
  ∃ o data, d.table.symbols[type]? = some o ∧ o.kind = .type data

theorem HasType.of_grown (h : d.HasType type) (grown : d.table.Grown P d'.table) :
    d'.HasType type := by
  obtain ⟨o, data, ho, hkind⟩ := h
  obtain ⟨o', ho', hshape, -⟩ := grown.kept ho
  rw [hkind] at hshape
  cases hk : o'.kind with
  | type data' => exact ⟨o', data', ho', hk⟩
  | _ => simp [hk, SymbolKind.shape] at hshape

theorem HasType.hasContainer (h : d.HasType type) :
    d.HasContainer type := by
  obtain ⟨o, data, ho, hkind⟩ := h
  exact ⟨o, ho, by rw [hkind]; rfl⟩

theorem declareTemplateParameters_spec (linked : tree.Linked) {decl : Node}
    (hnode : tree.node? node = some decl) {parameters : List NodeId} (hnodup : parameters.Nodup)
    (hchild : ∀ a ∈ parameters, a ∈ decl.children) (laid : d.Laid tree) (htype : d.HasType type)
    (hfresh : ∀ a ∈ parameters, d.table.Undeclared (tree.Under a)) :
    Succeeds (parameters.zipIdx.forM fun (parameter, ordinal) =>
        declareTemplateParameter tree type parameter ordinal) d
      fun _ d' => Declares tree (fun n => ∃ a ∈ parameters, tree.Under a n) d d' := by
  have hmem : ∀ a ∈ parameters.zipIdx, a.1 ∈ parameters := fun a => List.fst_mem_of_mem_zipIdx
  refine (forM_spec (g := Prod.fst) (I := (·.HasType type))
    (fun h grown => h.of_grown grown) ?_ ?_ ?_ laid htype
    fun a ha => hfresh a.1 (hmem a ha)).imp ?_
  · rw [List.zipIdx_map_fst]
    exact hnodup
  · exact fun a ha b hb n => linked.under_disjoint hnode (hchild _ (hmem a ha))
      (hchild _ (hmem b hb))
  · rintro ⟨parameter, ordinal⟩ - d' laid' ⟨o, data, ho, hkind⟩ hund
    refine (declareTemplateParameter_spec ordinal laid' ho hkind
      (hund.imp fun n hn => hn ▸ .refl)).imp fun _ d'' hd'' => ?_
    exact ⟨hd''.1, hd''.2.imp fun n hn => hn ▸ .refl⟩
  · rintro _ d' ⟨laid', grown⟩
    refine ⟨laid', grown.imp ?_⟩
    rintro n ⟨a, ha, hn⟩
    exact ⟨a.1, hmem a ha, hn⟩

/-- Every declaration of a member begins with a symbol of its own, and a class is listed next. -/
theorem bind_addMember (linked : tree.Linked) (hlt : node < tree.size) {isMethod : Bool}
    {k : SymbolId → DeclareM Unit} {Q : Unit → Declarations → Prop} (laid : d.Laid tree)
    (hcontainer : d.HasContainer container) (hfresh : d.table.Undeclared (tree.Under node))
    (hold : ∀ outer : SymbolKind, outer.isContainer = true → outer.mayHold kind = true)
    (hrefs : kind.references = [])
    (hdecl : ∀ id containing, Symbol.Declared tree ⟨id, name, kind, access, containing, some node⟩)
    (hk : ∀ (id : Nat) (d' : Declarations), (∃ s, d'.table.symbols[id]? = some s ∧ s.kind = kind ∧
      s.declaration = some node) → (∀ types, types = d'.types ∧ kind.type?.bind (·.baseNode) = none ∨
        types = d'.types ++ [id] → Declares tree (· = node) d { d' with types }) →
      Succeeds (k id) d' Q) :
    Succeeds (do
      checkDuplicate tree node name container isMethod
      k (← add name kind access container (some node))) d Q := by
  obtain ⟨o, ho, hkind⟩ := hcontainer
  refine Ends.bind (checkDuplicate_spec linked hlt name isMethod laid.formed (lt_of_getElem? ho))
    fun _ d₁ hsame => ?_
  -- a report leaves the table alone
  have laid₁ := laid.of_sameTable hsame
  rw [← hsame.1] at ho hfresh
  refine Ends.bind (add_spec ho (hold _ hkind)) ?_
  rintro _ _ ⟨rfl, rfl⟩
  refine hk _ _ ⟨_, (getElem?_insert (lt_of_getElem? ho) _).trans (if_pos rfl), rfl, rfl⟩
    fun types htypes => ?_
  unfold Declares
  rw [← hsame.1]
  exact laid₁.insert name access ho (hold _ hkind) hrefs hdecl rfl
    (hfresh.imp fun n hn => hn ▸ .refl) htypes

/-- What a node declares lies in its subtree. -/
theorem Declares.under (h : Declares tree (· = node) d d') :
    Declares tree (tree.Under node) d d' := ⟨h.1, h.2.imp fun _ hn => hn ▸ .refl⟩

/-- Once a node is declared, the subtrees below it are not yet. -/
theorem Declares.undeclared_child {child : NodeId} {decl : Node} (h : Declares tree (· = node) d d')
    (hnode : tree.node? node = some decl) (hchild : child ∈ decl.children)
    (hfresh : d.table.Undeclared (tree.Under node)) :
    d'.table.Undeclared (tree.Under child) := by
  refine h.2.undeclared (hfresh.imp fun n => (Tree.Under.of_child hnode hchild).trans) ?_
  rintro _ rfl hn
  exact absurd (tree.child_lt hnode hchild) (Nat.not_lt.2 hn.le)

section members

variable {node : NodeId} {container : Nat} {d : Declarations} (linked : tree.Linked)
  (laid : d.Laid tree) (hcontainer : d.HasContainer container)
  (hfresh : d.table.Undeclared (tree.Under node))
include linked laid hcontainer hfresh

variable {modifiers : Modifiers}

/-- A class, if its members can be declared. -/
theorem declareClass_spec {name : String} {templateParameters : List NodeId}
    {base : Option NodeId} {members : List NodeId}
    (hnode : tree.node? node =
      some (.classDeclaration name modifiers templateParameters base members))
    (hmember : ∀ member ∈ members, ∀ {container : Nat} {d : Declarations}, d.Laid tree →
      d.HasContainer container → d.table.Undeclared (tree.Under member) →
      Succeeds (declareMember tree container member) d fun _ d' =>
        Declares tree (tree.Under member) d d') :
    Succeeds (do
      checkDuplicate tree node name container false
      let type ← add name (.type { baseNode := base }) (.ofModifiers modifiers) container (some node)
      modify fun d => { d with types := d.types ++ [type] }
      templateParameters.zipIdx.forM fun (parameter, ordinal) =>
        declareTemplateParameter tree type parameter ordinal
      members.attach.forM fun ⟨member, _⟩ => declareMember tree type member) d
      fun _ d' => Declares tree (tree.Under node) d d' := by
  have hnodup := linked.nodup_children hnode
  simp only [Node.children] at hnodup
  obtain ⟨hbefore, hmembers, hapart⟩ := List.nodup_append.1 hnodup
  have isParameter : ∀ a ∈ templateParameters,
      a ∈ templateParameters ++ base.toList ++ members := fun a ha => by simp [ha]
  have isMember : ∀ a ∈ members, a ∈ templateParameters ++ base.toList ++ members :=
    fun a ha => by simp [ha]
  refine bind_addMember linked (Tree.lt_size_of_node? hnode) laid hcontainer hfresh (fun _ h => h) rfl
    (fun _ _ => ⟨node, modifiers, templateParameters, members, rfl, hnode⟩) ?_
  rintro type d₂ ⟨s, hs, hskind, -⟩ hlists
  have hadd := hlists _ (.inr rfl)
  have htype : HasType { d₂ with types := d₂.types ++ [type] } type := ⟨s, _, hs, hskind⟩
  refine Ends.bind_modify (Ends.bind (declareTemplateParameters_spec linked hnode
    (List.nodup_append.1 hbefore).1 isParameter hadd.1 htype fun a ha =>
      hadd.undeclared_child hnode (isParameter a ha) hfresh) ?_)
  rintro _ d₄ hparameters
  refine (forM_spec (g := Subtype.val) (I := (·.HasContainer type))
    (fun h grown => h.of_grown grown) ?_ ?_ ?_ hparameters.1
    (htype.of_grown hparameters.2).hasContainer ?_).imp ?_
  · rw [List.attach_map_subtype_val]
    exact hmembers
  · exact fun a _ b _ n => linked.under_disjoint hnode (isMember a a.2) (isMember b b.2)
  · rintro ⟨member, hmem⟩ - d laid hneed hund
    exact hmember member hmem laid hneed hund
  · -- template parameters and members stand in different subtrees
    intro a _
    refine hparameters.2.undeclared (hadd.undeclared_child hnode (isMember a a.2) hfresh) ?_
    rintro n ⟨b, hb, hn⟩ hn'
    have heq := linked.under_disjoint hnode (isParameter b hb) (isMember a a.2) hn hn'
    exact hapart b (List.mem_append_left _ hb) a.1 a.2 heq
  · rintro _ d₅ ⟨laid₅, grown₅⟩
    refine hadd.under.trans ⟨laid₅, (hparameters.2.imp ?_).trans (grown₅.imp ?_)⟩
    · rintro n ⟨b, hb, hn⟩
      exact (Tree.Under.of_child hnode (isParameter b hb)).trans hn
    · rintro n ⟨b, -, hn⟩
      exact (Tree.Under.of_child hnode (isMember b b.2)).trans hn

/-- A method with its parameters. -/
theorem declareMethod_spec {name : String} {returnType : Option NodeId}
    {parameters : List NodeId} {body : NodeId} {isStatic isLowLevel : Bool}
    (hnode : tree.node? node =
      some (.methodDeclaration name modifiers returnType parameters body)) :
    Succeeds (do
      checkDuplicate tree node name container true
      let method ← add name (.method { returnType, body := some body, isStatic, isLowLevel })
        (.ofModifiers modifiers) container (some node)
      declareParameters tree method parameters 0 []) d
      fun _ d' => Declares tree (tree.Under node) d d' := by
  have hnodup := linked.nodup_children hnode
  simp only [Node.children] at hnodup
  have hchild : ∀ {a : NodeId}, a ∈ parameters → a ∈ returnType.toList ++ parameters ++ [body] :=
    fun ha => by simp [ha]
  refine bind_addMember linked (Tree.lt_size_of_node? hnode) laid hcontainer hfresh
    (fun _ h => h) rfl (fun _ _ => ⟨node, modifiers, parameters, body, rfl, rfl, hnode⟩) ?_
  rintro method d₂ ⟨s, hs, hskind, hdeclaration⟩ hlists
  have hadd : Declares tree (· = node) d d₂ := hlists _ (.inl ⟨rfl, rfl⟩)
  have hlist : tree.parameterList s.declaration = [] ++ parameters := by
    simp [hdeclaration, Tree.parameterList, hnode]
  refine (declareParameters_spec linked [] (fun n hn => Tree.child_lt_size hnode (hchild hn))
    ((List.nodup_append.1 (List.nodup_append.1 hnodup).1).2.1) [] hadd.1 hs hskind hlist rfl rfl
    ?_).imp ?_
  · refine hadd.2.undeclared (hfresh.imp fun n hn => .of_child hnode (hchild hn)) ?_
    rintro n rfl hn
    exact absurd (tree.child_lt hnode (hchild hn)) (Nat.lt_irrefl _)
  · rintro _ d₃ ⟨laid₃, grown₃⟩
    exact hadd.under.trans ⟨laid₃, grown₃.imp fun n hn => .of_child hnode (hchild hn)⟩

end members

/-- Declaring a member touches no node outside its subtree. -/
theorem declareMember_spec (linked : tree.Linked) (node : NodeId) :
    ∀ {container : Nat} {d : Declarations}, d.Laid tree → d.HasContainer container →
      d.table.Undeclared (tree.Under node) →
      Succeeds (declareMember tree container node) d fun _ d' =>
        Declares tree (tree.Under node) d d' := by
  induction node using Nat.strongRecOn with
  | ind node ih =>
  intro container d laid hcontainer hfresh
  rw [declareMember]
  split
  · next name modifiers templateParameters base members hnode =>
    refine declareClass_spec linked laid hcontainer hfresh hnode fun member hmember => ?_
    exact ih member (tree.child_lt hnode (by simp [hmember]))
  · next hnode => exact declareMethod_spec linked laid hcontainer hfresh hnode
  · next name modifiers type initializer hnode =>
    refine bind_addMember linked (Tree.lt_size_of_node? hnode) laid hcontainer hfresh
      (fun _ h => h) rfl (fun _ _ => ⟨node, modifiers, rfl, rfl, hnode⟩) ?_
    exact fun _ _ _ hadd => Ends.pure (hadd _ (.inl ⟨rfl, rfl⟩)).under
  · exact Ends.pure ⟨laid, .refl⟩

/-! ### Everything -/

theorem insertLibraryTypes_formed (tree : Tree) (names : List String) :
    (names.foldl SymbolTable.insertLibraryType .empty).Formed tree ∧ ∀ (i : Nat) (s : Symbol),
      (names.foldl SymbolTable.insertLibraryType .empty).symbols[i]? = some s → s.IsBare := by
  suffices h : ∀ t : SymbolTable, t.Formed tree →
      (∀ (i : Nat) (s : Symbol), t.symbols[i]? = some s → s.IsBare) →
      (names.foldl SymbolTable.insertLibraryType t).Formed tree ∧ ∀ (i : Nat) (s : Symbol),
        (names.foldl SymbolTable.insertLibraryType t).symbols[i]? = some s → s.IsBare by
    refine h .empty formed_empty fun i s hs => ?_
    cases i with
    | zero =>
      obtain rfl := Option.some.inj hs
      exact ⟨rfl, rfl, rfl, rfl⟩
    | succ i => simp [SymbolTable.empty] at hs
  induction names with
  | nil => exact fun t formed bare => ⟨formed, bare⟩
  | cons name rest ih =>
    intro t formed bare
    obtain ⟨g, members, hg, hkind⟩ := formed.global_eq
    refine ih _ (formed.insert hg (by rw [hkind]; rfl) rfl ⟨rfl, rfl⟩ (by simp)) fun i s hs => ?_
    rcases of_getElem?_insert (lt_of_getElem? hg) hs with ⟨-, rfl⟩ | ⟨⟨_, _, kind, _⟩, hu, rfl⟩
    · exact ⟨rfl, rfl, rfl, rfl⟩
    · have old := bare i _ hu
      split
      · cases kind <;> exact old
      · exact old

theorem any_globalStatement (tree : Tree) : (tree.members.any fun node =>
      match tree.node? node with
      | some (.globalStatement _) => true
      | _ => false) = true ↔ tree.globalStatements ≠ [] := by
  unfold Tree.globalStatements Tree.globalStatementsOf
  rw [List.any_eq_true, Ne, List.filterMap_eq_nil_iff]
  push Not
  refine exists_congr fun member => and_congr_right fun _ => ?_
  split <;> simp_all

/-- The table of library types, before anything of a tree is declared. -/
def ofLibrary (libraryTypes : List String) : Declarations :=
  { table := libraryTypes.foldl SymbolTable.insertLibraryType .empty }

/-- Declaring the members gives a well-formed table in which global statements have an entry
method. -/
theorem declareMembers_spec (linked : tree.Linked) (libraryTypes : List String) :
    Succeeds (declareMembers tree) (ofLibrary libraryTypes) fun _ d =>
      d.Laid tree ∧ d.table.HoldsEntry tree := by
  obtain ⟨hformed, bare⟩ := insertLibraryTypes_formed tree libraryTypes
  have laid : Laid tree (ofLibrary libraryTypes) :=
    ⟨⟨hformed, by simp [ofLibrary], by simp [Mild, ofLibrary], fun i s hs => by
      simp [Placed, (bare i s hs).2.1]⟩, fun hs => ⟨(bare _ _ hs).2.2.1, (absurd (bare _ _ hs).2.2.2 ·)⟩⟩
  have hund : ∀ P, (ofLibrary libraryTypes).table.Undeclared P := fun P i s n hs hn => by
    cases (bare i s hs).1.symm.trans hn
  obtain ⟨unit, hunit⟩ := linked.root_eq
  have hmembers : tree.members = unit := by simp [Tree.members, hunit]
  have hchild : ∀ a ∈ tree.members, a ∈ (Node.compilationUnit unit).children := fun a ha => by
    rwa [hmembers] at ha
  unfold declareMembers
  refine Ends.bind (forM_spec (g := id) (I := (·.HasContainer SymbolTable.global))
    (fun h grown => h.of_grown grown) ?_ ?_ ?_ laid ?_ ?_) ?_
  · rw [List.map_id]
    have hnodup : tree.members.Nodup := hmembers ▸ linked.nodup_children hunit
    exact hnodup.sublist List.filter_sublist
  · exact fun a ha b hb n => linked.under_disjoint hunit (hchild a (List.mem_of_mem_filter ha))
      (hchild b (List.mem_of_mem_filter hb))
  · exact fun a _ d hd hneed hfresh => declareMember_spec linked a hd hneed hfresh
  · obtain ⟨g, members, hg, hkind⟩ := hformed.global_eq
    exact ⟨g, hg, by rw [hkind]; rfl⟩
  · exact fun a _ => hund _
  · rintro _ d₁ ⟨laid₁, grown₁⟩
    -- the root lies under none of its members
    have hroot : d₁.table.Undeclared (· = tree.root) := by
      refine grown₁.undeclared (hund _) ?_
      rintro n ⟨a, ha, hn⟩ rfl
      exact absurd (tree.child_lt hunit (hchild a (List.mem_of_mem_filter ha)))
        (Nat.not_lt.2 hn.le)
    split
    · next hany =>
      have hglobals := (any_globalStatement tree).1 hany
      obtain ⟨g, members, hg, hkind⟩ := laid₁.formed.global_eq
      refine Ends.bind (add_spec hg (by rw [hkind]; rfl)) ?_
      rintro _ _ ⟨rfl, rfl⟩
      refine Ends.pure ⟨?_, fun _ => ⟨_, _, (getElem?_insert (lt_of_getElem? hg) _).trans (if_pos rfl),
        rfl, rfl, rfl⟩, fun _ _ => hglobals⟩
      exact And.left (laid₁.insert (P := fun _ => True) entryName .publicAccess hg
        (by rw [hkind]; rfl) rfl (fun _ _ => ⟨rfl, rfl, rfl⟩) trivial hroot (.inl ⟨rfl, rfl⟩))
    · next hany =>
      have hnone : tree.globalStatements = [] :=
        not_not.1 fun h => hany ((any_globalStatement tree).2 h)
      refine Ends.pure ⟨laid₁, fun h => absurd hnone h, fun {i s} hs hentry => ?_⟩
      exact absurd rfl (hroot i s _ hs ((laid₁.formed.entry hs).declared.entry hentry))

end Declarations
end Bindery
