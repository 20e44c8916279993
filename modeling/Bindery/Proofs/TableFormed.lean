import Bindery.Proofs.Outcome
import Bindery.Proofs.TreeLinks
import Bindery.Symbol.Table

/-! # Well-formed symbol tables

`SymbolTable.Formed tree t` is what declaring the symbols of a tree keeps true of the table:

* the symbol at place `i` has the number `i`, and every symbol but the global container lies in one
  with a smaller number that may hold it;
* a symbol refers only to symbols of the table;
* a symbol carries what its declaring node says, and no two symbols have one declaring node;
* the indexes give the symbols that have a name or a declaring node;
* the members entered with a container are those that lie in it, in the order of their numbers;
* from base to base every symbol leads to one without a base.

The first four make a table `Framed`.

In such a table every question about a number of the table is answered (`Yields`). -/

namespace Bindery

namespace SymbolKind

/-- The kind without what is filled in after its symbol is appended. -/
def shape : SymbolKind → SymbolKind
  | global _ => global []
  | type data => type { data with templateParameters := [], base := none, members := [] }
  | method data => method { data with parameters := [] }
  | kind => kind

/-- The symbols that a kind refers to. -/
def references (kind : SymbolKind) : List SymbolId :=
  kind.members ++ kind.parameters ++ kind.templateParameters ++ kind.base?.toList

/-- Whether a symbol of kind `inner` may lie in one of kind `outer`. -/
def mayHold (outer inner : SymbolKind) : Bool :=
  match inner with
  | type _ | method _ | field _ => outer.isContainer
  | parameter _ => (outer matches method _)
  | templateParameter _ => (outer matches type _)
  | global _ => false

theorem isContainer_shape (kind : SymbolKind) : kind.shape.isContainer = kind.isContainer := by
  cases kind <;> rfl

theorem mayHold_shape (outer inner : SymbolKind) :
    outer.shape.mayHold inner.shape = outer.mayHold inner := by
  cases outer <;> cases inner <;> rfl

theorem isMember_shape (kind : SymbolKind) : kind.shape.isMember = kind.isMember := by
  cases kind <;> rfl

theorem isContainer_of_mayHold {outer inner : SymbolKind} (h : outer.mayHold inner = true)
    (hmember : inner.isMember = true) : outer.isContainer = true := by
  cases inner <;> simp_all [isMember, mayHold]

variable {kind : SymbolKind}

theorem members_addMember (h : kind.isContainer = true) (member : SymbolId) :
    (kind.addMember member).members = kind.members ++ [member] := by
  cases kind <;> first | rfl | simp [isContainer] at h

theorem base?_addMember (kind : SymbolKind) (member : SymbolId) :
    (kind.addMember member).base? = kind.base? := by
  cases kind <;> rfl

theorem members_of_references (h : kind.references = []) :
    kind.members = [] := by
  simp only [references, List.append_eq_nil_iff] at h
  exact h.1.1.1

theorem parameters_of_references (h : kind.references = []) : kind.parameters = [] := by
  simp only [references, List.append_eq_nil_iff] at h
  exact h.1.1.2

theorem base?_of_references (h : kind.references = []) : kind.base? = none := by
  simp only [references, List.append_eq_nil_iff] at h
  exact Option.toList_eq_nil_iff.1 h.2

theorem shape_addMember (kind : SymbolKind) (member : SymbolId) :
    (kind.addMember member).shape = kind.shape := by
  cases kind <;> rfl

theorem mem_references_addMember {member r : SymbolId}
    (h : r ∈ (kind.addMember member).references) : r ∈ kind.references ∨ r = member := by
  cases kind <;>
    simp_all [addMember, references, members, parameters, templateParameters, base?, type?,
      method?]
  all_goals grind

end SymbolKind

/-- Whether a symbol carries what its declaring node says. -/
def Symbol.Declared (tree : Tree) (s : Symbol) : Prop :=
  match s.kind with
  | .global _ => s.declaration = none
  | .type data =>
      if data.isLibrary then s.declaration = none ∧ data.baseNode = none
      else ∃ n modifiers parameters members, s.declaration = some n ∧
        tree.node? n = some (.classDeclaration s.name modifiers parameters data.baseNode members)
  | .method data =>
      if data.isEntry then
        s.declaration = some tree.root ∧ data.body = none ∧ data.returnType = none
      else ∃ n modifiers parameters body, s.declaration = some n ∧ data.body = some body ∧
        tree.node? n = some (.methodDeclaration s.name modifiers data.returnType parameters body)
  | .field data => ∃ n modifiers, s.declaration = some n ∧
      data.isConstant = modifiers.contains .isConst ∧
      tree.node? n = some (.fieldDeclaration s.name modifiers data.type data.initializer)
  | .parameter data => ∃ n, s.declaration = some n ∧
      tree.node? n = some (.parameter s.name data.type data.defaultValue)
  | .templateParameter data => ∃ n, s.declaration = some n ∧
      tree.node? n = some (.templateParameter s.name data.constantType)

/-- Whether a symbol stands for the global statements. -/
def SymbolKind.isEntry : SymbolKind → Bool
  | method data => data.isEntry
  | _ => false

/-- The nodes that a kind refers to. -/
def SymbolKind.nodes : SymbolKind → List NodeId
  | global _ => []
  | type data => data.baseNode.toList
  | method data => data.returnType.toList ++ data.body.toList
  | field data => data.type.toList ++ data.initializer.toList
  | parameter data => data.type :: data.defaultValue.toList
  | templateParameter data => data.constantType.toList

/-- Whether a node declares a symbol of its own. -/
def Node.isDeclaration : Node → Bool
  | classDeclaration .. | methodDeclaration .. | fieldDeclaration .. | parameter ..
  | templateParameter .. => true
  | _ => false

variable {tree : Tree} {s : Symbol}

/-- A symbol that refers to nodes is declared by a node that has them for children. -/
theorem Symbol.Declared.cases (h : s.Declared tree) :
    (s.kind.nodes = [] ∧ ∀ n, s.declaration = some n → n = tree.root ∧ s.kind.isEntry = true) ∨
      ∃ n node, s.declaration = some n ∧ tree.node? n = some node ∧ node.isDeclaration = true ∧
        ∀ m ∈ s.kind.nodes, m ∈ node.children := by
  unfold Declared at h
  cases hkind : s.kind <;> simp only [hkind] at h
  case global => exact .inl ⟨rfl, by simp [h]⟩
  case type data =>
    split at h
    · exact .inl ⟨by simp [SymbolKind.nodes, h.2], by simp [h.1]⟩
    · obtain ⟨n, _, _, _, hn, hnode⟩ := h
      exact .inr ⟨n, _, hn, hnode, rfl, by simp_all [SymbolKind.nodes]⟩
  case method data =>
    split at h
    · next hentry =>
      exact .inl ⟨by simp [SymbolKind.nodes, h.2],
        fun n hn => ⟨Option.mem_unique hn h.1, hentry⟩⟩
    · obtain ⟨n, _, _, _, hn, hbody, hnode⟩ := h
      refine .inr ⟨n, _, hn, hnode, rfl, ?_⟩
      simp only [SymbolKind.nodes, hbody, Node.children]
      grind
  case field data =>
    obtain ⟨n, _, hn, -, hnode⟩ := h
    exact .inr ⟨n, _, hn, hnode, rfl, by simp [SymbolKind.nodes]⟩
  all_goals
    obtain ⟨n, hn, hnode⟩ := h
    exact .inr ⟨n, _, hn, hnode, rfl, by simp [SymbolKind.nodes]⟩

theorem Symbol.Declared.entry (h : s.Declared tree) (hentry : s.kind.isEntry = true) :
    s.declaration = some tree.root := by
  unfold Declared at h
  cases hkind : s.kind with
  | method data =>
    have hentry : data.isEntry = true := by rwa [hkind] at hentry
    simp only [hkind, hentry, if_true] at h
    exact h.1
  | _ => simp [hkind, SymbolKind.isEntry] at hentry

theorem Symbol.Declared.of_shape {s' : Symbol} (h : s.Declared tree)
    (hkind : s'.kind.shape = s.kind.shape) (hname : s'.name = s.name)
    (hdecl : s'.declaration = s.declaration) : s'.Declared tree := by
  unfold Declared at h ⊢
  rw [hname, hdecl]
  cases hs : s.kind <;> cases hs' : s'.kind <;>
    simp only [hs, hs', SymbolKind.shape, SymbolKind.type.injEq, SymbolKind.method.injEq,
      SymbolKind.field.injEq, SymbolKind.parameter.injEq, SymbolKind.templateParameter.injEq,
      TypeData.mk.injEq, MethodData.mk.injEq, reduceCtorEq, true_and] at hkind h ⊢
  case type.type => rw [hkind.1, hkind.2]; exact h
  case method.method => rw [hkind.1, hkind.2.1, hkind.2.2.2.2]; exact h
  all_goals first | exact h | (rw [hkind]; exact h)

namespace SymbolTable

/-- What a symbol of a well-formed table of the given size satisfies at place `i`. -/
structure Entry (tree : Tree) (size i : Nat) (s : Symbol) : Prop where
  id_eq : s.id = i
  containing : (i = 0 ∧ s.containing = none) ∨ ∃ c : Nat, s.containing = some c ∧ c < i
  references_lt : ∀ r : Nat, r ∈ s.kind.references → r < size
  declared : s.Declared tree

/-- The numbers of the symbols that pass a test. -/
def idsWhere (t : SymbolTable) (test : Symbol → Bool) : List SymbolId :=
  (t.symbols.toList.filter test).map (·.id)

/-- The indexes are in step with the symbols. -/
structure InStep (t : SymbolTable) : Prop where
  entered : ∀ {i : Nat} {s : Symbol}, t.symbols[i]? = some s →
    ∃ number, t.names.get? s.name = some number
  named : ∀ c number, t.membersByName.get (c, number) = t.idsWhere fun s =>
    s.containing = some c && s.kind.isMember && t.names.get? s.name = some number
  declared : ∀ n, t.byDeclaration.get? n = (t.idsWhere fun s => s.declaration = some n).head?

/-- A table whose numbers, containers, declarations and indexes are in order. -/
structure Framed (tree : Tree) (t : SymbolTable) : Prop where
  global_eq : ∃ s members, t.symbols[0]? = some s ∧ s.kind = .global members
  entry : ∀ {i : Nat} {s : Symbol}, t.symbols[i]? = some s → Entry tree t.size i s
  held : ∀ {i : Nat} {s : Symbol}, t.symbols[i]? = some s → ∀ c, s.containing = some c →
    ∃ o, t.symbols[c]? = some o ∧ o.kind.mayHold s.kind = true
  declared_once : ∀ {i j : Nat} {s u : Symbol} {n : NodeId}, t.symbols[i]? = some s →
    t.symbols[j]? = some u → s.declaration = some n → u.declaration = some n → i = j
  inStep : t.InStep

/-- The members that lie in `container`, in the order of their numbers. -/
def contained (t : SymbolTable) (container : SymbolId) : List SymbolId :=
  t.idsWhere fun s => s.containing = some container && s.kind.isMember

/-- The symbols from `start` on, each the base of the one before, up to one without a base. -/
inductive BaseChain (t : SymbolTable) : (start : SymbolId) → List SymbolId → Prop
  | last : t.base? type = .ok none → BaseChain t type [type]
  | step : t.base? type = .ok (some base) → BaseChain t base chain → BaseChain t type (type :: chain)

/-- A well-formed table. -/
structure Formed (tree : Tree) (t : SymbolTable) : Prop extends Framed tree t where
  members_eq : ∀ {i : Nat} {s : Symbol}, t.symbols[i]? = some s → s.kind.members = t.contained i
  bases : ∀ {i : Nat}, i < t.size → ∃ chain, t.BaseChain i chain

variable {tree : Tree} {t : SymbolTable}

variable {access : Access} {i id c : Nat} {declaration : Option NodeId} {name : String}
  {s o : Symbol} {kind : SymbolKind} {f : SymbolKind → SymbolKind}

theorem exists_of_lt (h : i < t.size) : ∃ s, t.symbols[i]? = some s :=
  ⟨t.symbols[i], Array.getElem?_eq_getElem h⟩

theorem lt_of_getElem? (h : t.symbols[id]? = some s) : id < t.size :=
  (Array.getElem?_eq_some_iff.1 h).1

theorem fetch_of_getElem? (h : t.symbols[id]? = some s) :
    t.fetch id = .ok s := by
  simp [fetch, h]

variable {α : Type}

/-- What a question about a symbol reads. -/
theorem map_fetch (f : Symbol → α) (h : t.symbols[id]? = some s) :
    f <$> t.fetch id = .ok (f s) := by
  rw [fetch_of_getElem? h]
  rfl

theorem map_kind (f : SymbolKind → α) (h : t.symbols[id]? = some s) :
    f <$> t.kind id = .ok (f s.kind) := by
  rw [SymbolTable.kind, map_fetch _ h]
  rfl

theorem exists_of_map_fetch {f : Symbol → α} {a : α} (h : f <$> t.fetch id = .ok a) :
    ∃ s, t.symbols[id]? = some s ∧ f s = a := by
  cases hs : t.symbols[id]? with
  | none => simp [fetch, hs, Functor.map, Except.map] at h
  | some s => exact ⟨s, rfl, ok_unique (map_fetch f hs) h⟩

theorem exists_of_map_kind {f : SymbolKind → α} {a : α} (h : f <$> t.kind id = .ok a) :
    ∃ s, t.symbols[id]? = some s ∧ f s.kind = a := by
  rw [SymbolTable.kind, Functor.map_map] at h
  exact exists_of_map_fetch h

/-! ### Growing -/

@[simp] theorem size_mapKind (id : SymbolId) (f : SymbolKind → SymbolKind) :
    (t.mapKind id f).size = t.size := by
  simp [mapKind, size]

theorem getElem?_mapKind (id : SymbolId) (f : SymbolKind → SymbolKind) (i : Nat) :
    (t.mapKind id f).symbols[i]? = (t.symbols[i]?).map fun s =>
      if id = i then { s with kind := f s.kind } else s := by
  unfold mapKind
  rw [Array.getElem?_modify]
  split <;> simp

variable {id : SymbolId} {test : Symbol → Bool}

/-- What a list keeps of an element that is changed in ways that neither the test nor the view
sees. -/
theorem map_filter_modify {β : Type} {test : α → Bool} {view : α → β} {f : α → α}
    (htest : ∀ a, test (f a) = test a) (hview : ∀ a, view (f a) = view a) (list : List α) (i : Nat) :
    ((list.modify i f).filter test).map view = (list.filter test).map view := by
  induction list generalizing i with
  | nil => simp
  | cons a rest ih =>
    cases i with
    | zero => simp [List.filter_cons, htest, apply_ite (List.map view), hview]
    | succ i => simp [List.filter_cons, apply_ite (List.map view), ih]

theorem idsWhere_mapKind (h : ∀ s : Symbol, test { s with kind := f s.kind } = test s) :
    (t.mapKind id f).idsWhere test = t.idsWhere test := by
  unfold idsWhere SymbolTable.mapKind
  rw [Array.toList_modify]
  exact map_filter_modify h (fun _ => rfl) _ _

theorem isMember_of_shape (hshape : ∀ kind, (f kind).shape = kind.shape) (kind : SymbolKind) :
    (f kind).isMember = kind.isMember := by
  rw [← SymbolKind.isMember_shape, hshape, SymbolKind.isMember_shape]

theorem InStep.mapKind (inStep : t.InStep) (hshape : ∀ kind, (f kind).shape = kind.shape) :
    (t.mapKind id f).InStep where
  entered {i s} h := by
    rw [getElem?_mapKind, Option.map_eq_some_iff] at h
    obtain ⟨s', hs', rfl⟩ := h
    obtain ⟨number, hnumber⟩ := inStep.entered hs'
    refine ⟨number, ?_⟩
    split <;> exact hnumber
  named c number := by
    rw [idsWhere_mapKind fun s => by simp only [isMember_of_shape hshape]]
    exact inStep.named c number
  declared n := by
    rw [idsWhere_mapKind fun _ => rfl]
    exact inStep.declared n

theorem Framed.mapKind (framed : t.Framed tree) (hshape : ∀ kind, (f kind).shape = kind.shape)
    (hrefs : ∀ kind (r : Nat), r ∈ (f kind).references → r ∈ kind.references ∨ r < t.size) :
    (t.mapKind id f).Framed tree := by
  have back : ∀ {i : Nat} {s : Symbol}, (t.mapKind id f).symbols[i]? = some s →
      ∃ s', t.symbols[i]? = some s' ∧ s.kind.shape = s'.kind.shape ∧ s.name = s'.name ∧
        s.declaration = s'.declaration ∧ s.containing = s'.containing ∧ s.id = s'.id ∧
        ∀ r : Nat, r ∈ s.kind.references → r ∈ s'.kind.references ∨ r < t.size := by
    intro i s h
    rw [getElem?_mapKind, Option.map_eq_some_iff] at h
    obtain ⟨s', hs', rfl⟩ := h
    refine ⟨s', hs', ?_⟩
    split
    · exact ⟨hshape _, rfl, rfl, rfl, rfl, hrefs s'.kind⟩
    · exact ⟨rfl, rfl, rfl, rfl, rfl, fun r hr => .inl hr⟩
  refine ⟨?_, ?_, ?_, ?_, framed.inStep.mapKind hshape⟩
  · obtain ⟨s, members, hs, hkind⟩ := framed.global_eq
    rw [getElem?_mapKind, hs]
    by_cases hid : id = 0
    · have := hshape s.kind
      rw [hkind] at this
      cases hf : f (.global members) with
      | global found => exact ⟨_, found, rfl, by simp [hid, hkind, hf]⟩
      | _ => simp [hf, SymbolKind.shape] at this
    · exact ⟨_, members, rfl, by simp [hid, hkind]⟩
  · intro i s h
    obtain ⟨s', hs', hkind, hname, hdecl, hcont, hid, hr⟩ := back h
    have entry := framed.entry hs'
    refine ⟨by rw [hid, entry.id_eq], by rw [hcont]; exact entry.containing, ?_, ?_⟩
    · intro r hmem
      rw [size_mapKind]
      rcases hr r hmem with hmem | hlt
      · exact entry.references_lt r hmem
      · exact hlt
    · exact entry.declared.of_shape hkind hname hdecl
  · intro i s h c hc
    obtain ⟨s', hs', hkind, -, -, hcont, -, -⟩ := back h
    obtain ⟨o, ho, hold⟩ := framed.held hs' c (hcont ▸ hc)
    rw [getElem?_mapKind, ho]
    refine ⟨_, rfl, ?_⟩
    rw [← SymbolKind.mayHold_shape, hkind, ← hold, ← SymbolKind.mayHold_shape o.kind]
    split
    · rw [hshape]
    · rfl
  · intro i j s u n hs hu hsn hun
    obtain ⟨s', hs', -, -, hdecl, -⟩ := back hs
    obtain ⟨u', hu', -, -, hdecl', -⟩ := back hu
    exact framed.declared_once hs' hu' (hdecl ▸ hsn) (hdecl' ▸ hun)

theorem getElem?_pushed (c : SymbolId) (s : Symbol) (i : Nat) :
    (t.pushed c s).symbols[i]? = if i = t.size then some s else t.symbols[i]? := by
  unfold pushed size
  rw [Array.getElem?_push]

theorem of_getElem?_pushed {u : Symbol} (h : (t.pushed c s).symbols[i]? = some u) :
    (i = t.size ∧ u = s) ∨ t.symbols[i]? = some u := by
  rw [getElem?_pushed] at h
  split at h
  · next hi => exact .inl ⟨hi, (Option.some.inj h).symm⟩
  · exact .inr h

theorem idsWhere_pushed (c : SymbolId) (s : Symbol) :
    (t.pushed c s).idsWhere test = t.idsWhere test ++ if test s then [s.id] else [] := by
  simp only [idsWhere, SymbolTable.pushed, Array.toList_push, List.filter_append, List.map_append]
  congr 1
  rw [List.filter_singleton]
  cases test s <;> rfl

theorem idsWhere_congr {test' : Symbol → Bool}
    (h : ∀ {i : Nat} {s : Symbol}, t.symbols[i]? = some s → test s = test' s) :
    t.idsWhere test = t.idsWhere test' := by
  refine congrArg (List.map _) (List.filter_congr fun s hs => ?_)
  obtain ⟨i, hi⟩ := List.mem_iff_getElem?.1 hs
  exact h (by simpa using hi)

/-- A symbol that is appended is found under its name and under its declaration. -/
theorem InStep.pushed (inStep : t.InStep) (hcont : s.containing = some c) :
    (t.pushed c s).InStep where
  entered {i u} h := by
    rcases of_getElem?_pushed h with ⟨-, rfl⟩ | h
    · exact ⟨_, t.names.get?_intern_self u.name⟩
    · obtain ⟨number, hnumber⟩ := inStep.entered h
      exact ⟨number, NameTable.get?_intern_of_get? hnumber _⟩
  named d number := by
    -- the symbols that were there keep the numbers of their names
    have hkept : ∀ {i : Nat} {u : Symbol}, t.symbols[i]? = some u →
        (t.pushed c s).names.get? u.name = t.names.get? u.name := by
      intro i u hu
      obtain ⟨number, hnumber⟩ := inStep.entered hu
      rw [hnumber]
      exact NameTable.get?_intern_of_get? hnumber _
    have hself : (t.pushed c s).names.get? s.name = some (t.names.intern s.name).1 :=
      t.names.get?_intern_self s.name
    have hmembers : (t.pushed c s).membersByName = if s.kind.isMember then
        t.membersByName.add (c, (t.names.intern s.name).1) s.id else t.membersByName := rfl
    rw [hmembers, idsWhere_pushed, idsWhere_congr fun hu => by rw [hkept hu], ← inStep.named d number]
    cases hmember : s.kind.isMember with
    | false => simp
    | true => simp [Multimap.get_add, hcont, hself]
  declared n := by
    rw [idsWhere_pushed, List.head?_append, ← inStep.declared n]
    dsimp only [SymbolTable.pushed]
    cases hdecl : s.declaration with
    | none => simp
    | some node =>
      by_cases hn : node = n
      · subst hn
        cases hget : t.byDeclaration.get? node with
        | none => simp [Registry.get?_publish_self _ hget]
        | some old => simp [Registry.publish_of_get? _ hget, hget]
      · simp [Registry.get?_publish_of_ne _ (Ne.symm hn), hn]

theorem Framed.pushed (framed : t.Framed tree) (hid : s.id = t.size) (hcont : s.containing = some c)
    (ho : t.symbols[c]? = some o) (hold : o.kind.mayHold s.kind = true)
    (hrefs : s.kind.references = []) (hdecl : s.Declared tree)
    (hfresh : ∀ (i : Nat) (u : Symbol) (n : NodeId), t.symbols[i]? = some u →
      u.declaration = some n → s.declaration ≠ some n) :
    (t.pushed c s).Framed tree := by
  have hsize : (t.pushed c s).size = t.size + 1 := by simp [SymbolTable.pushed, size]
  have hc : c < t.size := lt_of_getElem? ho
  have kept : ∀ {i : Nat} {u : Symbol}, t.symbols[i]? = some u →
      (t.pushed c s).symbols[i]? = some u := by
    intro i u hu
    rwa [getElem?_pushed, if_neg (Nat.ne_of_lt (lt_of_getElem? hu))]
  refine ⟨?_, ?_, ?_, ?_, framed.inStep.pushed hcont⟩
  · obtain ⟨g, members, hg, hkind⟩ := framed.global_eq
    exact ⟨g, members, kept hg, hkind⟩
  · intro i u hu
    rcases of_getElem?_pushed hu with ⟨rfl, rfl⟩ | hu
    · exact ⟨hid, .inr ⟨c, hcont, hc⟩, by simp [hrefs], hdecl⟩
    · have entry := framed.entry hu
      refine ⟨entry.id_eq, entry.containing, fun r hr => ?_, entry.declared⟩
      have := entry.references_lt r hr
      omega
  · intro i u hu d hd
    rcases of_getElem?_pushed hu with ⟨-, rfl⟩ | hu
    · obtain rfl := Option.mem_unique hcont hd
      exact ⟨o, kept ho, hold⟩
    · obtain ⟨o', ho', hold'⟩ := framed.held hu d hd
      exact ⟨o', kept ho', hold'⟩
  · intro i j u v n hu hv hun hvn
    rcases of_getElem?_pushed hu with ⟨hi, rfl⟩ | hi <;>
      rcases of_getElem?_pushed hv with ⟨hj, rfl⟩ | hj
    · rw [hi, hj]
    · exact absurd hun (hfresh j v n hj hvn)
    · exact absurd hvn (hfresh i u n hi hun)
    · exact framed.declared_once hi hj hun hvn

theorem insert_eq (name : String) (kind : SymbolKind) (access : Access) (containing : SymbolId)
    (declaration : Option NodeId) :
    t.insert name kind access containing declaration =
      let pushed := t.pushed containing
        { id := t.size, name, kind, access, containing := some containing, declaration }
      if kind.isMember then pushed.mapKind containing (·.addMember t.size) else pushed := rfl

@[simp] theorem size_insert (name : String) (kind : SymbolKind) (access : Access)
    (containing : SymbolId) (declaration : Option NodeId) :
    (t.insert name kind access containing declaration).size = t.size + 1 := by
  rw [insert_eq]
  dsimp only
  have hpushed : ∀ s : Symbol, (t.pushed containing s).size = t.size + 1 := fun s => by
    simp [pushed, size]
  split
  · rw [size_mapKind, hpushed]
  · rw [hpushed]

/-! ### Members and bases of a table that grows -/

theorem base?_of_getElem? (h : t.symbols[id]? = some s) :
    t.base? id = .ok s.kind.base? :=
  map_kind _ h

/-- A number that leads to a base, or to none, is one of the table. -/
theorem exists_of_base? {base : Option SymbolId} (h : t.base? id = .ok base) :
    ∃ s, t.symbols[id]? = some s ∧ s.kind.base? = base :=
  exists_of_map_kind h

theorem BaseChain.of_base? {t' : SymbolTable} {start : SymbolId} {chain : List SymbolId}
    (h : t.BaseChain start chain)
    (hkept : ∀ type ∈ chain, ∀ base, t.base? type = .ok base → t'.base? type = .ok base) :
    t'.BaseChain start chain := by
  induction h with
  | last hlast => exact .last (hkept _ (by simp) _ hlast)
  | step hstep _ ih =>
    exact .step (hkept _ (by simp) _ hstep) (ih fun type htype =>
      hkept type (List.mem_cons_of_mem _ htype))

theorem contained_mapKind (hshape : ∀ kind, (f kind).shape = kind.shape) (c : SymbolId) :
    (t.mapKind id f).contained c = t.contained c :=
  idsWhere_mapKind fun s => by simp only [isMember_of_shape hshape]

theorem Framed.getElem?_id (framed : t.Framed tree) (h : s ∈ t.symbols.toList) :
    t.symbols[s.id]? = some s := by
  obtain ⟨i, hi⟩ := List.mem_iff_getElem?.1 h
  rw [Array.getElem?_toList] at hi
  rw [(framed.entry hi).id_eq, hi]

theorem Framed.mem_idsWhere (framed : t.Framed tree) :
    id ∈ t.idsWhere test ↔ ∃ s, t.symbols[id]? = some s ∧ test s = true := by
  simp only [idsWhere, List.mem_map, List.mem_filter]
  constructor
  · rintro ⟨s, ⟨hmem, htest⟩, rfl⟩
    exact ⟨s, framed.getElem?_id hmem, htest⟩
  · rintro ⟨s, hs, htest⟩
    have hmem : s ∈ t.symbols.toList := List.mem_of_getElem? (by simpa using hs)
    exact ⟨s, ⟨hmem, htest⟩, (framed.entry hs).id_eq⟩

/-- Nothing lies in a number that no symbol has. -/
theorem Framed.contained_eq_nil (framed : t.Framed tree) (hc : t.size ≤ c) :
    t.contained c = [] := by
  refine List.eq_nil_iff_forall_not_mem.2 fun id hid => ?_
  obtain ⟨s, hs, htest⟩ := framed.mem_idsWhere.1 hid
  simp only [Bool.and_eq_true, decide_eq_true_eq] at htest
  obtain ⟨o, ho, -⟩ := framed.held hs c htest.1
  exact absurd (lt_of_getElem? ho) (Nat.not_lt.2 hc)

theorem Formed.members_mapKind (formed : t.Formed tree)
    (hshape : ∀ kind, (f kind).shape = kind.shape)
    (hmembers : ∀ kind, (f kind).members = kind.members)
    (hs : (t.mapKind id f).symbols[i]? = some s) :
    s.kind.members = (t.mapKind id f).contained i := by
  rw [contained_mapKind hshape]
  rw [getElem?_mapKind, Option.map_eq_some_iff] at hs
  obtain ⟨s', hs', rfl⟩ := hs
  rw [← formed.members_eq hs']
  split
  · exact hmembers _
  · rfl

/-- Filling in lists other than those of members keeps a table well-formed. -/
theorem Formed.mapKind (formed : t.Formed tree) (hshape : ∀ kind, (f kind).shape = kind.shape)
    (hrefs : ∀ kind (r : Nat), r ∈ (f kind).references → r ∈ kind.references ∨ r < t.size)
    (hmembers : ∀ kind, (f kind).members = kind.members)
    (hbase : ∀ kind, (f kind).base? = kind.base?) : (t.mapKind id f).Formed tree := by
  refine ⟨formed.toFramed.mapKind hshape hrefs, formed.members_mapKind hshape hmembers,
    fun {i} hi => ?_⟩
  rw [size_mapKind] at hi
  obtain ⟨chain, hchain⟩ := formed.bases hi
  refine ⟨chain, hchain.of_base? fun type _ base h => ?_⟩
  obtain ⟨s, hs, rfl⟩ := exists_of_base? h
  rw [base?_of_getElem? (by rw [getElem?_mapKind, hs]; rfl)]
  congr 1
  split
  · exact hbase _
  · rfl

/-- The symbols of a table with one more: the old ones, up to the list of its container, and the new
one. -/
theorem getElem?_insert (hc : c < t.size) (i : Nat) :
    (t.insert name kind access c declaration).symbols[i]? =
      if i = t.size then some ⟨t.size, name, kind, access, some c, declaration⟩
      else (t.symbols[i]?).map fun s =>
        if kind.isMember ∧ i = c then { s with kind := s.kind.addMember t.size } else s := by
  rw [insert_eq]
  dsimp only
  by_cases hi : i = t.size
  · split <;> simp [getElem?_mapKind, getElem?_pushed, hi, Nat.ne_of_lt hc]
  · split <;> simp [getElem?_mapKind, getElem?_pushed, *, eq_comm]

theorem of_getElem?_insert (hc : c < t.size)
    (h : (t.insert name kind access c declaration).symbols[i]? = some s) :
    (i = t.size ∧ s = ⟨t.size, name, kind, access, some c, declaration⟩) ∨
      ∃ s', t.symbols[i]? = some s' ∧
        s = if kind.isMember ∧ i = c then { s' with kind := s'.kind.addMember t.size } else s' := by
  rw [getElem?_insert hc] at h
  split at h
  · next hi => exact .inl ⟨hi, (Option.some.inj h).symm⟩
  · obtain ⟨s', hs', rfl⟩ := Option.map_eq_some_iff.1 h
    exact .inr ⟨s', hs', rfl⟩

theorem contained_insert (name : String) (kind : SymbolKind) (access : Access) (c : SymbolId)
    (declaration : Option NodeId) (d : SymbolId) :
    (t.insert name kind access c declaration).contained d =
      t.contained d ++ if kind.isMember ∧ d = c then [t.size] else [] := by
  have hpushed : (t.pushed c { id := t.size, name, kind, access, containing := some c,
                               declaration }).contained d =
      t.contained d ++ if kind.isMember ∧ d = c then [t.size] else [] := by
    refine (idsWhere_pushed _ _).trans ?_
    simp [contained, and_comm, eq_comm (a := d)]
  rw [insert_eq]
  dsimp only
  split
  · rw [contained_mapKind fun kind => kind.shape_addMember _, hpushed]
  · exact hpushed

section insert

variable (ho : t.symbols[c]? = some o) (hold : o.kind.mayHold kind = true)
  (hrefs : kind.references = [])
  (hdecl : ({ id := t.size, name, kind, access, containing := some c, declaration } :
    Symbol).Declared tree)
  (hfresh : ∀ (i : Nat) (u : Symbol) (n : NodeId), t.symbols[i]? = some u →
    u.declaration = some n → declaration ≠ some n)
include ho hold hrefs hdecl hfresh

theorem Framed.insert (framed : t.Framed tree) :
    (t.insert name kind access c declaration).Framed tree := by
  have hpushed := framed.pushed (c := c) rfl rfl ho hold hrefs hdecl hfresh
  rw [insert_eq]
  dsimp only
  split
  · refine hpushed.mapKind (fun kind => kind.shape_addMember _) fun kind r hr => ?_
    rcases SymbolKind.mem_references_addMember hr with h | rfl
    · exact .inl h
    · exact .inr (by simp [SymbolTable.pushed, size])
  · exact hpushed

/-- Appending a symbol that nothing declares yet keeps a table well-formed. -/
theorem Formed.insert (formed : t.Formed tree) :
    (t.insert name kind access c declaration).Formed tree := by
  have hc := lt_of_getElem? ho
  refine ⟨formed.toFramed.insert ho hold hrefs hdecl hfresh, fun {i s} hs => ?_, fun {i} hi => ?_⟩
  · rw [contained_insert]
    rcases of_getElem?_insert hc hs with ⟨rfl, rfl⟩ | ⟨s', hs', rfl⟩
    · rw [SymbolKind.members_of_references hrefs, formed.contained_eq_nil (Nat.le_refl _)]
      simp [Nat.ne_of_gt hc]
    · rw [← formed.members_eq hs']
      split
      · next hmember =>
        obtain rfl : s' = o := Option.mem_unique hs' (hmember.2 ▸ ho)
        exact SymbolKind.members_addMember (SymbolKind.isContainer_of_mayHold hold hmember.1) _
      · simp
  · have hkept : ∀ type base, t.base? type = .ok base →
        (t.insert name kind access c declaration).base? type = .ok base := by
      intro type base h
      obtain ⟨s', hs', rfl⟩ := exists_of_base? h
      have hlt : type < (t.insert name kind access c declaration).size := by
        rw [size_insert]
        exact Nat.lt_succ_of_lt (lt_of_getElem? hs')
      obtain ⟨s, hs⟩ := exists_of_lt hlt
      rw [base?_of_getElem? hs]
      rcases of_getElem?_insert hc hs with ⟨rfl, -⟩ | ⟨s'', hs'', rfl⟩
      · exact absurd (lt_of_getElem? hs') (Nat.lt_irrefl _)
      · obtain rfl := Option.mem_unique hs' hs''
        split
        · rw [SymbolKind.base?_addMember]
        · rfl
    rw [size_insert] at hi
    rcases Nat.lt_succ_iff_lt_or_eq.1 hi with hlt | rfl
    · obtain ⟨chain, hchain⟩ := formed.bases hlt
      exact ⟨chain, hchain.of_base? fun type _ => hkept type⟩
    · refine ⟨[t.size], .last ?_⟩
      rw [base?_of_getElem? ((getElem?_insert hc _).trans (if_pos rfl)),
        SymbolKind.base?_of_references hrefs]

end insert

theorem formed_empty : empty.Formed tree := by
  have only : ∀ {i : Nat} {s : Symbol}, empty.symbols[i]? = some s → i = 0 ∧
      s = { id := global, name := "<global>", kind := .global [], access := .publicAccess,
            containing := none, declaration := none } := by
    intro i s h
    cases i with
    | zero => exact ⟨rfl, (Option.some.inj h).symm⟩
    | succ i => simp [empty] at h
  refine ⟨⟨⟨_, _, rfl, rfl⟩, ?_, ?_, ?_, fun h => ?_, fun c number => rfl, fun n => rfl⟩, ?_, ?_⟩
  · intro i s h
    obtain ⟨rfl, rfl⟩ := only h
    refine ⟨rfl, .inl ⟨rfl, rfl⟩, ?_, rfl⟩
    simp [SymbolKind.references, SymbolKind.members, SymbolKind.parameters,
      SymbolKind.templateParameters, SymbolKind.base?, SymbolKind.type?, SymbolKind.method?]
  · intro i s h c hc
    obtain ⟨-, rfl⟩ := only h
    simp at hc
  · intro i j s u n hs hu _ _
    rw [(only hs).1, (only hu).1]
  · obtain ⟨-, rfl⟩ := only h
    exact ⟨0, rfl⟩
  · intro i s h
    obtain ⟨rfl, rfl⟩ := only h
    rfl
  · intro i hi
    obtain ⟨s, hs⟩ := exists_of_lt hi
    obtain ⟨rfl, rfl⟩ := only hs
    exact ⟨[0], .last rfl⟩

/-! ### Questions -/

/-- The members of a name are found among the symbols. -/
theorem InStep.lookup_eq (inStep : t.InStep) (c : SymbolId) (name : String) :
    t.lookup c name = t.idsWhere fun s =>
      s.containing = some c && s.kind.isMember && s.name = name := by
  unfold lookup
  split
  · next number hnumber =>
    rw [inStep.named]
    refine idsWhere_congr fun {_ s} _ => ?_
    have hiff : t.names.get? s.name = some number ↔ s.name = name :=
      ⟨fun h => NameTable.eq_of_get? h hnumber, fun h => h ▸ hnumber⟩
    simp only [hiff]
  · next hnone =>
    have hnil : t.idsWhere (fun _ => false) = [] := by simp [idsWhere]
    rw [← hnil]
    refine idsWhere_congr fun {_ s} hs => ?_
    obtain ⟨number, hnumber⟩ := inStep.entered hs
    have hne : s.name ≠ name := by
      rintro rfl
      simp [hnone] at hnumber
    simp [hne]

/-- A node finds the one symbol that it declares. -/
theorem Framed.declaredAt?_iff (framed : t.Framed tree) {n : NodeId} : t.declaredAt? n = some id ↔
    ∃ s, t.symbols[id]? = some s ∧ s.declaration = some n := by
  have hmem : ∀ {i : Nat}, i ∈ (t.idsWhere fun s => s.declaration = some n) ↔
      ∃ s, t.symbols[i]? = some s ∧ s.declaration = some n := by
    simp only [framed.mem_idsWhere, decide_eq_true_eq, implies_true]
  rw [declaredAt?, framed.inStep.declared]
  constructor
  · exact fun h => hmem.1 (List.mem_of_head? h)
  · rintro ⟨s, hs, hn⟩
    have hid := hmem.2 ⟨s, hs, hn⟩
    cases hlist : t.idsWhere fun s => s.declaration = some n with
    | nil => simp [hlist] at hid
    | cons first rest =>
      obtain ⟨u, hu, hun⟩ := hmem.1 (hlist ▸ List.mem_cons_self : first ∈ _)
      rw [List.head?_cons, framed.declared_once hu hs hun hn]

namespace Formed

variable (formed : t.Formed tree)
include formed

theorem size_pos : 0 < t.size := by
  obtain ⟨s, _, hs, _⟩ := formed.global_eq
  exact lt_of_getElem? hs

variable {id i : Nat} {s : Symbol}

section held

variable (hs : t.symbols[i]? = some s)
include hs

/-- What the declaring node of a symbol says of its kind. -/
theorem declared_of_kind {kind : SymbolKind} (hkind : s.kind = kind) :
    ({ s with kind } : Symbol).Declared tree := by
  subst hkind
  exact (formed.entry hs).declared

theorem declared_body {data : MethodData} {body : NodeId} (hkind : s.kind = .method data)
    (hbody : data.body = some body) :
    data.isEntry = false ∧ ∃ n modifiers parameters, s.declaration = some n ∧
      tree.node? n = some (.methodDeclaration s.name modifiers data.returnType parameters body) := by
  have hdeclared := formed.declared_of_kind hs hkind
  simp only [Symbol.Declared] at hdeclared
  split at hdeclared
  · simp [hdeclared.2.1] at hbody
  · next hentry =>
    obtain ⟨n, modifiers, parameters, found, hn, hfound, hnode⟩ := hdeclared
    obtain rfl := Option.mem_unique hbody hfound
    exact ⟨eq_false_of_ne_true hentry, n, modifiers, parameters, hn, hnode⟩

theorem node_lt {m : NodeId} (hm : m ∈ s.kind.nodes) : m < tree.size := by
  rcases (formed.entry hs).declared.cases with ⟨hnil, -⟩ | ⟨n, node, -, hnode, -, hchildren⟩
  · simp [hnil] at hm
  · exact Tree.child_lt_size hnode (hchildren m hm)

theorem containing_lt {c : Nat} (hc : s.containing = some c) : c < i := by
  rcases (formed.entry hs).containing with ⟨_, hnone⟩ | ⟨d, hd, hlt⟩
  · cases hnone.symm.trans hc
  · obtain rfl := Option.mem_unique hd hc
    exact hlt

theorem references_lt {r : Nat} (hr : r ∈ s.kind.references) : r < t.size :=
  (formed.entry hs).references_lt r hr

end held

section placed

variable (h : id < t.size)
include h

theorem fetch_yields :
    Yields (t.fetch id) fun s => t.symbols[id]? = some s ∧ Entry tree t.size id s := by
  obtain ⟨s, hs⟩ := exists_of_lt h
  exact ⟨s, fetch_of_getElem? hs, hs, formed.entry hs⟩

/-- A question about one symbol is answered from its entry. -/
theorem ask_yields {α : Type} {f : Symbol → α} :
    Yields (f <$> t.fetch id) fun a => ∃ s, t.symbols[id]? = some s ∧ a = f s :=
  .map ((formed.fetch_yields h).imp fun s hs => ⟨s, hs.1, rfl⟩)

theorem kind_yields :
    Yields (t.kind id) fun kind => ∃ s, t.symbols[id]? = some s ∧ kind = s.kind :=
  formed.ask_yields h

theorem name_yields : Yields (t.name id) fun _ => True :=
  (formed.ask_yields h).imp fun _ _ => trivial

theorem isType_yields :
    Yields (t.isType id) fun b => ∃ s, t.symbols[id]? = some s ∧ b = s.isType :=
  formed.ask_yields h

theorem containing?_yields :
    Yields (t.containing? id) fun found => ∀ c : Nat, found = some c → c < t.size := by
  refine (formed.ask_yields (f := Symbol.containing) h).imp ?_
  rintro _ ⟨s, hs, rfl⟩ c hc
  exact Nat.lt_trans (formed.containing_lt hs hc) h

theorem listed_yields {f : SymbolKind → List SymbolId}
    (hf : ∀ {kind q}, q ∈ f kind → q ∈ kind.references) :
    Yields (f <$> t.kind id) fun list => ∀ q : Nat, q ∈ list → q < t.size := by
  refine .map ((formed.kind_yields h).imp ?_)
  rintro _ ⟨s, hs, rfl⟩ q hq
  exact formed.references_lt hs (hf hq)

theorem parameters_yields :
    Yields (t.parameters id) fun list => ∀ q : Nat, q ∈ list → q < t.size :=
  formed.listed_yields h fun hq => by simp [SymbolKind.references, hq]

theorem templateParameters_yields :
    Yields (t.templateParameters id) fun list => ∀ q : Nat, q ∈ list → q < t.size :=
  formed.listed_yields h fun hq => by simp [SymbolKind.references, hq]

theorem members_yields :
    Yields (t.members id) fun list => ∀ q : Nat, q ∈ list → q < t.size :=
  formed.listed_yields h fun hq => by simp [SymbolKind.references, hq]

theorem base?_yields :
    Yields (t.base? id) fun found => ∀ b : Nat, found = some b → b < t.size := by
  refine .map ((formed.kind_yields h).imp ?_)
  rintro _ ⟨s, hs, rfl⟩ b hb
  exact formed.references_lt hs (by simp [SymbolKind.references, hb])

end placed

variable {container : Nat}

/-- The numbers that a look-up gives are those of symbols with that name in that container. -/
theorem mem_lookup {name : String} (h : id ∈ t.lookup container name) :
    ∃ s, t.symbols[id]? = some s ∧ s.containing = some container ∧ s.name = name ∧
      s.kind.isMember = true := by
  rw [formed.inStep.lookup_eq, formed.mem_idsWhere] at h
  obtain ⟨s, hs, htest⟩ := h
  simp only [Bool.and_eq_true, decide_eq_true_eq] at htest
  exact ⟨s, hs, htest.1.1, htest.2, htest.1.2⟩

theorem lookup_lt {name : String} (h : id ∈ t.lookup container name) :
    id < t.size := by
  obtain ⟨s, hs, _⟩ := formed.mem_lookup h
  exact lt_of_getElem? hs

omit formed in
/-- A walk along symbols of the table is answered. -/
theorem search_yields {α : Type} {next : SymbolId → Except Fault (Option SymbolId)}
    {found : SymbolId → Except Fault (Option α)} {Q : α → Prop}
    (hnext : ∀ id : Nat, id < t.size → Yields (next id) fun n => ∀ k : Nat, n = some k → k < t.size)
    (hfound : ∀ id : Nat, id < t.size → Yields (found id) fun a => ∀ x, a = some x → Q x)
    (fuel : Nat) {start : Nat} (h : start < t.size) :
    Yields (search next found fuel start) fun a => ∀ x, a = some x → Q x := by
  induction fuel generalizing start with
  | zero => exact .pure (by simp)
  | succ fuel ih =>
    rw [search]
    refine .bind (hfound start h) fun a ha => ?_
    cases a with
    | some answer => exact .pure ha
    | none =>
      refine .bind (hnext start h) fun n hn => ?_
      cases n with
      | none => exact .pure (by simp)
      | some following => exact ih (hn following rfl)

theorem isDerivedFrom_yields (ancestor : Nat) (h : id < t.size) :
    Yields (t.isDerivedFrom id ancestor) fun _ => True :=
  .map ((search_yields (Q := fun _ => True) (fun _ => formed.base?_yields)
    (fun _ _ => .pure fun _ _ => trivial) _ h).imp fun _ _ => trivial)

theorem lookupInHierarchy_yields (name : String) (h : id < t.size) :
    Yields (t.lookupInHierarchy id name) fun list => ∀ q : Nat, q ∈ list → q < t.size := by
  refine .map ((search_yields (Q := fun list : List SymbolId => ∀ q : Nat, q ∈ list → q < t.size)
    (fun _ => formed.base?_yields) (fun type _ => .pure ?_) _ h).imp ?_)
  · intro list hlist q hq
    obtain ⟨-, ⟨⟩⟩ := Option.ite_none_left_eq_some.1 hlist
    exact formed.lookup_lt hq
  · intro answer hanswer q hq
    cases answer with
    | none => simp at hq
    | some list => exact hanswer list rfl q hq

theorem containingType?_yields (h : id < t.size) :
    Yields (t.containingType? id) fun found => ∀ type : Nat, found = some type → type < t.size := by
  refine search_yields (fun _ => formed.containing?_yields) (fun symbol hsymbol => ?_) _ h
  refine .bind (formed.isType_yields hsymbol) fun b _ => .pure ?_
  intro type htype
  obtain ⟨-, ⟨⟩⟩ := Option.ite_none_right_eq_some.1 htype
  exact hsymbol

theorem owner?_yields (hs : t.symbols[i]? = some s) :
    Yields (t.owner? s) fun found => ∀ o : Nat, found = some o → o < t.size := by
  unfold owner?
  split
  · exact .pure (by simp)
  · next container hc =>
    have hlt : container < t.size :=
      Nat.lt_trans (formed.containing_lt hs hc) (lt_of_getElem? hs)
    refine .bind (formed.isType_yields hlt) fun b _ => .pure fun o ho => ?_
    obtain ⟨-, ⟨⟩⟩ := Option.ite_none_right_eq_some.1 ho
    exact hlt

theorem anyAround_yields {test : SymbolId → Except Fault Bool}
    (htest : ∀ id : Nat, id < t.size → Yields (test id) fun _ => True) (fuel : Nat) {place : Nat}
    (h : place < t.size) : Yields (t.anyAround test fuel place) fun _ => True := by
  induction fuel generalizing place with
  | zero => exact .pure trivial
  | succ fuel ih =>
    rw [anyAround]
    refine .bind (formed.containing?_yields h) fun found hfound => ?_
    have onward : ∀ outer : Option Nat, (∀ o : Nat, outer = some o → o < t.size) →
        Yields (do
          if ← test place then return true
          match outer with
          | none => return false
          | some type => t.anyAround test fuel type) fun _ => True := by
      intro outer houter
      refine .bind (htest place h) fun b _ => ?_
      cases b with
      | true => exact .pure trivial
      | false =>
        cases outer with
        | none => exact .pure trivial
        | some type => exact ih (houter type rfl)
    cases found with
    | none =>
      exact .bind (.pure (Q := fun a => a = none) rfl) fun _ ha => onward _ (by simp [ha])
    | some container =>
      exact .bind (formed.containingType?_yields (hfound container rfl)) onward

theorem isAccessible_yields {within : Option Nat} (h : id < t.size)
    (hwithin : ∀ place : Nat, within = some place → place < t.size) :
    Yields (t.isAccessible id within) fun _ => True := by
  unfold isAccessible
  refine .bind (formed.fetch_yields h) fun s hs => ?_
  refine .bind (formed.owner?_yields hs.1) fun owner howner => ?_
  cases owner with
  | none => exact .pure trivial
  | some owner =>
    have around : ∀ test : SymbolId → Except Fault Bool,
        (∀ id : Nat, id < t.size → Yields (test id) fun _ => True) →
        Yields (match within with
          | none => (return false : Except Fault Bool)
          | some place => t.anyAround test t.walkLimit place) fun _ => True := by
      intro test htest
      cases within with
      | none => exact .pure trivial
      | some place => exact formed.anyAround_yields htest _ (hwithin place rfl)
    dsimp only
    cases s.access with
    | publicAccess => exact .pure trivial
    | privateAccess => exact around _ fun _ _ => .pure trivial
    | protectedAccess => exact around _ fun _ hid => formed.isDerivedFrom_yields owner hid

end Formed
end SymbolTable
end Bindery
