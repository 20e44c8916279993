import Bindery.Proofs.TableFormed
import Bindery.Scope.Inner

/-! # Known numbers

Types, expressions, chains and look-ups refer to nodes and symbols by number.  `Known` says of each
of them that the numbers it can be asked about exist.  From known arguments every question about
scopes is answered, and the answer is known again.

`Program.Formed` is what is assumed of a program throughout: an accepted tree with the table
declared from it. -/

namespace Bindery

/-- An accepted tree with a well-formed table. -/
structure Program.Formed (p : Program) : Prop where
  linked : p.tree.Linked
  table : p.symbols.Formed p.tree

variable (p : Program)

/-! ### Types -/

mutual

def TyKind.Known : TyKind → Prop
  | .named s | .parameter s => s < p.symbols.size
  | .constructed definition arguments =>
      definition < p.symbols.size ∧ TemplateArgument.KnownList arguments
  | _ => True

def TemplateArgument.Known : TemplateArgument → Prop
  | .type kind _ => kind.Known
  | .constant _ => True

def TemplateArgument.KnownList : List TemplateArgument → Prop
  | [] => True
  | a :: rest => a.Known ∧ TemplateArgument.KnownList rest

end

def Ty.Known (t : Ty) : Prop := t.kind.Known p

/-! ### Locals and expressions -/

def LocalFunction.Known (f : LocalFunction) : Prop :=
  ∃ store node, LocalFunction.ofNode? p.tree store node = some f

def Member.Known : Member → Prop
  | .symbol s => s < p.symbols.size
  | .function f => f.Known p

/-- What is asked of an expression later on: its node, its type and the symbols it stands for. -/
def Expr.Known (e : Expr) : Prop :=
  e.node < p.tree.size ∧ e.type.Known p ∧
    match e.kind with
    | .field _ field => field < p.symbols.size
    | .methods _ methods => ∀ m : Nat, m ∈ methods → m < p.symbols.size
    | .localFunction f => f.Known p
    | _ => True

/-! ### Scopes -/

def FrameKind.Known : FrameKind → Prop
  | .inContainer c | .templateParameters c => c < p.symbols.size
  | .containingMember member _ | .inMethod member => member.Known p
  | .localScope designator _ => designator < p.tree.size
  | .code root _ _ => root < p.tree.size
  | .conditionalReceiver e => e.Known p ∧ e.kind = .conditionalReceiver ∧ e.isError = false
  | _ => True

def Chain.Known (chain : Chain) : Prop := ∀ frame ∈ chain, frame.kind.Known p

def LocalDeclarations.Known (d : LocalDeclarations) : Prop :=
  (∀ l ∈ d.locals, l.declaration < p.tree.size) ∧ ∀ f ∈ d.functions, f.Known p

def Lookup.Known : Lookup → Prop
  | .localFunction f => f.Known p
  | .parameter s | .templateParameter s => s < p.symbols.size
  | .symbols found => ∀ s : Nat, s ∈ found → s < p.symbols.size
  | _ => True

variable {p}

theorem Chain.Known.push {chain : Chain} (h : Chain.Known p chain) (kind : FrameKind)
    (additional : Flags) (hkind : kind.Known p) : Chain.Known p (chain.push kind additional) := by
  intro frame hframe
  rcases List.mem_cons.1 hframe with rfl | hframe
  · exact hkind
  · exact h frame hframe

theorem Ty.known_primitive (q : Primitive) : (Ty.primitive q).Known p := trivial

theorem Ty.known_error : Ty.error.Known p := trivial

theorem Ty.known_void : Ty.void.Known p := trivial

variable {node : NodeId}

theorem Expr.known_error (h : node < p.tree.size) : (Expr.error node).Known p :=
  ⟨h, trivial, trivial⟩

namespace LocalFunction

variable {f : LocalFunction}

/-- The declaring node of a local function, with the nodes of its parameter and return types. -/
theorem Known.nodes (h : f.Known p) :
    ∃ parameters, p.tree.node? f.declaration =
        some (.localFunction f.name f.returnType parameters f.body) ∧
      ∀ l ∈ f.parameters, l.declaration ∈ parameters ∧ ∃ type defaultValue,
        l.type = some type ∧
          p.tree.node? l.declaration = some (.parameter l.name type defaultValue) := by
  obtain ⟨store, node, hf⟩ := h
  unfold ofNode? at hf
  split at hf
  · next name returnType parameters body hnode =>
    obtain rfl := Option.some.inj hf
    refine ⟨parameters, hnode, fun l hl => ?_⟩
    obtain ⟨parameter, hparameter, hl⟩ := List.mem_filterMap.1 hl
    split at hl
    · next hdecl =>
      obtain rfl := Option.some.inj hl
      exact ⟨hparameter, _, _, rfl, hdecl⟩
    · simp at hl
  · simp at hf

theorem Known.declaration_lt (h : f.Known p) :
    f.declaration < p.tree.size := by
  obtain ⟨_, hnode, -⟩ := h.nodes
  exact Tree.lt_size_of_node? hnode

theorem Known.returnType_lt (h : f.Known p) {type : NodeId} (htype : f.returnType = some type) :
    type < p.tree.size := by
  obtain ⟨_, hnode, -⟩ := h.nodes
  exact Tree.child_lt_size hnode (by simp [htype])

theorem Known.parameterType_lt (h : f.Known p) {l : Local} (hl : l ∈ f.parameters) :
    ∃ type, l.type = some type ∧ type < p.tree.size := by
  obtain ⟨_, -, hparameters⟩ := h.nodes
  obtain ⟨-, type, defaultValue, htype, hnode⟩ := hparameters l hl
  exact ⟨type, htype, Tree.child_lt_size hnode (by simp)⟩

theorem key_eq {store : Nat} {node : NodeId} (h : ofNode? p.tree store node = some f) :
    f.key = ⟨store, node⟩ := by
  unfold ofNode? at h
  split at h
  · obtain rfl := Option.some.inj h
    rfl
  · simp at h

/-- A local function is known by its key. -/
theorem Known.eq_of_key {g : LocalFunction} (hf : f.Known p) (hg : g.Known p)
    (hkey : f.key = g.key) : f = g := by
  obtain ⟨store, node, hf⟩ := hf
  obtain ⟨store', node', hg⟩ := hg
  rw [key_eq hf, key_eq hg] at hkey
  obtain ⟨rfl, rfl⟩ := LocalKey.mk.inj hkey
  exact Option.mem_unique hf hg

theorem Known.isConstant_eq_false (h : f.Known p) {l : Local} (hl : l ∈ f.parameters) :
    l.isConstant = false := by
  obtain ⟨store, node, hf⟩ := h
  unfold ofNode? at hf
  split at hf
  · obtain rfl := Option.some.inj hf
    obtain ⟨parameter, -, hl⟩ := List.mem_filterMap.1 hl
    split at hl
    · rw [← Option.some.inj hl]
    · simp at hl
  · simp at hf

end LocalFunction

namespace LocalDeclarations

/-- Every local satisfies `L`, and every local function `F`. -/
def All (L : Local → Prop) (F : LocalFunction → Prop) (d : LocalDeclarations) : Prop :=
  (∀ l ∈ d.locals, L l) ∧ ∀ f ∈ d.functions, F f

/-- The statements whose declarations a scope gathers. -/
def gathered (tree : Tree) (designator : NodeId) : List NodeId :=
  match tree.node? designator with
  | some (.block statements) => statements
  | some (.compilationUnit members) => tree.globalStatementsOf members
  | _ => [designator]

variable {designator : NodeId}

theorem collect_eq (h : designator < p.tree.size) (store : Nat) :
    collect p.tree store designator =
      .ok (((gathered p.tree designator).map (ofStatement p.tree store)).foldl append {}) := by
  obtain ⟨node, hnode⟩ := Tree.exists_node_of_lt h
  unfold collect gathered
  rw [Tree.fetch_of_node? hnode, hnode]
  cases node <;> rfl

section all

variable {store : Nat} {C : NodeId → Prop} {L : Local → Prop} {F : LocalFunction → Prop}
  (part : ∀ {n s : NodeId} {label : String}, C n → p.tree.node? n = some (.labeled label s) → C s)
  (declared : ∀ {n : NodeId} {name : String} {type initializer : Option NodeId} {isConstant : Bool},
    C n → p.tree.node? n = some (.localDeclaration name type isConstant initializer) →
      L ⟨name, n, type, isConstant, .ordinary, store⟩)
  (function : ∀ {n : NodeId} {f : LocalFunction}, C n →
    LocalFunction.ofNode? p.tree store n = some f → F f)
include part declared function

/-- What holds of what the statements of some code declare. -/
theorem ofStatement_all (node : NodeId) (h : C node) : (ofStatement p.tree store node).All L F := by
  induction node using Nat.strongRecOn with
  | ind node ih =>
  rw [ofStatement]
  split
  · next hnode => exact ⟨by simpa using declared h hnode, by simp⟩
  · exact ⟨by simp, fun f hf => function h (Option.mem_toList.1 hf)⟩
  · next statement hnode =>
    simpa [append, All] using ih statement (p.tree.child_lt hnode (by simp)) (part h hnode)
  · simp [All]

theorem collect_all (h : ∀ n ∈ gathered p.tree designator, C n) {found : LocalDeclarations}
    (hfound : collect p.tree store designator = .ok found) : found.All L F := by
  have hlt : designator < p.tree.size := by
    unfold collect Tree.fetch at hfound
    cases hnode : p.tree.node? designator with
    | none => simp [hnode, bind, Except.bind] at hfound
    | some node => exact Tree.lt_size_of_node? hnode
  rw [collect_eq hlt] at hfound
  obtain rfl := Except.ok.inj hfound
  suffices hfold : ∀ list : List NodeId, (∀ n ∈ list, C n) → ∀ start : LocalDeclarations,
      start.All L F → ((list.map (ofStatement p.tree store)).foldl append start).All L F from
    hfold _ h _ ⟨by simp, by simp⟩
  intro list
  induction list with
  | nil => exact fun _ start hstart => hstart
  | cons node rest ih =>
    intro hlist start hstart
    obtain ⟨hnode, hrest⟩ := List.forall_mem_cons.1 hlist
    have hown := ofStatement_all part declared function node hnode
    exact ih hrest _ ⟨List.forall_mem_append.2 ⟨hstart.1, hown.1⟩,
      List.forall_mem_append.2 ⟨hstart.2, hown.2⟩⟩

end all

theorem collect_yields (h : designator < p.tree.size) (store : Nat) :
    Yields (collect p.tree store designator) (Known p) :=
  ⟨_, collect_eq h store, collect_all (C := fun _ => True) (fun _ _ => trivial)
    (fun _ hnode => Tree.lt_size_of_node? hnode) (fun _ hf => ⟨store, _, hf⟩) (fun _ _ => trivial)
    (collect_eq h store)⟩

end LocalDeclarations

/-! ### What names mean -/

/-- The members of a container that a scope in it sees. -/
def SymbolTable.seen (t : SymbolTable) (container : SymbolId) (name : String) :
    Except Fault (List SymbolId) := do
  if ← t.isType container then t.lookupInHierarchy container name else return t.lookup container name

variable (p) in
/-- What a frame says of a name that it knows. -/
inductive FrameKind.Means (name : String) (node : NodeId) : FrameKind → Lookup → Prop
  | declared (hcollect : LocalDeclarations.collect p.tree store designator = .ok declarations)
      (hlocal : declarations.findLocal? name = some target)
      (hbefore : Frame.isDeclaredBefore p target.declaration node = .ok true) :
      Means name node (.localScope designator store) (.localVariable target)
  | later (hcollect : LocalDeclarations.collect p.tree store designator = .ok declarations)
      (hlocal : declarations.findLocal? name = some target)
      (hafter : Frame.isDeclaredBefore p target.declaration node = .ok false) :
      Means name node (.localScope designator store) (.declaredLater target)
  | function (hcollect : LocalDeclarations.collect p.tree store designator = .ok declarations)
      (hlocal : declarations.findLocal? name = none)
      (hfunction : declarations.findFunction? name = some function) :
      Means name node (.localScope designator store) (.localFunction function)
  | parameter (hparameters : p.symbols.parameters method = .ok parameters)
      (hx : Frame.findNamed? p parameters name = .ok (some x)) :
      Means name node (.inMethod (.symbol method)) (.parameter x)
  | functionParameter
      (htarget : (function.parameters.find? fun parameter => parameter.name = name) = some target) :
      Means name node (.inMethod (.function function)) (.localVariable target)
  | templateParameter (hparameters : p.symbols.templateParameters type = .ok parameters)
      (hx : Frame.findNamed? p parameters name = .ok (some x)) :
      Means name node (.templateParameters type) (.templateParameter x)
  | members (hfound : p.symbols.seen container name = .ok found) (hne : found ≠ []) :
      Means name node (.inContainer container) (.symbols found)

theorem Frame.lookup?_inContainer {f : Frame} {container : SymbolId} (name : String) (node : NodeId)
    (hkind : f.kind = .inContainer container) :
    f.lookup? p name node = do
      let found ← p.symbols.seen container name
      return if found.isEmpty then none else some (.symbols found) := by
  unfold lookup? SymbolTable.seen
  rw [hkind]
  dsimp only
  cases p.symbols.isType container with
  | error fault => rfl
  | ok isType => cases isType <;> rfl

theorem Frame.means_of_lookup? {f : Frame} {name : String} {found : Lookup}
    (h : f.lookup? p name node = .ok (some found)) : f.kind.Means p name node found := by
  cases hkind : f.kind with
  | inContainer container =>
    rw [lookup?_inContainer name node hkind] at h
    obtain ⟨members, hseen, h⟩ := exists_of_bind_eq_ok h
    have h := Except.ok.inj h
    split at h
    · cases h
    · next hne =>
      obtain rfl := Option.some.inj h
      exact .members hseen (by simpa using hne)
  | localScope designator store =>
    unfold lookup? at h
    rw [hkind] at h
    obtain ⟨declarations, hcollect, h⟩ := exists_of_bind_eq_ok h
    cases hlocal : declarations.findLocal? name with
    | some target =>
      rw [hlocal] at h
      obtain ⟨before, hbefore, h⟩ := exists_of_bind_eq_ok h
      cases before <;> obtain rfl := Option.some.inj (Except.ok.inj h)
      · exact .later hcollect hlocal hbefore
      · exact .declared hcollect hlocal hbefore
    | none =>
      rw [hlocal] at h
      obtain ⟨function, hfunction, rfl⟩ := Option.map_eq_some_iff.1 (Except.ok.inj h)
      exact .function hcollect hlocal hfunction
  | templateParameters type =>
    unfold lookup? at h
    rw [hkind] at h
    obtain ⟨parameters, hparameters, h⟩ := exists_of_bind_eq_ok h
    obtain ⟨answer, hanswer, h⟩ := exists_of_bind_pure_eq_ok h
    obtain ⟨x, rfl, rfl⟩ := Option.map_eq_some_iff.1 h
    exact .templateParameter hparameters hanswer
  | inMethod member =>
    unfold lookup? at h
    rw [hkind] at h
    cases member with
    | symbol method =>
      obtain ⟨parameters, hparameters, h⟩ := exists_of_bind_eq_ok h
      obtain ⟨answer, hanswer, h⟩ := exists_of_bind_pure_eq_ok h
      obtain ⟨x, rfl, rfl⟩ := Option.map_eq_some_iff.1 h
      exact .parameter hparameters hanswer
    | function function =>
      obtain ⟨target, htarget, rfl⟩ := Option.map_eq_some_iff.1 (Except.ok.inj h)
      exact .functionParameter htarget
  | _ =>
    unfold lookup? at h
    rw [hkind] at h
    cases Except.ok.inj h

/-- The innermost frame that knows a name says what it means. -/
theorem Chain.means_of_lookup {chain : Chain} {name : String} {found : Lookup}
    (h : chain.lookup p name node = .ok found) (hne : found ≠ .empty) :
    ∃ before frame after, chain = before ++ frame :: after ∧
      (∀ f ∈ before, f.lookup? p name node = .ok none) ∧ frame.kind.Means p name node found := by
  unfold lookup at h
  cases hfirst : chain.findSomeM? (Frame.lookup? p name node) with
  | error fault =>
    rw [hfirst] at h
    cases h
  | ok first =>
    rw [hfirst] at h
    cases first with
    | none => exact absurd (Except.ok.inj h).symm hne
    | some answer =>
      obtain rfl : answer = found := Except.ok.inj h
      obtain ⟨before, frame, after, hchain, hbefore, hanswer⟩ := exists_of_findSomeM? hfirst
      exact ⟨before, frame, after, hchain, hbefore, Frame.means_of_lookup? hanswer⟩

/-! ### Questions about frames and chains -/

namespace Program.Formed

variable (formed : p.Formed)
include formed

variable {node : NodeId}

theorem span_yields (h : node < p.tree.size) :
    Yields (p.tree.span node) fun _ => True := by
  obtain ⟨span, hspan⟩ := formed.linked.span_ok h
  exact ⟨span, hspan, trivial⟩

variable {frame : Frame}

omit formed in
theorem declarations?_yields (h : frame.kind.Known p) :
    Yields (frame.declarations? p) fun found => ∀ d, found = some d → d.Known p := by
  unfold Frame.declarations?
  split
  · next designator store hkind =>
    rw [hkind] at h
    refine .map ((LocalDeclarations.collect_yields h store).imp ?_)
    rintro d hd _ ⟨rfl⟩
    exact hd
  · exact .pure (by simp)

theorem findNamed?_yields {symbols : List SymbolId} (h : ∀ s : Nat, s ∈ symbols → s < p.symbols.size)
    (name : String) :
    Yields (Frame.findNamed? p symbols name) fun found =>
      ∀ s : Nat, found = some s → s < p.symbols.size := by
  refine (Yields.findM? fun s hs => ?_).imp fun found hfound s hs => h s (hfound s hs).1
  exact .bind (formed.table.name_yields (h s hs)) fun _ _ => .pure trivial

theorem isDeclaredBefore_yields {declaration reference : NodeId}
    (hd : declaration < p.tree.size) (hr : reference < p.tree.size) :
    Yields (Frame.isDeclaredBefore p declaration reference) fun _ => True :=
  .bind (formed.span_yields hd) fun _ _ => .bind (formed.span_yields hr) fun _ _ => .pure trivial

theorem frameLookup?_yields (h : frame.kind.Known p) (name : String) (hnode : node < p.tree.size) :
    Yields (frame.lookup? p name node) fun found => ∀ l, found = some l → l.Known p := by
  unfold Frame.lookup?
  split
  · next designator store hkind =>
    rw [hkind] at h
    refine .bind (LocalDeclarations.collect_yields h store) fun d hd => ?_
    cases hlocal : d.findLocal? name with
    | some found =>
      have hmem : found ∈ d.locals := List.mem_of_find?_eq_some hlocal
      refine .bind (formed.isDeclaredBefore_yields (hd.1 found hmem) hnode) fun before _ => ?_
      cases before with
      | true => exact .pure (by rintro _ ⟨rfl⟩; trivial)
      | false => exact .pure (by rintro _ ⟨rfl⟩; trivial)
    | none =>
      refine .pure fun l hl => ?_
      obtain ⟨f, hf, rfl⟩ := Option.map_eq_some_iff.1 hl
      exact hd.2 f (List.mem_of_find?_eq_some hf)
  · next method hkind =>
    rw [hkind] at h
    refine .bind (formed.table.parameters_yields h) fun parameters hparameters => ?_
    refine .bind (formed.findNamed?_yields hparameters name) fun found hfound => .pure ?_
    intro l hl
    obtain ⟨s, hs, rfl⟩ := Option.map_eq_some_iff.1 hl
    exact hfound s hs
  · next function hkind =>
    refine .pure fun l hl => ?_
    obtain ⟨s, hs, rfl⟩ := Option.map_eq_some_iff.1 hl
    trivial
  · next type hkind =>
    rw [hkind] at h
    refine .bind (formed.table.templateParameters_yields h) fun parameters hparameters => ?_
    refine .bind (formed.findNamed?_yields hparameters name) fun found hfound => .pure ?_
    intro l hl
    obtain ⟨s, hs, rfl⟩ := Option.map_eq_some_iff.1 hl
    exact hfound s hs
  · next container hkind =>
    rw [hkind] at h
    have onward : ∀ found : List SymbolId, (∀ s : Nat, s ∈ found → s < p.symbols.size) →
        Yields (return if found.isEmpty then none else some (Lookup.symbols found) :
          Except Fault (Option Lookup)) fun found => ∀ l, found = some l → l.Known p := by
      refine fun found hfound => .pure fun l hl => ?_
      obtain ⟨-, ⟨⟩⟩ := Option.ite_none_left_eq_some.1 hl
      exact hfound
    refine .bind (formed.table.isType_yields h) fun isType _ => ?_
    cases isType with
    | true => exact .bind (formed.table.lookupInHierarchy_yields name h) onward
    | false => exact .bind (.pure fun s hs => formed.table.lookup_lt hs) onward
  · exact .pure (by simp)

theorem typeAround_yields {s : Nat} (hs : s < p.symbols.size) : Yields (do
    match ← p.symbols.containing? s with
    | some container => return some (← p.symbols.containingType? container)
    | none => return some none) fun found =>
    ∀ type : Option Nat, found = some type → ∀ s : Nat, type = some s → s < p.symbols.size := by
  refine .bind (formed.table.containing?_yields hs) fun container hcontainer => ?_
  cases container with
  | none => exact .pure (by rintro _ ⟨rfl⟩; simp)
  | some container =>
    refine .bind (formed.table.containingType?_yields (hcontainer container rfl))
      fun type htype => .pure ?_
    rintro _ ⟨rfl⟩
    exact htype

theorem frameContainingType?_yields (h : frame.kind.Known p) :
    Yields (frame.containingType? p) fun found =>
      ∀ type : Option Nat, found = some type → ∀ s : Nat, type = some s → s < p.symbols.size := by
  unfold Frame.containingType?
  split
  · next container hkind =>
    rw [hkind] at h
    refine .bind (formed.table.containingType?_yields h) fun type htype => .pure ?_
    rintro _ ⟨rfl⟩
    exact htype
  · next symbol _ hkind =>
    rw [hkind] at h
    exact formed.typeAround_yields h
  · next symbol hkind =>
    rw [hkind] at h
    exact formed.typeAround_yields h
  · exact .pure (by simp)

variable {chain : Chain} (known : Chain.Known p chain)
include known

theorem lookup_yields (name : String) (hnode : node < p.tree.size) :
    Yields (chain.lookup p name node) (Lookup.Known p) := by
  refine .map ((Yields.findSomeM? fun frame hframe =>
    formed.frameLookup?_yields (known frame hframe) name hnode).imp fun found hfound => ?_)
  cases found with
  | none => exact trivial
  | some l => exact hfound l rfl

theorem lookupLocal?_yields (name : String) (hnode : node < p.tree.size) :
    Yields (chain.lookupLocal? p name node) fun _ => True := by
  refine .bind (formed.lookup_yields known name hnode) fun found _ => ?_
  cases found <;> exact .pure trivial

omit formed in
theorem findDeclared?_yields {α : Type} {find? : LocalDeclarations → Option α} {Q : α → Prop}
    (h : ∀ d : LocalDeclarations, d.Known p → ∀ a, find? d = some a → Q a) :
    Yields (chain.findDeclared? p find?) fun found => ∀ a, found = some a → Q a := by
  refine Yields.findSomeM? fun frame hframe => ?_
  refine .bind (declarations?_yields (known frame hframe)) fun d hd => .pure ?_
  intro a ha
  obtain ⟨d, rfl, hfind⟩ := Option.bind_eq_some_iff.1 ha
  exact h d (hd d rfl) a hfind

omit formed in
theorem lookupLabel?_yields (name : String) :
    Yields (chain.lookupLabel? p name) fun _ => True := by
  have hfunction : Chain.Known p chain.inFunction := fun frame hframe =>
    known frame ((List.takeWhile_sublist _).subset hframe)
  exact (findDeclared?_yields (Q := fun _ => True) hfunction fun _ _ _ _ => trivial).imp
    fun _ _ => trivial

theorem lookupTemplateParameter?_yields (name : String) :
    Yields (chain.lookupTemplateParameter? p name) fun found =>
      ∀ s : Nat, found = some s → s < p.symbols.size := by
  refine Yields.findSomeM? fun frame hframe => ?_
  have h := known frame hframe
  unfold Frame.findTemplateParameter?
  split
  · next type hkind =>
    rw [hkind] at h
    exact .bind (formed.table.templateParameters_yields h) fun _ hparameters =>
      formed.findNamed?_yields hparameters name
  · exact .pure (by simp)

theorem containingType?_yields :
    Yields (chain.containingType? p) fun found => ∀ s : Nat, found = some s → s < p.symbols.size := by
  refine .map ((Yields.findSomeM? fun frame hframe =>
    formed.frameContainingType?_yields (known frame hframe)).imp fun found hfound s hs => ?_)
  cases found with
  | none => simp at hs
  | some type => exact hfound type rfl s hs

theorem isAccessible_yields {symbol : Nat} (h : symbol < p.symbols.size) :
    Yields (chain.isAccessible p symbol) fun _ => True := by
  unfold Chain.isAccessible
  split
  · exact .pure trivial
  · exact .bind (formed.containingType?_yields known) fun within hwithin =>
      formed.table.isAccessible_yields h hwithin

omit formed in
theorem conditionalReceiver?_known {e : Expr} (h : chain.conditionalReceiver? = some e) :
    e.Known p ∧ e.kind = .conditionalReceiver ∧ e.isError = false := by
  obtain ⟨frame, hframe, he⟩ := List.exists_of_findSome?_eq_some h
  have hknown := known frame hframe
  split at he
  · next hkind =>
    rw [hkind] at hknown
    obtain rfl := Option.some.inj he
    exact hknown
  · simp at he

omit formed in
theorem method?_known {member : Member} (h : chain.method? = some member) : member.Known p := by
  obtain ⟨frame, hframe, hmember⟩ := List.exists_of_findSome?_eq_some h
  have hknown := known frame hframe
  split at hmember
  · next hkind =>
    rw [hkind] at hknown
    obtain rfl := Option.some.inj hmember
    exact hknown
  · simp at hmember

end Program.Formed

/-! ### Texts of types -/

mutual

theorem TyKind.display_yields (formed : p.Formed) (kind : TyKind) (h : kind.Known p)
    (nullable : Bool) : Yields (kind.display p.symbols nullable) fun _ => True := by
  cases kind with
  | primitive _ => exact .pure trivial
  | named s => exact .bind (formed.table.name_yields h) fun _ _ => .pure trivial
  | parameter s => exact .bind (formed.table.name_yields h) fun _ _ => .pure trivial
  | constructed definition arguments =>
    rw [TyKind.Known] at h
    rw [TyKind.display]
    refine .bind (TemplateArgument.displayList_yields formed arguments h.2) fun _ _ => ?_
    exact .bind (formed.table.name_yields h.1) fun _ _ => .pure trivial
  | null => exact .pure trivial
  | error => exact .pure trivial

theorem TemplateArgument.display_yields (formed : p.Formed) (a : TemplateArgument)
    (h : a.Known p) : Yields (a.display p.symbols) fun _ => True := by
  cases a with
  | type kind nullable =>
    rw [TemplateArgument.display]
    exact TyKind.display_yields formed kind (by rwa [TemplateArgument.Known] at h) nullable
  | constant _ => exact .pure trivial

theorem TemplateArgument.displayList_yields (formed : p.Formed) (list : List TemplateArgument)
    (h : TemplateArgument.KnownList p list) :
    Yields (TemplateArgument.displayList p.symbols list) fun _ => True := by
  cases list with
  | nil => exact .pure trivial
  | cons a rest =>
    rw [TemplateArgument.KnownList] at h
    rw [TemplateArgument.displayList]
    refine .bind (TemplateArgument.display_yields formed a h.1) fun _ _ => ?_
    exact .bind (TemplateArgument.displayList_yields formed rest h.2) fun _ _ => .pure trivial

end

theorem Program.Formed.display_yields (formed : p.Formed) {t : Ty} (h : t.Known p) :
    Yields (t.display p.symbols) fun _ => True :=
  TyKind.display_yields formed t.kind h t.nullable

theorem Ty.Known.definition? {t : Ty} (h : t.Known p) {definition : Nat}
    (hd : t.definition? = some definition) : definition < p.symbols.size := by
  unfold Known at h
  unfold Ty.definition? at hd
  split at hd
  · next hkind =>
    rw [hkind] at h
    obtain rfl := Option.some.inj hd
    exact h
  · next hkind =>
    rw [hkind, TyKind.Known] at h
    obtain rfl := Option.some.inj hd
    exact h.1
  · simp at hd

theorem Program.Formed.conversion_yields (formed : p.Formed) {source target : Ty}
    (hs : source.Known p) (ht : target.Known p) :
    Yields (source.conversion p.symbols target) fun _ => True := by
  have reference : Yields (Ty.referenceConversion p.symbols source target) fun _ => True := by
    unfold Ty.referenceConversion
    split
    · next derived base hderived hbase =>
      split
      · exact .pure trivial
      · refine .bind (formed.table.isDerivedFrom_yields base (hs.definition? hderived)) fun b _ => ?_
        cases b with
        | true => exact .pure trivial
        | false =>
          refine .bind (formed.table.isDerivedFrom_yields derived (ht.definition? hbase))
            fun b _ => ?_
          cases b <;> exact .pure trivial
    · exact .pure trivial
  unfold Ty.conversion
  repeat' split
  all_goals first | exact .pure trivial | exact reference

end Bindery
