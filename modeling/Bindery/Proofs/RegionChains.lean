import Bindery.Proofs.Known
import Bindery.Scope.Region

/-! # The chains of regions

The chain of a region can be read off the program alone: `signatureScope`, `bodyScope` and so on
give it without looking at what is kept.  `Program.keyScope` says which chain belongs to a key, and
`Program.CacheSound` that every kept chain is the one that belongs to its key.

Under a sound cache, asking for the chain of a region gives the chain of the region, and the cache
stays sound (`Program.Fetches`).  That two regions never meet under one key rests on the table: no
node declares two symbols, and only the entry method is declared by the root. -/

namespace Bindery

/-! ### Paths through containers -/

namespace SymbolTable

variable {tree : Tree} {t : SymbolTable}

/-- Whether every part of a list, from some place to the end, lists the containers of its first
symbol. -/
def IsContainerPath (t : SymbolTable) : List SymbolId → Prop
  | [] => True
  | s :: rest => s < t.size ∧ t.containers s = .ok (s :: rest) ∧ t.IsContainerPath rest

theorem Formed.containing?_eq (formed : t.Formed tree) {id : Nat} (h : id < t.size) :
    ∃ found : Option Nat, t.containing? id = .ok found ∧ ∀ c : Nat, found = some c → c < id := by
  obtain ⟨s, hs⟩ := exists_of_lt h
  exact ⟨s.containing, map_fetch _ hs, fun c hc => formed.containing_lt hs hc⟩

/-- Containers have smaller numbers, so any fuel above the number is enough. -/
theorem Formed.follow_eq (formed : t.Formed tree) {m n i : Nat} (hi : i < t.size)
    (hm : i < m) (hn : i < n) : follow t.containing? m i = follow t.containing? n i := by
  induction m generalizing n i with
  | zero => omega
  | succ fuel ih =>
    obtain ⟨fuel', rfl⟩ : ∃ k, n = k + 1 := ⟨n - 1, by omega⟩
    obtain ⟨found, hfound, hlt⟩ := formed.containing?_eq hi
    rw [follow, follow, hfound]
    cases found with
    | none => rfl
    | some c =>
      have hc := hlt c rfl
      have := ih (n := fuel') (i := c) (by omega) (by omega) (by omega)
      simp only [bind, Except.bind, this]

theorem Formed.containers_path (formed : t.Formed tree) (id : Nat) (h : id < t.size) :
    ∃ rest, t.containers id = .ok (id :: rest) ∧ t.IsContainerPath (id :: rest) := by
  induction id using Nat.strongRecOn with
  | ind id ih =>
  obtain ⟨found, hfound, hlt⟩ := formed.containing?_eq h
  cases found with
  | none =>
    have heq : t.containers id = .ok [id] := by
      unfold containers walkLimit
      rw [follow, hfound]
      rfl
    exact ⟨[], heq, h, heq, trivial⟩
  | some c =>
    have hc := hlt c rfl
    obtain ⟨rest, hrest, hpath⟩ := ih c hc (by omega)
    have heq : t.containers id = .ok (id :: c :: rest) := by
      have hfuel := formed.follow_eq (m := t.size) (n := t.walkLimit) (i := c)
        (by omega) (by omega) (by unfold walkLimit; omega)
      unfold containers at hrest ⊢
      rw [← hfuel] at hrest
      rw [walkLimit, follow, hfound]
      simp only [bind, Except.bind, hrest]
      rfl
    exact ⟨c :: rest, heq, h, heq, hpath⟩

end SymbolTable

/-! ### Shapes of chains -/

def FrameKind.isCode : FrameKind → Bool
  | .code .. => true
  | _ => false

/-- A known chain of a place outside code. -/
structure Chain.Outside (p : Program) (chain : Chain) : Prop where
  known : chain.Known p
  codeFree : ∀ frame ∈ chain, frame.kind.isCode = false

theorem Chain.Outside.push {p : Program} {chain : Chain} (h : chain.Outside p) (kind : FrameKind)
    (additional : Flags) (hkind : kind.Known p) (hcode : kind.isCode = false) :
    (chain.push kind additional).Outside p := by
  refine ⟨h.known.push kind additional hkind, fun frame hframe => ?_⟩
  rcases List.mem_cons.1 hframe with rfl | hframe
  · exact hcode
  · exact h.codeFree frame hframe

/-- The chain of a region of code. -/
structure Chain.IsRegion (p : Program) (root : NodeId) (chain : Chain) : Prop where
  root_lt : root < p.tree.size
  eq_push : ∃ outer member flags, chain = Chain.push outer (.code root member 0) flags ∧
    outer.Outside p

theorem Chain.IsRegion.known {p : Program} {root : NodeId} {chain : Chain}
    (h : chain.IsRegion p root) : chain.Known p := by
  obtain ⟨outer, member, flags, rfl, houter⟩ := h.eq_push
  exact houter.known.push _ _ h.root_lt

namespace Program

variable (p : Program)

/-! ### Scopes of regions -/

def globalScope : Chain := (Chain.outermost p.flags).push (.inContainer SymbolTable.global) {}

/-- The inside of the first of `containers`, each of which lies in the next. -/
def containerScope : List SymbolId → Except Fault Chain
  | [] => return p.globalScope
  | type :: outer => do
    if ← p.symbols.isType type then
      return ((← containerScope outer).push (.inContainer type) {}).push (.templateParameters type) {}
    else return p.globalScope

def insideScope (symbol : SymbolId) : Except Fault Chain := do
  p.containerScope (← p.symbols.containers symbol)

def outerScope (symbol : SymbolId) : Except Fault Chain := do
  p.containerScope (← p.symbols.containers symbol).tail

def baseScope (type : SymbolId) : Except Fault Chain :=
  return (← p.outerScope type).push (.templateParameters type) {}

def signatureScope (method : SymbolId) : Except Fault Chain :=
  return (← p.outerScope method).push (.containingMember (.symbol method) .methodSignature) {}

def fieldScope (field : SymbolId) : Except Fault Chain :=
  return (← p.outerScope field).push (.containingMember (.symbol field) .normal) {}

/-- Code of a method under its signature. -/
def codeScope (method : SymbolId) (root : NodeId) (flags : Flags) : Except Fault Chain :=
  return ((← p.signatureScope method).push (.inMethod (.symbol method)) flags).push
    (.code root (.symbol method) 0) {}

def scriptScope : Except Fault (Option Chain) := do
  match p.symbols.entry? with
  | none => return none
  | some entry => return some (← p.codeScope entry p.tree.root {})

def bodyScope (method : SymbolId) : Except Fault (Option Chain) := do
  match ← p.symbols.method? method with
  | none => return none
  | some data =>
    if data.isEntry then p.scriptScope
    else
      match data.body, ← p.symbols.declaration? method with
      | some body, some _ => return some (← p.codeScope method body { lowLevel := data.isLowLevel })
      | _, _ => return none

def defaultScope (parameter : SymbolId) : Except Fault (Option Chain) := do
  match (← p.symbols.parameter? parameter).bind (·.defaultValue), ← p.symbols.containing? parameter,
      ← p.symbols.declaration? parameter with
  | some value, some method, some _ =>
    return some (((← p.signatureScope method).push (.plain none) { inDefaultValue := true }).push
      (.code value (.symbol method) 0) {})
  | _, _, _ => return none

def initializerScope (field : SymbolId) : Except Fault (Option Chain) := do
  match (← p.symbols.field? field).bind (·.initializer), ← p.symbols.declaration? field with
  | some initializer, some _ =>
    return some ((← p.fieldScope field).push (.code initializer (.symbol field) 0)
      { inInitializer := true })
  | _, _ => return none

/-! ### Keys -/

/-- The chain that is kept for a use of the node that declares a symbol of the given kind.  Only the
inside of a type, a body, an initializer and a default value have a usage in common; the kind tells
them apart. -/
def ownScope (symbol : SymbolId) (kind : SymbolKind) (usage : Usage) : Except Fault (Option Chain) :=
  if usage = .normal then some <$> p.fieldScope symbol
  else if usage = .methodSignature then some <$> p.signatureScope symbol
  else if usage = .typeBase then some <$> p.baseScope symbol
  else
    match kind with
    | .type _ => some <$> p.insideScope symbol
    | .field _ => p.initializerScope symbol
    | .method _ => p.bodyScope symbol
    | .parameter _ => p.defaultScope symbol
    | _ => return none

/-- The chain that belongs to a key. -/
def keyScope (key : RegionKey) : Except Fault (Option Chain) := do
  if key.node = p.tree.root ∧ key.usage = .normal then return some p.globalScope
  else if key.node = p.tree.root ∧ key.usage = .script then p.scriptScope
  else
    match p.symbols.declaredAt? key.node with
    | none => return none
    | some symbol => p.ownScope symbol (← p.symbols.kind symbol) key.usage

/-- Every kept chain is the one that belongs to its key. -/
def CacheSound (cache : RegionCache) : Prop :=
  ∀ key chain, cache.get? key = some chain → p.keyScope key = .ok (some chain)

/-- From any sound cache, `m` gives `a` and leaves a sound cache. -/
def Fetches {α : Type} (m : RegionM α) (a : α) : Prop :=
  ∀ cache, p.CacheSound cache → Succeeds m cache fun b cache' => b = a ∧ p.CacheSound cache'

variable {p}

theorem cacheSound_empty : p.CacheSound {} := by
  intro key chain h
  simp at h

theorem CacheSound.publish {cache : RegionCache} (sound : p.CacheSound cache) {key : RegionKey}
    {chain : Chain} (h : p.keyScope key = .ok (some chain)) :
    p.CacheSound (cache.publish key chain) := by
  intro other found hfound
  cases hold : cache.get? key with
  | some old =>
    rw [Registry.publish_of_get? chain hold] at hfound
    exact sound other found hfound
  | none =>
    by_cases hother : other = key
    · subst hother
      rw [Registry.get?_publish_self chain hold] at hfound
      obtain rfl := Option.some.inj hfound
      exact h
    · rw [Registry.get?_publish_of_ne chain hother] at hfound
      exact sound other found hfound

namespace Fetches

variable {α β : Type}

theorem pure (a : α) : p.Fetches (Pure.pure a) a := fun _ sound => Ends.pure ⟨rfl, sound⟩

variable {a : α} {k : α → RegionM β}

theorem bind {m : RegionM α} {b : β} (hm : p.Fetches m a)
    (hk : p.Fetches (k a) b) : p.Fetches (m >>= k) b := by
  intro cache sound
  refine Ends.bind (hm cache sound) ?_
  rintro _ cache' ⟨rfl, sound'⟩
  exact hk cache' sound'

theorem bind_lift {x : Except Fault α} {b : β} (hx : x = .ok a)
    (hk : p.Fetches (k a) b) : p.Fetches (liftM x >>= k) b := by
  subst hx
  exact hk

theorem map {m : RegionM α} {f : α → β} (hm : p.Fetches m a) : p.Fetches (f <$> m) (f a) := by
  intro cache sound
  refine Ends.map ((hm cache sound).imp ?_)
  rintro _ cache' ⟨rfl, sound'⟩
  exact ⟨rfl, sound'⟩

theorem keep {declaration : Option NodeId} {usage : Usage} {build : RegionM Chain} {chain : Chain}
    (hkey : ∀ node, declaration = some node → p.keyScope ⟨node, usage⟩ = .ok (some chain))
    (hbuild : p.Fetches build chain) : p.Fetches (Program.keep declaration usage build) chain := by
  intro cache sound
  unfold Program.keep
  cases declaration with
  | none => exact hbuild cache sound
  | some node =>
    refine Ends.bind_get ?_
    have hnode := hkey node rfl
    cases hget : cache.get? ⟨node, usage⟩ with
    | some found =>
      refine Ends.pure ⟨?_, sound⟩
      have := sound _ _ hget
      rw [hnode] at this
      exact (Option.some.inj (Except.ok.inj this)).symm
    | none =>
      refine Ends.bind (hbuild cache sound) ?_
      rintro _ cache' ⟨rfl, sound'⟩
      refine Ends.bind_modify (Ends.bind_get (Ends.pure ⟨?_, sound'.publish hnode⟩))
      cases hpub : (cache'.publish ⟨node, usage⟩ _).get? ⟨node, usage⟩ with
      | none => rfl
      | some found =>
        have := sound'.publish hnode _ _ hpub
        rw [hnode] at this
        exact (Option.some.inj (Except.ok.inj this)).symm

end Fetches

/-! ### What the table holds -/

variable {data : FieldData} {i method field : Nat} {s : Symbol} {kind : SymbolKind}

section table

variable (hs : p.symbols.symbols[i]? = some s)
include hs

theorem declaration?_eq : p.symbols.declaration? i = .ok s.declaration :=
  SymbolTable.map_fetch _ hs

theorem containing?_eq : p.symbols.containing? i = .ok s.containing :=
  SymbolTable.map_fetch _ hs

theorem method?_eq : p.symbols.method? i = .ok s.kind.method? :=
  SymbolTable.map_kind _ hs

theorem field?_eq : p.symbols.field? i = .ok s.kind.field? :=
  SymbolTable.map_kind _ hs

theorem parameter?_eq : p.symbols.parameter? i = .ok s.kind.parameter? :=
  SymbolTable.map_kind _ hs

end table

theorem method?_eq_some {data : MethodData} (h : kind.method? = some data) : kind = .method data := by
  cases kind <;> simp_all [SymbolKind.method?]

theorem field?_eq_some (h : kind.field? = some data) : kind = .field data := by
  cases kind <;> simp_all [SymbolKind.field?]

theorem parameter?_eq_some {data : ParameterData} (h : kind.parameter? = some data) :
    kind = .parameter data := by
  cases kind <;> simp_all [SymbolKind.parameter?]

/-- A method is an entry of the table. -/
theorem exists_of_method? {data : MethodData} (h : p.symbols.method? i = .ok (some data)) :
    ∃ s, p.symbols.symbols[i]? = some s ∧ s.kind = .method data := by
  obtain ⟨s, hs, hdata⟩ := SymbolTable.exists_of_map_kind h
  exact ⟨s, hs, method?_eq_some hdata⟩

/-- A field is an entry of the table. -/
theorem exists_of_field? (h : p.symbols.field? i = .ok (some data)) :
    ∃ s, p.symbols.symbols[i]? = some s ∧ s.kind = .field data := by
  obtain ⟨s, hs, hdata⟩ := SymbolTable.exists_of_map_kind h
  exact ⟨s, hs, field?_eq_some hdata⟩

/-! ### Asking for chains -/

theorem globalChain_fetches : p.Fetches p.globalChain p.globalScope := by
  refine .keep ?_ (.pure _)
  rintro _ ⟨rfl⟩
  unfold keyScope
  rw [if_pos ⟨rfl, rfl⟩]
  rfl

theorem codeScope_eq {method : SymbolId} {outer : Chain} (h : p.signatureScope method = .ok outer)
    (root : NodeId) (flags : Flags) :
    p.codeScope method root flags = .ok ((outer.push (.inMethod (.symbol method)) flags).push
      (.code root (.symbol method) 0) {}) := by
  unfold codeScope
  rw [h]
  rfl

variable (formed : p.Formed)
include formed

theorem globalScope_outside : p.globalScope.Outside p := by
  refine Chain.Outside.push ⟨?_, ?_⟩ _ _ formed.table.size_pos rfl
  all_goals
    intro frame hframe
    rw [List.mem_singleton.1 hframe]
    trivial

theorem Formed.ne_root {n : NodeId} {node : Node} (hnode : p.tree.node? n = some node)
    (hkind : node.isCompilationUnit = false) :
    n ≠ p.tree.root := by
  rintro rfl
  obtain ⟨members, hroot⟩ := formed.linked.root_eq
  rw [hnode] at hroot
  obtain rfl := Option.some.inj hroot
  simp [Node.isCompilationUnit] at hkind

/-- A key of a node below the root belongs to the symbol that the node declares, and so do the
signature and the base of the root. -/
theorem Formed.keyScope_eq {n : NodeId} {usage : Usage} (hs : p.symbols.symbols[i]? = some s)
    (hn : s.declaration = some n) (hne : n ≠ p.tree.root ∨ usage ≠ .normal ∧ usage ≠ .script) :
    p.keyScope ⟨n, usage⟩ = p.ownScope i s.kind usage := by
  unfold keyScope
  rw [if_neg (by rintro ⟨h, h'⟩; exact hne.elim (· h) (·.1 h')),
    if_neg (by rintro ⟨h, h'⟩; exact hne.elim (· h) (·.2 h')),
    formed.table.declaredAt?_iff.2 ⟨_, hs, hn⟩]
  simp only [SymbolTable.kind, SymbolTable.map_fetch _ hs, bind, Except.bind]

theorem containerChain_spec {list : List SymbolId} (path : p.symbols.IsContainerPath list) :
    ∃ chain, p.containerScope list = .ok chain ∧ chain.Outside p ∧
      p.Fetches (p.containerChain list) chain := by
  induction list with
  | nil => exact ⟨_, rfl, globalScope_outside formed, globalChain_fetches⟩
  | cons type outer ih =>
    obtain ⟨htype, hcontainers, hpath⟩ := path
    obtain ⟨chain, hchain, houtside, hfetches⟩ := ih hpath
    obtain ⟨s, hs⟩ := SymbolTable.exists_of_lt htype
    have hisType : p.symbols.isType type = .ok s.isType := SymbolTable.map_fetch _ hs
    have hdecl := declaration?_eq hs
    cases hb : s.isType with
    | false =>
      refine ⟨p.globalScope, ?_, globalScope_outside formed, ?_⟩
      · rw [containerScope, hisType, hb]
        rfl
      · rw [containerChain]
        exact .bind_lift (hisType.trans (by rw [hb])) globalChain_fetches
    | true =>
      have hscope : p.containerScope (type :: outer) = .ok
          ((chain.push (.inContainer type) {}).push (.templateParameters type) {}) := by
        rw [containerScope, hisType, hb, hchain]
        rfl
      refine ⟨_, hscope, (houtside.push (.inContainer type) _ htype rfl).push
        (.templateParameters type) _ htype rfl, ?_⟩
      rw [containerChain]
      refine .bind_lift (hisType.trans (by rw [hb])) (.bind_lift hdecl (.keep ?_ ?_))
      · intro node hnode
        have hkind : ∃ data, s.kind = .type data := by
          cases hk : s.kind <;> simp_all [Symbol.isType]
        obtain ⟨data, hkind⟩ := hkind
        have hdeclared := formed.table.declared_of_kind hs hkind
        simp only [Symbol.Declared] at hdeclared
        split at hdeclared
        · rw [hdeclared.1] at hnode
          simp at hnode
        · obtain ⟨n, _, _, _, hn, hclass⟩ := hdeclared
          obtain rfl := Option.mem_unique hn hnode
          rw [formed.keyScope_eq hs hn (.inl (formed.ne_root hclass rfl)), hkind]
          unfold ownScope insideScope
          rw [if_neg (by decide), if_neg (by decide), if_neg (by decide), hcontainers]
          simp [hscope, Functor.map, Except.map, bind, Except.bind]
      · exact .bind hfetches (.pure _)

theorem insideChain_spec {symbol : Nat} (h : symbol < p.symbols.size) :
    ∃ list chain, p.symbols.containers symbol = .ok list ∧ p.insideScope symbol = .ok chain ∧
      chain.Outside p ∧ p.Fetches (p.containerChain list) chain := by
  obtain ⟨rest, hlist, hpath⟩ := formed.table.containers_path symbol h
  obtain ⟨chain, hchain, houtside, hfetches⟩ := containerChain_spec formed hpath
  refine ⟨_, chain, hlist, ?_, houtside, hfetches⟩
  unfold insideScope
  rw [hlist]
  exact hchain

theorem outerChain_spec {symbol : Nat} (h : symbol < p.symbols.size) :
    ∃ chain, p.outerScope symbol = .ok chain ∧ chain.Outside p ∧
      p.Fetches (p.outerChain symbol) chain := by
  obtain ⟨rest, hlist, hpath⟩ := formed.table.containers_path symbol h
  obtain ⟨chain, hchain, houtside, hfetches⟩ := containerChain_spec formed hpath.2.2
  refine ⟨chain, ?_, houtside, .bind_lift hlist hfetches⟩
  unfold outerScope
  rw [hlist]
  exact hchain

/-- A chain of one scope more than what lies around a symbol. -/
theorem memberChain_spec (hs : p.symbols.symbols[i]? = some s) {kind : FrameKind} {usage : Usage}
    (hkind : kind.Known p) (hcode : kind.isCode = false)
    (hkey : ∀ node, s.declaration = some node → p.keyScope ⟨node, usage⟩ =
      some <$> (return (← p.outerScope i).push kind {} : Except Fault Chain)) :
    ∃ chain, (return (← p.outerScope i).push kind {} : Except Fault Chain) = .ok chain ∧
      chain.Outside p ∧ p.Fetches (do keep (← p.symbols.declaration? i) usage do
        return (← p.outerChain i).push kind {}) chain := by
  obtain ⟨outer, houter, houtside, hfetches⟩ := outerChain_spec formed (SymbolTable.lt_of_getElem? hs)
  rw [houter] at hkey ⊢
  exact ⟨_, rfl, houtside.push _ _ hkind hcode, .bind_lift (declaration?_eq hs)
    (.keep hkey (.bind hfetches (.pure _)))⟩

theorem signatureChain_spec (h : method < p.symbols.size) :
    ∃ chain, p.signatureScope method = .ok chain ∧ chain.Outside p ∧
      p.Fetches (p.signatureChain method) chain := by
  obtain ⟨s, hs⟩ := SymbolTable.exists_of_lt h
  refine memberChain_spec formed hs h rfl fun node hnode => ?_
  rw [formed.keyScope_eq hs hnode (.inr (by decide))]
  unfold ownScope
  rw [if_neg (by decide), if_pos rfl]
  rfl

theorem baseChain_spec {type : Nat} (h : type < p.symbols.size) :
    ∃ chain, p.baseScope type = .ok chain ∧ chain.Outside p ∧
      p.Fetches (p.baseChain type) chain := by
  obtain ⟨s, hs⟩ := SymbolTable.exists_of_lt h
  refine memberChain_spec formed hs h rfl fun node hnode => ?_
  rw [formed.keyScope_eq hs hnode (.inr (by decide))]
  unfold ownScope
  rw [if_neg (by decide), if_neg (by decide), if_pos rfl]
  rfl

/-- The chain of a member that the root does not declare. -/
theorem fieldChain_spec (hs : p.symbols.symbols[field]? = some s)
    (hne : s.declaration ≠ some p.tree.root) :
    ∃ chain, p.fieldScope field = .ok chain ∧ chain.Outside p ∧
      p.Fetches (p.fieldChain field) chain := by
  refine memberChain_spec formed hs (SymbolTable.lt_of_getElem? hs) rfl fun node hnode => ?_
  rw [formed.keyScope_eq hs hnode (.inl fun heq => hne (heq ▸ hnode))]
  unfold ownScope
  rw [if_pos rfl]
  rfl

/-- Fields are declared below the root. -/
theorem Formed.declaration_ne_root (hs : p.symbols.symbols[field]? = some s)
    (hkind : s.kind = .field data) :
    s.declaration ≠ some p.tree.root := by
  obtain ⟨n, _, hn, _, hnode⟩ := formed.table.declared_of_kind hs hkind
  intro hroot
  exact formed.ne_root hnode rfl (Option.mem_unique hn hroot)

/-! ### Code -/

theorem codeScope_spec (h : method < p.symbols.size) {root : NodeId} (hroot : root < p.tree.size)
    (flags : Flags) :
    ∃ chain, p.codeScope method root flags = .ok chain ∧ chain.IsRegion p root ∧
      chain.method? = some (.symbol method) ∧
      p.Fetches (do
        let inMethod := (← p.signatureChain method).push (.inMethod (.symbol method)) flags
        return inMethod.push (.code root (.symbol method) 0) {}) chain := by
  obtain ⟨outer, houter, houtside, hfetches⟩ := signatureChain_spec formed h
  refine ⟨_, codeScope_eq houter root flags, ⟨hroot, _, _, _, rfl, ?_⟩, ?_, .bind hfetches (.pure _)⟩
  · exact houtside.push _ _ h rfl
  · rfl

theorem entry?_lt {entry : Nat} (h : p.symbols.entry? = some entry) :
    entry < p.symbols.size :=
  formed.table.lookup_lt (List.mem_of_head? h)

theorem scriptChain_spec :
    ∃ found, p.scriptScope = .ok found ∧ p.Fetches p.scriptChain found ∧
      (∀ chain, found = some chain → chain.IsRegion p p.tree.root ∧
        ∃ entry, p.symbols.entry? = some entry ∧ chain.method? = some (.symbol entry)) ∧
      (found = none → p.symbols.entry? = none) := by
  cases hentry : p.symbols.entry? with
  | none =>
    refine ⟨none, ?_, ?_, by simp, fun _ => rfl⟩
    · unfold scriptScope
      rw [hentry]
      rfl
    · unfold scriptChain
      rw [hentry]
      exact .pure _
  | some entry =>
    obtain ⟨chain, hchain, hregion, hmethod, hfetches⟩ := codeScope_spec formed
      (entry?_lt formed hentry) formed.linked.root_lt {}
    have hscript : p.scriptScope = .ok (some chain) := by
      unfold scriptScope
      rw [hentry]
      simp only [hchain, bind, Except.bind]
      rfl
    refine ⟨some chain, hscript, ?_, ?_, by simp⟩
    · unfold scriptChain
      rw [hentry]
      refine .bind (.keep ?_ hfetches) (.pure _)
      rintro _ ⟨rfl⟩
      unfold keyScope
      rw [if_neg (by simp [Usage.script, Usage.normal]), if_pos ⟨rfl, rfl⟩]
      exact hscript
    · rintro _ ⟨rfl⟩
      exact ⟨hregion, entry, rfl, hmethod⟩

/-- The body of a method, and which node it starts from. -/
theorem bodyChain_spec {data : MethodData} (hs : p.symbols.symbols[method]? = some s)
    (hkind : s.kind = .method data) :
    ∃ found, p.bodyScope method = .ok found ∧ p.Fetches (p.bodyChain method) found ∧
      (∀ chain, found = some chain → if data.isEntry then chain.IsRegion p p.tree.root ∧
          ∃ entry, p.symbols.entry? = some entry ∧ chain.method? = some (.symbol entry)
        else ∃ body, data.body = some body ∧ chain.IsRegion p body ∧
          chain.method? = some (.symbol method)) ∧
      (found = none → p.symbols.entry? = none ∧ data.isEntry = true) := by
  have hdata : p.symbols.method? method = .ok (some data) := by
    rw [method?_eq hs, hkind]
    rfl
  have hdeclared := formed.table.declared_of_kind hs hkind
  simp only [Symbol.Declared] at hdeclared
  split at hdeclared
  · next hentry =>
    obtain ⟨found, hfound, hfetches, hregion, hnone⟩ := scriptChain_spec formed
    refine ⟨found, ?_, ?_, fun chain hchain => ?_, fun h => ⟨hnone h, hentry⟩⟩
    · unfold bodyScope
      rw [hdata]
      simp only [bind, Except.bind, hentry, if_true]
      exact hfound
    · refine .bind_lift hdata ?_
      simp only [hentry, if_true]
      exact hfetches
    · rw [if_pos hentry]
      exact hregion chain hchain
  · next hentry =>
    obtain ⟨n, _, _, body, hn, hbody, hnode⟩ := hdeclared
    have hlt : body < p.tree.size := Tree.child_lt_size hnode (by simp)
    obtain ⟨chain, hchain, hregion, hmethod, hfetches⟩ := codeScope_spec formed
      (SymbolTable.lt_of_getElem? hs) hlt { lowLevel := data.isLowLevel }
    have hdecl : p.symbols.declaration? method = .ok (some n) := by rw [declaration?_eq hs, hn]
    have hscope : p.bodyScope method = .ok (some chain) := by
      unfold bodyScope
      rw [hdata]
      simp only [bind, Except.bind, hentry, hdecl, hbody, hchain]
      rfl
    refine ⟨some chain, hscope, ?_, ?_, by simp⟩
    · refine .bind_lift hdata ?_
      dsimp only
      rw [if_neg hentry, hbody]
      refine .bind_lift hdecl (.bind (.keep ?_ hfetches) (.pure _))
      rintro _ ⟨rfl⟩
      rw [formed.keyScope_eq hs hn (.inl (formed.ne_root hnode rfl)), hkind]
      exact hscope
    · rintro _ ⟨rfl⟩
      rw [if_neg hentry]
      exact ⟨body, hbody, hregion, hmethod⟩

theorem defaultChain_spec {parameter : Nat} (hs : p.symbols.symbols[parameter]? = some s) :
    ∃ found, p.defaultScope parameter = .ok found ∧ p.Fetches (p.defaultChain parameter) found ∧
      (∀ chain, found = some chain → ∃ data value method, s.kind = .parameter data ∧
        data.defaultValue = some value ∧ s.containing = some method ∧ chain.IsRegion p value) ∧
      (found = none → s.kind.parameter?.bind (·.defaultValue) = none) := by
  have h := SymbolTable.lt_of_getElem? hs
  have hparameter := parameter?_eq hs
  have hcontaining := containing?_eq hs
  have hdecl := declaration?_eq hs
  cases hvalue : s.kind.parameter?.bind (·.defaultValue) with
  | none =>
    refine ⟨none, ?_, ?_, by simp, fun _ => rfl⟩
    · unfold defaultScope
      simp only [hparameter, hcontaining, hdecl, bind, Except.bind, hvalue]
      rfl
    · refine .bind_lift hparameter (.bind_lift hcontaining (.bind_lift hdecl ?_))
      rw [hvalue]
      exact .pure _
  | some value =>
    obtain ⟨data, hdata, hdefault⟩ := Option.bind_eq_some_iff.1 hvalue
    have hkind := parameter?_eq_some hdata
    obtain ⟨n, hn, hnode⟩ := formed.table.declared_of_kind hs hkind
    rw [hn] at hdecl
    obtain ⟨method, hmethod⟩ : ∃ method, s.containing = some method := by
      rcases (formed.table.entry hs).containing with ⟨rfl, -⟩ | ⟨method, hmethod, -⟩
      · obtain ⟨global, members, hglobal, hkind'⟩ := formed.table.global_eq
        obtain rfl := Option.mem_unique hs hglobal
        cases hkind.symm.trans hkind'
      · exact ⟨method, hmethod⟩
    have hlt : value < p.tree.size := Tree.child_lt_size hnode (by simp [hdefault])
    obtain ⟨outer, houter, houtside, hfetches⟩ := signatureChain_spec formed
      (Nat.lt_trans (formed.table.containing_lt hs hmethod) h)
    have hscope : p.defaultScope parameter = .ok (some ((outer.push (.plain none)
        { inDefaultValue := true }).push (.code value (.symbol method) 0) {})) := by
      unfold defaultScope
      simp only [hparameter, hcontaining, hdecl, bind, Except.bind, hvalue, hmethod, houter]
      rfl
    refine ⟨_, hscope, ?_, ?_, by simp⟩
    · refine .bind_lift hparameter (.bind_lift hcontaining (.bind_lift hdecl ?_))
      rw [hvalue, hmethod]
      refine .bind (.keep ?_ (.bind hfetches (.pure _))) (.pure _)
      rintro _ ⟨rfl⟩
      rw [formed.keyScope_eq hs hn (.inl (formed.ne_root hnode rfl)), hkind]
      exact hscope
    · rintro _ ⟨rfl⟩
      exact ⟨data, value, method, hkind, hdefault, hmethod, hlt, _, _, _, rfl,
        houtside.push _ _ trivial rfl⟩

theorem initializerChain_spec (hs : p.symbols.symbols[field]? = some s) :
    ∃ found, p.initializerScope field = .ok found ∧ p.Fetches (p.initializerChain field) found ∧
      (∀ chain, found = some chain → ∃ initializer,
        s.kind.field?.bind (·.initializer) = some initializer ∧ chain.IsRegion p initializer) ∧
      (found = none → s.kind.field?.bind (·.initializer) = none) := by
  have hfield := field?_eq hs
  have hdecl := declaration?_eq hs
  cases hinit : s.kind.field?.bind (·.initializer) with
  | none =>
    refine ⟨none, ?_, ?_, by simp, fun _ => rfl⟩
    · unfold initializerScope
      simp only [hfield, hdecl, bind, Except.bind, hinit]
      rfl
    · refine .bind_lift hfield (.bind_lift hdecl ?_)
      rw [hinit]
      exact .pure _
  | some initializer =>
    obtain ⟨data, hdata, hinitializer⟩ := Option.bind_eq_some_iff.1 hinit
    have hkind := field?_eq_some hdata
    obtain ⟨n, modifiers, hn, -, hnode⟩ := formed.table.declared_of_kind hs hkind
    rw [hn] at hdecl
    obtain ⟨outer, houter, houtside, hfetches⟩ := fieldChain_spec formed hs
      (formed.declaration_ne_root hs hkind)
    have hlt : initializer < p.tree.size :=
      Tree.child_lt_size hnode (by simp [hinitializer])
    have hscope : p.initializerScope field = .ok (some (outer.push
        (.code initializer (.symbol field) 0) { inInitializer := true })) := by
      unfold initializerScope
      simp only [hfield, hdecl, bind, Except.bind, hinit, houter]
      rfl
    refine ⟨_, hscope, ?_, ?_, by simp⟩
    · refine .bind_lift hfield (.bind_lift hdecl ?_)
      rw [hinit]
      refine .bind (.keep ?_ (.bind hfetches (.pure _))) (.pure _)
      rintro _ ⟨rfl⟩
      rw [formed.keyScope_eq hs hn (.inl (formed.ne_root hnode rfl)), hkind]
      exact hscope
    · rintro _ ⟨rfl⟩
      exact ⟨initializer, rfl, hlt, _, _, _, rfl, houtside⟩

end Program
end Bindery
