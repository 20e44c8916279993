import Bindery.Proofs.BaseResolution
import Bindery.Proofs.RegionChains

/-! # Kept chains are transparent

Chains are kept under a node and a usage, and usages of different constructs have the same bits.
Yet a query never gets a chain that was made for another one: whatever was asked before, it answers
what it answers when nothing is kept (`Program.kept_chains_transparent`).

One key is shared by two queries, the global region and the field region of the entry method, which
the root declares.  Making the second chain makes the first one on the way, and the chain that is
kept first stays, so both answer with the global scope (`Program.fieldChain_root_fetches`). -/

namespace Bindery

namespace SymbolTable

variable {tree : Tree} {t : SymbolTable}

variable {id : Nat}

theorem fetch_of_size_le (h : t.size ≤ id) : t.fetch id = .error (.outOfRange t.size id) := by
  have hnone : t.symbols[id]? = none := Array.getElem?_eq_none h
  simp [fetch, hnone]

theorem declaration?_of_size_le (h : t.size ≤ id) :
    t.declaration? id = .error (.outOfRange t.size id) := by
  rw [declaration?, fetch_of_size_le h]
  rfl

theorem kind_of_size_le (h : t.size ≤ id) : t.kind id = .error (.outOfRange t.size id) := by
  rw [SymbolTable.kind, fetch_of_size_le h]
  rfl

theorem containers_of_size_le (h : t.size ≤ id) :
    t.containers id = .error (.outOfRange t.size id) := by
  rw [containers, walkLimit, follow, containing?, fetch_of_size_le h]
  rfl

/-- The containers of a symbol start with the symbol and what it lies in. -/
theorem Formed.containers_tail (formed : t.Formed tree) {i c : Nat} {s : Symbol}
    (hs : t.symbols[i]? = some s) (hc : s.containing = some c) :
    ∃ rest, t.containers i = .ok (i :: c :: rest) := by
  have hi := lt_of_getElem? hs
  have hlt := formed.containing_lt hs hc
  obtain ⟨rest, hrest, -⟩ := formed.containers_path c (Nat.lt_trans hlt hi)
  have hcontaining : t.containing? i = .ok (some c) := hc ▸ map_fetch _ hs
  refine ⟨rest, ?_⟩
  have hfuel := formed.follow_eq (m := t.size) (n := t.walkLimit) (i := c) (by omega) (by omega)
    (by unfold walkLimit; omega)
  unfold containers at hrest ⊢
  rw [walkLimit, follow, hcontaining]
  simp only [bind, Except.bind, hfuel, hrest]
  rfl

end SymbolTable

/-- The regions that belong to a symbol. -/
def Region.ofSymbol (symbol : SymbolId) : List Region :=
  [.container symbol, .base symbol, .signature symbol, .body symbol, .defaultValue symbol,
    .field symbol, .initializer symbol]

namespace Program

variable {p : Program} (formed : p.Formed) (holds : p.symbols.HoldsEntry p.tree)

variable {i symbol : Nat} {region : Region} {s : Symbol}

/-! ### The entry method -/

/-- Once the global scope was asked for, it is kept. -/
theorem globalChain_kept {kept : RegionCache} (sound : p.CacheSound kept) :
    Succeeds p.globalChain kept fun chain kept' => chain = p.globalScope ∧ p.CacheSound kept' ∧
      kept'.get? ⟨p.tree.root, .normal⟩ = some p.globalScope := by
  have hkept : Succeeds p.globalChain kept fun _ kept' =>
      (kept'.get? ⟨p.tree.root, .normal⟩).isSome = true := by
    unfold globalChain keep
    refine Ends.bind_get ?_
    cases hget : kept.get? ⟨p.tree.root, .normal⟩ with
    | some found => exact Ends.pure (by simp [hget])
    | none =>
      refine Ends.bind (R := fun _ same => same = kept) (Ends.pure rfl) ?_
      rintro _ _ rfl
      refine Ends.bind_modify (Ends.bind_get (Ends.pure ?_))
      rw [Registry.get?_publish_self _ hget]
      rfl
  refine ((globalChain_fetches kept sound).and hkept).imp ?_
  rintro chain kept' ⟨⟨rfl, sound'⟩, hsome⟩
  obtain ⟨found, hfound⟩ := Option.isSome_iff_exists.1 hsome
  have hkey := sound' _ _ hfound
  unfold keyScope at hkey
  rw [if_pos ⟨rfl, rfl⟩] at hkey
  obtain rfl := Option.some.inj (Except.ok.inj hkey)
  exact ⟨rfl, sound', hfound⟩

section entry

variable (hs : p.symbols.symbols[i]? = some s) (hroot : s.declaration = some p.tree.root)
include formed hs hroot

/-- Only the entry method is declared by the root. -/
theorem Formed.isEntry_of_root : s.kind.isEntry = true := by
  rcases (formed.table.entry hs).declared.cases with ⟨-, h⟩ | ⟨n, node, hn, hnode, hdeclares, -⟩
  · exact (h _ hroot).2
  · exact absurd (Option.mem_unique hn hroot) (formed.ne_root hnode (by
      cases node <;> simp_all [Node.isDeclaration, Node.isCompilationUnit]))

include holds

theorem containing_of_root : s.containing = some SymbolTable.global := by
  have hglobals := holds.globals hs (formed.isEntry_of_root hs hroot)
  obtain ⟨j, u, hu, hentry, -, hplace⟩ := holds.exists_entry hglobals
  obtain rfl := formed.table.declared_once hs hu hroot ((formed.table.entry hu).declared.entry hentry)
  obtain rfl := Option.mem_unique hs hu
  exact hplace

/-- The field region of the entry method is the global one. -/
theorem fieldChain_root_fetches : p.Fetches (p.fieldChain i) p.globalScope := by
  obtain ⟨rest, hcontainers⟩ :=
    formed.table.containers_tail hs (containing_of_root formed holds hs hroot)
  obtain ⟨global, members, hglobal, hkind⟩ := formed.table.global_eq
  have hisType : p.symbols.isType SymbolTable.global = .ok false :=
    (SymbolTable.map_fetch _ hglobal).trans (by simp [Symbol.isType, hkind])
  have houter : p.outerChain i = p.globalChain := by
    unfold outerChain
    rw [hcontainers]
    change p.containerChain (SymbolTable.global :: rest) = _
    rw [containerChain, hisType]
    rfl
  refine .bind_lift ((declaration?_eq hs).trans (congrArg _ hroot)) fun kept sound => ?_
  unfold keep
  refine Ends.bind_get ?_
  cases hget : kept.get? ⟨p.tree.root, .normal⟩ with
  | some found =>
    have hkey := sound _ _ hget
    unfold keyScope at hkey
    rw [if_pos ⟨rfl, rfl⟩] at hkey
    exact Ends.pure ⟨(Option.some.inj (Except.ok.inj hkey)).symm, sound⟩
  | none =>
    -- the global scope is kept before this chain could be
    rw [houter]
    refine Ends.bind (Ends.bind (globalChain_kept sound) fun chain kept' h =>
      Ends.pure (Q := fun _ kept' => p.CacheSound kept' ∧
        kept'.get? ⟨p.tree.root, .normal⟩ = some p.globalScope) h.2) ?_
    rintro chain kept' ⟨sound', hkept⟩
    refine Ends.bind_modify (Ends.bind_get (Ends.pure ?_))
    rw [Registry.publish_of_get? chain hkept, hkept]
    exact ⟨rfl, sound'⟩

end entry

/-! ### Queries -/

/-- The answer to a query, and the chains that are kept after it. -/
def query (p : Program) (region : Region) (kept : RegionCache) :
    Except Fault (Option Chain) × RegionCache :=
  match p.fetch region kept with
  | .ok found kept => (.ok found, kept)
  | .error fault kept => (.error fault, kept)

/-- The answers to queries that are made one after the other. -/
def queries (p : Program) : List Region → RegionCache → List (Except Fault (Option Chain))
  | [], _ => []
  | region :: rest, kept => (p.query region kept).1 :: p.queries rest (p.query region kept).2

/-- From any sound cache, the query for a region has the same answer and leaves a sound cache. -/
def Answers (p : Program) (region : Region) (answer : Except Fault (Option Chain)) : Prop :=
  ∀ kept, p.CacheSound kept →
    (p.query region kept).1 = answer ∧ p.CacheSound (p.query region kept).2

theorem Fetches.answers {found : Option Chain} (h : p.Fetches (p.fetch region) found) :
    p.Answers region (.ok found) := by
  intro kept sound
  obtain ⟨_, kept', hfetch, rfl, sound'⟩ := (h kept sound).exists_ok
  unfold query
  rw [hfetch]
  exact ⟨rfl, sound'⟩

theorem answers_of_fault {fault : Fault} (h : ∀ kept, p.fetch region kept = .error fault kept) :
    p.Answers region (.error fault) := by
  intro kept sound
  unfold query
  rw [h kept]
  exact ⟨rfl, sound⟩

/-- A query about a symbol that does not exist faults before it looks at what is kept. -/
theorem answers_of_size_le (h : p.symbols.size ≤ symbol)
    (hregion : region ∈ Region.ofSymbol symbol) :
    p.Answers region (.error (.outOfRange p.symbols.size symbol)) := by
  have hcontainers := SymbolTable.containers_of_size_le h
  have hdeclaration := SymbolTable.declaration?_of_size_le h
  have hkind := SymbolTable.kind_of_size_le h
  refine answers_of_fault fun kept => ?_
  simp only [Region.ofSymbol, List.mem_cons, List.not_mem_nil, or_false] at hregion
  rcases hregion with rfl | rfl | rfl | rfl | rfl | rfl | rfl
  · rw [fetch, hcontainers]
    rfl
  · rw [fetch, baseChain, hdeclaration]
    rfl
  · rw [fetch, signatureChain, hdeclaration]
    rfl
  · rw [fetch, bodyChain, SymbolTable.method?, hkind]
    rfl
  · rw [fetch, defaultChain, SymbolTable.parameter?, hkind]
    rfl
  · rw [fetch, fieldChain, hdeclaration]
    rfl
  · rw [fetch, initializerChain, SymbolTable.field?, hkind]
    rfl

include formed holds

theorem fieldChain_fetches (h : symbol < p.symbols.size) :
    ∃ chain, p.Fetches (p.fieldChain symbol) chain ∧ chain.Known p := by
  obtain ⟨s, hs⟩ := SymbolTable.exists_of_lt h
  by_cases hroot : s.declaration = some p.tree.root
  · exact ⟨_, fieldChain_root_fetches formed holds hs hroot, (globalScope_outside formed).known⟩
  · obtain ⟨chain, -, houtside, hfetches⟩ := fieldChain_spec formed hs hroot
    exact ⟨chain, hfetches, houtside.known⟩

omit holds in
theorem bodyChain_fetches (h : symbol < p.symbols.size) :
    ∃ found, p.Fetches (p.bodyChain symbol) found ∧ ∀ chain, found = some chain → chain.Known p := by
  obtain ⟨s, hs⟩ := SymbolTable.exists_of_lt h
  cases hdata : s.kind.method? with
  | none =>
    have hmethod : p.symbols.method? symbol = .ok none := by rw [method?_eq hs, hdata]
    exact ⟨none, .bind_lift hmethod (.pure none), by simp⟩
  | some data =>
    obtain ⟨found, -, hfetches, hregion, -⟩ := bodyChain_spec formed hs (method?_eq_some hdata)
    refine ⟨found, hfetches, fun chain hchain => ?_⟩
    have hregion := hregion chain hchain
    split at hregion
    · exact hregion.1.known
    · obtain ⟨_, -, hregion, -⟩ := hregion
      exact hregion.known

/-- What a query about an existing symbol fetches. -/
theorem exists_fetches (h : symbol < p.symbols.size) (hregion : region ∈ Region.ofSymbol symbol) :
    ∃ found, p.Fetches (p.fetch region) found ∧ ∀ chain, found = some chain → chain.Known p := by
  have only : ∀ {chain : Chain}, chain.Known p → ∀ other, some chain = some other → other.Known p :=
    fun hknown _ heq => Option.some.inj heq ▸ hknown
  obtain ⟨s, hs⟩ := SymbolTable.exists_of_lt h
  simp only [Region.ofSymbol, List.mem_cons, List.not_mem_nil, or_false] at hregion
  rcases hregion with rfl | rfl | rfl | rfl | rfl | rfl | rfl
  · obtain ⟨list, chain, hlist, -, houtside, hfetches⟩ := insideChain_spec formed h
    exact ⟨some chain, .bind_lift hlist (.bind hfetches (.pure _)), only houtside.known⟩
  · obtain ⟨chain, -, houtside, hfetches⟩ := baseChain_spec formed h
    exact ⟨some chain, hfetches.map, only houtside.known⟩
  · obtain ⟨chain, -, houtside, hfetches⟩ := signatureChain_spec formed h
    exact ⟨some chain, hfetches.map, only houtside.known⟩
  · exact bodyChain_fetches formed h
  · obtain ⟨found, -, hfetches, hregion, -⟩ := defaultChain_spec formed hs
    refine ⟨found, hfetches, fun chain hchain => ?_⟩
    obtain ⟨_, _, _, -, -, -, hregion⟩ := hregion chain hchain
    exact hregion.known
  · obtain ⟨chain, hfetches, hknown⟩ := fieldChain_fetches formed holds h
    exact ⟨some chain, hfetches.map, only hknown⟩
  · obtain ⟨found, -, hfetches, hregion, -⟩ := initializerChain_spec formed hs
    refine ⟨found, hfetches, fun chain hchain => ?_⟩
    obtain ⟨_, -, hregion⟩ := hregion chain hchain
    exact hregion.known

/-- Every query has one answer, whatever is kept, and a chain that it gives refers to what
exists. -/
theorem exists_answer (region : Region) :
    ∃ answer, p.Answers region answer ∧ ∀ chain, answer = .ok (some chain) → chain.Known p := by
  have answered : ∀ {found : Option Chain}, p.Fetches (p.fetch region) found →
      (∀ chain, found = some chain → chain.Known p) →
      ∃ answer, p.Answers region answer ∧ ∀ chain, answer = .ok (some chain) → chain.Known p :=
    fun hfetches hknown =>
      ⟨_, hfetches.answers, fun chain hchain => hknown chain (Except.ok.inj hchain)⟩
  have asked : ∀ symbol : Nat, region ∈ Region.ofSymbol symbol →
      ∃ answer, p.Answers region answer ∧ ∀ chain, answer = .ok (some chain) → chain.Known p := by
    intro symbol hregion
    rcases Nat.lt_or_ge symbol p.symbols.size with hlt | hge
    · obtain ⟨found, hfetches, hknown⟩ := exists_fetches formed holds hlt hregion
      exact answered hfetches hknown
    · exact ⟨_, answers_of_size_le hge hregion, by simp⟩
  cases region with
  | global =>
    refine answered (.map globalChain_fetches) ?_
    rintro _ ⟨rfl⟩
    exact (globalScope_outside formed).known
  | script =>
    obtain ⟨found, -, hfetches, hregion, -⟩ := scriptChain_spec formed
    exact answered hfetches fun chain hchain => (hregion chain hchain).1.known
  | container symbol | base symbol | signature symbol | body symbol | defaultValue symbol
  | field symbol | initializer symbol => exact asked symbol (by simp [Region.ofSymbol])

theorem queries_eq (regions : List Region) {kept : RegionCache} (sound : p.CacheSound kept) :
    p.queries regions kept = regions.map fun region => (p.query region {}).1 := by
  induction regions generalizing kept with
  | nil => rfl
  | cons region rest ih =>
    obtain ⟨answer, hanswer, -⟩ := exists_answer formed holds region
    obtain ⟨hhere, sound'⟩ := hanswer kept sound
    rw [queries, List.map_cons, ih sound', hhere, (hanswer {} cacheSound_empty).1]

omit formed holds

/-- The answers to any sequence of queries about the regions of a tree, under any flags, are those
that each query has when nothing is kept. -/
theorem kept_chains_transparent {d : Document} {tree : Tree} (h : Tree.ofDocument d = .ok tree)
    (libraryTypes : List String) (flags : Flags) :
    ∃ declared, Declarations.declare tree libraryTypes = .ok () declared ∧ ∀ regions : List Region,
      Program.queries { tree, symbols := declared.table, flags } regions {} =
        regions.map fun region =>
          (Program.query { tree, symbols := declared.table, flags } region {}).1 := by
  have linked := Tree.ofDocument_linked h
  obtain ⟨declared, hrun, hformed, holds⟩ := Declarations.declare_formed linked libraryTypes
  exact ⟨declared, hrun, fun regions => queries_eq ⟨linked, hformed⟩ holds regions cacheSound_empty⟩

/-- `m(int x = 1) {}  2;` -/
def sharedKeysDocument : Document := ⟨"shared", [
  .typeName "int" [] false, .literal (.int 1), .parameter "x" 0 (some 1), .block [],
  .methodDeclaration "m" .none none [2] 3, .literal (.int 2), .expressionStatement 5,
  .globalStatement 6, .compilationUnit [4, 7]]⟩

/-- The method, its parameter and the entry method have the numbers `1`, `2` and `3`. -/
theorem kept_chains_transparent_entry : ∃ tree declared,
    Tree.ofDocument sharedKeysDocument = .ok tree ∧
    Declarations.declare tree [] = .ok () declared ∧ declared.table.entry? = some 3 ∧
    Program.queries { tree, symbols := declared.table, flags := .all }
      [.field 3, .global, .script, .body 1, .container 1, .defaultValue 2, .base 1, .body 3] {} =
    [.field 3, .global, .script, .body 1, .container 1, .defaultValue 2, .base 1, .body 3].map
      fun region => (Program.query { tree, symbols := declared.table, flags := .all } region {}).1 := by
  obtain ⟨tree, h⟩ : ∃ tree, Tree.ofDocument sharedKeysDocument = .ok tree := ⟨_, rfl⟩
  obtain ⟨declared, hrun, hqueries⟩ := kept_chains_transparent h [] .all
  exact ⟨tree, declared, h, hrun, Declarations.eq_of_seen? (·.table.entry?) h hrun (by decide +kernel),
    hqueries _⟩

end Program
end Bindery
