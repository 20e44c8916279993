import Bindery.Proofs.CodeAreas

/-! # Flags of the options

The options set two flags for a whole program: low-level methods may be called, and access is not
checked.  Every chain starts from them, and no frame drops them (`Chain.Carries`): neither the
frames of the scopes inside code nor those of the regions, whichever chains were kept before. -/

namespace Bindery

/-! ### Frames -/

/-- The flags of the options, where they are set, are set in other flags too. -/
structure Flags.Carries (options f : Flags) : Prop where
  lowLevel : options.lowLevel = true → f.lowLevel = true
  ignoresAccess : options.ignoresAccess = true → f.ignoresAccess = true

theorem Flags.Carries.refl (options : Flags) : options.Carries options := ⟨id, id⟩

/-- No frame drops them. -/
theorem Flags.Carries.of_parent {options parent : Flags} (h : options.Carries parent)
    (kind : FrameKind) (additional : Flags) : options.Carries (kind.flags parent additional) := by
  refine ⟨fun hset => ?_, fun hset => ?_⟩
  · cases kind <;> simp [FrameKind.flags, Flags.enterCode, Flags.union, h.lowLevel hset]
  · cases kind <;> simp [FrameKind.flags, Flags.enterCode, Flags.union, h.ignoresAccess hset]

/-- Every frame has the flags of the options. -/
structure Chain.Carries (p : Program) (chain : Chain) : Prop where
  nonempty : chain ≠ []
  frames : ∀ frame ∈ chain, p.flags.Carries frame.flags

namespace Chain

variable {p : Program} {chain : Chain}

theorem Carries.flags (h : chain.Carries p) : p.flags.Carries (Chain.flags chain) := by
  cases chain with
  | nil => exact absurd rfl h.nonempty
  | cons frame rest => exact h.frames frame List.mem_cons_self

theorem Carries.push (h : chain.Carries p) (kind : FrameKind) (additional : Flags) :
    (chain.push kind additional).Carries p := by
  refine ⟨List.cons_ne_nil _ _, fun frame hframe => ?_⟩
  rcases List.mem_cons.1 hframe with rfl | hframe
  · exact h.flags.of_parent kind additional
  · exact h.frames frame hframe

theorem carries_outermost : (outermost p.flags).Carries p := by
  refine ⟨List.cons_ne_nil _ _, fun frame hframe => ?_⟩
  rw [List.mem_singleton.1 hframe]
  exact .refl _

/-! ### Scopes inside code -/

theorem kept_carries (store : Nat) : KeptBy p store (fun _ => True) (Carries p) where
  part _ _ := trivial
  scope _ _ _ h := h.push _ _
  function _ _ h := h.push _ _
  loop h := h.push _ _
  clause h := h.push _ _

theorem inherited_carries : Inherited p (Carries p) where
  below h := ⟨List.cons_ne_nil _ _, fun f hf => h.frames f (List.mem_cons_of_mem _ hf)⟩
  region h _ hscopes :=
    (kept_carries _).rootScopes trivial (fun _ _ _ _ => trivial) (h.push _ _) h hscopes

end Chain

/-! ### Regions -/

namespace Program

variable (p : Program)

/-- Every kept chain has the flags of the options. -/
def CacheCarries (cache : RegionCache) : Prop :=
  ∀ key chain, cache.get? key = some chain → Chain.Carries p chain

/-- Whatever carrying chains are kept, `m` gives a value that satisfies `Q` and keeps no others. -/
def Carrying {α : Type} (m : RegionM α) (Q : α → Prop) : Prop :=
  ∀ cache a cache', p.CacheCarries cache → m cache = .ok a cache' → Q a ∧ p.CacheCarries cache'

variable {p}

theorem cacheCarries_empty : p.CacheCarries {} := by
  intro key chain h
  simp at h

theorem CacheCarries.publish {cache : RegionCache} (h : p.CacheCarries cache) {key : RegionKey}
    {chain : Chain} (hchain : chain.Carries p) : p.CacheCarries (cache.publish key chain) := by
  intro other found hfound
  rcases Registry.of_get?_publish hfound with hold | ⟨-, rfl⟩
  · exact h other found hold
  · exact hchain

namespace Carrying

variable {α β : Type}

theorem pure {a : α} {Q : α → Prop} (h : Q a) : p.Carrying (Pure.pure a) Q := by
  intro cache b cache' hcache hrun
  obtain ⟨rfl, rfl⟩ := EStateM.Result.ok.inj hrun
  exact ⟨h, hcache⟩

variable {Q : β → Prop} {k : α → RegionM β}

theorem bind {m : RegionM α} {R : α → Prop} (hm : p.Carrying m R)
    (hk : ∀ a, R a → p.Carrying (k a) Q) : p.Carrying (m >>= k) Q := by
  intro cache b cache' hcache hrun
  obtain ⟨a, cache₁, ha, hrun⟩ := exists_of_run_bind hrun
  obtain ⟨hR, hcache₁⟩ := hm cache a cache₁ hcache ha
  exact hk a hR cache₁ b cache' hcache₁ hrun

theorem bind_lift {x : Except Fault α} (hk : ∀ a, p.Carrying (k a) Q) :
    p.Carrying (liftM x >>= k) Q := by
  cases x with
  | ok a => exact hk a
  | error fault => exact fun _ _ _ _ hrun => by cases hrun

theorem keep {declaration : Option NodeId} {usage : Usage} {build : RegionM Chain}
    (h : p.Carrying build (Chain.Carries p)) :
    p.Carrying (Program.keep declaration usage build) (Chain.Carries p) := by
  intro cache chain cache' hcache hrun
  unfold Program.keep at hrun
  cases declaration with
  | none => exact h cache chain cache' hcache hrun
  | some node =>
    obtain ⟨_, _, hget, hrun⟩ := exists_of_run_bind hrun
    obtain ⟨rfl, rfl⟩ := EStateM.Result.ok.inj hget
    cases hfound : cache.get? ⟨node, usage⟩ with
    | some found =>
      rw [hfound] at hrun
      obtain ⟨rfl, rfl⟩ := EStateM.Result.ok.inj hrun
      exact ⟨hcache _ _ hfound, hcache⟩
    | none =>
      rw [hfound] at hrun
      obtain ⟨built, cache₁, hbuilt, hrun⟩ := exists_of_run_bind hrun
      obtain ⟨hchain, hcache₁⟩ := h cache built cache₁ hcache hbuilt
      obtain ⟨rfl, rfl⟩ := EStateM.Result.ok.inj hrun
      have hpublished : p.CacheCarries (cache₁.publish ⟨node, usage⟩ built) :=
        hcache₁.publish hchain
      refine ⟨?_, hpublished⟩
      cases hget : (cache₁.publish ⟨node, usage⟩ built).get? ⟨node, usage⟩ with
      | none => exact hchain
      | some found => exact hpublished _ _ hget

end Carrying

theorem globalChain_carrying : p.Carrying p.globalChain (Chain.Carries p) :=
  .keep (.pure (Chain.carries_outermost.push _ _))

theorem containerChain_carrying (containers : List SymbolId) :
    p.Carrying (p.containerChain containers) (Chain.Carries p) := by
  induction containers with
  | nil => exact globalChain_carrying
  | cons type outer ih =>
    unfold containerChain
    refine .bind_lift fun isType => ?_
    split
    · refine .bind_lift fun declaration => .keep (.bind ih fun chain hchain => .pure ?_)
      exact (hchain.push _ _).push _ _
    · exact globalChain_carrying

theorem outerChain_carrying (symbol : SymbolId) :
    p.Carrying (p.outerChain symbol) (Chain.Carries p) :=
  .bind_lift fun _ => containerChain_carrying _

/-- One more frame around the declaration of a symbol. -/
theorem keepOuter_carrying (symbol : SymbolId) (usage : Usage) (kind : FrameKind) :
    p.Carrying (do
      keep (← p.symbols.declaration? symbol) usage do
        return (← p.outerChain symbol).push kind {}) (Chain.Carries p) :=
  .bind_lift fun _ => .keep (.bind (outerChain_carrying symbol) fun _ h => .pure (h.push _ _))

theorem signatureChain_carrying (method : SymbolId) :
    p.Carrying (p.signatureChain method) (Chain.Carries p) := keepOuter_carrying method _ _

theorem fieldChain_carrying (field : SymbolId) :
    p.Carrying (p.fieldChain field) (Chain.Carries p) := keepOuter_carrying field _ _

/-- The chain of a region that may not exist. -/
abbrev MayCarry (p : Program) (found : Option Chain) : Prop := ∀ chain ∈ found, Chain.Carries p chain

theorem Carrying.some {m : RegionM Chain} (h : p.Carrying m (Chain.Carries p)) :
    p.Carrying (do return Option.some (← m)) p.MayCarry := by
  refine .bind h fun chain hchain => .pure ?_
  rintro _ ⟨rfl⟩
  exact hchain

theorem Carrying.none : p.Carrying (Pure.pure Option.none) p.MayCarry :=
  .pure fun _ h => absurd h (Option.not_mem_none _)

theorem scriptChain_carrying : p.Carrying p.scriptChain p.MayCarry := by
  unfold scriptChain
  split
  · exact .none
  · next entry _ =>
    refine .some (.keep (.bind (signatureChain_carrying entry) fun chain hchain => .pure ?_))
    exact (hchain.push _ _).push _ _

theorem bodyChain_carrying (method : SymbolId) : p.Carrying (p.bodyChain method) p.MayCarry := by
  refine .bind_lift fun found => ?_
  split
  · exact .none
  · split
    · exact scriptChain_carrying
    · refine .bind_lift fun declaration => ?_
      split
      · refine .some (.keep (.bind (signatureChain_carrying method) fun chain hchain => .pure ?_))
        exact (hchain.push _ _).push _ _
      · exact .none

theorem defaultChain_carrying (parameter : SymbolId) :
    p.Carrying (p.defaultChain parameter) p.MayCarry := by
  refine .bind_lift fun found => .bind_lift fun container => .bind_lift fun declaration => ?_
  split
  · next method _ _ =>
    refine .some (.keep (.bind (signatureChain_carrying method) fun chain hchain => .pure ?_))
    exact (hchain.push _ _).push _ _
  · exact .none

theorem initializerChain_carrying (field : SymbolId) :
    p.Carrying (p.initializerChain field) p.MayCarry := by
  refine .bind_lift fun found => .bind_lift fun declaration => ?_
  split
  · exact .some (.keep (.bind (fieldChain_carrying field) fun chain hchain => .pure (hchain.push _ _)))
  · exact .none

theorem fetch_carrying (region : Region) : p.Carrying (p.fetch region) p.MayCarry := by
  have some : ∀ {m : RegionM Chain}, p.Carrying m (Chain.Carries p) →
      p.Carrying (Option.some <$> m) p.MayCarry := by
    intro m hm
    rw [← bind_pure_comp]
    exact .some hm
  cases region with
  | global => exact some globalChain_carrying
  | container symbol => exact .bind_lift fun _ => .some (containerChain_carrying _)
  | base type => exact some (keepOuter_carrying type _ _)
  | signature method => exact some (signatureChain_carrying method)
  | body method => exact bodyChain_carrying method
  | script => exact scriptChain_carrying
  | defaultValue parameter => exact defaultChain_carrying parameter
  | field field => exact some (fieldChain_carrying field)
  | initializer field => exact initializerChain_carrying field

theorem fetchFirst_carrying (regions : List Region) :
    p.Carrying (p.fetchFirst regions) (Chain.Carries p) := by
  induction regions with
  | nil => exact globalChain_carrying
  | cons region rest ih =>
    unfold fetchFirst
    refine .bind (fetch_carrying region) fun found hfound => ?_
    cases found with
    | some chain => exact .pure (hfound chain rfl)
    | none => exact ih

/-- The chain at any node has the flags of the options. -/
theorem chainAt_carrying (node : NodeId) : p.Carrying (p.chainAt node) (Chain.Carries p) := by
  refine .bind (.bind_lift fun path => fetchFirst_carrying _) fun chain hchain => ?_
  intro cache scope cache' hcache hrun
  cases hscope : chain.enclosing p node with
  | error fault =>
    rw [hscope] at hrun
    cases hrun
  | ok found =>
    rw [hscope] at hrun
    obtain ⟨rfl, rfl⟩ := EStateM.Result.ok.inj hrun
    exact ⟨Chain.inherited_carries.enclosing hchain hscope, hcache⟩

end Program
end Bindery
