import Bindery.Proofs.CompilationReports

/-! # Flags of scopes

The flags of the scope of a statement tell in which clauses of `try` statements of its function it
stands, so a `return` is reported exactly where it would leave a finally body.  The flags of the
options are set in every frame, so with them neither access nor low-level calls are reported. -/

namespace Bindery

/-! ### Options -/

/-- A chain with further frames on top. -/
inductive Chain.GrownOn (base : Chain) : Chain → Prop
  | same : GrownOn base base
  | push {chain : Chain} (kind : FrameKind) (additional : Flags) (h : GrownOn base chain) :
      GrownOn base (chain.push kind additional)

/-- The flags of the options are set in every frame of a chain, whatever frames are put on top. -/
def Chain.HasOptions (options : Options) (chain : Chain) : Prop :=
  ∀ larger, chain.GrownOn larger → ∀ frame ∈ larger,
    (options.ignoresAccess = true → frame.flags.ignoresAccess = true) ∧
      (options.lowLevel = true → frame.flags.lowLevel = true)

theorem Chain.Carries.grownOn {p : Program} {chain larger : Chain} (h : chain.Carries p)
    (hgrown : chain.GrownOn larger) : larger.Carries p := by
  induction hgrown with
  | same => exact h
  | push kind additional _ ih => exact ih.push kind additional

/-- Regions of code that carry the flags, one after the other. -/
theorem Program.Carrying.mapM {p : Program} {α β : Type} {f : α → RegionM β} {Q : β → Prop}
    (h : ∀ a, p.Carrying (f a) Q) (list : List α) :
    p.Carrying (list.mapM f) fun results => ∀ b ∈ results, Q b := by
  induction list with
  | nil => exact .pure (by simp)
  | cons a rest ih =>
    rw [List.mapM_cons]
    refine .bind (h a) fun b hb => .bind ih fun results hresults => .pure ?_
    exact List.forall_mem_cons.2 ⟨hb, hresults⟩

namespace Compilation

variable {d : Document} {options : Options} {c : Compilation} {scope : GlobalScope} {F : Findings}

theorem Compiles.flags_eq (h : Compiles d options c scope F) : c.program.flags = flagsOf options := by
  have hdeclared := h.declared
  unfold declare at hdeclared
  split at hdeclared
  · exact (Except.ok.inj hdeclared) ▸ rfl
  · cases hdeclared

theorem Compiles.hasOptions (h : Compiles d options c scope F) {chain : Chain}
    (hchain : chain.Carries c.program) : chain.HasOptions options := by
  intro larger hgrown frame hframe
  have hflags := (hchain.grownOn hgrown).frames frame hframe
  rw [h.flags_eq] at hflags
  exact ⟨hflags.ignoresAccess, hflags.lowLevel⟩

end Compilation

/-! ### Statements -/

variable {p : Program}

namespace Program

/-- What is fetched with no chains kept has the flags. -/
theorem Fetches.carries {m : RegionM (Option Chain)} {chain : Chain} (h : p.Fetches m (some chain))
    (hm : p.Carrying m p.MayCarry) : chain.Carries p := by
  obtain ⟨found, kept, hrun, rfl, -⟩ := (h {} cacheSound_empty).exists_ok
  exact (hm {} (some chain) kept cacheCarries_empty hrun).1 chain rfl

theorem CodeStart.carries (formed : p.Formed) {region chain : Chain} {root node : NodeId}
    (h : p.CodeStart region root chain node) : chain.Carries p := by
  cases h with
  | body hdata hbody hregion =>
    obtain ⟨x, hx, hkind⟩ := exists_of_method? hdata
    obtain ⟨found, hfound, hfetches, -⟩ := bodyChain_spec formed hx hkind
    obtain rfl := ok_unique hfound hregion
    exact hfetches.carries (bodyChain_carrying _)
  | global _ _ _ hregion _ =>
    obtain ⟨found, hfound, hfetches, -⟩ := scriptChain_spec formed
    obtain rfl := ok_unique hfound hregion
    exact (hfetches.carries scriptChain_carrying).push _ _

end Program

/-- Each step to a part keeps the flags. -/
theorem Place.Step.carries {a b : Place} (h : Place.Step p a b)
    (ha : a.scope.Carries p) : b.scope.Carries p := by
  obtain ⟨q, hq, rfl⟩ := h
  exact (Chain.kept_carries 0).opened q.alone trivial ((Chain.kept_carries 0).part_chain trivial ha hq)

theorem Place.Inside.carries {a b : Place} (h : Place.Inside p a b)
    (ha : a.scope.Carries p) : b.scope.Carries p := by
  induction h with
  | refl => exact ha
  | tail _ hstep ih => exact hstep.carries ih

namespace Compilation

variable {d : Document} {options : Options} {c : Compilation} {scope : GlobalScope} {F : Findings}

/-- The scope of a bound statement has the flags of the options. -/
theorem BoundIn.carries (h : Compiles d options c scope F) {b : BoundAt} (hb : c.BoundIn scope b)
    {own : Chain} (hown : b.chain.innerOrSelf c.program b.node = .ok own) :
    own.Carries c.program := by
  obtain ⟨region, root, scopes, chain, start, first, own', origin⟩ := hb.origin h
  obtain rfl := ok_unique origin.own_eq.inner_eq hown
  have hfirst := Chain.inherited_carries.innerOrSelf (origin.codeStart.carries h.formed)
    origin.first_eq.inner_eq
  exact origin.inside.carries hfirst

/-- The flags of scopes follow the syntax.  Those about `try` statements are set in the scope of a
statement exactly if it stands in such a clause of its function, so a `return` is reported exactly
if it stands in a finally body.  Those of the options are set in every frame of every chain,
whichever chains are asked for, so with them nothing is reported as inaccessible or as a low-level
call. -/
theorem flags_follow_syntax (h : Compiles d options c scope F) :
    (∀ n, c.program.InCode n → ∃ b, c.BoundIn scope b ∧ b.node = n) ∧
    (∀ b, c.BoundIn scope b → ∃ own, b.chain.innerOrSelf c.program b.node = .ok own ∧
      (∀ k : Clause, k.flag (Chain.flags own) = true ↔ c.program.tree.InClause k b.node) ∧
      ((Chain.flags own).inNestedFinally = true ↔ c.program.tree.InNestedFinally b.node) ∧
      own.HasOptions options) ∧
    c.ReportsExactly scope .returnInFinally (fun n => c.program.InCode n ∧
      (∃ value, c.program.tree.node? n = some (.returnStatement value)) ∧
        c.program.tree.InClause .final n) ∧
    (∀ kept : RegionCache, kept = {} ∨ kept = F.regions →
      (∀ (nodes : List NodeId) chains kept', nodes.mapM c.program.chainAt kept = .ok chains kept' →
        ∀ chain ∈ chains, chain.HasOptions options) ∧
      (∀ (regions : List Region) found kept', regions.mapM c.program.fetch kept = .ok found kept' →
        ∀ chain, some chain ∈ found → chain.HasOptions options)) ∧
    (options.ignoresAccess = true → ∀ x ∈ scope.diagnostics.items, x.message ≠ .inaccessible) ∧
    (options.lowLevel = true → ∀ x ∈ scope.diagnostics.items, x.message ≠ .lowLevelRequired) := by
  have formed := h.formed
  obtain ⟨tidy, htells⟩ := h.tells
  have hcarries : ∀ {kept}, kept = {} ∨ kept = F.regions → c.program.CacheCarries kept := by
    rintro _ (rfl | rfl)
    · exact Program.cacheCarries_empty
    · exact tidy.regions
  -- neither message is owed by a jump
  have unreported : ∀ {message}, message ∈ [Message.inaccessible, .lowLevelRequired] →
      ¬ message.MayOccur c.program → ∀ x ∈ scope.diagnostics.items, x.message ≠ message := by
    rintro _ hmem hno x hx rfl
    obtain ⟨b, own, -, -, howes⟩ := (codeOwes_iff h x).1 ((htells.only x hx).resolve_right hno)
    unfold Place.Owes at howes
    split at howes
    all_goals first | exact howes.elim | simp [Program.message_of_diagnostic howes.2] at hmem
  refine ⟨fun n hn => exists_boundIn h hn, fun b hb => ?_, ?_, fun kept hkept => ⟨?_, ?_⟩, ?_, ?_⟩
  · obtain ⟨own, hown, hfits⟩ := hb.fits h
    exact ⟨own, hown, hfits.flag, hfits.nested, h.hasOptions (hb.carries h hown)⟩
  · refine reportsExactly_of_owes h (by simp [Message.MayOccur]) fun hfits => ?_
    rw [Place.exists_owes_return_iff formed.linked]
    exact and_congr_right fun _ => hfits.flag .final
  · intro nodes chains kept' hrun chain hchain
    exact h.hasOptions ((Program.Carrying.mapM Program.chainAt_carrying nodes kept chains kept'
      (hcarries hkept) hrun).1 chain hchain)
  · intro regions found kept' hrun chain hchain
    exact h.hasOptions ((Program.Carrying.mapM Program.fetch_carrying regions kept found kept'
      (hcarries hkept) hrun).1 (some chain) hchain chain rfl)
  · exact fun hset => unreported (by simp) (by simp [Message.MayOccur, h.flags_eq, flagsOf, hset])
  · exact fun hset => unreported (by simp) (by simp [Message.MayOccur, h.flags_eq, flagsOf, hset])

theorem flags_follow_syntax_break : ∃ c scope F b own, Compiles breakDocument {} c scope F ∧
    c.BoundIn scope b ∧ c.program.tree.node? b.node = some .breakStatement ∧
      b.chain.innerOrSelf c.program b.node = .ok own ∧ (Chain.flags own).inTry = true ∧
        (Chain.flags own).inFinally = false := by
  obtain ⟨c, scope, F, h, hnodes, hcode⟩ := exists_compiles_break
  obtain ⟨hall, hflags, -⟩ := flags_follow_syntax h
  obtain ⟨b, hb, hnode⟩ := hall 1 hcode
  obtain ⟨own, hown, hflag, -⟩ := hflags b hb
  refine ⟨c, scope, F, b, own, h, hb, by rw [hnode, hnodes]; rfl, hown, ?_, ?_⟩
  · exact (hflag .tried).2 ⟨2, _, 1, hnodes 2, rfl, hnode ▸ .refl⟩
  · refine Bool.eq_false_iff.2 fun hset => ?_
    obtain ⟨m, kind, part, hm, hpart, -⟩ := (hflag .final).1 hset
    rw [hnodes] at hm
    have hmem := List.mem_of_getElem? hm
    simp only [breakDocument, List.mem_cons, List.not_mem_nil, or_false] at hmem
    rcases hmem with rfl | rfl | rfl | rfl | rfl | rfl <;> cases hpart

end Compilation
end Bindery
