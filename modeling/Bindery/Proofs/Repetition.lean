import Bindery.Proofs.BoundStatements

/-! # Binding bodies again

Binding a body publishes types, constants, signatures and default values of its locals, and the next
run reads them.  The first run may find less than the second: a call that stands before the
declaration of its local function sees no default values, unless the declaration was bound by a run
before.  After one run everything is there that the body declares, values that are published stay,
and so all further runs give the same.

* `Area.published p F`: what is published in `F`, with the code that is covered by it.
* `Since`: what binding bodies makes of a state, kept by each further body (`Since.step`) and by a
  list of bodies (`Since.run`).
* `Compilation.bindBody_settles`: once a body is bound, its block and its diagnostics are fixed. -/

namespace Bindery

variable {p : Program}

/-! ### What is published -/

variable (p) in
/-- What is published, and the code that declares nothing else. -/
def Area.published (F : Findings) : Area where
  types key := ∃ t, F.localTypes.get? key = some t
  constants key := ∃ c, F.localConstants.get? key = some c
  functions key := (∃ signature, F.functionSignatures.get? key = some signature) ∧
    ∃ values, F.functionDefaults.get? key = some values
  code store n := store = 0 ∧ Covered p F n

variable {F : Findings}

theorem isArea_published (sound : Sound p F) : IsArea p (.published p F) where
  part h hpart := ⟨h.1, h.2.part hpart⟩
  declared {store n name type initializer isConstant} h hnode := by
    obtain ⟨rfl, hcovered⟩ := h
    obtain ⟨t, ht⟩ := (hcovered n .refl).type hnode
    refine ⟨⟨t, ht⟩, ?_⟩
    rintro rfl
    exact sound.paired ht ⟨name, type, initializer, hnode⟩
  function {store n f} h hf := by
    obtain ⟨rfl, hcovered⟩ := h
    obtain ⟨⟨signature, hsignature⟩, hvalues⟩ := (hcovered n .refl).function hf
    exact ⟨⟨⟨signature, hsignature⟩, hvalues⟩, sound.signed ⟨0, n, hf⟩ hsignature⟩

/-- Values that are published stay. -/
theorem Findings.Grows.sameLocals {f g : Findings} (hf : F.Grows f) (hg : F.Grows g) :
    f.SameLocals (Area.published p F).toCells g where
  types := by
    rintro key ⟨t, ht⟩
    rw [hf.localTypes ht, hg.localTypes ht]
  constants := by
    rintro key ⟨c, hc⟩
    rw [hf.localConstants hc, hg.localConstants hc]
  signatures := by
    rintro key ⟨⟨signature, hsignature⟩, -⟩
    rw [hf.functionSignatures hsignature, hg.functionSignatures hsignature]
  defaults := by
    rintro key ⟨-, values, hvalues⟩
    rw [hf.functionDefaults hvalues, hg.functionDefaults hvalues]

variable {data : MethodData}

/-- The code of a covered method lies in what is published, unless there is none in its body. -/
theorem CodeCovered.holdsBody (h : CodeCovered p F data) {body : NodeId}
    (hbody : data.body = some body) :
    (Area.published p F).HoldsScope p 0 body ∨
      ∃ members, p.tree.node? body = some (.compilationUnit members) := by
  by_cases hunit : ∃ members, p.tree.node? body = some (.compilationUnit members)
  · exact .inr hunit
  · refine .inl ⟨⟨rfl, h.body body hbody⟩, fun members hnode => ?_⟩
    exact absurd ⟨members, hnode⟩ hunit

theorem CodeCovered.holdsRoot (linked : p.tree.Linked)
    (h : CodeCovered p F data) (hisEntry : data.isEntry = true) (hentry : p.symbols.entry? ≠ none) :
    (Area.published p F).HoldsScope p 0 p.tree.root := by
  obtain ⟨members, hroot⟩ := linked.root_eq
  refine ⟨⟨rfl, .of_parts hroot (by simp) (by simp) (by
    simp)⟩, fun members' hnode statement hmem => ⟨rfl, ?_⟩⟩
  refine h.statements hisEntry hentry statement ?_
  unfold Tree.globalStatements Tree.members
  rwa [hnode]

/-! ### After some bodies -/

variable (p) in
/-- The name of the entry method leads to a method. -/
def EntryIsMethod : Prop := ∀ entry, p.symbols.entry? = some entry → IsMethod p entry

/-- Only symbols of the table have bodies to bind. -/
theorem exists_of_bindBody {i : Nat} {result : Option (Evaluated Block)} {s t : BindState}
    (h : p.bindBody i s = .ok result t) : ∃ symbol, p.symbols.symbols[i]? = some symbol := by
  obtain ⟨_, _, hregion, -⟩ := exists_of_run_bind h
  cases hsymbol : p.symbols.symbols[i]? with
  | some symbol => exact ⟨symbol, rfl⟩
  | none =>
    have hfault : ∃ fault, p.symbols.method? i = .error fault := by
      simp [SymbolTable.method?, SymbolTable.kind, SymbolTable.fetch, hsymbol, Functor.map,
        Except.map]
    obtain ⟨fault, hfault⟩ := hfault
    unfold BindM.regions Program.bodyChain at hregion
    rw [hfault] at hregion
    cases hregion

variable (p) in
/-- What binding bodies makes of a state. -/
structure Since (s t : BindState) : Prop where
  sound : Sound p t.findings
  grows : s.findings.Grows t.findings
  declared : s.findings.SameDeclared t.findings
  pass : t.pass = s.pass

variable (p) in
/-- The code of a symbol is covered, if it is a method. -/
def MethodCovered (F : Findings) (method : SymbolId) : Prop :=
  ∃ s, p.symbols.symbols[method]? = some s ∧ ∀ data, s.kind = .method data → CodeCovered p F data

namespace Since

variable {s t u : BindState}

theorem refl (ready : Ready p s) : Since p s s := ⟨ready.sound, .refl _, .refl _, rfl⟩

theorem trans (h : Since p s t) (h' : Since p t u) : Since p s u :=
  ⟨h'.sound, h.grows.trans h'.grows, h.declared.trans h'.declared, h'.pass.trans h.pass⟩

theorem ready (h : Since p s t) (ready : Ready p s) : Ready p t :=
  ⟨h.sound, h.declared.published ready.published⟩

variable (formed : p.Formed) (hentry : EntryIsMethod p)
include formed hentry

variable {method : SymbolId}

/-- One more body. -/
theorem step (ready : Ready p s) {result : Option (Evaluated Block)}
    (h : p.bindBody method s = .ok result t) : Since p s t ∧ MethodCovered p t.findings method := by
  obtain ⟨x, hx⟩ := exists_of_bindBody h
  obtain ⟨hwalk, -, -, trace, hpass, htrace⟩ :=
    (formed.bindBody_steps hx ready.sound fun h : False => h.elim).of_ok h
  obtain ⟨rfl, hcovered, -⟩ := htrace t.findings (.refl _)
  refine ⟨⟨hwalk.sound, hwalk.grows, ?_, by simpa using hpass⟩, x, hx, hcovered⟩
  -- compared with itself, the run tells what it keeps
  have hself : Agree p (.ofNodes fun _ => True) s s :=
    ⟨⟨.refl _, .refl _, ready.published, ready.sound.regions, ready.sound.regions⟩, rfl⟩
  have htogether := Program.bindBody_confined isArea_everywhere formed hx
    (fun _ _ _ entry hfound => ⟨hentry entry hfound, holdsScope_everywhere⟩)
    (fun _ _ _ _ => .inl holdsScope_everywhere) s s hself
  rw [h] at htogether
  exact htogether.2.2.2.declared

/-- A list of bodies. -/
theorem run (ready : Ready p s) {methods : List SymbolId} {results : List (Option (Evaluated Block))}
    (h : methods.mapM p.bindBody s = .ok results t) :
    Since p s t ∧ ∀ method ∈ methods, MethodCovered p t.findings method := by
  induction methods generalizing s results with
  | nil =>
    obtain ⟨-, rfl⟩ := EStateM.Result.ok.inj h
    exact ⟨.refl ready, by simp⟩
  | cons method rest ih =>
    rw [List.mapM_cons] at h
    obtain ⟨result, s₁, hfirst, h⟩ := exists_of_run_bind h
    obtain ⟨results, hrest, -⟩ := exists_of_run_bind_pure h
    obtain ⟨hsince, x, hx, hcovered⟩ := step formed hentry ready hfirst
    obtain ⟨hsince', hcovered'⟩ := ih (hsince.ready ready) hrest
    refine ⟨hsince.trans hsince', List.forall_mem_cons.2 ⟨⟨x, hx, fun data hkind => ?_⟩, hcovered'⟩⟩
    exact (hcovered data hkind).grows hsince'.grows

/-- A body that is covered gives the same before and after other bodies are bound. -/
theorem value_eq (h : Since p t u) (ready : Ready p t)
    (hcovered : MethodCovered p t.findings method) :
    (p.bindBody method).value u = (p.bindBody method).value t := by
  obtain ⟨x, hx, hcovered⟩ := hcovered
  -- the body asks for nothing but what was published at `t`, and that is still there at `u`
  have hagree : Agree p (.published p t.findings) t u :=
    ⟨⟨h.declared, (Findings.Grows.refl _).sameLocals h.grows, ready.published, ready.sound.regions,
      h.sound.regions⟩, h.pass⟩
  refine (BindM.value_eq_of_confined (Program.bindBody_confined
    (isArea_published ready.sound) formed hx ?_ ?_) hagree).symm
  · intro data hkind hisEntry entry hfound
    exact ⟨hentry entry hfound,
      (hcovered data hkind).holdsRoot formed.linked hisEntry (by simp [hfound])⟩
  · exact fun data body hkind => (hcovered data hkind).holdsBody

end Since

/-! ### Settled contexts -/

namespace Compilation

/-- Once the body of a method is bound, it is bound to the same block with the same diagnostics from
then on, whatever bodies are bound in between. -/
theorem bindBody_settles {d : Document} {tree : Tree} (htree : Tree.ofDocument d = .ok tree)
    (options : Options) :
    ∃ c, declare tree options = .ok c ∧
      ((∃ s, c.settle {} = .error .endlessRequests s) ∨
        ∃ settled s, c.settle {} = .ok settled s ∧ (EntryIsMethod c.program →
          ∀ (done : List SymbolId) results t, done.mapM c.program.bindBody s = .ok results t →
            ∀ (more : List SymbolId) results' u, more.mapM c.program.bindBody t = .ok results' u →
              ∀ method ∈ done,
                (c.program.bindBody method).value u = (c.program.bindBody method).value t)) := by
  obtain ⟨c, hc, -, -, formed⟩ := declare_yields (Tree.ofDocument_linked htree) options
  refine ⟨c, hc, ?_⟩
  cases hsettle : c.settle {} with
  | error fault s =>
    obtain rfl := (c.settle_steps formed).excused_of_error hsettle
    exact .inl ⟨s, rfl⟩
  | ok settled s =>
    have ready := ready_of_settle formed hsettle
    refine .inr ⟨settled, s, rfl, fun hentry done results t hdone more results' u hmore
      method hmethod => ?_⟩
    obtain ⟨hsince, hcovered⟩ := Since.run formed hentry ready hdone
    obtain ⟨hsince', -⟩ := Since.run formed hentry (hsince.ready ready) hmore
    exact hsince'.value_eq formed hentry (hsince.ready ready) (hcovered method hmethod)

/-- Whether a body can be bound twice once everything that is declared is bound. -/
def bindsTwice (method : SymbolId) (c : Compilation) : Bool :=
  match c.settle {} with
  | .error .. => false
  | .ok _ s =>
    match [method].mapM c.program.bindBody s with
    | .error .. => false
    | .ok _ t =>
      match [method].mapM c.program.bindBody t with
      | .error .. => false
      | .ok .. => true

theorem exists_of_bindsTwice {method : SymbolId} {c : Compilation} (h : bindsTwice method c = true) :
    ∃ settled s results t results' u, c.settle {} = .ok settled s ∧
      [method].mapM c.program.bindBody s = .ok results t ∧
      [method].mapM c.program.bindBody t = .ok results' u := by
  unfold bindsTwice at h
  split at h
  · simp at h
  · next settled s hsettle =>
    split at h
    · simp at h
    · next results t hfirst =>
      split at h
      · simp at h
      · next results' u hsecond =>
        exact ⟨settled, s, results, t, results', u, hsettle, hfirst, hsecond⟩

/-- A method with a local function, which has a constant local. -/
def nestedDocument : Document := ⟨"nested", [
  .literal (.int 1), .localDeclaration "a" none true (some 0), .block [1],
  .localFunction "f" none [] 2, .block [3], .methodDeclaration "m" .none none [] 4,
  .compilationUnit [5]]⟩

set_option maxRecDepth 20000 in
theorem bindsTwice_nested : observe (bindsTwice 1) nestedDocument {} = some true := by cbv

theorem bindBody_settles_nested :
    ∃ c settled s results t results' u, Tree.ofDocument nestedDocument = .ok c.program.tree ∧
      declare c.program.tree {} = .ok c ∧ c.settle {} = .ok settled s ∧
      EntryIsMethod c.program ∧ [1].mapM c.program.bindBody s = .ok results t ∧
      [1].mapM c.program.bindBody t = .ok results' u ∧
      (c.program.bindBody 1).value u = (c.program.bindBody 1).value t := by
  obtain ⟨c, htree, hc, htwice⟩ := exists_of_observe _ bindsTwice_nested
  obtain ⟨settled, s, results, t, results', u, hsettle, hfirst, hsecond⟩ := exists_of_bindsTwice htwice
  have hentry : EntryIsMethod c.program := by
    obtain ⟨c', htree', hc', hnone⟩ := exists_of_observe (·.program.symbols.entry?)
      (show observe _ nestedDocument {} = some none by decide +kernel)
    rw [ok_unique htree htree'] at hc
    obtain rfl := ok_unique hc hc'
    simp [EntryIsMethod, hnone]
  obtain ⟨c', hc', h⟩ := bindBody_settles htree {}
  obtain rfl := ok_unique hc hc'
  rcases h with ⟨s', hs'⟩ | ⟨settled', s', hs', h⟩
  · simp [hsettle] at hs'
  · obtain ⟨rfl, rfl⟩ := EStateM.Result.ok.inj (hsettle.symm.trans hs')
    exact ⟨c, settled, s, results, t, results', u, htree, hc, hsettle, hentry, hfirst, hsecond,
      h hentry [1] _ t hfirst [1] _ u hsecond 1 (by simp)⟩

end Compilation
end Bindery
