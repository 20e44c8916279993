import Bindery.Proofs.CodeAreas

/-! # Code that keeps to its area

Once everything that is declared is published, binding code asks for nothing new: it reads the
published declarations and the locals of its own area, and what it publishes are locals of that
area. `Confined p area m Q` says so of a computation by comparing two runs.  From any two states
that agree on the declarations and on the locals of the area (`Agree`), whatever other code has left
in them,

* `m` gives the same value, which satisfies `Q`, or the same fault;
* the states agree again, and
* nothing but locals of the area has been published (`Findings.Keeps`).

The lemmas follow the shape of `do` blocks. -/

namespace Bindery

/-! ### Publishing -/

namespace Registry

variable {κ α ι : Type} [DecidableEq κ] {r r' : Registry κ α} {other : κ}

/-- Registries that say the same of a key still do after one value is published in both. -/
theorem get?_publish_congr (h : r'.get? other = r.get? other) (key : κ) (value : α) :
    (r'.publish key value).get? other = (r.publish key value).get? other := by
  by_cases hkey : other = key
  · subst hkey
    cases hr : r.get? other with
    | none => rw [get?_publish_self value (h.trans hr), get?_publish_self value hr]
    | some old => rw [get?_publish_of_get? value (h.trans hr), get?_publish_of_get? value hr]
  · rw [get?_publish_of_ne value hkey, get?_publish_of_ne value hkey, h]

variable {key : ι → κ} {value : ι → α}

theorem get?_foldl_publish_congr (h : r'.get? other = r.get? other) (list : List ι) :
    (list.foldl (fun r i => r.publish (key i) (value i)) r').get? other =
      (list.foldl (fun r i => r.publish (key i) (value i)) r).get? other := by
  induction list generalizing r r' with
  | nil => exact h
  | cons i rest ih => exact ih (get?_publish_congr h _ _)

theorem get?_foldl_publish_of_ne {list : List ι} (h : ∀ i ∈ list, other ≠ key i) :
    (list.foldl (fun r i => r.publish (key i) (value i)) r).get? other = r.get? other := by
  induction list generalizing r with
  | nil => rfl
  | cons i rest ih =>
    rw [List.foldl_cons, ih fun j hj => h j (List.mem_cons_of_mem _ hj)]
    exact get?_publish_of_ne _ (h i List.mem_cons_self)

end Registry

/-! ### States that agree -/

/-- The same constants, field types, signatures and default values are published. -/
structure Findings.SameDeclared (f g : Findings) : Prop where
  constants : g.constants = f.constants
  fieldTypes : g.fieldTypes = f.fieldTypes
  signatures : g.signatures = f.signatures
  defaults : g.defaults = f.defaults

/-- The same is published about some locals and local functions. -/
structure Findings.SameLocals (cells : Cells) (f g : Findings) : Prop where
  types : ∀ key, cells.types key → g.localTypes.get? key = f.localTypes.get? key
  constants : ∀ key, cells.constants key → g.localConstants.get? key = f.localConstants.get? key
  signatures : ∀ key, cells.functions key →
    g.functionSignatures.get? key = f.functionSignatures.get? key
  defaults : ∀ key, cells.functions key → g.functionDefaults.get? key = f.functionDefaults.get? key

/-- Nothing is published but what belongs to some locals and local functions. -/
structure Findings.Keeps (cells : Cells) (f g : Findings) : Prop where
  declared : f.SameDeclared g
  locals : f.SameLocals cells.compl g

/-- Everything that code may ask of declarations is published. -/
structure Program.Published (p : Program) (f : Findings) : Prop where
  signature : ∀ {i : Nat} {s : Symbol} {data : MethodData}, p.symbols.symbols[i]? = some s →
    s.kind = .method data → ∃ known, f.signatures.get? i = some known
  fieldType : ∀ {i : Nat} {s : Symbol} {data : FieldData}, p.symbols.symbols[i]? = some s →
    s.kind = .field data → ∃ known, f.fieldTypes.get? i = some known
  constant : ∀ {i : Nat} {s : Symbol} {data : FieldData}, p.symbols.symbols[i]? = some s →
    s.kind = .field data → data.isConstant = true → ∃ known, f.constants.get? i = some known

/-- Findings that look alike to code of an area. -/
structure Findings.Agree (p : Program) (area : Area) (f g : Findings) : Prop where
  declared : f.SameDeclared g
  locals : f.SameLocals area.toCells g
  published : p.Published f
  regions : p.CacheSound f.regions
  regions' : p.CacheSound g.regions

structure Agree (p : Program) (area : Area) (s t : BindState) : Prop where
  findings : s.findings.Agree p area t.findings
  pass : t.pass = s.pass

namespace Findings

variable {p : Program} {area : Area} {cells : Cells} {f g h : Findings}

theorem SameDeclared.refl (f : Findings) : f.SameDeclared f := ⟨rfl, rfl, rfl, rfl⟩

theorem SameDeclared.symm (h : f.SameDeclared g) : g.SameDeclared f :=
  ⟨h.constants.symm, h.fieldTypes.symm, h.signatures.symm, h.defaults.symm⟩

theorem SameDeclared.trans (h₁ : f.SameDeclared g) (h₂ : g.SameDeclared h) : f.SameDeclared h :=
  ⟨h₂.constants.trans h₁.constants, h₂.fieldTypes.trans h₁.fieldTypes,
    h₂.signatures.trans h₁.signatures, h₂.defaults.trans h₁.defaults⟩

theorem SameLocals.refl (f : Findings) : f.SameLocals cells f :=
  ⟨fun _ _ => rfl, fun _ _ => rfl, fun _ _ => rfl, fun _ _ => rfl⟩

theorem SameLocals.symm (h : f.SameLocals cells g) : g.SameLocals cells f :=
  ⟨fun k hk => (h.types k hk).symm, fun k hk => (h.constants k hk).symm,
    fun k hk => (h.signatures k hk).symm, fun k hk => (h.defaults k hk).symm⟩

theorem SameLocals.trans (h₁ : f.SameLocals cells g) (h₂ : g.SameLocals cells h) :
    f.SameLocals cells h where
  types k hk := (h₂.types k hk).trans (h₁.types k hk)
  constants k hk := (h₂.constants k hk).trans (h₁.constants k hk)
  signatures k hk := (h₂.signatures k hk).trans (h₁.signatures k hk)
  defaults k hk := (h₂.defaults k hk).trans (h₁.defaults k hk)

theorem SameLocals.mono {nodes part : NodeId → Prop} (h : f.SameLocals (.ofNodes nodes) g)
    (hpart : ∀ n, part n → nodes n) : f.SameLocals (.ofNodes part) g where
  types key hk := h.types key (hpart key.declaration hk)
  constants key hk := h.constants key (hpart key.declaration hk)
  signatures key hk := h.signatures key (hpart key.declaration hk)
  defaults key hk := h.defaults key (hpart key.declaration hk)

theorem Keeps.refl (f : Findings) : f.Keeps cells f := ⟨.refl f, .refl f⟩

theorem Keeps.trans (h₁ : f.Keeps cells g) (h₂ : g.Keeps cells h) : f.Keeps cells h :=
  ⟨h₁.declared.trans h₂.declared, h₁.locals.trans h₂.locals⟩

theorem SameDeclared.published (h : f.SameDeclared g) (hf : p.Published f) : p.Published g where
  signature hs hkind := by rw [h.signatures]; exact hf.signature hs hkind
  fieldType hs hkind := by rw [h.fieldTypes]; exact hf.fieldType hs hkind
  constant hs hkind hconstant := by rw [h.constants]; exact hf.constant hs hkind hconstant

theorem Agree.symm (h : f.Agree p area g) : g.Agree p area f :=
  ⟨h.declared.symm, h.locals.symm, h.declared.published h.published, h.regions', h.regions⟩

end Findings

theorem Agree.symm {p : Program} {area : Area} {s t : BindState} (h : Agree p area s t) :
    Agree p area t s := ⟨h.findings.symm, h.pass.symm⟩

/-! ### Confined computations -/

variable (p : Program) (area : Area) {α β : Type}

/-- What comes of two runs of one computation from `s` and from a state that agrees with it. -/
def Together (Q : α → Prop) (s : BindState) :
    EStateM.Result Fault BindState α → EStateM.Result Fault BindState α → Prop
  | .ok a s', .ok b t' => b = a ∧ Q a ∧ Agree p area s' t' ∧ s.findings.Keeps area.toCells s'.findings
  | .error fault _, .error fault' _ => fault' = fault
  | _, _ => False

/-- The computation reads and publishes no locals but those of the area. -/
def Confined (m : BindM α) (Q : α → Prop) : Prop :=
  ∀ s t, Agree p area s t → Together p area Q s (m s) (m t)

variable {p area}

namespace Confined

variable {m : BindM α} {k : α → BindM β} {Q R : α → Prop} {T : β → Prop}

theorem pure {a : α} (h : Q a) : Confined p area (Pure.pure a) Q :=
  fun s _ hst => ⟨rfl, h, hst, .refl s.findings⟩

theorem of_throw {fault : Fault} : Confined p area (throw fault) Q := fun _ _ _ => rfl

theorem bind (hm : Confined p area m R) (hk : ∀ a, R a → Confined p area (k a) T) :
    Confined p area (m >>= k) T := by
  intro s t hst
  have h := hm s t hst
  change Together p area T s (EStateM.bind m k s) (EStateM.bind m k t)
  unfold EStateM.bind
  cases hs : m s <;> cases ht : m t <;> rw [hs, ht] at h <;> dsimp only
  case ok.ok a s' b t' =>
    obtain ⟨rfl, ha, hst', hkeeps⟩ := h
    have h' := hk b ha s' t' hst'
    cases hs' : k b s' <;> cases ht' : k b t' <;> rw [hs', ht'] at h'
    · exact ⟨h'.1, h'.2.1, h'.2.2.1, hkeeps.trans h'.2.2.2⟩
    · exact h'
    · exact h'
    · exact h'
  case ok.error => exact h.elim
  case error.ok => exact h.elim
  case error.error => exact h

theorem bind_lift {x : Except Fault α} (hk : ∀ a, x = .ok a → Confined p area (k a) T) :
    Confined p area (liftM x >>= k) T := by
  cases x with
  | ok a => exact hk a rfl
  | error fault => exact fun _ _ _ => rfl

/-! ### The state -/

/-- What is read of the findings does not depend on which of two agreeing ones they are. -/
theorem bind_findings {k : Findings → BindM β}
    (h : ∀ f g, f.Agree p area g → k g = k f ∧ Confined p area (k f) T) :
    Confined p area (BindM.findings >>= k) T := by
  intro s t hst
  obtain ⟨heq, hk⟩ := h s.findings t.findings hst.findings
  change Together p area T s (k s.findings s) (k t.findings t)
  rw [heq]
  exact hk s t hst

theorem modifyFindings {u : Findings → Findings}
    (h : ∀ f g, f.Agree p area g → (u f).Agree p area (u g) ∧ f.Keeps area.toCells (u f)) :
    Confined p area (BindM.modifyFindings u) fun _ => True := by
  intro s t hst
  obtain ⟨hagree, hkeeps⟩ := h s.findings t.findings hst.findings
  exact ⟨rfl, trivial, ⟨hagree, hst.pass⟩, hkeeps⟩

/-- Publishing locals of the area. -/
theorem publish {u : Findings → Findings} (hdeclared : ∀ f : Findings, f.SameDeclared (u f))
    (hregions : ∀ f, (u f).regions = f.regions)
    (hlocals : ∀ f g : Findings, f.SameLocals area.toCells g → (u f).SameLocals area.toCells (u g))
    (hothers : ∀ f : Findings, f.SameLocals area.compl f → f.SameLocals area.compl (u f)) :
    Confined p area (BindM.modifyFindings u) fun _ => True := by
  refine modifyFindings fun f g hfg => ⟨⟨?_, hlocals f g hfg.locals, ?_, ?_, ?_⟩,
    hdeclared f, hothers f (.refl f)⟩
  · exact (hdeclared f).symm.trans (hfg.declared.trans (hdeclared g))
  · exact (hdeclared f).published hfg.published
  · rw [hregions]
    exact hfg.regions
  · rw [hregions]
    exact hfg.regions'

variable {key : LocalKey}

theorem publishLocalType (hkey : area.types key) (t : Ty) :
    Confined p area (BindM.modifyFindings fun f =>
      { f with localTypes := f.localTypes.publish key t }) fun _ => True := by
  refine publish (fun _ => ⟨rfl, rfl, rfl, rfl⟩) (fun _ => rfl) ?_ ?_
  · exact fun f g h => { h with types := fun k hk => Registry.get?_publish_congr (h.types k hk) key t }
  · exact fun f kept =>
      { kept with types := fun k hk => Registry.get?_publish_of_ne t (by rintro rfl; exact hk hkey) }

theorem publishLocalConstant (hkey : area.constants key) (c : Option Constant) :
    Confined p area (BindM.modifyFindings fun f =>
      { f with localConstants := f.localConstants.publish key c }) fun _ => True := by
  refine publish (fun _ => ⟨rfl, rfl, rfl, rfl⟩) (fun _ => rfl) ?_ ?_
  · exact fun f g h =>
      { h with constants := fun k hk => Registry.get?_publish_congr (h.constants k hk) key c }
  · exact fun f kept => { kept with
      constants := fun k hk => Registry.get?_publish_of_ne c (by rintro rfl; exact hk hkey) }

theorem publishFunctionDefaults (hkey : area.functions key) (defaults : List (Option Expr)) :
    Confined p area (BindM.modifyFindings fun f =>
      { f with functionDefaults := f.functionDefaults.publish key defaults }) fun _ => True := by
  refine publish (fun _ => ⟨rfl, rfl, rfl, rfl⟩) (fun _ => rfl) ?_ ?_
  · exact fun f g h =>
      { h with defaults := fun k hk => Registry.get?_publish_congr (h.defaults k hk) key defaults }
  · exact fun f kept => { kept with
      defaults := fun k hk => Registry.get?_publish_of_ne defaults (by rintro rfl; exact hk hkey) }

/-- The signature of a local function of the area, with the types of its parameters. -/
theorem publishFunctionSignature {function : LocalFunction} (hfunction : function.Inside p area)
    (signature : Signature) :
    Confined p area (BindM.modifyFindings (·.publishFunctionSignature function signature))
      fun _ => True := by
  have hparameters : ∀ (types : List Ty), ∀ pair ∈ function.parameters.zip types,
      area.types pair.1.key := fun types pair hpair =>
    (hfunction.2.2 pair.1 (List.of_mem_zip hpair).1).1
  refine publish (fun _ => ⟨rfl, rfl, rfl, rfl⟩) (fun _ => rfl) ?_ ?_
  · intro f g h
    have hsignatures : ∀ key : LocalKey, area.functions key →
        (g.functionSignatures.publish function.key signature).get? key =
          (f.functionSignatures.publish function.key signature).get? key :=
      fun key hkey => Registry.get?_publish_congr (h.signatures key hkey) _ _
    refine { h with signatures := hsignatures, types := fun key hkey => ?_ }
    unfold Findings.publishFunctionSignature
    dsimp only
    rw [hsignatures function.key hfunction.2.1]
    exact Registry.get?_foldl_publish_congr (h.types key hkey) _
  · intro f kept
    refine { kept with types := fun key hkey => ?_, signatures := fun key hkey => ?_ }
    · refine Registry.get?_foldl_publish_of_ne fun pair hpair => ?_
      rintro rfl
      exact hkey (hparameters _ pair hpair)
    · exact Registry.get?_publish_of_ne signature (by rintro rfl; exact hkey hfunction.2.1)

theorem modifyPass (u : Pass → Pass) :
    Confined p area (modify fun s => { s with pass := u s.pass }) fun _ => True := by
  intro s t hst
  refine ⟨rfl, trivial, ⟨hst.findings, ?_⟩, .refl s.findings⟩
  exact congrArg u hst.pass

theorem push (d : Diagnostic) : Confined p area (BindM.push d) fun _ => True :=
  modifyPass fun pass => { pass with diagnostics := pass.diagnostics.push d }

theorem sawBadConstant : Confined p area BindM.sawBadConstant fun _ => True := by
  intro s t hst
  refine ⟨?_, trivial, hst, .refl s.findings⟩
  exact congrArg Pass.sawBadConstant hst.pass

theorem isolated (hm : Confined p area m Q) :
    Confined p area (BindM.isolated m) fun e => Q e.value := by
  intro s t hst
  have h := hm { s with pass := {} } { t with pass := {} } ⟨hst.findings, rfl⟩
  have run : ∀ s : BindState, BindM.isolated m s = match m { s with pass := {} } with
      | .ok a s' => .ok ⟨a, s'.pass.diagnostics⟩ { s' with pass := s.pass }
      | .error fault s' => .error fault s' := by
    intro s
    change EStateM.bind m _ _ = _
    unfold EStateM.bind
    cases m { s with pass := {} } <;> rfl
  rw [run, run]
  cases hs : m { s with pass := {} } <;> cases ht : m { t with pass := {} } <;> rw [hs, ht] at h
  · obtain ⟨rfl, hQ, hst', hkeeps⟩ := h
    exact ⟨by rw [hst'.pass], hQ, ⟨hst'.findings, hst.pass⟩, hkeeps⟩
  all_goals exact h

theorem quietly (hm : Confined p area m Q) : Confined p area (BindM.quietly m) Q :=
  bind (isolated hm) fun _ h => pure h

theorem regions {m : RegionM α} {a : α} (hm : p.Fetches m a) :
    Confined p area (BindM.regions m) (· = a) := by
  intro s t hst
  obtain ⟨b, cache, hs, rfl, hcache⟩ := (hm _ hst.findings.regions).exists_ok
  obtain ⟨c, cache', ht, rfl, hcache'⟩ := (hm _ hst.findings.regions').exists_ok
  unfold BindM.regions EStateM.run
  rw [hs, ht]
  have agree := hst.findings
  have kept : s.findings.Keeps area.toCells s.findings := .refl _
  exact ⟨rfl, rfl, ⟨⟨{ agree.declared with }, { agree.locals with }, { agree.published with },
    hcache, hcache'⟩, hst.pass⟩, { kept.declared with }, { kept.locals with }⟩

end Confined
end Bindery
