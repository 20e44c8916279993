import Bindery.Proofs.ConstantOperands

/-! # Sound findings

`Sound p f` says where the published facts come from: every type refers to symbols that exist, and
every signature, field type, constant and default value has a derivation, whatever else is published
later.  A constant is published after those that it is computed from, so its dependencies come to an
end.

Binding is looked at from some findings `f` on.  `Stage p f` are the findings that can come after
them: sound ones that grew out of `f`, with the same signatures in progress and no new types of
locals but those of parameters.

`AskerSpec` is what binding assumes of the answers to its requests. -/

namespace Bindery

variable (p : Program)

def Signature.Known (s : Signature) : Prop := (∀ t ∈ s.parameters, t.Known p) ∧ s.returnType.Known p

/-! ### Where facts come from -/

/-- A signature, bound as a pass of its own. -/
def TypesSignature (F g : Findings) (method : SymbolId) (signature : Signature) (trace : Trace) :
    Prop :=
  ∃ chain ids first second, trace = first ++ second ∧ p.symbols.parameters method = .ok ids ∧
    Each (fun id t trace => (∃ data, p.symbols.parameter? id = .ok (some data) ∧
        Derives p F g (.variableType chain data.type t) trace) ∨
      p.symbols.parameter? id = .ok none ∧ t = .error ∧ trace = []) ids signature.parameters first ∧
    ((∃ node, Derives p F g (.type chain node signature.returnType) second) ∨
      signature.returnType = .void ∧ second = [])

/-- The signature of a local function. -/
def TypesFunction (F g : Findings) (chain : Chain) (function : LocalFunction)
    (signature : Signature) (trace : Trace) : Prop :=
  ∃ first second, trace = first ++ second ∧
    Each (fun parameter t trace => ∃ node, parameter.type = some node ∧
      Derives p F g (.variableType chain node t) trace) function.parameters signature.parameters
      first ∧
    ((∃ node, function.returnType = some node ∧
        Derives p F g (.type chain node signature.returnType) second) ∨
      function.returnType = none ∧ signature.returnType = .void ∧ second = [])

variable {g f : Findings} {function : LocalFunction} {signature : Signature} {κ α β : Type}

theorem TypesFunction.length_eq {p : Program} {F : Findings} {chain : Chain} {trace : Trace}
    (h : TypesFunction p F g chain function signature trace) :
    signature.parameters.length = function.parameters.length := by
  obtain ⟨_, _, -, hparameters, -⟩ := h
  exact hparameters.length_eq

/-- The type of a field: an error that is reported, the declared type, or an inferred one. -/
def TypesField (F g : Findings) (field : SymbolId) (t : Ty) (trace : Trace) : Prop :=
  (∃ first second, trace = first ++ second ∧ second.Refuses) ∨
    (∃ chain node, Derives p F g (.variableType chain node t) trace) ∨
    ∀ data, p.symbols.field? field = .ok (some data) → data.type = none

/-- A default value, converted to the type of its parameter. -/
def GivesDefault (F g : Findings) (t : Ty) (value : Expr) (trace : Trace) : Prop :=
  ∃ chain node first second, trace = first ++ second ∧
    Derives p F g (.converted chain node t value) first

/-- The type of a parameter in the published signature of its method. -/
def ParameterType (F : Findings) (parameter : SymbolId) (t : Ty) : Prop :=
  ∃ method data known, p.symbols.containing? parameter = .ok (some method) ∧
    p.symbols.parameter? parameter = .ok (some data) ∧ F.signatures.get? method = some known ∧
    t = (known.value.parameters[data.ordinal]?).getD .error

/-- A fact about `key` that holds in all findings that `f` may grow into. -/
def Lasting (f : Findings) (fact : Findings → Prop) : Prop := ∀ F, f.Grows F → fact F

theorem Lasting.grows {fact : Findings → Prop} (h : Lasting f fact) (hg : f.Grows g) :
    Lasting g fact := fun F hF => h F (hg.trans hF)

/-- A published constant with its diagnostics. -/
def ConstantFact (field : SymbolId) (known : Evaluated FieldConstant) (F : Findings) : Prop :=
  ∃ g trace, known.diagnostics.items = Trace.diagnostics trace ∧
    Derives p F g (.constant field known.value) trace

def FieldTypeFact (field : SymbolId) (known : Evaluated Ty) (F : Findings) : Prop :=
  ∃ g trace, known.diagnostics.items = Trace.diagnostics trace ∧
    TypesField p F g field known.value trace

def SignatureFact (method : SymbolId) (known : Evaluated Signature) (F : Findings) : Prop :=
  ∃ g trace, known.diagnostics.items = Trace.diagnostics trace ∧
    TypesSignature p F g method known.value trace

def DefaultFact (parameter : SymbolId) (known : Evaluated (Option Expr)) (F : Findings) : Prop :=
  (known.value = none → p.defaultNode? parameter = .ok none) ∧
    ∀ value, known.value = some value → ∃ g t trace, ParameterType p F parameter t ∧
      known.diagnostics.items = Trace.diagnostics trace ∧ GivesDefault p F g t value trace

def FunctionDefaultsFact (values : List (Option Expr)) (F : Findings) : Prop :=
  ∀ value, some value ∈ values → ∃ g t trace, GivesDefault p F g t value trace

def LocalConstantFact (key : LocalKey) (c : Constant) (F : Findings) : Prop :=
  ∃ g trace, Derives p F g (.localConstant key c) trace

/-- The key of a constant local. -/
def LocalKey.IsConstant (key : LocalKey) : Prop :=
  ∃ name type initializer, p.tree.node? key.declaration =
    some (.localDeclaration name type true initializer)

/-- The key of a parameter of a local function. -/
def LocalKey.IsParameter (key : LocalKey) : Prop :=
  ∃ name type defaultValue, p.tree.node? key.declaration = some (.parameter name type defaultValue)

/-- The fields that the ledgers hold exist. -/
def Ledgers.Known (l : Ledgers) : Prop :=
  ∀ ledger ∈ l.entries, ∀ field : Nat, field ∈ ledger → field < p.symbols.size

structure Sound (f : Findings) : Prop where
  regions : p.CacheSound f.regions
  ledgers : f.ledgers.Known p
  constants : ∀ {field : SymbolId} {known : Evaluated FieldConstant},
    f.constants.get? field = some known → Lasting f (ConstantFact p field known)
  grounded : ∀ {field : SymbolId}, f.HasConstant field → Lasting f (p.Grounded · field)
  fieldTypes : ∀ {field : SymbolId} {known : Evaluated Ty}, f.fieldTypes.get? field = some known →
    known.value.Known p ∧ Lasting f (FieldTypeFact p field known)
  signatures : ∀ {method : SymbolId} {known : Evaluated Signature},
    f.signatures.get? method = some known →
      known.value.Known p ∧ Lasting f (SignatureFact p method known)
  defaults : ∀ {parameter : SymbolId} {known : Evaluated (Option Expr)},
    f.defaults.get? parameter = some known → Lasting f (DefaultFact p parameter known)
  localTypes : ∀ {key : LocalKey} {t : Ty}, f.localTypes.get? key = some t → t.Known p
  localConstants : ∀ {key : LocalKey} {c : Constant}, f.localConstants.get? key = some (some c) →
    Lasting f (LocalConstantFact p key c)
  /-- Type and constant of a local are published together. -/
  paired : ∀ {key : LocalKey} {t : Ty}, f.localTypes.get? key = some t → key.IsConstant p →
    ∃ c, f.localConstants.get? key = some c
  functionSignatures : ∀ {key : LocalKey} {signature : Signature},
    f.functionSignatures.get? key = some signature → signature.Known p
  /-- With the signature of a local function the types of its parameters are published. -/
  signed : ∀ {function : LocalFunction} {signature : Signature}, function.Known p →
    f.functionSignature? function = some signature →
      ∀ l ∈ function.parameters, ∃ t, f.localTypes.get? l.key = some t
  functionDefaults : ∀ {key : LocalKey} {values : List (Option Expr)},
    f.functionDefaults.get? key = some values → Lasting f (FunctionDefaultsFact p values)

/-- Findings that can come after `f` without a declaration of a local in between. -/
structure Stage (f g : Findings) : Prop where
  sound : Sound p g
  grows : f.Grows g
  locals : ∀ {key : LocalKey} {t : Ty}, g.localTypes.get? key = some t →
    f.localTypes.get? key = some t ∨ key.IsParameter p
  progress : g.signaturesInProgress = f.signaturesInProgress

variable {p}

theorem LocalFunction.Known.isParameter {f : LocalFunction} (h : f.Known p) :
    ∀ l ∈ f.parameters, l.key.IsParameter p := by
  intro l hl
  obtain ⟨_, -, hparameters⟩ := h.nodes
  obtain ⟨-, type, defaultValue, -, hnode⟩ := hparameters l hl
  exact ⟨_, type, defaultValue, hnode⟩

theorem sound_empty : Sound p {} where
  regions := Program.cacheSound_empty
  ledgers := by simp [Ledgers.Known]
  constants := by simp
  grounded := by simp [Findings.HasConstant]
  fieldTypes := by simp
  signatures := by simp
  defaults := by simp
  localTypes := by simp
  localConstants := by simp
  paired := by simp
  functionSignatures := by simp
  signed := by simp [Findings.functionSignature?]
  functionDefaults := by simp

theorem Sound.stage (h : Sound p f) : Stage p f f where
  sound := h
  grows := .refl f
  locals := .inl
  progress := rfl

/-- A constant that is computed from constants that are published has no endless dependencies. -/
theorem Sound.grounded_of_converted (h : Sound p f) {field : SymbolId} {scope : Chain}
    {node : NodeId} (hscope : p.initializerScope field = .ok (some scope))
    (hnode : (p.symbols.field? field).map (·.bind (·.initializer)) = .ok (some node))
    {tracker : Option Tracker} {target : Ty} {e : Expr} {trace : Trace} {c : Constant}
    (hvalue : Derives p f g (.converted (scope.constantFields tracker) node target e) trace)
    (hc : e.constant = some c) : Lasting f (p.Grounded · field) := by
  intro F hF
  refine Acc.intro field fun other hother => ?_
  obtain ⟨-, -, scope', node', hscope', hnode', hoperand⟩ := hother
  obtain rfl := Option.some.inj (ok_unique hscope hscope')
  obtain rfl := Option.some.inj (ok_unique hnode hnode')
  cases hvalue with
  | converted hvalue hconverts =>
    obtain ⟨a, ha⟩ := hconverts.exists_constant hc
    obtain ⟨first, hvalue⟩ := hvalue.expression_form (Expr.ne_error_of_constant ha)
    exact h.grounded (Derives.operand_constant hoperand hF hvalue ha) F hF

/-- Which signatures are in progress says nothing about what is published. -/
theorem Sound.withProgress (h : Sound p f) (list : List SymbolId) :
    Sound p { f with signaturesInProgress := list } := by
  have hgrows : f.Grows { f with signaturesInProgress := list } := { Findings.Grows.refl f with }
  exact {
    regions := h.regions
    ledgers := h.ledgers
    constants := fun hk => (h.constants hk).grows hgrows
    grounded := fun hk => (h.grounded hk).grows hgrows
    fieldTypes := fun hk => (h.fieldTypes hk).imp id (·.grows hgrows)
    signatures := fun hk => (h.signatures hk).imp id (·.grows hgrows)
    defaults := fun hk => (h.defaults hk).grows hgrows
    localTypes := h.localTypes
    localConstants := fun hk => (h.localConstants hk).grows hgrows
    paired := h.paired
    functionSignatures := h.functionSignatures
    signed := h.signed
    functionDefaults := fun hk => (h.functionDefaults hk).grows hgrows }

/-- A stage in which a signature is in progress, seen from around it. -/
theorem Stage.around {h : Findings} {list : List SymbolId} (hs : Stage p f g)
    (hinner : Stage p { g with signaturesInProgress := list } h) :
    Stage p f { h with signaturesInProgress := g.signaturesInProgress } where
  sound := hinner.sound.withProgress _
  grows := hs.grows.trans { hinner.grows with }
  locals := fun hk => (hinner.locals hk).elim hs.locals .inr
  progress := hs.progress

/-! ### Publishing -/

variable (p) in
/-- What a change from `g` to `g'` has to say about what it adds.  It adds types of those locals
only that are `owned`. -/
structure Adds (owned : LocalKey → Prop) (g g' : Findings) : Prop where
  grows : g.Grows g'
  progress : g'.signaturesInProgress = g.signaturesInProgress := by rfl
  regions : p.CacheSound g.regions → p.CacheSound g'.regions := by exact id
  ledgers : g.ledgers.Known p → g'.ledgers.Known p := by exact id
  constants : ∀ {field : SymbolId} {known : Evaluated FieldConstant},
    g'.constants.get? field = some known → g.constants.get? field = some known ∨
      Lasting g (ConstantFact p field known) := by exact .inl
  grounded : ∀ {field : SymbolId}, g'.HasConstant field →
    g.HasConstant field ∨ Lasting g (p.Grounded · field) := by exact .inl
  fieldTypes : ∀ {field : SymbolId} {known : Evaluated Ty},
    g'.fieldTypes.get? field = some known → g.fieldTypes.get? field = some known ∨
      known.value.Known p ∧ Lasting g (FieldTypeFact p field known) := by exact .inl
  signatures : ∀ {method : SymbolId} {known : Evaluated Signature},
    g'.signatures.get? method = some known → g.signatures.get? method = some known ∨
      known.value.Known p ∧ Lasting g (SignatureFact p method known) := by exact .inl
  defaults : ∀ {parameter : SymbolId} {known : Evaluated (Option Expr)},
    g'.defaults.get? parameter = some known → g.defaults.get? parameter = some known ∨
      Lasting g (DefaultFact p parameter known) := by exact .inl
  localTypes : ∀ {key : LocalKey} {t : Ty}, g'.localTypes.get? key = some t →
    g.localTypes.get? key = some t ∨ t.Known p ∧ owned key := by exact .inl
  localConstants : ∀ {key : LocalKey} {c : Constant}, g'.localConstants.get? key = some (some c) →
    g.localConstants.get? key = some (some c) ∨ Lasting g' (LocalConstantFact p key c) := by exact .inl
  paired : ∀ {key : LocalKey} {t : Ty}, g'.localTypes.get? key = some t → key.IsConstant p →
    g.localTypes.get? key = some t ∨ ∃ c, g'.localConstants.get? key = some c := by
      exact fun hk _ => .inl hk
  functionSignatures : ∀ {key : LocalKey} {signature : Signature},
    g'.functionSignatures.get? key = some signature →
      g.functionSignatures.get? key = some signature ∨ signature.Known p := by exact .inl
  signed : ∀ {function : LocalFunction} {signature : Signature}, function.Known p →
    g'.functionSignature? function = some signature → g.functionSignature? function = some signature ∨
      ∀ l ∈ function.parameters, ∃ t, g'.localTypes.get? l.key = some t := by exact fun _ hk => .inl hk
  functionDefaults : ∀ {key : LocalKey} {values : List (Option Expr)},
    g'.functionDefaults.get? key = some values → g.functionDefaults.get? key = some values ∨
      Lasting g (FunctionDefaultsFact p values) := by exact .inl

theorem Sound.add {owned : LocalKey → Prop} {g' : Findings} (h : Sound p g)
    (adds : Adds p owned g g') : Sound p g' where
  regions := adds.regions h.regions
  ledgers := adds.ledgers h.ledgers
  constants := fun hk => ((adds.constants hk).elim h.constants id).grows adds.grows
  grounded := fun hk => ((adds.grounded hk).elim h.grounded id).grows adds.grows
  fieldTypes := fun hk => ((adds.fieldTypes hk).elim h.fieldTypes id).imp id (·.grows adds.grows)
  signatures := fun hk => ((adds.signatures hk).elim h.signatures id).imp id (·.grows adds.grows)
  defaults := fun hk => ((adds.defaults hk).elim h.defaults id).grows adds.grows
  localTypes := fun hk => (adds.localTypes hk).elim h.localTypes (·.1)
  localConstants := fun hk =>
    (adds.localConstants hk).elim (fun hk => (h.localConstants hk).grows adds.grows) id
  paired := fun hk hconstant => (adds.paired hk hconstant).elim
    (fun hk => (h.paired hk hconstant).imp fun _ hc => adds.grows.localConstants hc) id
  functionSignatures := fun hk => (adds.functionSignatures hk).elim h.functionSignatures id
  signed := fun hknown hk => (adds.signed hknown hk).elim
    (fun hk l hl => (h.signed hknown hk l hl).imp fun _ ht => adds.grows.localTypes ht) id
  functionDefaults := fun hk =>
    ((adds.functionDefaults hk).elim h.functionDefaults id).grows adds.grows

theorem Stage.add {g' : Findings} (h : Stage p f g) (adds : Adds p (LocalKey.IsParameter p) g g') :
    Stage p f g' where
  sound := h.sound.add adds
  grows := h.grows.trans adds.grows
  locals := fun hk => (adds.localTypes hk).elim h.locals fun hk => .inr hk.2
  progress := adds.progress.trans h.progress

theorem Registry.grows_foldl [DecidableEq κ] (key : β → κ) (value : β → α) (list : List β)
    (r : Registry κ α) :
    r.Grows (list.foldl (fun r b => r.publish (key b) (value b)) r) := by
  induction list generalizing r with
  | nil => exact id
  | cons b rest ih => exact fun h => ih _ (r.grows_publish (key b) (value b) h)

variable {r : Registry κ α}

theorem Registry.of_get?_foldl [DecidableEq κ] (key : β → κ) (value : β → α) (list : List β)
    {k : κ} {a : α} (h : (list.foldl (fun r b => r.publish (key b) (value b)) r).get? k = some a) :
    r.get? k = some a ∨ ∃ b ∈ list, key b = k ∧ value b = a := by
  induction list generalizing r with
  | nil => exact .inl h
  | cons b rest ih =>
    rcases ih h with h | ⟨c, hc, hcase⟩
    · rcases Registry.of_get?_publish h with h | ⟨rfl, rfl⟩
      · exact .inl h
      · exact .inr ⟨b, by simp, rfl, rfl⟩
    · exact .inr ⟨c, List.mem_cons_of_mem _ hc, hcase⟩

theorem Registry.exists_get?_foldl [DecidableEq κ] (key : β → κ) (value : β → α) {list : List β}
    {b : β} (hb : b ∈ list) :
    ∃ a, (list.foldl (fun r b => r.publish (key b) (value b)) r).get? (key b) = some a := by
  induction list generalizing r with
  | nil => simp at hb
  | cons c rest ih =>
    rcases List.mem_cons.1 hb with rfl | hb
    · obtain ⟨a, ha, -⟩ := r.get?_publish_cases (key b) (value b)
      exact ⟨a, Registry.grows_foldl key value rest _ ha⟩
    · exact ih hb

/-- The signature of a local function that is known from then on. -/
theorem Findings.functionSignature?_publish (g : Findings) (function : LocalFunction)
    (signature : Signature) :
    ∃ s, (g.publishFunctionSignature function signature).functionSignature? function = some s ∧
      (g.functionSignature? function = some s ∨ s = signature) := by
  obtain ⟨s, hs, hcases⟩ := g.functionSignatures.get?_publish_cases function.key signature
  exact ⟨s, hs, hcases.imp id (·.2)⟩

/-- Every parameter has a type once a signature with as many is published. -/
theorem Findings.localTypes_publish (g : Findings) (hnew : g.functionSignature? function = none)
    (hlength : signature.parameters.length = function.parameters.length) {l : Local}
    (hl : l ∈ function.parameters) :
    ∃ t, (g.publishFunctionSignature function signature).localTypes.get? l.key = some t := by
  obtain ⟨i, hi, rfl⟩ := List.getElem_of_mem hl
  have hpublished : (g.functionSignatures.publish function.key signature).get? function.key =
      some signature := Registry.get?_publish_self signature hnew
  have hmem : (function.parameters[i], signature.parameters[i]) ∈
      function.parameters.zip signature.parameters :=
    List.mem_iff_getElem.2 ⟨i, by simpa [hlength] using hi, by simp⟩
  unfold publishFunctionSignature
  dsimp only
  rw [hpublished]
  exact Registry.exists_get?_foldl (fun b : Local × Ty => b.1.key) (·.2) hmem

theorem Sound.publishFunctionSignature (h : Sound p g) (hsignature : signature.Known p)
    (hfunction : function.Known p)
    (hlength : signature.parameters.length = function.parameters.length) :
    Adds p (LocalKey.IsParameter p) g (g.publishFunctionSignature function signature) where
  grows := { Findings.Grows.refl g with
    functionSignatures := Registry.grows_publish _ _ _
    localTypes := Registry.grows_foldl (fun b : Local × Ty => b.1.key) (·.2) _ _ }
  functionSignatures := fun hk => by
    rcases Registry.of_get?_publish hk with hk | ⟨-, rfl⟩
    · exact .inl hk
    · exact .inr hsignature
  localTypes := fun hk => by
    obtain ⟨s, hs, hcases⟩ := g.functionSignature?_publish function signature
    rcases Registry.of_get?_foldl (fun b : Local × Ty => b.1.key) (·.2) _ hk with
      hk | ⟨b, hb, rfl, rfl⟩
    · exact .inl hk
    · refine .inr ⟨?_, hfunction.isParameter _ (List.of_mem_zip (a := b.1) hb).1⟩
      have hknown : s.Known p := by
        rcases hcases with hold | rfl
        · exact h.functionSignatures hold
        · exact hsignature
      have hmem := (List.of_mem_zip (a := b.1) hb).2
      change (g.functionSignatures.publish function.key signature).get? function.key = some s at hs
      rw [hs] at hmem
      exact hknown.1 _ hmem
  paired := fun hk hconstant => by
    rcases Registry.of_get?_foldl (fun b : Local × Ty => b.1.key) (·.2) _ hk with
      hk | ⟨b, hb, rfl, rfl⟩
    · exact .inl hk
    · obtain ⟨_, _, _, hparameter⟩ := hfunction.isParameter _ (List.of_mem_zip (a := b.1) hb).1
      obtain ⟨_, _, _, hdeclaration⟩ := hconstant
      exact absurd (hparameter.symm.trans hdeclaration) (by simp)
  signed := fun {other _} hother hk => by
    by_cases hkey : other.key = function.key
    · obtain rfl := hother.eq_of_key hfunction hkey
      cases hold : g.functionSignature? other with
      | none => exact .inr fun l hl => g.localTypes_publish hold hlength hl
      | some old =>
        have hkept : (g.functionSignatures.publish other.key signature).get? other.key = some old :=
          Registry.get?_publish_of_get? signature hold
        exact .inl (hkept.symm.trans hk)
    · exact .inl ((Registry.get?_publish_of_ne signature hkey).symm.trans hk)

namespace Steps

variable [Endless] {α β : Type} {f : Findings}

variable {Q : Findings → β → Trace → Prop} {m : RegionM α} {a : α} {L : β → Prop}

/-- A look at the kept chains. -/
theorem fetch (hm : p.Fetches m a) :
    Steps (Stage p f) (BindM.regions m) (· = a) fun _ _ trace => trace = [] :=
  regions hm (fun _ h => h.sound.regions) fun g _ h hcache =>
    h.add { grows := { Findings.Grows.refl g with }, regions := fun _ => hcache }

variable {k : α → BindM β}

theorem bind_fetch (hm : p.Fetches m a) (hk : Steps (Stage p f) (k a) L Q) :
    Steps (Stage p f) (BindM.regions m >>= k) L Q := by
  refine bind (fetch hm) ?_
  rintro _ rfl
  refine hk.mono ?_
  rintro F b trace hQ _ rfl
  exact hQ

/-- The same in one state, whose pass is kept. -/
theorem bind_fetch_at {s : BindState} (hm : p.Fetches m a) (hs : Stage p f s.findings)
    (hk : ∀ s', Stage p f s'.findings → s'.pass = s.pass → StepsAt (Stage p f) (k a) s' L Q) :
    StepsAt (Stage p f) (BindM.regions m >>= k) s L Q := by
  refine (fetch hm s hs).bind ?_
  rintro _ s' first rfl hs' - hpass htrace
  obtain rfl := htrace s'.findings (.refl _)
  exact hk s' hs' (hpass.trans (Pass.extend_nil _))

/-- Publishing what was computed and looking at what stands there then. -/
theorem bind_publish {m : BindM α} {g : α → Findings → Findings} {k : α → Findings → BindM β}
    {K : α → Prop} {R : Findings → α → Trace → Prop} (hm : Steps (Stage p f) m K R)
    (hg : ∀ a h trace, K a → Stage p f h → Lasting h (R · a trace) →
      Adds p (LocalKey.IsParameter p) h (g a h))
    (hk : ∀ a h, K a → Stage p f h → Steps (Stage p f) (k a (g a h)) L fun F b rest =>
      ∀ first, R F a first → (g a h).Grows F → Q F b (first ++ rest)) :
    Steps (Stage p f) (do
      let a ← m
      BindM.modifyFindings (g a)
      k a (← BindM.findings)) L Q := by
  intro s hs
  refine (hm s hs).bind fun a s' first ha hs' _ _ hR => ?_
  have hadds := hg a s'.findings first ha hs' hR
  refine StepsAt.modifyFindings hadds.grows ?_
  refine (hk a s'.findings ha hs' _ (hs'.add hadds)).imp (fun _ h => h) fun F b rest hF hQ => ?_
  exact hQ first (hR F (hadds.grows.trans hF)) hF

end Steps

/-! ### Answers -/

variable [Endless]

variable (p) in
/-- The constant of a field as it was seen: the published one, or nothing while another constant is
computed. -/
def SeesConstant (F f : Findings) (field : SymbolId) (tracker : Option Tracker)
    (found : Option (Evaluated FieldConstant)) : Prop :=
  (∃ known g trace, found = some known ∧ F.constants.get? field = some known ∧
      Derives p F g (.constant field known.value) trace) ∨
    found = none ∧ f.constants.get? field = none ∧ tracker.isSome = true

variable (p) in
/-- What is assumed of the answers to requests, at any stage. -/
structure AskerSpec (ask : Asker) : Prop where
  signature : ∀ (f : Findings) {method : Nat}, method < p.symbols.size →
    Steps (Stage p f) (ask (.signature method)) (fun known => known.value.Known p)
      fun F known trace => trace = [] ∧ SeesSignature p F f method known.value ∧
        (method ∉ f.signaturesInProgress → F.signatures.get? method = some known)
  fieldType : ∀ (f : Findings) {field : Nat} (beingBound : List SymbolId), field < p.symbols.size →
    Steps (Stage p f) (ask (.fieldType field beingBound)) (fun known => known.value.Known p)
      fun F known trace => trace = [] ∧ F.fieldTypes.get? field = some known
  fieldConstant : ∀ (f : Findings) {field : Nat} (tracker : Option Tracker),
    field < p.symbols.size →
    Steps (Stage p f) (ask (.fieldConstant field tracker)) (fun _ => True)
      fun F found trace => trace = [] ∧ SeesConstant p F f field tracker found
  constantParameterType : ∀ (f : Findings) {parameter : Nat}, parameter < p.symbols.size →
    Steps (Stage p f) (ask (.constantParameterType parameter))
      (fun found => ∀ t, found = some t → t.Known p)
      fun F found trace => trace = [] ∧ Derives p F f (.constantParameter parameter found) []
  functionSignature : ∀ (f : Findings) {scope : Chain} {function : LocalFunction},
    scope.Known p → function.Known p →
    Steps (Stage p f) (ask (.functionSignature scope function)) (fun signature => signature.Known p)
      fun F signature trace => trace = [] ∧ ∃ inner, TypesFunction p F f scope function signature inner

/-- A signature, whether it is in progress or not. -/
theorem AskerSpec.sees {ask : Asker} (spec : AskerSpec p ask) (f : Findings) {method : Nat}
    (h : method < p.symbols.size) :
    Steps (Stage p f) (ask (.signature method)) (fun known => known.value.Known p)
      fun F known trace => trace = [] ∧ SeesSignature p F f method known.value :=
  (spec.signature f h).mono fun _ _ _ h => ⟨h.1, h.2.1⟩

/-- An answer leaves no trace. -/
theorem Steps.bind_answer {I : Findings → Prop} {m : BindM α} {k : α → BindM β} {K : α → Prop}
    {S : Findings → α → Prop} {L : β → Prop} {Q : Findings → β → Trace → Prop}
    (hm : Steps I m K fun F a trace => trace = [] ∧ S F a)
    (hk : ∀ a, K a → Steps I (k a) L fun F b trace => S F a → Q F b trace) :
    Steps I (m >>= k) L Q := by
  refine bind hm fun a ha => (hk a ha).mono ?_
  rintro F b trace hQ _ ⟨rfl, hS⟩
  exact hQ hS

end Bindery
