import Bindery.Proofs.DeclarationSteps
import Bindery.Proofs.IntegerConstants

/-! # Computing one constant of integer arithmetic

Binding the initializer of such a constant computes its term from the numbers that are published.  A
constant that is named but not published has no number yet, and is written down in the ledger.

* `Findings.Integral` holds of the findings all along: field types are `int`, published constants
  are integers or bad.
* `Looked tracker names s s'` says what the look at the constants `names` has changed: the ledger,
  and whether a constant was missing.  Nothing else is seen later.
* `IntegerAsker` says how the two kinds of requests that arise are answered; neither takes
  another. -/

namespace Bindery

variable {p : Program}

/-! ### Chains -/

namespace Chain

theorem lookup_constantFields (chain : Chain) (tracker : Option Tracker) (name : String)
    (node : NodeId) :
    (chain.push (.constantFields tracker) {}).lookup p name node = chain.lookup p name node := rfl

theorem isAccessible_constantFields (chain : Chain) (tracker : Option Tracker) (symbol : SymbolId) :
    (chain.push (.constantFields tracker) {}).isAccessible p symbol = chain.isAccessible p symbol := by
  unfold isAccessible
  have hflags : (chain.push (.constantFields tracker) {}).flags.ignoresAccess =
      chain.flags.ignoresAccess := by
    simp [Chain.flags, Chain.push, FrameKind.flags, Flags.union]
  rw [hflags]
  rfl

end Chain

namespace Program

/-- Outside of initializers whose types are inferred, no field is being bound. -/
theorem fieldsBeingBound_containerScope {list : List SymbolId} {chain : Chain}
    (h : p.containerScope list = .ok chain) : chain.fieldsBeingBound = [] := by
  induction list generalizing chain with
  | nil =>
    obtain rfl := Except.ok.inj h
    rfl
  | cons type outer ih =>
    obtain ⟨isType, -, h⟩ := exists_of_bind_eq_ok h
    cases isType with
    | false =>
      obtain rfl := Except.ok.inj h
      rfl
    | true =>
      obtain ⟨scope, hscope, rfl⟩ := exists_of_bind_pure_eq_ok h
      exact (ih hscope :)

theorem fieldsBeingBound_initializerScope {field : SymbolId} {chain : Chain}
    (h : p.initializerScope field = .ok (some chain)) : chain.fieldsBeingBound = [] := by
  obtain ⟨_, -, h⟩ := exists_of_bind_eq_ok h
  obtain ⟨_, -, h⟩ := exists_of_bind_eq_ok h
  split at h
  · obtain ⟨scope, hscope, h⟩ := exists_of_bind_eq_ok h
    obtain rfl := Option.some.inj (Except.ok.inj h)
    obtain ⟨outer, houter, rfl⟩ := exists_of_bind_pure_eq_ok hscope
    obtain ⟨_, -, houter⟩ := exists_of_bind_eq_ok houter
    exact (fieldsBeingBound_containerScope houter :)
  · simp [pure, Except.pure] at h

end Program

namespace Program

theorem kind_of_field? {field : SymbolId} {data : FieldData}
    (h : p.symbols.field? field = .ok (some data)) : p.symbols.kind field = .ok (.field data) := by
  obtain ⟨s, hs, hkind⟩ := exists_of_field? h
  exact hkind ▸ SymbolTable.map_fetch _ hs

end Program

/-! ### Findings -/

/-- The number that is published for a constant. -/
def Findings.number? (f : Findings) (field : SymbolId) : Option Int :=
  match f.constants.get? field with
  | some ⟨.value (.value (.int n)), _⟩ => some n
  | _ => none

theorem Findings.number?_congr {f g : Findings} (h : g.constants = f.constants) :
    g.number? = f.number? := by
  funext field
  simp only [Findings.number?, h]

/-- Findings of a program in which only constants of integer arithmetic have been computed. -/
structure Findings.Integral (p : Program) (f : Findings) : Prop where
  regions : p.CacheSound f.regions
  fieldTypes : ∀ {field : SymbolId} {term : IntTerm} {known : Evaluated Ty},
    p.DefinesTerm field term → f.fieldTypes.get? field = some known → known.value = .primitive .int
  constants : ∀ {field : SymbolId} {known : Evaluated FieldConstant},
    f.constants.get? field = some known → known.value = .bad ∨
      ∃ n, known.value = .value (.value (.int n)) ∧ fitsInt n = true

namespace Findings.Integral

variable {f : Findings} (h : f.Integral p) {field : SymbolId}
include h

theorem constant?_eq :
    (f.constants.get? field).bind (·.value.constant?) =
      (f.number? field).map fun n => .value (.int n) := by
  unfold Findings.number?
  cases hget : f.constants.get? field with
  | none => rfl
  | some known =>
    obtain ⟨value, diagnostics⟩ := known
    rcases h.constants hget with hbad | ⟨n, hn, -⟩
    · obtain rfl : value = _ := hbad
      rfl
    · obtain rfl : value = _ := hn
      rfl

theorem fits {n : Int} (hn : f.number? field = some n) : fitsInt n = true := by
  unfold Findings.number? at hn
  split at hn
  · next hget =>
    obtain rfl := Option.some.inj hn
    rcases h.constants hget with hbad | ⟨m, hm, hfits⟩
    · simp at hbad
    · obtain rfl : _ = m := by simpa using hm
      exact hfits
  · simp at hn

end Findings.Integral

/-! ### Terms under a tracker -/

/-- What has changed after the constants in `names` were asked for under `tracker`. -/
structure Looked (p : Program) (tracker : Tracker) (names : List SymbolId) (s s' : BindState) :
    Prop where
  integral : s'.findings.Integral p
  constants : s'.findings.constants = s.findings.constants
  ledger_lt : tracker.ledger < s'.findings.ledgers.entries.length
  mem_dependencies : ∀ d, d ∈ s'.findings.ledgers.dependencies (some tracker) ↔
    d ∈ s.findings.ledgers.dependencies (some tracker) ∨
      d ∈ names ∧ s.findings.constants.get? d = none
  diagnostics : s'.pass.diagnostics = s.pass.diagnostics
  sawBadConstant : s'.pass.sawBadConstant =
    (s.pass.sawBadConstant || names.any fun d => (s.findings.number? d).isNone)

/-- Nothing but scopes and field types has been added. -/
structure Kept (p : Program) (s s' : BindState) : Prop where
  integral : s'.findings.Integral p
  constants : s'.findings.constants = s.findings.constants
  ledgers : s'.findings.ledgers = s.findings.ledgers
  pass : s'.pass = s.pass

variable {s : BindState}

theorem Kept.refl (h : s.findings.Integral p) : Kept p s s := ⟨h, rfl, rfl, rfl⟩

namespace Looked

variable {tracker : Tracker} {names names' : List SymbolId} {s s' s'' : BindState}

theorem refl (h : s.findings.Integral p) (hlt : tracker.ledger < s.findings.ledgers.entries.length) :
    Looked p tracker [] s s := ⟨h, rfl, hlt, by simp, rfl, by simp⟩

theorem of_kept (h : Kept p s s') (hlt : tracker.ledger < s.findings.ledgers.entries.length) :
    Looked p tracker [] s s' :=
  ⟨h.integral, h.constants, by rwa [h.ledgers], by simp [h.ledgers], by rw [h.pass], by simp [h.pass]⟩

theorem number?_eq (h : Looked p tracker names s s') :
    s'.findings.number? = s.findings.number? := Findings.number?_congr h.constants

theorem trans (h : Looked p tracker names s s') (h' : Looked p tracker names' s' s'') :
    Looked p tracker (names ++ names') s s'' where
  integral := h'.integral
  constants := h'.constants.trans h.constants
  ledger_lt := h'.ledger_lt
  mem_dependencies d := by
    rw [h'.mem_dependencies, h.mem_dependencies, h.constants, List.mem_append, or_and_right, or_assoc]
  diagnostics := h'.diagnostics.trans h.diagnostics
  sawBadConstant := by
    rw [h'.sawBadConstant, h.sawBadConstant, h.number?_eq, List.any_append, Bool.or_assoc]

end Looked

/-- Requests are answered as far as constants of integer arithmetic make them. -/
structure IntegerAsker (p : Program) (ask : Asker) : Prop where
  fieldType : ∀ {field : SymbolId} {term : IntTerm}, p.DefinesTerm field term → ∀ s : BindState,
    s.findings.Integral p → Succeeds (ask (.fieldType field [])) s fun known s' =>
      known.value = .primitive .int ∧ Kept p s s'
  fieldConstant : ∀ (field : SymbolId) (tracker : Tracker) (s : BindState), s.findings.Integral p →
    tracker.ledger < s.findings.ledgers.entries.length →
    Succeeds (ask (.fieldConstant field (some tracker))) s fun found s' =>
      found = s.findings.constants.get? field ∧ s'.pass = s.pass ∧ s'.findings.Integral p ∧
      s'.findings.constants = s.findings.constants ∧
      tracker.ledger < s'.findings.ledgers.entries.length ∧
      ∀ d, d ∈ s'.findings.ledgers.dependencies (some tracker) ↔
        d ∈ s.findings.ledgers.dependencies (some tracker) ∨
          d = field ∧ s.findings.constants.get? d = none

/-- The expression has the value that the term has. -/
structure IntTerm.Bound (term : IntTerm) (f : Findings) (e : Expr) : Prop where
  type : e.type = .primitive .int
  constant : e.constant = (term.eval? f.number?).map fun n => .value (.int n)
  isValue : e.isError = false ∧ e.isMethods = false ∧ e.isType = false

namespace IntTerm.Bound

variable {term : IntTerm} {f : Findings} {e : Expr} (h : term.Bound f e)
include h

theorem checkValueKind_eq : p.checkValueKind e .rvalue = pure e := by
  obtain ⟨herror, hmethods, htype⟩ := h.isValue
  have hvoid : e.type.isVoid = false := by rw [h.type]; rfl
  unfold Program.checkValueKind Program.lacksValue
  simp [herror, hmethods, htype, hvoid, ValueKind.rvalue]

theorem convert_eq (node : NodeId) : p.convert e (.primitive .int) node = pure e := by
  have hconversion : e.type.conversion p.symbols (.primitive .int) = .ok .identity := by
    rw [h.type]
    rfl
  have hconstant : (e.constant.bind fun c => c.foldConversion (.primitive .int) .identity) =
      e.constant := by
    rw [h.constant]
    cases term.eval? f.number? with
    | none => rfl
    | some n => rfl
  have htarget : (Ty.primitive .int).isError = false := rfl
  have hcast : (e.castTo (.primitive .int) .identity).withConstant e.constant = e := by
    rw [Expr.castTo, if_pos (by simp [h.type])]
    cases e
    rfl
  unfold Program.convert Program.convertWith
  rw [h.isValue.1, htarget, hconversion]
  change (pure ((e.castTo (.primitive .int) .identity).withConstant
    (e.constant.bind fun c => c.foldConversion (.primitive .int) .identity)) : BindM Expr) = pure e
  rw [hconstant, hcast]

theorem bindUnary_eq (op : UnaryOp) (hop : op = .plus ∨ op = .negate) (node : NodeId) :
    p.bindUnary op e node = pure (.mk (.unary op e) (.primitive .int)
      (e.constant.bind (Constant.foldUnary op)) node) := by
  have haccepts : op.accepts e.type = true := by
    rw [h.type]
    rcases hop with rfl | rfl <;> rfl
  unfold Program.bindUnary
  rw [h.isValue.1, haccepts, h.type]
  rfl

theorem bindBinary_eq {term' : IntTerm} {e' : Expr} (h' : term'.Bound f e') (op : ArithmeticOp)
    (leftNode rightNode node : NodeId) :
    p.bindBinary op.operator e e' leftNode rightNode node = pure (.mk (.binary op.operator e e')
      (.primitive .int) (((term.eval? f.number?).bind fun a => (term'.eval? f.number?).bind fun b =>
        Value.foldInts op.operator a b).map .value) node) := by
  have hsignature : BinarySignature.of? op.operator e.type e'.type =
      some (.uniform (.primitive .int)) := by
    rw [h.type, h'.type]
    cases op <;> rfl
  have hrelational : op.operator.isRelational = false := by cases op <;> rfl
  have hfold : ∀ a b, Constant.foldBinary op.operator (.value (.int a)) (.value (.int b)) =
      (Value.foldInts op.operator a b).map .value := by
    intro a b
    cases op <;> rfl
  unfold Program.bindBinary
  rw [h.isValue.1, h'.isValue.1, hsignature]
  dsimp only [BinarySignature.uniform]
  rw [h.convert_eq, h'.convert_eq, hrelational]
  simp only [pure_bind, Bool.false_and, Bool.false_eq_true, if_false, Bool.or_false, h.constant,
    h'.constant]
  cases term.eval? f.number? with
  | none => rfl
  | some a =>
    cases term'.eval? f.number? with
    | none => rfl
    | some b =>
      rw [Option.bind_some, Option.bind_some, ← hfold]
      rfl

end IntTerm.Bound

/-! ### Expressions by their nodes -/

namespace Program

variable {ask : Asker} {chain : Chain} {node : NodeId} {kind : ValueKind}

theorem bindUnchecked_literal {value : Literal} (h : p.tree.node? node = some (.literal value)) :
    p.bindUnchecked ask chain node kind = pure (.ofLiteral value node) := by
  rw [bindUnchecked]
  split <;> simp_all

theorem bindUnchecked_identifier {name : String} (h : p.tree.node? node = some (.identifier name)) :
    p.bindUnchecked ask chain node kind = p.bindName ask chain name node := by
  rw [bindUnchecked]
  split <;> simp_all

theorem bindUnchecked_binary {op : BinaryOp} {left right : NodeId}
    (h : p.tree.node? node = some (.binary op left right)) :
    p.bindUnchecked ask chain node kind = (do
      let a ← p.bindExpression ask chain left .rvalue
      let b ← p.bindExpression ask chain right .rvalue
      p.bindBinary op a b left right node) := by
  rw [bindUnchecked]
  split <;> simp_all

theorem bindUnchecked_unary {op : UnaryOp} {operand : NodeId} (hop : op.writesBack = false)
    (h : p.tree.node? node = some (.unary op operand)) :
    p.bindUnchecked ask chain node kind = (do
      let value ← p.bindExpression ask chain operand .rvalue
      p.bindUnary op value node) := by
  rw [bindUnchecked]
  split <;> simp_all

end Program

namespace IntegerAsker

variable {ask : Asker} (asker : IntegerAsker p ask)
include asker

variable {s : BindState} {chain : Chain} {tracker : Tracker}

theorem constantOfField_spec (htracker : chain.tracker? = some tracker) (field : SymbolId)
    (hs : s.findings.Integral p) (hlt : tracker.ledger < s.findings.ledgers.entries.length) :
    Succeeds (Program.constantOfField ask chain field) s fun constant s' =>
      constant = ((s.findings.number? field).map fun n => .value (.int n)) ∧
        Looked p tracker [field] s s' := by
  unfold Program.constantOfField
  rw [htracker]
  refine Ends.bind (asker.fieldConstant field tracker s hs hlt) ?_
  rintro _ s' ⟨rfl, hpass, hintegral, hconstants, hlt', hmem⟩
  rw [hs.constant?_eq]
  have hlooked : ∀ bad : Bool, bad = (s.pass.sawBadConstant || (s.findings.number? field).isNone) →
      Looked p tracker [field] s { s' with pass := { s'.pass with sawBadConstant := bad } } := by
    rintro _ rfl
    refine ⟨hintegral, hconstants, hlt', fun d => ?_, ?_, by simp⟩
    · rw [List.mem_singleton]
      exact hmem d
    · rw [hpass]
  cases hnumber : s.findings.number? field with
  | some n =>
    refine Ends.pure ⟨rfl, ?_⟩
    have := hlooked s'.pass.sawBadConstant (by simp [hpass, hnumber])
    exact this
  | none => exact Ends.bind_modify (Ends.pure ⟨rfl, hlooked true (by simp [hnumber])⟩)

theorem bindName_spec {name : String} {node field : SymbolId} {found rest : List SymbolId}
    (hbeing : chain.fieldsBeingBound = [])
    (hlookup : chain.lookup p name node = .ok (.symbols found))
    (haccessible : (found.filterM fun symbol => chain.isAccessible p symbol) = .ok (field :: rest))
    {term : IntTerm} (hdefines : p.DefinesTerm field term) (hs : s.findings.Integral p)
    (hlt : tracker.ledger < s.findings.ledgers.entries.length) :
    Succeeds (p.bindName ask (chain.push (.constantFields (some tracker)) {}) name node) s
      fun e s' => (IntTerm.constant field).Bound s.findings e ∧ Looked p tracker [field] s s' := by
  have hbound : (chain.push (.constantFields (some tracker)) {}).fieldsBeingBound = [] := hbeing
  unfold Program.bindName
  rw [Chain.lookup_constantFields]
  refine Ends.bind_lift ⟨_, hlookup, rfl⟩ ?_
  rintro _ rfl
  unfold Program.bindMembers
  have hfilter : (found.filterM fun symbol =>
      (chain.push (.constantFields (some tracker)) {}).isAccessible p symbol) = .ok (field :: rest) := by
    simpa only [Chain.isAccessible_constantFields] using haccessible
  refine Ends.bind (R := fun kept s' => kept = field :: rest ∧ s' = s)
    (Ends.of_eq (filterM_lift hfilter s) ⟨rfl, rfl⟩) ?_
  rintro _ _ ⟨rfl, rfl⟩
  rw [hbound]
  obtain ⟨hfield, hconstant, -, -, -, -, -⟩ := id hdefines
  refine Ends.bind_lift ⟨_, Program.kind_of_field? hfield, rfl⟩ ?_
  rintro _ rfl
  refine Ends.bind (asker.fieldType hdefines _ hs) ?_
  rintro known s₁ ⟨htype, hkept⟩
  rw [hconstant]
  refine Ends.bind (asker.constantOfField_spec rfl field hkept.integral (hkept.ledgers ▸ hlt)) ?_
  rintro _ s₂ ⟨rfl, hlooked⟩
  refine Ends.pure ⟨⟨htype, ?_, ?_⟩, (Looked.of_kept hkept hlt).trans hlooked⟩
  · rw [Findings.number?_congr hkept.constants]
    rfl
  · simp [Expr.isError, Expr.isMethods, Expr.isType, htype, Ty.isError, Ty.primitive]

/-- Binding the initializer computes the term. -/
theorem bindExpression_spec (hconstants : p.IntegerConstants) (hbeing : chain.fieldsBeingBound = [])
    {node : NodeId} {term : IntTerm} (h : p.Spells chain node term) (hs : s.findings.Integral p)
    (hlt : tracker.ledger < s.findings.ledgers.entries.length) :
    Succeeds (p.bindExpression ask (chain.push (.constantFields (some tracker)) {}) node .rvalue) s
      fun e s' => term.Bound s.findings e ∧ Looked p tracker term.constants s s' := by
  have checked : ∀ {term : IntTerm} {node : NodeId} {s : BindState},
      Succeeds (p.bindUnchecked ask (chain.push (.constantFields (some tracker)) {}) node .rvalue) s
        (fun e s' => term.Bound s.findings e ∧ Looked p tracker term.constants s s') →
      Succeeds (p.bindExpression ask (chain.push (.constantFields (some tracker)) {}) node .rvalue) s
        fun e s' => term.Bound s.findings e ∧ Looked p tracker term.constants s s' := by
    intro term node s hbound
    rw [Program.bindExpression]
    refine Ends.bind hbound ?_
    rintro e s' ⟨he, hlooked⟩
    rw [he.checkValueKind_eq]
    exact Ends.pure ⟨he, hlooked⟩
  induction h generalizing s with
  | literal hnode hfits =>
    refine checked ?_
    rw [Program.bindUnchecked_literal hnode]
    exact Ends.pure ⟨⟨rfl, rfl, rfl, rfl, rfl⟩, .refl hs hlt⟩
  | constant hnode hlookup haccessible hconstant =>
    obtain ⟨term, hdefines⟩ := hconstants _ hconstant
    refine checked ?_
    rw [Program.bindUnchecked_identifier hnode]
    exact asker.bindName_spec hbeing hlookup haccessible hdefines hs hlt
  | plus hnode hoperand ih =>
    refine checked ?_
    rw [Program.bindUnchecked_unary rfl hnode]
    refine Ends.bind (ih hs hlt) ?_
    rintro e s' ⟨he, hlooked⟩
    rw [he.bindUnary_eq _ (.inl rfl)]
    refine Ends.pure ⟨⟨rfl, ?_, rfl, rfl, rfl⟩, hlooked⟩
    rw [Expr.constant_mk, he.constant, IntTerm.eval?]
    cases IntTerm.eval? s.findings.number? _ <;> rfl
  | negate hnode hoperand ih =>
    refine checked ?_
    rw [Program.bindUnchecked_unary rfl hnode]
    refine Ends.bind (ih hs hlt) ?_
    rintro e s' ⟨he, hlooked⟩
    rw [he.bindUnary_eq _ (.inr rfl)]
    refine Ends.pure ⟨⟨rfl, ?_, rfl, rfl, rfl⟩, hlooked⟩
    rw [Expr.constant_mk, he.constant, IntTerm.eval?]
    cases IntTerm.eval? s.findings.number? _ with
    | none => rfl
    | some n =>
      change (Value.checkedInt (-n)).map Constant.value = _
      rw [checkedInt_eq, Option.map_map]
      rfl
  | @binary node left right a b op hnode hleft hright ihl ihr =>
    refine checked ?_
    rw [Program.bindUnchecked_binary hnode]
    refine Ends.bind (ihl hs hlt) ?_
    rintro e s₁ ⟨he, hlooked⟩
    refine Ends.bind (ihr hlooked.integral hlooked.ledger_lt) ?_
    rintro e' s₂ ⟨he', hlooked'⟩
    have hnumber : s₁.findings.number? = s.findings.number? := hlooked.number?_eq
    have he' : b.Bound s.findings e' := ⟨he'.type, hnumber ▸ he'.constant, he'.isValue⟩
    rw [he.bindBinary_eq he']
    refine Ends.pure ⟨⟨rfl, ?_, rfl, rfl, rfl⟩, hlooked.trans hlooked'⟩
    rw [Expr.constant_mk, IntTerm.eval?]
    cases ha : a.eval? s.findings.number? with
    | none => rfl
    | some m =>
      cases b.eval? s.findings.number? with
      | none => rfl
      | some n =>
        have hfits : fitsInt m = true := hleft.fits (fun _ _ _ => hs.fits) ha
        rw [Option.bind_some, Option.bind_some, Option.bind_some, Option.bind_some,
          ArithmeticOp.foldInts_eq op hfits, Option.map_map]
        rfl

end IntegerAsker

/-! ### Answers -/

theorem Succeeds.isolated {α : Type} {m : BindM α} {Q : α → BindState → Prop}
    (h : Succeeds m { s with pass := {} } Q) :
    Succeeds (BindM.isolated m) s fun e s' => s'.pass = s.pass ∧ ∃ inner : Pass,
      e.diagnostics = inner.diagnostics ∧ Q e.value { s' with pass := inner } := by
  refine Ends.bind_get (Ends.bind_modify (Ends.bind h fun a s' ha => ?_))
  exact Ends.bind_get (Ends.bind_modify (Ends.pure ⟨rfl, s'.pass, rfl, ha⟩))

theorem Ledgers.mem_insertSorted_iff {field d : SymbolId} {list : List SymbolId} :
    d ∈ insertSorted field list ↔ d ∈ list ∨ d = field := by
  induction list with
  | nil => simp [insertSorted]
  | cons next rest ih =>
    unfold insertSorted
    split
    · simp [or_comm]
    · split
      · next heq => subst heq; simp; tauto
      · simp [ih, or_assoc]

theorem Ledgers.mem_dependencies_record {l : Ledgers} {tracker : Tracker}
    (hlt : tracker.ledger < l.entries.length) {field d : SymbolId} :
    d ∈ Ledgers.dependencies ⟨l.entries.modify tracker.ledger (insertSorted field)⟩ (some tracker) ↔
      d ∈ l.dependencies (some tracker) ∨ d = field := by
  simp [dependencies, List.getElem?_modify, List.getElem?_eq_getElem hlt, mem_insertSorted_iff]

namespace Program.Formed

variable (formed : p.Formed)
include formed

omit formed in
theorem regions_kept {α : Type} {m : RegionM α} {a : α} (hm : p.Fetches m a) {s : BindState}
    (hs : s.findings.Integral p) :
    Succeeds (BindM.regions m) s fun b s' => b = a ∧ Kept p s s' := by
  obtain ⟨b, cache, heq, rfl, hcache⟩ := Succeeds.exists_ok (hm s.findings.regions hs.regions)
  have hrun : BindM.regions m s = .ok b { s with findings := { s.findings with regions := cache } } := by
    unfold BindM.regions EStateM.run
    rw [heq]
  exact Ends.of_eq hrun ⟨rfl, ⟨hcache, hs.fieldTypes, hs.constants⟩, rfl, rfl, rfl⟩

omit formed in
theorem bindType_int {ask : Asker} {chain : Chain} {node : NodeId}
    (h : p.tree.node? node = some (.typeName "int" [] false)) :
    p.bindType ask chain node = pure (.primitive .int) := by
  rw [bindType]
  split
  · simp_all
  · next hnode =>
    obtain ⟨rfl, rfl, rfl⟩ : _ ∧ _ ∧ _ := by simpa [h] using hnode
    rfl
  · simp_all
  · simp_all

/-- No answer that constants of integer arithmetic take asks for another. -/
theorem integerAsker (ask : Asker) : IntegerAsker p (p.perform ask) where
  fieldType := by
    intro field term hdefines s hs
    obtain ⟨hfield, -, htype, hint, -, -, -⟩ := id hdefines
    obtain ⟨symbol, hsymbol, hkind⟩ := exists_of_field? hfield
    obtain ⟨chain, -, -, hfetches⟩ := fieldChain_spec formed hsymbol
      (formed.declaration_ne_root hsymbol hkind)
    obtain ⟨name, hname, -⟩ := formed.table.name_yields (SymbolTable.lt_of_getElem? hsymbol)
    change Succeeds (p.fieldType ask field []) s _
    refine Ends.bind_get ?_
    cases hget : s.findings.fieldTypes.get? field with
    | some known => exact Ends.pure ⟨hs.fieldTypes hdefines hget, .refl hs⟩
    | none =>
      have hbind : Succeeds (p.bindFieldType ask field []) { s with pass := {} } fun t s' =>
          t = .primitive .int ∧ Kept p { s with pass := {} } s' := by
        unfold bindFieldType
        refine Ends.bind_lift ⟨_, hfield, rfl⟩ ?_
        rintro _ rfl
        dsimp only
        rw [htype]
        refine Ends.bind (regions_kept hfetches hs) ?_
        rintro _ s' ⟨rfl, hkept⟩
        refine Ends.bind_lift ⟨_, hname, rfl⟩ ?_
        rintro _ rfl
        unfold bindVariableType
        rw [bindType_int hint]
        exact Ends.pure ⟨rfl, hkept⟩
      refine Ends.bind (Succeeds.isolated hbind) ?_
      rintro ⟨_, diagnostics⟩ s' ⟨hpass, inner, -, rfl, hkept⟩
      refine Ends.bind_modify (Ends.bind_get (Ends.pure ?_))
      have hall : ∀ {other : SymbolId} {term : IntTerm} {known : Evaluated Ty},
          p.DefinesTerm other term → (s'.findings.fieldTypes.publish field
            ⟨.primitive .int, diagnostics⟩).get? other = some known →
          known.value = .primitive .int := by
        intro other term known hother hknown
        rcases Registry.of_get?_publish hknown with hold | ⟨-, rfl⟩
        · exact hkept.integral.fieldTypes hother hold
        · rfl
      refine ⟨?_, ⟨hkept.integral.regions, hall, hkept.integral.constants⟩, hkept.constants,
        hkept.ledgers, hpass⟩
      obtain ⟨known, hknown, -⟩ := s'.findings.fieldTypes.get?_publish_cases field
        ⟨.primitive .int, diagnostics⟩
      rw [hknown]
      exact hall hdefines hknown
  fieldConstant := by
    intro field tracker s hs hlt
    change Succeeds (p.fieldConstant ask field (some tracker)) s _
    refine Ends.bind_get ?_
    cases hget : s.findings.constants.get? field with
    | some known =>
      refine Ends.pure ⟨rfl, rfl, hs, rfl, hlt, fun d => ?_⟩
      constructor
      · exact .inl
      · rintro (hd | ⟨rfl, hd⟩)
        · exact hd
        · simp [hget] at hd
    | none =>
      refine Ends.of_eq rfl ⟨rfl, rfl, ⟨hs.regions, hs.fieldTypes, hs.constants⟩, rfl, ?_, fun d => ?_⟩
      · simpa [List.length_modify] using hlt
      · rw [Ledgers.mem_dependencies_record hlt]
        constructor
        · rintro (hd | rfl)
          · exact .inl hd
          · exact .inr ⟨rfl, hget⟩
        · rintro (hd | ⟨rfl, -⟩)
          · exact .inl hd
          · exact .inr rfl

end Program.Formed

/-! ### One constant -/

namespace Program

variable (p)

def circularDiagnostic (field : SymbolId) : Except Fault Diagnostic := do
  p.diagnostic (← p.declarationOrRoot field) .circularConstant [← p.symbols.name field]

def notConstantDiagnostic (field : SymbolId) : Except Fault Diagnostic := do
  let initializer := (← p.symbols.field? field).bind (·.initializer)
  p.diagnostic (initializer.getD p.tree.root) .notConstant [← p.symbols.name field]

/-- What is made of a term, given the values of the constants it names: its value; nothing new where
one of them has no value; else a report that there is no value.  A constant that is to break a cycle
is reported as circular, whatever its term. -/
inductive Computes (field : SymbolId) (term : IntTerm) (value : SymbolId → Option Int) :
    Bool → Evaluated FieldConstant → Prop
  | number (heval : term.eval? value = some n) :
      Computes field term value false ⟨.value (.value (.int n)), {}⟩
  | tainted (hother : other ∈ term.constants) (hnone : value other = none) :
      Computes field term value false ⟨.bad, {}⟩
  | undefined (heval : term.eval? value = none)
      (hall : ∀ other ∈ term.constants, ∃ n, value other = some n)
      (hd : p.notConstantDiagnostic field = .ok d) : Computes field term value false ⟨.bad, ⟨[d]⟩⟩
  | circular (hd : p.circularDiagnostic field = .ok d) : Computes field term value true ⟨.bad, ⟨[d]⟩⟩

end Program

namespace Program.Formed

variable (formed : p.Formed)
include formed

variable {ask : Asker} (asker : IntegerAsker p ask) (hconstants : p.IntegerConstants)
  {field : SymbolId} {term : IntTerm}
include asker hconstants

omit formed asker hconstants in
theorem newTracker_succeeds (field : SymbolId) {s : BindState} (hs : s.findings.Integral p) :
    Succeeds (BindM.newTracker field) s fun tracker s' =>
      s'.findings.Integral p ∧ s'.findings.constants = s.findings.constants ∧ s'.pass = s.pass ∧
      tracker.ledger < s'.findings.ledgers.entries.length ∧
      s'.findings.ledgers.dependencies (some tracker) = [] :=
  Ends.of_eq rfl ⟨⟨hs.regions, hs.fieldTypes, hs.constants⟩, rfl, rfl, by simp,
    by simp [Ledgers.dependencies]⟩

variable {s : BindState}

omit asker hconstants in
/-- What is made of the value of an initializer. -/
theorem concludeConstant_spec {name : String} {declaration initializer : NodeId}
    (hdeclaration : declaration < p.tree.size) (hinitializer : initializer < p.tree.size)
    (hcircular : p.circularDiagnostic field = p.diagnostic declaration .circularConstant [name])
    (hnotConstant : p.notConstantDiagnostic field = p.diagnostic initializer .notConstant [name])
    {f : Findings} {value : Expr} (hvalue : term.Bound f value) (startsCycle : Bool)
    (hdiagnostics : s.pass.diagnostics = {})
    (hsaw : s.pass.sawBadConstant = term.constants.any fun d => (f.number? d).isNone) :
    Succeeds (p.concludeConstant startsCycle name declaration initializer value) s fun constant s' =>
      s'.findings = s.findings ∧
      p.Computes field term f.number? startsCycle ⟨constant, s'.pass.diagnostics⟩ := by
  unfold concludeConstant
  cases startsCycle with
  | true =>
    refine Ends.bind (formed.report_succeeds hdeclaration _ _ s) ?_
    rintro - _ ⟨d, hd, rfl⟩
    refine Ends.pure ⟨rfl, ?_⟩
    rw [hdiagnostics]
    exact .circular (hcircular.trans hd)
  | false =>
    rw [hvalue.constant]
    cases heval : term.eval? f.number? with
    | some n =>
      refine Ends.pure ⟨rfl, ?_⟩
      rw [hdiagnostics]
      exact .number heval
    | none =>
      refine Ends.bind_get ?_
      rw [hsaw, hvalue.isValue.1]
      by_cases hall : ∃ other ∈ term.constants, f.number? other = none
      · rw [show (term.constants.any fun d => (f.number? d).isNone) = true by simpa using hall]
        obtain ⟨other, hother, hnone⟩ := hall
        refine Ends.pure ⟨rfl, ?_⟩
        rw [hdiagnostics]
        exact .tainted hother hnone
      · rw [show (term.constants.any fun d => (f.number? d).isNone) = false by simpa using hall]
        refine Ends.bind (formed.report_succeeds hinitializer _ _ s) ?_
        rintro - _ ⟨d, hd, rfl⟩
        refine Ends.pure ⟨rfl, ?_⟩
        rw [hdiagnostics]
        refine .undefined heval (fun other hother => ?_) (hnotConstant.trans hd)
        exact Option.ne_none_iff_exists'.1 fun h => hall ⟨other, hother, h⟩

/-- In a pass of its own, a constant is what its term makes it, unless it is to break a cycle. -/
theorem bindConstant_spec (hdefines : p.DefinesTerm field term) (startsCycle : Bool)
    (hs : s.findings.Integral p) (hpass : s.pass = {}) :
    Succeeds (p.bindConstant ask field startsCycle) s fun r s' =>
      s'.findings.Integral p ∧ s'.findings.constants = s.findings.constants ∧
      (∀ d, d ∈ r.2 ↔ d ∈ term.constants ∧ s.findings.constants.get? d = none) ∧
      p.Computes field term s.findings.number? startsCycle ⟨r.1, s'.pass.diagnostics⟩ := by
  obtain @⟨data, -, initializer, chain, hfield, -, -, -, hinitializer, hchain, hspells⟩ := id hdefines
  obtain ⟨symbol, hsymbol, hkind⟩ := exists_of_field? hfield
  obtain ⟨name, hname, -⟩ := formed.table.name_yields (SymbolTable.lt_of_getElem? hsymbol)
  obtain ⟨declaration, hdeclaration, hlt⟩ := formed.declarationOrRoot_yields hsymbol
  have hinitializer_lt : initializer < p.tree.size :=
    (formed.fieldNode_lt hsymbol (by rw [hkind]; rfl)).2 initializer hinitializer
  obtain ⟨found, hscope, hfetches, -, -⟩ := initializerChain_spec formed hsymbol
  obtain rfl : found = some chain := ok_unique hscope hchain
  unfold bindConstant
  refine Ends.bind_lift ⟨_, hname, rfl⟩ ?_
  rintro _ rfl
  refine Ends.bind_lift ⟨_, hdeclaration, rfl⟩ ?_
  rintro _ rfl
  refine Ends.bind (regions_kept hfetches hs) ?_
  rintro _ s₁ ⟨rfl, hkept⟩
  refine Ends.bind_lift ⟨_, hfield, rfl⟩ ?_
  rintro _ rfl
  rw [Option.bind_some, hinitializer]
  unfold constantValue
  simp only [bind_assoc, pure_bind]
  refine Ends.bind (newTracker_succeeds field hkept.integral) ?_
  rintro tracker s₂ ⟨hs₂, hconstants₂, hpass₂, hledger, hempty⟩
  rw [hkept.constants] at hconstants₂
  refine Ends.bind (asker.bindExpression_spec hconstants
    (fieldsBeingBound_initializerScope hchain) hspells hs₂ hledger) ?_
  rintro value s₃ ⟨hvalue, hlooked⟩
  refine Ends.bind (asker.fieldType hdefines s₃ hlooked.integral) ?_
  rintro ⟨_, diagnostics⟩ s₄ ⟨rfl, hkept'⟩
  rw [hvalue.convert_eq]
  refine Ends.bind (Ends.pure (Q := fun e s' => value = e ∧ s₄ = s') ⟨rfl, rfl⟩) ?_
  rintro _ _ ⟨rfl, rfl⟩
  have hcircular : p.circularDiagnostic field =
      p.diagnostic declaration .circularConstant [name] := by
    simp [circularDiagnostic, hdeclaration, hname, bind, Except.bind]
  have hnotConstant : p.notConstantDiagnostic field = p.diagnostic initializer .notConstant [name] := by
    simp [notConstantDiagnostic, hfield, hinitializer, hname, bind, Except.bind]
  refine Ends.bind_get (Ends.bind (formed.concludeConstant_spec hlt hinitializer_lt hcircular
    hnotConstant hvalue startsCycle ?_ ?_) ?_)
  · rw [hkept'.pass, hlooked.diagnostics, hpass₂, hkept.pass, hpass]
  · rw [hkept'.pass, hlooked.sawBadConstant, hpass₂, hkept.pass, hpass, Bool.false_or]
  · rintro constant s' ⟨hfindings, hcomputes⟩
    rw [Findings.number?_congr hconstants₂] at hcomputes
    refine Ends.pure ⟨hfindings ▸ hkept'.integral, ?_, fun d => ?_, hcomputes⟩
    · rw [hfindings, hkept'.constants, hlooked.constants, hconstants₂]
    · rw [hkept'.ledgers, hlooked.mem_dependencies, hempty, hconstants₂]
      simp

theorem evaluateConstant_spec (hdefines : p.DefinesTerm field term) (startsCycle : Bool)
    (hs : s.findings.Integral p) :
    Succeeds (p.evaluateConstant ask field startsCycle) s fun r s' =>
      s'.findings.Integral p ∧ s'.findings.constants = s.findings.constants ∧
      (∀ d, d ∈ r.2 ↔ d ∈ term.constants ∧ s.findings.constants.get? d = none) ∧
      p.Computes field term s.findings.number? startsCycle r.1 := by
  refine Ends.bind (Succeeds.isolated (formed.bindConstant_spec asker hconstants hdefines startsCycle
    (s := { s with pass := {} }) hs rfl)) ?_
  rintro ⟨⟨value, list⟩, diagnostics⟩ s' ⟨-, inner, rfl, hs', hsame, hmem, hvalue⟩
  exact Ends.pure ⟨hs', hsame, hmem, hvalue⟩

end Program.Formed
end Bindery
