import Bindery.Proofs.CodeAreas
import Bindery.Proofs.DeclarationTable
import Bindery.Proofs.OverloadChoice

/-! # Judgements about binding code

What code reports and what it depends on are judged in the same way: one goes through the functions
that bind code, and for every read of the findings, every publication and every report there is a
rule.

* `Logic` is a judgement about computations of binding with the rules for `do` blocks.  It is about
  two computations at once, which may ask different askers for what they need.
* `CodeLogic p` adds the rules for what binding code does.  It says which chains code may be bound
  under, which methods, locals and local functions may be met there, and which diagnostics may be
  reported.
* One lemma for each function that binds types, expressions and local declarations: under such a
  chain the judgement holds of it, provided that it holds of the answers to its requests
  (`CodeLogic.Answers`). -/

namespace Bindery

/-! ### Messages and values -/

theorem Ty.isVoid_of_isError {t : Ty} (h : t.isError = true) : t.isVoid = false := by
  simp only [isError, decide_eq_true_eq] at h
  simp [isVoid, isPrimitive, primitive?, h]

/-- The expression is an error or has a value: it is no method, no local function and no type, and
it is not of type `void`. -/
def Expr.IsValue (e : Expr) : Prop :=
  e.isError = false → e.isMethods = false ∧ e.isType = false ∧ e.type.isVoid = false

theorem Expr.isValue_error (node : NodeId) : (error node).IsValue := fun h => by simp at h

theorem Expr.IsValue.castTo {e : Expr} (h : e.IsValue) {target : Ty} (ht : target.isVoid = false)
    (cast : Cast) (constant : Option Constant) :
    ((e.castTo target cast).withConstant constant).IsValue := by
  unfold Expr.castTo
  split
  · exact h
  · exact fun _ => ⟨rfl, rfl, ht⟩

/-- Parameters are not of type `void`. -/
def Signature.Proper (s : Signature) : Prop := ∀ t ∈ s.parameters, t.isVoid = false

/-- Names of members are found with members. -/
theorem Chain.lookup_symbols_ne_nil {p : Program} {chain : Chain} {name : String} {node : NodeId}
    {found : List SymbolId} (h : chain.lookup p name node = .ok (.symbols found)) : found ≠ [] := by
  obtain ⟨_, frame, _, -, -, hmeans⟩ := means_of_lookup h (by simp)
  generalize frame.kind = kind at hmeans
  cases hmeans with
  | members _ hne => exact hne

theorem Program.message_of_diagnostic {p : Program} {node : NodeId} {message : Message}
    {args : List String} {d : Diagnostic} (h : p.diagnostic node message args = .ok d) :
    d.message = message := by
  obtain ⟨span, -, rfl⟩ := exists_of_bind_pure_eq_ok h
  rfl

/-! ### Judgements -/

/-- A judgement about two computations of binding and their values.  The two are one and the same,
but for whom they ask. -/
structure Logic where
  Holds : {α : Type} → BindM α → BindM α → (α → Prop) → Prop
  pure : ∀ {α : Type} {a : α} {Q : α → Prop}, Q a → Holds (Pure.pure a) (Pure.pure a) Q
  bind : ∀ {α β : Type} {m m' : BindM α} {k k' : α → BindM β} {R : α → Prop} {T : β → Prop},
    Holds m m' R → (∀ a, R a → Holds (k a) (k' a) T) → Holds (m >>= k) (m' >>= k') T
  of_throw : ∀ {α : Type} {fault : Fault} {Q : α → Prop},
    Holds (throw fault : BindM α) (throw fault) Q

namespace Logic

variable (L : Logic) {α β : Type} {m m' : BindM α} {k k' : α → BindM β} {Q R : α → Prop}
  {T : β → Prop}

/-- The judgement about a computation that asks nobody. -/
abbrev Has (m : BindM α) (Q : α → Prop) : Prop := L.Holds m m Q

theorem imp (hm : L.Holds m m' R) (h : ∀ a, R a → Q a) : L.Holds m m' Q := by
  have := L.bind hm fun a ha => L.pure (h a ha)
  rwa [bind_pure, bind_pure] at this

theorem map {f : α → β} (hm : L.Holds m m' fun a => T (f a)) : L.Holds (f <$> m) (f <$> m') T := by
  rw [← bind_pure_comp, ← bind_pure_comp]
  exact L.bind hm fun _ ha => L.pure ha

variable {x : Except Fault α}

theorem lift (h : ∀ a, x = .ok a → Q a) : L.Has (liftM x) Q := by
  cases x with
  | ok a => exact L.pure (h a rfl)
  | error fault => exact L.of_throw

theorem bind_lift (hk : ∀ a, x = .ok a → L.Holds (k a) (k' a) T) :
    L.Holds (liftM x >>= k) (liftM x >>= k') T :=
  L.bind (L.lift fun _ h => h) hk

/-- A step that is made under a condition. -/
theorem may_bind {c : Prop} [Decidable c] {m : BindM PUnit} {k k' : PUnit → BindM β}
    (hm : L.Has m fun _ => True) (hk : L.Holds (k ⟨⟩) (k' ⟨⟩) T) :
    L.Holds (if c then m >>= k else k ⟨⟩) (if c then m >>= k' else k' ⟨⟩) T := by
  split
  · exact L.bind hm fun _ _ => hk
  · exact hk

theorem ite_bind {c : Prop} [Decidable c] {n n' : BindM α} (hm : c → L.Holds m m' R)
    (hn : ¬ c → L.Holds n n' R) (hk : ∀ a, R a → L.Holds (k a) (k' a) T) :
    L.Holds (if c then m >>= k else n >>= k) (if c then m' >>= k' else n' >>= k') T := by
  split
  · next h => exact L.bind (hm h) hk
  · next h => exact L.bind (hn h) hk

variable {list : List α}

theorem mapM {f f' : α → BindM β} {T : α → β → Prop} (h : ∀ a ∈ list, L.Holds (f a) (f' a) (T a)) :
    L.Holds (list.mapM f) (list.mapM f') (List.Forall₂ T list) := by
  induction list with
  | nil => exact L.pure .nil
  | cons a rest ih =>
    rw [List.mapM_cons, List.mapM_cons]
    refine L.bind (h a (by simp)) fun b hb => ?_
    refine L.bind (ih fun a ha => h a (List.mem_cons_of_mem _ ha)) fun results hresults => ?_
    exact L.pure (.cons hb hresults)

theorem optionMapM {f f' : α → BindM β} {found : Option α}
    (h : ∀ a ∈ found, L.Holds (f a) (f' a) T) :
    L.Holds (found.mapM f) (found.mapM f') fun result => ∀ b ∈ result, T b := by
  cases found with
  | none => exact L.pure (by simp)
  | some a =>
    refine L.map (L.imp (h a rfl) fun b hb => ?_)
    rintro _ ⟨rfl⟩
    exact hb

theorem forM {f : α → BindM PUnit} (h : ∀ a ∈ list, L.Has (f a) fun _ => True) :
    L.Has (list.forM f) fun _ => True := by
  induction list with
  | nil => exact L.pure trivial
  | cons a rest ih =>
    exact L.bind (h a (by simp)) fun _ _ => ih fun a ha => h a (List.mem_cons_of_mem _ ha)

theorem findM? {f : α → BindM Bool} (h : ∀ a ∈ list, L.Has (f a) fun _ => True) :
    L.Has (list.findM? f) fun _ => True := by
  induction list with
  | nil => exact L.pure trivial
  | cons a rest ih =>
    rw [List.findM?]
    refine L.bind (h a (by simp)) fun b _ => ?_
    cases b with
    | true => exact L.pure trivial
    | false => exact ih fun a ha => h a (List.mem_cons_of_mem _ ha)

/-- A choice by questions keeps what is answered by yes, and everything where all answers are
yes. -/
theorem filterM_lift (f : α → Except Fault Bool) (list : List α) :
    L.Has (list.filterM fun a => liftM (f a)) fun kept =>
      (∀ a ∈ kept, f a = .ok true) ∧ ((∀ a, f a = .ok true) → kept = list) := by
  have aux : ∀ list acc : List α, (∀ a ∈ acc, f a = .ok true) →
      L.Has (list.filterAuxM (fun a => liftM (f a)) acc) fun kept =>
        (∀ a ∈ kept, f a = .ok true) ∧ ((∀ a, f a = .ok true) → kept = list.reverse ++ acc) := by
    intro list
    induction list with
    | nil => exact fun acc hacc => L.pure ⟨hacc, fun _ => rfl⟩
    | cons a rest ih =>
      intro acc hacc
      rw [List.filterAuxM]
      refine L.bind_lift fun b hb => L.imp (ih _ ?_) fun kept hkept => ⟨hkept.1, fun hall => ?_⟩
      · cases b with
        | false => exact hacc
        | true => simpa using ⟨hb, hacc⟩
      · obtain rfl := ok_unique hb (hall a)
        rw [hkept.2 hall, List.reverse_cons, List.append_assoc]
        rfl
  refine L.bind (aux list [] (by simp)) fun kept hkept => L.pure ⟨fun a ha => ?_, fun hall => ?_⟩
  · exact hkept.1 a (List.mem_reverse.1 ha)
  · rw [hkept.2 hall, List.append_nil, List.reverse_reverse]

/-- What a view shows of the findings may be read, and satisfies `R`. -/
def Reads (view : Findings → α) (R : α → Prop) : Prop :=
  ∀ {β : Type} {k k' : Findings → BindM β} {T : β → Prop},
    (∀ f g, view g = view f → k g = k f) → (∀ f, R (view f) → L.Holds (k f) (k' f) T) →
      L.Holds (BindM.findings >>= k) (BindM.findings >>= k') T

end Logic

/-! ### Judgements about code -/

/-- What a name stands for, if it stands for a local or a local function. -/
def Lookup.Meets (V : Local → Prop) (F : LocalFunction → Prop) : Lookup → Prop
  | .localVariable target => V target
  | .localFunction f => F f
  | _ => True

/-- The frame brings no locals into scope, starts no code and names no fields. -/
def FrameKind.isPassing : FrameKind → Bool
  | .localScope .. | .inMethod _ | .code .. | .fieldsBeingBound _ => false
  | _ => true

/-- Methods that code may call, and methods whose parameters it may name. -/
inductive Program.Reachable (p : Program) (method : SymbolId) : Prop
  | method (h : p.symbols.isMethod method = .ok true)
  | parameter {x : SymbolId} {data : ParameterData}
      (hx : p.symbols.containing? x = .ok (some method))
      (hdata : p.symbols.parameter? x = .ok (some data))

/-- A judgement with rules for what binding code does. -/
structure CodeLogic (p : Program) extends Logic where
  /-- Chains that code is bound under. -/
  Scope : Chain → Prop
  /-- Chains that signatures of local functions are bound under. -/
  Outer : Chain → Prop
  /-- Fields whose types are being inferred while code is bound. -/
  Inferring : List SymbolId → Prop
  Variable : Local → Prop
  Function : LocalFunction → Prop
  /-- Messages that may be reported. -/
  May : Message → Prop
  /-- Whether published signatures are proper. -/
  Tidied : Prop
  scope_push : ∀ {chain : Chain} {kind : FrameKind} (additional : Flags), Scope chain →
    kind.isPassing = true → Scope (chain.push kind additional)
  of_enclosing : ∀ {chain scope : Chain} {node : NodeId}, Scope chain →
    chain.enclosing p node = .ok scope → Outer scope
  of_scope : ∀ {chain : Chain}, Scope chain → Inferring chain.fieldsBeingBound
  of_lookup : ∀ {chain : Chain} {name : String} {node : NodeId} {found : Lookup}, Scope chain →
    chain.lookup p name node = .ok found → found.Meets Variable Function
  of_localAt? : ∀ {chain : Chain} {node : NodeId} {target : Local}, Scope chain →
    chain.localAt? p node = .ok (some target) → Variable target
  of_functionAt? : ∀ {chain : Chain} {node : NodeId} {f : LocalFunction}, Scope chain →
    chain.functionAt? p node = .ok (some f) → Function f
  may : ∀ {message : Message}, message.Anywhere → May message
  may_access : ∀ {chain : Chain}, Scope chain → chain.flags.ignoresAccess = false →
    May .inaccessible
  may_lowLevel : ∀ {chain : Chain}, Scope chain → chain.flags.lowLevel = false →
    May .lowLevelRequired
  push : ∀ {d : Diagnostic}, May d.message → toLogic.Has (BindM.push d) fun _ => True
  modifyPass : ∀ {u : Pass → Pass}, (∀ pass, (u pass).diagnostics = pass.diagnostics) →
    toLogic.Has (modify fun s => { s with pass := u s.pass }) fun _ => True
  sawBadConstant : toLogic.Has BindM.sawBadConstant fun _ => True
  reads_local : ∀ {target : Local}, Variable target → toLogic.Reads (fun f => (f.localType? target,
    if target.isConstant then f.localConstant? target else none)) fun _ => True
  reads_default : ∀ parameter, toLogic.Reads (·.defaults.get? parameter) fun _ => True
  reads_signature : ∀ {f : LocalFunction}, Function f → toLogic.Reads (·.functionSignature? f)
    fun known => Tidied → ∀ signature ∈ known, signature.Proper
  reads_defaults : ∀ {f : LocalFunction}, Function f →
    toLogic.Reads (·.functionDefaults? f) fun _ => True
  publish_type : ∀ {target : Local} {t : Ty}, Variable target → t.isVoid = false →
    toLogic.Has (BindM.modifyFindings fun f =>
      { f with localTypes := f.localTypes.publish target.key t }) fun _ => True
  publish_constant : ∀ {target : Local} (c : Option Constant), Variable target →
    target.isConstant = true → toLogic.Has (BindM.modifyFindings fun f =>
      { f with localConstants := f.localConstants.publish target.key c }) fun _ => True
  publish_signature : ∀ {f : LocalFunction} {signature : Signature}, Function f → signature.Proper →
    toLogic.Has (BindM.modifyFindings (·.publishFunctionSignature f signature)) fun _ => True
  publish_defaults : ∀ {f : LocalFunction} {values : List (Option Expr)}, Function f →
    (Tidied → ∀ e, some e ∈ values → e.IsValue) → toLogic.Has (BindM.modifyFindings fun g =>
      { g with functionDefaults := g.functionDefaults.publish f.key values }) fun _ => True

namespace CodeLogic

variable {p : Program} (L : CodeLogic p)

/-- Requests of code. -/
structure Answers (ask ask' : Asker) : Prop where
  signature : ∀ {method : SymbolId}, p.Reachable method →
    L.Holds (ask (.signature method)) (ask' (.signature method)) fun _ => True
  fieldType : ∀ {field : SymbolId} {data : FieldData}, p.symbols.field? field = .ok (some data) →
    ∀ {list : List SymbolId}, L.Inferring list →
      L.Holds (ask (.fieldType field list)) (ask' (.fieldType field list)) fun _ => True
  fieldConstant : ∀ {field : SymbolId} {data : FieldData},
    p.symbols.field? field = .ok (some data) → data.isConstant = true → L.Inferring [] → ∀ tracker,
      L.Holds (ask (.fieldConstant field tracker))
        (ask' (.fieldConstant field tracker)) fun _ => True
  constantParameterType : ∀ parameter, L.Holds (ask (.constantParameterType parameter))
    (ask' (.constantParameterType parameter)) fun _ => True
  functionSignature : ∀ {scope : Chain} (f : LocalFunction), L.Outer scope → L.Holds
    (ask (.functionSignature scope f)) (ask' (.functionSignature scope f)) Signature.Proper

/-- An error expression has the error type, and what an expression names may be met. -/
def Fine (e : Expr) : Prop :=
  match e.kind with
  | .error => e.type.isError = true
  | .methods _ methods => ∀ m ∈ methods, p.symbols.isMethod m = .ok true
  | .localFunction f => L.Function f
  | _ => True

/-- What stands in a position of this kind. -/
structure Checked (kind : ValueKind) (e : Expr) : Prop where
  fine : L.Fine e
  value : kind = .rvalue → e.IsValue

/-- What a conversion keeps. -/
structure Converted (e : Expr) (target : Ty) (e' : Expr) : Prop where
  fine : L.Fine e → L.Fine e'
  value : e.IsValue → target.isVoid = false → e'.IsValue

variable {L}

theorem Fine.isVoid_eq_false {e : Expr} (h : L.Fine e) (hvalue : e.IsValue) :
    e.type.isVoid = false := by
  cases he : e.isError with
  | false => exact (hvalue he).2.2
  | true =>
    refine Ty.isVoid_of_isError ?_
    unfold Fine at h
    unfold Expr.isError at he
    cases hkind : e.kind <;> simp_all

variable (L)

theorem checked_error (kind : ValueKind) (node : NodeId) : L.Checked kind (.error node) :=
  ⟨rfl, fun _ => Expr.isValue_error node⟩

/-! ### Reports and conversions -/

variable {args : List String} {message : Message} {node : NodeId}

theorem report_may (h : L.May message) :
    L.Has (p.report node message args) fun _ => True :=
  L.bind_lift fun _ hd => L.push (Program.message_of_diagnostic hd ▸ h)

theorem report (h : message.Anywhere) :
    L.Has (p.report node message args) fun _ => True := L.report_may (L.may h)

/-- A report, and a value that stands for what is not there. -/
theorem refuse {α : Type} {a : α} {Q : α → Prop} (h : message.Anywhere) (ha : Q a) : L.Has (do
    p.report node message args
    return a) Q := L.bind (L.report h) fun _ _ => L.pure ha

theorem reject {place : NodeId} {Q : Expr → Prop} (h : message.Anywhere) (hQ : Q (.error place)) :
    L.Has (p.reject node message args place) Q := L.refuse h hQ

theorem converted_castTo (e : Expr) (target : Ty) (cast : Cast) (constant : Option Constant) :
    L.Converted e target ((e.castTo target cast).withConstant constant) := by
  refine ⟨fun h => ?_, fun h ht => h.castTo ht cast constant⟩
  unfold Expr.castTo
  split
  · exact h
  · trivial

theorem convertWith (explicit : Bool) (e : Expr) (target : Ty) (node : NodeId) :
    L.Has (p.convertWith explicit e target node) (L.Converted e target) := by
  unfold Program.convertWith
  split
  · exact L.pure ⟨id, fun h _ => h⟩
  · refine L.bind_lift fun cast _ => ?_
    split
    · exact L.bind_lift fun _ _ => L.reject trivial ⟨fun _ => rfl, fun _ _ => Expr.isValue_error _⟩
    · split
      · exact L.bind_lift fun _ _ => L.reject trivial ⟨fun _ => rfl, fun _ _ => Expr.isValue_error _⟩
      · exact L.pure (L.converted_castTo e target cast _)

theorem convert (e : Expr) (target : Ty) (node : NodeId) :
    L.Has (p.convert e target node) (L.Converted e target) := L.convertWith false e target node

theorem checkValueKind {e : Expr} (he : L.Fine e) (kind : ValueKind) :
    L.Has (p.checkValueKind e kind) (L.Checked kind) := by
  unfold Program.checkValueKind
  split
  · next herror => exact L.pure ⟨he, fun _ h => by simp [herror] at h⟩
  · split
    · next hplace =>
      refine L.bind_lift fun found _ => ?_
      split
      · exact L.pure ⟨he, fun h => by simp [h, ValueKind.rvalue] at hplace⟩
      · exact L.reject trivial (L.checked_error kind _)
      · exact L.reject trivial (L.checked_error kind _)
    · split
      · exact L.reject trivial (L.checked_error kind _)
      · next hlacks =>
        refine L.pure ⟨he, ?_⟩
        rintro rfl _
        cases hmethods : e.isMethods <;>
          simp_all [Program.lacksValue, ValueKind.rvalue, ValueKind.allowsMethods,
            ValueKind.rvalueOrMethods]

/-! ### Names -/

variable {chain : Chain}

/-- Without access checks everything is accessible. -/
theorem isAccessible_of_ignoresAccess (h : chain.flags.ignoresAccess = true)
    (symbol : SymbolId) : chain.isAccessible p symbol = .ok true := by
  unfold Chain.isAccessible
  rw [if_pos h]
  rfl

theorem bindLocal (chain : Chain) {target : Local} (htarget : L.Variable target) (node : NodeId) :
    L.Has (p.bindLocal chain target node) L.Fine := by
  unfold Program.bindLocal
  split
  · exact L.reject trivial rfl
  · refine L.reads_local htarget (fun f g hview => ?_) fun f _ => L.pure trivial
    obtain ⟨htype, hconstant⟩ := Prod.mk.inj hview
    simp only [htype, hconstant]

variable {L} {ask ask' : Asker} (asker : L.Answers ask ask')
include asker

theorem parameterType (parameter : SymbolId) :
    L.Holds (p.parameterType ask parameter) (p.parameterType ask' parameter) fun _ => True := by
  refine L.bind_lift fun container hcontainer => L.bind_lift fun found hfound => ?_
  split
  · exact L.bind (asker.signature (.parameter hcontainer hfound)) fun _ _ => L.pure trivial
  · exact L.pure trivial

section chain

variable {chain : Chain} (scope : L.Scope chain)
include scope

theorem bindMembers (receiver : Option Expr) {found : List SymbolId} (hfound : found ≠ [])
    (name : String) (node : NodeId) :
    L.Holds (p.bindMembers ask chain receiver found name node)
      (p.bindMembers ask' chain receiver found name node) L.Fine := by
  refine L.bind (L.filterM_lift (chain.isAccessible p) found) fun accessible haccessible => ?_
  cases accessible with
  | nil =>
    refine L.bind (L.report_may (L.may_access scope ?_)) fun _ _ => L.pure rfl
    by_contra h
    have hall := isAccessible_of_ignoresAccess (p := p) (by simpa using h)
    exact hfound (haccessible.2 hall).symm
  | cons first rest =>
    refine L.bind_lift fun kind hkind => ?_
    cases kind with
    | method data =>
      exact L.bind (L.filterM_lift _ _) fun methods hmethods => L.pure hmethods.1
    | field data =>
      have hfield : p.symbols.field? first = .ok (some data) := by
        unfold SymbolTable.field?
        rw [hkind]
        rfl
      refine L.bind (asker.fieldType hfield (L.of_scope scope)) fun type _ => ?_
      refine L.ite_bind (R := fun _ => True) (fun hconstant => ?_) (fun _ => L.pure trivial)
        fun _ _ => L.pure trivial
      rw [Bool.and_eq_true, List.isEmpty_iff] at hconstant
      refine L.bind (asker.fieldConstant hfield hconstant.1 (hconstant.2 ▸ L.of_scope scope) _)
        fun evaluated _ => ?_
      exact L.may_bind (L.modifyPass (u := fun pass => { pass with sawBadConstant := true })
        fun _ => rfl) (L.pure trivial)
    | type data => exact L.pure trivial
    | global _ | parameter _ | templateParameter _ => exact L.reject trivial rfl

theorem bindName (name : String) (node : NodeId) :
    L.Holds (p.bindName ask chain name node) (p.bindName ask' chain name node) L.Fine := by
  refine L.bind_lift fun found hfound => ?_
  have hmeets := L.of_lookup scope hfound
  cases found with
  | localVariable target => exact L.bindLocal chain hmeets node
  | declaredLater target => exact L.reject trivial rfl
  | localFunction f => exact L.pure hmeets
  | parameter parameter =>
    exact L.bind (parameterType asker parameter) fun _ _ => L.pure trivial
  | templateParameter parameter =>
    refine L.bind (asker.constantParameterType parameter) fun type _ => ?_
    cases type <;> exact L.pure trivial
  | symbols found =>
    exact bindMembers asker scope none (Chain.lookup_symbols_ne_nil hfound) name node
  | empty =>
    dsimp only
    split
    · exact L.pure trivial
    · exact L.reject trivial rfl

theorem bindMemberAccess (receiver : Expr) (name : String) (node : NodeId) :
    L.Holds (p.bindMemberAccess ask chain receiver name node)
      (p.bindMemberAccess ask' chain receiver name node) L.Fine := by
  have access : ∀ found : List SymbolId, L.Holds (if found.isEmpty then do
        p.reject node .noSuchMember [← receiver.type.display p.symbols, name] node
      else p.bindMembers ask chain (if receiver.isType then none else some receiver) found name node)
      (if found.isEmpty then do
        p.reject node .noSuchMember [← receiver.type.display p.symbols, name] node
      else p.bindMembers ask' chain (if receiver.isType then none else some receiver) found name node)
      L.Fine := by
    intro found
    split
    · exact L.bind_lift fun _ _ => L.reject trivial rfl
    · next hne => exact bindMembers asker scope _ (by simpa using hne) name node
  unfold Program.bindMemberAccess
  split
  · exact L.pure rfl
  · cases receiver.type.definition? with
    | some container => exact L.bind_lift fun found _ => access found
    | none => exact access []

end chain

/-! ### Calls -/

variable {α : Type}

omit asker in
/-- Resolving a call reports what may occur anywhere, and chooses one of the candidates. -/
theorem resolve (candidates : List (Candidate α)) (arguments : List Argument)
    (node : NodeId) : L.Has (p.resolve candidates arguments node) fun resolution =>
      ∀ overload passed, resolution = .succeeded overload passed →
        ∃ c ∈ candidates, c.overload = overload := by
  have hcomplaints : ∀ message ∈ Resolution.complaints, Message.Anywhere message := by
    simp [Resolution.complaints, Message.Anywhere]
  refine L.bind_lift fun result hresult => ?_
  obtain ⟨resolution, diagnostics⟩ := result
  obtain ⟨hsucceeded, hdiagnostics⟩ := Resolution.of_resolve hresult
  refine L.bind (L.forM fun d hd => L.push (L.may ?_)) fun _ _ => L.pure ?_
  · split at hdiagnostics
    · simp [hdiagnostics] at hd
    · obtain ⟨_, rfl, hmessage⟩ := hdiagnostics
      rw [List.mem_singleton.1 hd]
      exact hcomplaints _ hmessage
  · rintro overload passed rfl
    obtain ⟨c, ⟨before, after, cost, rfl, -, -⟩, hc⟩ :=
      Resolution.ofCheapest_attempts_eq_succeeded.1 hsucceeded.symm
    exact ⟨c, by simp, hc⟩

theorem methodCandidate {method : SymbolId} (hmethod : p.symbols.isMethod method = .ok true) :
    L.Holds (p.methodCandidate ask method)
      (p.methodCandidate ask' method) fun c => p.symbols.isMethod c.overload = .ok true := by
  refine L.bind (asker.signature (.method hmethod)) fun signature _ =>
    L.bind_lift fun parameters _ => ?_
  refine L.bind (L.mapM (T := fun _ _ => True) fun pair _ => ?_) fun parameters _ => ?_
  · refine L.bind_lift fun name _ => L.bind (R := fun _ => True) ?_ fun _ _ => L.pure trivial
    refine L.bind_lift fun found _ => ?_
    split
    · exact L.pure trivial
    · exact L.reads_default pair.1 (fun f g hview => by simp only [hview]) fun _ _ => L.pure trivial
  · exact L.bind_lift fun name _ => L.pure hmethod

section chain

variable {chain : Chain} (scope : L.Scope chain)
include scope

theorem callMethod (receiver : Option Expr) {methods : List SymbolId}
    (hmethods : ∀ m ∈ methods, p.symbols.isMethod m = .ok true) (arguments : List Argument)
    (node : NodeId) :
    L.Holds (p.callMethod ask chain receiver methods arguments node)
      (p.callMethod ask' chain receiver methods arguments node) L.Fine := by
  refine L.bind (L.mapM fun m hm => methodCandidate asker (hmethods m hm))
    fun candidates hcandidates => ?_
  refine L.bind (resolve candidates arguments node) fun resolution hresolution => ?_
  split
  · next method passed =>
    obtain ⟨c, hc, rfl⟩ := hresolution method passed rfl
    obtain ⟨_, -, hmethod⟩ := exists_of_forall₂ hcandidates hc
    refine L.bind_lift fun data _ => ?_
    have call : L.Holds (do
        let signature ← ask (.signature c.overload)
        return .plain (.call receiver c.overload passed) signature.value.returnType node) (do
        let signature ← ask' (.signature c.overload)
        return .plain (.call receiver c.overload passed) signature.value.returnType node) L.Fine :=
      L.bind (asker.signature (.method hmethod)) fun _ _ => L.pure trivial
    split
    · next hlow =>
      refine L.bind_lift fun name _ => L.bind (L.report_may (L.may_lowLevel scope ?_)) fun _ _ => call
      by_contra h
      simp [by simpa using h] at hlow
    · exact call
  · exact L.pure rfl

theorem signatureOfFunction {f : LocalFunction} (hf : L.Function f) :
    L.Holds (p.signatureOfFunction ask chain f)
      (p.signatureOfFunction ask' chain f) fun _ => True := by
  refine L.reads_signature hf (fun g g' hview => by simp only [hview]) fun g _ => ?_
  cases g.functionSignature? f with
  | some signature => exact L.pure trivial
  | none =>
    refine L.bind_lift fun inner hinner => ?_
    refine L.bind (asker.functionSignature f (L.of_enclosing scope hinner))
      fun signature hsignature => L.bind (L.publish_signature hf hsignature) fun _ _ => ?_
    exact L.reads_signature hf (fun g g' hview => by simp only [hview]) fun _ _ => L.pure trivial

theorem bindCall {callee : Expr} (hcallee : L.Fine callee) (calleeNode : NodeId)
    (arguments : List Argument) (node : NodeId) :
    L.Holds (p.bindCall ask chain callee calleeNode arguments node)
      (p.bindCall ask' chain callee calleeNode arguments node) L.Fine := by
  unfold Program.bindCall
  split
  · exact L.pure rfl
  · unfold Fine at hcallee
    split
    · next hkind =>
      rw [hkind] at hcallee
      exact callMethod asker scope _ hcallee arguments node
    · next hkind =>
      rw [hkind] at hcallee
      refine L.bind (signatureOfFunction asker scope hcallee) fun signature _ => ?_
      refine L.reads_defaults hcallee (fun g g' hview => by simp only [hview]) fun g _ => ?_
      refine L.bind (resolve _ _ _) fun resolution _ => ?_
      split
      · exact L.pure trivial
      · exact L.pure rfl
    · exact L.reject trivial rfl

end chain

/-! ### Operators -/

omit asker

theorem rejectBinary (op : BinaryOp) (left right : Ty) (node : NodeId) :
    L.Has (p.rejectBinary op left right node) L.Fine :=
  L.bind_lift fun _ _ => L.reject trivial rfl

theorem assignedValue (operator : Option BinaryOp) (left right : Expr) (rightNode node : NodeId) :
    L.Has (p.assignedValue operator left right rightNode node) fun _ => True := by
  unfold Program.assignedValue
  split
  · exact L.imp (L.convert _ _ _) fun _ _ => trivial
  · split
    · exact L.imp (rejectBinary _ _ _ _) fun _ _ => trivial
    · refine L.bind_lift fun cast _ => ?_
      split
      · exact L.imp (L.convert _ _ _) fun _ _ => trivial
      · refine L.bind_lift fun _ _ => L.reject ?_ trivial
        split <;> trivial

theorem bindAssignment (operator : Option BinaryOp) (left right : Expr) (rightNode node : NodeId) :
    L.Has (p.bindAssignment operator left right rightNode node) L.Fine := by
  unfold Program.bindAssignment
  split
  · exact L.pure rfl
  · refine L.bind (assignedValue operator left right rightNode node) fun value _ => ?_
    split
    · exact L.pure rfl
    · exact L.pure trivial

theorem bindBinary (op : BinaryOp) (left right : Expr) (leftNode rightNode node : NodeId) :
    L.Has (p.bindBinary op left right leftNode rightNode node) L.Fine := by
  unfold Program.bindBinary
  split
  · exact L.pure rfl
  · split
    · exact rejectBinary _ _ _ _
    · refine L.bind (L.convert _ _ _) fun a _ => L.bind (L.convert _ _ _) fun b _ => ?_
      split
      · exact L.refuse trivial trivial
      · exact L.pure trivial

theorem bindUnary (op : UnaryOp) (operand : Expr) (node : NodeId) :
    L.Has (p.bindUnary op operand node) L.Fine := by
  unfold Program.bindUnary
  split
  · exact L.pure rfl
  · split
    · exact L.pure trivial
    · exact L.bind_lift fun _ _ => L.reject trivial rfl

/-! ### Types and expressions -/

theorem acceptDefinition (scope : L.Scope chain) (name : String) (node : NodeId)
    (definition : Option SymbolId) : L.Has (match definition with
      | none => do
        p.report node .unknownType [name]
        return none
      | some definition => do
        if ← chain.isAccessible p definition then return some definition
        p.report node .inaccessible [name]
        return none) fun _ => True := by
  cases definition with
  | none => exact L.refuse trivial trivial
  | some definition =>
    refine L.bind_lift fun accessible haccessible => ?_
    cases accessible with
    | true => exact L.pure trivial
    | false =>
      refine L.bind (L.report_may (L.may_access scope ?_)) fun _ _ => L.pure trivial
      by_contra h
      rw [isAccessible_of_ignoresAccess (by simpa using h)] at haccessible
      cases Except.ok.inj haccessible

theorem bindDefinition (scope : L.Scope chain) (name : String) (node : NodeId) :
    L.Has (p.bindDefinition chain name node) fun _ => True := by
  refine L.bind_lift fun found _ => ?_
  cases found with
  | symbols found =>
    exact L.bind (L.findM? fun symbol _ => L.lift fun _ _ => trivial) fun definition _ =>
      L.acceptDefinition scope name node definition
  | empty | localVariable _ | declaredLater _ | localFunction _ | parameter _
  | templateParameter _ => exact L.acceptDefinition scope name node none

theorem collectArguments {bind bind' : α → BindM TypeOrConstant} {list : List α}
    (h : ∀ a ∈ list, L.Holds (bind a) (bind' a) fun _ => True) :
    L.Holds (Program.collectArguments bind list) (Program.collectArguments bind' list)
      fun _ => True := by
  induction list with
  | nil => exact L.pure trivial
  | cons a rest ih =>
    rw [Program.collectArguments, Program.collectArguments]
    refine L.bind (h a (by simp)) fun bound _ => ?_
    split
    · exact L.pure trivial
    · exact L.bind (ih fun a ha => h a (List.mem_cons_of_mem _ ha)) fun _ _ => L.pure trivial

theorem constantArgument (parameter : SymbolId) (type : Ty) (argument : NodeId) (e : Expr) :
    L.Has (p.constantArgument parameter type argument e) fun _ => True := by
  refine L.bind (L.convert _ _ _) fun value _ => ?_
  split
  · exact L.pure trivial
  · split
    · exact L.bind_lift fun _ _ => L.refuse trivial trivial
    · exact L.pure trivial

section recursion

variable (L ask ask') (node : NodeId)

def OfType : Prop := ∀ {chain : Chain}, L.Scope chain →
  L.Holds (p.bindType ask chain node) (p.bindType ask' chain node) fun _ => True

def OfUnchecked : Prop := ∀ {chain : Chain} (kind : ValueKind), L.Scope chain →
  L.Holds (p.bindUnchecked ask chain node kind) (p.bindUnchecked ask' chain node kind) L.Fine

def OfExpression : Prop := ∀ {chain : Chain} (kind : ValueKind), L.Scope chain →
  L.Holds (p.bindExpression ask chain node kind)
    (p.bindExpression ask' chain node kind) (L.Checked kind)

def OfArgument : Prop := ∀ {chain : Chain} (parameter : SymbolId), L.Scope chain →
  L.Holds (p.bindTemplateArgument ask chain parameter node)
    (p.bindTemplateArgument ask' chain parameter node) fun _ => True

end recursion

variable {node : NodeId}

theorem ofExpression (h : L.OfUnchecked ask ask' node) : L.OfExpression ask ask' node := by
  intro chain kind scope
  rw [Program.bindExpression, Program.bindExpression]
  exact L.bind (h kind scope) fun e he => L.checkValueKind he kind

include asker in
theorem ofArgument (htype : L.OfType ask ask' node) (hexpression : L.OfExpression ask ask' node) :
    L.OfArgument ask ask' node := by
  intro chain parameter scope
  rw [Program.bindTemplateArgument_eq, Program.bindTemplateArgument_eq]
  refine L.bind (asker.constantParameterType parameter) fun type _ => ?_
  cases type with
  | none => exact L.bind (htype scope) fun _ _ => L.pure trivial
  | some type =>
    refine L.bind (R := fun _ => True) ?_ fun _ _ => constantArgument _ _ _ _
    unfold Program.argumentValue
    split
    · refine L.bind (bindName asker scope _ node) fun e he => ?_
      exact L.imp (L.checkValueKind he _) fun _ _ => trivial
    · exact L.bind_lift fun _ _ => L.reject trivial trivial
    · exact L.bind_lift fun _ _ => L.reject trivial trivial
    · exact L.imp (hexpression _ scope) fun _ _ => trivial

theorem ofType (ih : ∀ child : Nat, child < node →
      L.OfType ask ask' child ∧ L.OfArgument ask ask' child) :
    L.OfType ask ask' node := by
  intro chain scope
  rw [Program.bindType.eq_def p ask, Program.bindType.eq_def p ask']
  split
  · next element hkind =>
    exact L.bind ((ih element (p.tree.child_lt hkind (by simp))).1 scope)
      fun _ _ => L.pure trivial
  · next name arguments isUnbound hkind =>
    refine L.ite_bind (R := fun _ => True) (fun _ => L.lift fun _ _ => trivial)
      (fun _ => L.pure trivial) fun simple _ => ?_
    cases simple with
    | some type => exact L.pure trivial
    | none =>
      refine L.bind (bindDefinition scope name node) fun definition _ => ?_
      cases definition with
      | none => exact L.pure trivial
      | some definition =>
        refine L.bind_lift fun parameters _ => ?_
        split
        · split
          · exact L.pure trivial
          · exact L.refuse trivial trivial
        · split
          · exact L.refuse trivial trivial
          · split
            · exact L.pure trivial
            · refine L.bind (collectArguments fun x _ => ?_) fun bound _ => ?_
              · have hlt : x.2.1 < node := p.tree.child_lt hkind (by
                  simpa using x.2.2)
                exact (ih x.2.1 hlt).2 x.1 scope
              · cases bound <;> exact L.pure trivial
  · exact L.refuse trivial trivial
  · exact L.of_throw

include asker in
theorem ofUnchecked (htype : L.OfType ask ask' node) (ih : ∀ child : Nat, child < node →
    L.OfType ask ask' child ∧ L.OfUnchecked ask ask' child) : L.OfUnchecked ask ask' node := by
  intro chain kind scope
  have expression : ∀ child : Nat, child < node → L.OfExpression ask ask' child :=
    fun child hchild => ofExpression (ih child hchild).2
  have typed : L.Holds (do
      let type ← p.bindType ask chain node
      return if type.isError then .error node else .plain .type type node) (do
      let type ← p.bindType ask' chain node
      return if type.isError then .error node else .plain .type type node) L.Fine := by
    refine L.bind (htype scope) fun t _ => L.pure ?_
    split
    · rfl
    · trivial
  rw [Program.bindUnchecked.eq_def p ask, Program.bindUnchecked.eq_def p ask']
  split
  · refine L.pure ?_
    unfold Expr.ofLiteral
    split <;> trivial
  · exact bindName asker scope _ node
  · next receiver name hkind =>
    refine L.bind (expression receiver (p.tree.child_lt hkind (by simp)) _ scope)
      fun e _ => ?_
    exact bindMemberAccess asker scope e name node
  · next receiver access hkind =>
    refine L.bind (expression receiver (p.tree.child_lt hkind (by simp)) _ scope)
      fun e _ => ?_
    split
    · exact L.pure rfl
    · refine L.bind (expression access (p.tree.child_lt hkind (by simp)) kind
        (L.scope_push {} scope rfl)) fun e' _ => L.pure ?_
      unfold Program.conditionalAccess
      split
      · rfl
      · trivial
  · split
    · exact bindMemberAccess asker scope _ _ node
    · exact L.reject trivial rfl
  · next callee arguments hkind =>
    refine L.bind (expression callee (p.tree.child_lt hkind (by simp)) _ scope)
      fun target htarget => ?_
    refine L.bind (L.mapM (T := fun _ _ => True) fun argument _ => ?_) fun bound _ => ?_
    · have hlt : argument.1 < node := p.tree.child_lt hkind (List.mem_cons_of_mem _ argument.2)
      dsimp only
      split
      · next name value hargument =>
        have hvalue : value < node :=
          Nat.lt_trans (p.tree.child_lt hargument (by simp)) hlt
        exact L.bind (expression value hvalue _ scope) fun _ _ => L.pure trivial
      · exact L.bind (expression argument.1 hlt _ scope) fun _ _ => L.pure trivial
    · exact bindCall asker scope htarget.fine callee bound node
  · next value hkind =>
    exact (ih value (p.tree.child_lt hkind (by simp))).2 kind scope
  · next op left right hkind =>
    refine L.bind (expression left (p.tree.child_lt hkind (by simp)) _ scope)
      fun place _ => ?_
    refine L.bind (expression right (p.tree.child_lt hkind (by simp)) _ scope)
      fun value _ => ?_
    exact bindAssignment op place value right node
  · next op left right hkind =>
    refine L.bind (expression left (p.tree.child_lt hkind (by simp)) _ scope)
      fun a _ => ?_
    refine L.bind (expression right (p.tree.child_lt hkind (by simp)) _ scope)
      fun b _ => ?_
    exact bindBinary op a b left right node
  · next op operand hkind =>
    refine L.bind (expression operand (p.tree.child_lt hkind (by simp)) _ scope)
      fun value _ => ?_
    exact bindUnary op value node
  · next type operand hkind =>
    refine L.bind ((ih type (p.tree.child_lt hkind (by simp))).1 scope)
      fun t _ => ?_
    refine L.bind (expression operand (p.tree.child_lt hkind (by simp)) _ scope)
      fun value hvalue => ?_
    exact L.imp (L.convertWith true value t node) fun _ h => h.fine hvalue.fine
  · next type hkind =>
    refine L.bind ((ih type (p.tree.child_lt hkind (by simp))).1
      (L.scope_push {} scope rfl)) fun t _ => L.pure ?_
    split
    · rfl
    · trivial
  · exact typed
  · exact typed
  · exact L.pure rfl
  · exact L.of_throw

include asker

theorem ofNode (node : Nat) : L.OfType ask ask' node ∧ L.OfUnchecked ask ask' node := by
  induction node using Nat.strongRecOn with
  | ind node ih =>
    have htype : L.OfType ask ask' node := ofType fun child hchild =>
      ⟨(ih child hchild).1, ofArgument asker (ih child hchild).1 (ofExpression (ih child hchild).2)⟩
    exact ⟨htype, ofUnchecked asker htype ih⟩

variable {chain : Chain} (scope : L.Scope chain)
include scope

theorem bindType (node : NodeId) :
    L.Holds (p.bindType ask chain node) (p.bindType ask' chain node) fun _ => True :=
  (ofNode asker node).1 scope

theorem bindExpression (node : NodeId) (kind : ValueKind) :
    L.Holds (p.bindExpression ask chain node kind)
      (p.bindExpression ask' chain node kind) (L.Checked kind) :=
  ofExpression (ofNode asker node).2 kind scope

/-- A value that is read. -/
theorem bindValue (node : NodeId) :
    L.Holds (p.bindValue ask chain node)
      (p.bindValue ask' chain node) fun e => e.IsValue ∧ e.type.isVoid = false :=
  L.imp (bindExpression asker scope node .rvalue) fun _ h =>
    ⟨h.value rfl, h.fine.isVoid_eq_false (h.value rfl)⟩

theorem bindVariableType (node : NodeId) (name : String) :
    L.Holds (p.bindVariableType ask chain node name)
      (p.bindVariableType ask' chain node name) fun t => t.isVoid = false := by
  refine L.bind (bindType asker scope node) fun t _ => ?_
  split
  · exact L.refuse trivial rfl
  · next hvoid => exact L.pure (by simpa using hvoid)

/-- A value, converted. -/
theorem converted (node : NodeId) (target : Ty) :
    L.Holds (do p.convert (← p.bindValue ask chain node) target node)
      (do p.convert (← p.bindValue ask' chain node) target node) fun e =>
      target.isVoid = false → e.IsValue :=
  L.bind (bindValue asker scope node) fun e he =>
    L.imp (L.convert e target node) fun _ h => h.value he.1

/-! ### Declarations in code -/

omit asker scope in
theorem watchingConstants {m m' : BindM α} {Q : α → Prop} (hm : L.Holds m m' Q) :
    L.Holds (Program.watchingConstants m) (Program.watchingConstants m') fun result =>
      Q result.1 := by
  refine L.bind L.sawBadConstant fun before _ => ?_
  refine L.bind (L.modifyPass (u := fun pass => { pass with sawBadConstant := false }) fun _ => rfl)
    fun _ _ => ?_
  refine L.bind hm fun value hvalue => L.bind L.sawBadConstant fun saw _ => ?_
  exact L.bind (L.modifyPass (u := fun pass => { pass with sawBadConstant := saw || before })
    fun _ => rfl) fun _ _ => L.pure hvalue

theorem bindLocalInitializer (target : Local) (declared : Option Ty) (node : NodeId) :
    L.Holds (p.bindLocalInitializer ask chain target declared node)
      (p.bindLocalInitializer ask' chain target declared node) fun e =>
      declared = none → e.type.isVoid = false := by
  refine L.bind (bindValue asker (L.scope_push {} scope rfl) node) fun e he => ?_
  split
  · exact L.imp (L.convert e _ node) fun _ _ h => by cases h
  · exact L.pure fun _ => he.2

omit asker scope in
theorem localTypeOf {declared : Option Ty} {value : Option Expr}
    (hdeclared : ∀ t ∈ declared, t.isVoid = false)
    (hvalue : ∀ e ∈ value, declared = none → e.type.isVoid = false) (name : String) (node : NodeId) :
    L.Has (p.localTypeOf declared value name node) fun t => t.isVoid = false := by
  unfold Program.localTypeOf
  split
  · exact L.pure (hdeclared _ rfl)
  · split
    · exact L.refuse trivial rfl
    · exact L.pure (hvalue _ rfl rfl)
  · exact L.refuse trivial rfl

theorem bindLocalDeclaration {name : String} {type initializer : Option NodeId} {isConstant : Bool}
    (hnode : p.tree.node? node = some (.localDeclaration name type isConstant initializer)) :
    L.Holds (p.bindLocalDeclaration ask chain name type isConstant initializer node)
      (p.bindLocalDeclaration ask' chain name type isConstant initializer node)
      fun _ => True := by
  refine L.bind_lift fun found hfound => ?_
  cases found with
  | none => exact L.of_throw
  | some target =>
    have htarget := L.of_localAt? scope hfound
    obtain ⟨_, hown⟩ := Chain.localAt?_node hfound
    obtain ⟨-, -, hsame, -⟩ := Node.localDeclaration.inj (Option.mem_unique hnode hown)
    refine L.bind_lift fun existing _ => L.may_bind (L.report trivial) ?_
    refine L.bind (L.optionMapM fun n _ => bindVariableType asker scope n name)
      fun declared hdeclared => ?_
    refine L.bind (watchingConstants (L.optionMapM fun n _ =>
      bindLocalInitializer asker scope target declared n)) fun pair hpair => ?_
    refine L.bind (localTypeOf hdeclared hpair name node) fun t ht => ?_
    refine L.bind (L.publish_type htarget ht) fun _ _ => ?_
    split
    · next hconstant =>
      refine L.bind (R := fun _ => True) ?_ fun constant _ => ?_
      · unfold Program.localConstantOf
        split
        · exact L.refuse trivial trivial
        · exact L.may_bind (L.report trivial) (L.pure trivial)
      · exact L.bind (L.publish_constant _ htarget (hsame ▸ hconstant)) fun _ _ => L.pure trivial
    · exact L.pure trivial

omit asker scope in
theorem checkParameterNames (list : List Local) (seen : List String) :
    L.Has (p.checkParameterNames list seen) fun _ => True := by
  induction list generalizing seen with
  | nil => exact L.pure trivial
  | cons parameter rest ih =>
    rw [Program.checkParameterNames]
    exact L.may_bind (L.report trivial) (ih _)

theorem bindFunctionSignature (function : LocalFunction) :
    L.Holds (p.bindFunctionSignature ask chain function)
      (p.bindFunctionSignature ask' chain function) Signature.Proper := by
  refine L.bind (L.mapM (T := fun _ t => t.isVoid = false) fun parameter _ => ?_)
    fun parameters hparameters => ?_
  · split
    · exact bindVariableType asker scope _ _
    · exact L.pure rfl
  · cases function.returnType with
    | some type =>
      exact L.bind (bindType asker scope type) fun _ _ =>
        L.pure (forall_of_forall₂ hparameters)
    | none => exact L.pure (forall_of_forall₂ hparameters)

omit scope in
/-- The signature of a method, under the chain that is found for it. -/
theorem bindSignature {method : SymbolId}
    (hchain : L.Has (BindM.regions (p.signatureChain method)) L.Scope) :
    L.Holds (p.bindSignature ask method) (p.bindSignature ask' method) Signature.Proper := by
  refine L.bind hchain fun chain scope => L.bind_lift fun parameters _ => ?_
  refine L.bind (L.mapM (T := fun _ t => t.isVoid = false) fun parameter _ =>
    L.bind_lift fun data _ => ?_) fun types htypes => L.bind_lift fun data _ => ?_
  · cases data with
    | none => exact L.pure rfl
    | some data => exact L.bind_lift fun name _ => bindVariableType asker scope data.type name
  · split
    · exact L.bind (bindType asker scope _) fun _ _ => L.pure (forall_of_forall₂ htypes)
    · exact L.pure (forall_of_forall₂ htypes)

theorem bindDefault (node : NodeId) (type : Ty) (name : String) :
    L.Holds (p.bindDefault ask chain node type name)
      (p.bindDefault ask' chain node type name) fun e =>
      type.isVoid = false → e.IsValue := by
  refine L.bind (bindValue asker scope node) fun e he => ?_
  refine L.bind (L.convert e type node) fun value hvalue => ?_
  exact L.may_bind (L.report trivial) (L.pure (hvalue.value he.1))

theorem bindFunctionDefaults (inherited : Chain.Inherited p L.Scope) (function : LocalFunction)
    (types : List Ty) :
    L.Holds (p.bindFunctionDefaults ask chain function types)
      (p.bindFunctionDefaults ask' chain function types) fun values =>
      (∀ t ∈ types, t.isVoid = false) → ∀ e, some e ∈ values → e.IsValue := by
  refine L.imp (L.mapM (T := fun pair value => pair.2.isVoid = false → ∀ e ∈ value, e.IsValue)
    fun pair _ => ?_) fun values hvalues htypes e he => ?_
  · obtain ⟨parameter, type⟩ := pair
    dsimp only
    split
    · refine L.bind_lift fun inner hinner => ?_
      have hinner : L.Scope (inner.push (.plain none) { inDefaultValue := true }) :=
        L.scope_push _ (inherited.innerOrSelf scope hinner) rfl
      refine L.bind (bindDefault asker hinner _ type _) fun value hvalue => L.pure ?_
      rintro htype _ ⟨rfl⟩
      exact hvalue htype
    · exact L.pure (by simp)
  · obtain ⟨pair, hpair, h⟩ := exists_of_forall₂ hvalues he
    exact h (htypes _ (List.of_mem_zip hpair).2) e rfl

theorem bindFunctionHead (inherited : Chain.Inherited p L.Scope) (node : NodeId) :
    L.Holds (p.bindFunctionHead ask chain node)
      (p.bindFunctionHead ask' chain node) fun _ => True := by
  refine L.bind_lift fun found hfound => ?_
  cases found with
  | none => exact L.of_throw
  | some function =>
    have hfunction := L.of_functionAt? scope hfound
    refine L.bind (checkParameterNames _ _) fun _ _ => ?_
    refine L.bind (bindFunctionSignature asker scope function) fun signature hsignature => ?_
    refine L.bind (L.publish_signature hfunction hsignature) fun _ _ => ?_
    refine L.reads_signature hfunction (fun f g hview => by simp only [hview]) fun f hknown => ?_
    refine L.bind (bindFunctionDefaults asker scope inherited function _) fun defaults hdefaults => ?_
    refine L.bind (L.publish_defaults hfunction fun tidied => hdefaults ?_) fun _ _ => L.pure trivial
    cases hread : f.functionSignature? function with
    | none => exact hsignature
    | some known => exact hknown tidied known hread

end CodeLogic
end Bindery
