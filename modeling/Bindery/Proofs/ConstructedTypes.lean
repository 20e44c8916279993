import Bindery.Proofs.ConstantTypes

/-! # Constructed types

A constructed type has one argument for each template parameter of its class.

* `TyKind.Constructs` says what fits a parameter: a type other than the error type, or a constant of
  the type that the parameter was found to stand for.
* Arguments are bound one for each parameter and dropped altogether if one of them is an error.  A
  constant is converted to the type of its parameter, so it fits, as long as no constant is
  published with the error type: an expression of that type is not converted.
* So every type that is bound is constructed in this way, at any depth
  (`Program.constructed_types_fit`).  A constant of the error type is passed for any parameter
  (`Program.constantArgument_of_isError`). -/

namespace Bindery

variable (p : Program)

/-! ### Arguments that fit -/

mutual

/-- The type and all types in it are constructed with arguments that fit.  `Finds` tells which types
template parameters for constants were found to have. -/
def TyKind.Constructs (Finds : SymbolId → Ty → Prop) : TyKind → Prop
  | .constructed definition arguments => ∃ parameters,
      p.symbols.templateParameters definition = .ok parameters ∧
        TemplateArgument.FitAll Finds parameters arguments
  | _ => True

/-- An argument for a type parameter is a type and no error, one for another parameter a constant of
the type of the parameter. -/
def TemplateArgument.Fits (Finds : SymbolId → Ty → Prop) (parameter : SymbolId) :
    TemplateArgument → Prop
  | .type kind _ => (p.symbols.templateParameter? parameter).map (·.bind (·.constantType)) = .ok none ∧
      kind ≠ .error ∧ kind.Constructs Finds
  | .constant c => ∃ t, Finds parameter t ∧ c.HasType t

def TemplateArgument.FitAll (Finds : SymbolId → Ty → Prop) :
    List SymbolId → List TemplateArgument → Prop
  | [], [] => True
  | parameter :: parameters, argument :: arguments =>
      argument.Fits Finds parameter ∧ TemplateArgument.FitAll Finds parameters arguments
  | _, _ => False

end

/-- The type of the constants that a parameter stands for, as it was answered after `f` was found
and before `F` was. -/
def Program.FindsType (f F : Findings) (parameter : SymbolId) (t : Ty) : Prop :=
  ∃ u u', f.Grows u.findings ∧ u'.findings.Grows F ∧
    p.answer (.constantParameterType parameter) u = .ok (some t) u'

/-- A step was made by a run between the findings that it starts from and those that come later. -/
theorem Steps.ran {α : Type} {I : Findings → Prop} {m : BindM α} {K : α → Prop}
    {R : Findings → α → Trace → Prop} (hm : Steps I m K R) :
    Steps I m K fun F a trace => R F a trace ∧
      ∃ u u', I u.findings ∧ u'.findings.Grows F ∧ m u = .ok a u' := by
  intro s hs
  have h := hm s hs
  unfold StepsAt Ends at *
  cases hrun : m s with
  | error fault s' => rwa [hrun] at h
  | ok a s' =>
    rw [hrun] at h
    obtain ⟨hs', hgrows, ha, trace, htrace, hR⟩ := h
    exact ⟨hs', hgrows, ha, trace, htrace, fun F hF => ⟨hR F hF, s, s', hs, hF, hrun⟩⟩

variable {p}

/-! ### Binding -/

section recursion

variable (p) (node : NodeId)

def TypeFits : Prop := ∀ (f : Findings) {chain : Chain}, chain.Known p →
  Steps (Stage p f) (p.bindType p.answer chain node) (fun _ => True) fun F t _ =>
    F.ConstantsTyped → t.kind.Constructs p (p.FindsType f F)

def ArgumentFits : Prop := ∀ (f : Findings) {chain : Chain} {parameter : Nat}, chain.Known p →
  parameter < p.symbols.size →
  Steps (Stage p f) (p.bindTemplateArgument p.answer chain parameter node) (fun _ => True)
    fun F bound _ => F.ConstantsTyped → bound.ty.isError = false →
      bound.toArgument.Fits p (p.FindsType f F) parameter

end recursion

/-- Arguments that are bound for parameters fit them if each of them does. -/
theorem collectArguments_fit {α : Type} {f : Findings} (parameter : α → SymbolId)
    {bind : α → BindM TypeOrConstant} {list : List α}
    (h : ∀ a ∈ list, Steps (Stage p f) (bind a) (fun _ => True) fun F bound _ =>
      F.ConstantsTyped → bound.ty.isError = false →
        bound.toArgument.Fits p (p.FindsType f F) (parameter a)) :
    Steps (Stage p f) (Program.collectArguments bind list) (fun _ => True) fun F bound _ =>
      F.ConstantsTyped → ∀ arguments, bound = some arguments →
        TemplateArgument.FitAll p (p.FindsType f F) (list.map parameter) arguments := by
  induction list with
  | nil =>
    refine .pure trivial fun F _ => ?_
    rintro _ ⟨rfl⟩
    trivial
  | cons a rest ih =>
    rw [Program.collectArguments]
    refine Steps.bind (h a (by simp)) fun bound _ => ?_
    split
    · exact .pure trivial fun F _ _ _ => by simp
    · next hok =>
      refine Steps.bind (ih fun a ha => h a (List.mem_cons_of_mem _ ha)) fun others _ => ?_
      refine .pure trivial fun F _ hothers _ hbound typed arguments harguments => ?_
      obtain ⟨others, rfl, rfl⟩ := Option.map_eq_some_iff.1 harguments
      exact ⟨hbound typed (eq_false_of_ne_true hok), hothers typed others rfl⟩

/-- An expression of the error type is not converted, so its constant stands for any type. -/
theorem Program.constantArgument_of_isError {e : Expr} (he : e.isError = true) {c : Constant}
    (hc : e.constant = some c) (parameter : SymbolId) (type : Ty) (node : NodeId) :
    p.constantArgument parameter type node e = pure (.constant c type node) := by
  unfold constantArgument convert convertWith
  rw [if_pos (by simp [he]), pure_bind, hc]

namespace Program.Formed

variable (formed : p.Formed) {node : NodeId} (hnode : node < p.tree.size)
include formed

/-- A parameter for which no type is found stands for types itself. -/
theorem constantType_eq_none {parameter : Nat} (hparameter : parameter < p.symbols.size)
    {F f : Findings} (h : Derives p F f (.constantParameter parameter none) []) :
    (p.symbols.templateParameter? parameter).map (·.bind (·.constantType)) = .ok none := by
  obtain ⟨s, hs⟩ := SymbolTable.exists_of_lt hparameter
  cases h with
  | typeParameter hdata howner h =>
    rcases h with hnone | rfl
    · rw [hdata]
      exact congrArg Except.ok hnone
    · -- only the global container lies in nothing
      have hcontaining := ok_unique (containing?_eq hs) howner
      obtain ⟨global, members, hglobal, hkind⟩ := formed.table.global_eq
      rcases (formed.table.entry hs).containing with ⟨rfl, -⟩ | ⟨c, hc, -⟩
      · obtain rfl := Option.some.inj (hs.symm.trans hglobal)
        rw [Formed.templateParameter?_eq hs, hkind]
        rfl
      · rw [hc] at hcontaining
        cases hcontaining

include hnode

theorem argumentFits (htype : TypeFits p node) : ArgumentFits p node := by
  intro f chain parameter known hparameter
  have spec := formed.answer_spec
  have hexpression : ExpressionSteps p p.answer node := fun f _ kind known =>
    formed.bindExpression_steps spec f known hnode kind
  rw [bindTemplateArgument_eq]
  refine Steps.bind (spec.constantParameterType f hparameter).ran fun found hfound => ?_
  cases found with
  | none =>
    refine Steps.bind_pure (htype f known) fun t _ => ⟨trivial, ?_⟩
    rintro F _ ht _ ⟨⟨-, hnone⟩, -⟩ typed hok
    have hkind : t.kind ≠ .error := of_decide_eq_false hok
    exact ⟨formed.constantType_eq_none hparameter hnone, hkind, ht typed⟩
  | some type =>
    refine Steps.bind (formed.argumentValueSteps spec hnode hexpression f known hparameter)
      fun e he => ?_
    refine (formed.constantArgument_steps hparameter (hfound type rfl) hnode he).imp
      (fun _ _ => trivial) ?_
    rintro F bound _ ⟨value, _, _, -, hconverts, hcases⟩ _ hvalue _ ⟨-, u, u', hu, hF, hrun⟩ typed hok
    rcases hcases with ⟨c, hc, rfl, -⟩ | ⟨-, rfl, -⟩
    · have he : e.ConstantTyped := hvalue.constantTyped typed
      exact ⟨type, ⟨u, u', hu.grows, hF, hrun⟩, hconverts.hasType he hok hc⟩
    · cases hok

theorem typeFits (ih : ∀ child : Nat, child < node → TypeFits p child ∧ ArgumentFits p child) :
    TypeFits p node := by
  intro f chain known
  rw [bindType]
  split
  · next element hkind =>
    have hlt : element < node := p.tree.child_lt hkind (by simp)
    refine Steps.bind_pure ((ih element hlt).1 f known) fun t _ => ⟨trivial, fun F _ ht typed => ?_⟩
    split
    · exact ht typed
    · exact ht typed
  · next name arguments isUnbound hkind =>
    refine Steps.ite_bind (K := fun _ => True) (R := fun F found _ => ∀ t, found = some t →
      t.kind.Constructs p (p.FindsType f F)) ?_ (fun _ => .pure trivial fun F => by simp)
      fun simple _ => ?_
    · refine fun _ => Steps.lift (formed.simpleType?_yields known name) fun found hfound _ =>
        ⟨trivial, fun F => ?_⟩
      rintro t rfl
      unfold simpleType? at hfound
      split at hfound
      · obtain rfl := Option.some.inj (Except.ok.inj hfound)
        trivial
      · obtain ⟨outer, -, houter⟩ := exists_of_bind_eq_ok hfound
        obtain ⟨x, -, rfl⟩ := Option.map_eq_some_iff.1 (Except.ok.inj houter)
        trivial
    cases simple with
    | some type => exact .pure trivial fun F _ h _ => h type rfl
    | none =>
      refine (Steps.bind (formed.bindDefinition_steps known hnode name)
        fun definition hdefined => ?_).mono fun F t _ h _ _ => h
      cases definition with
      | none => exact .pure trivial fun F _ _ _ => trivial
      | some definition =>
        refine Steps.bind_lift (formed.table.templateParameters_yields (hdefined definition rfl).1)
          fun parameters hparameters hparameters_lt => ?_
        split
        · split
          · exact .pure trivial fun F _ _ _ => trivial
          · exact formed.refused_steps hnode rfl _ trivial fun _ _ _ _ => trivial
        · split
          · exact formed.refused_steps hnode rfl _ trivial fun _ _ _ _ => trivial
          · next hlength =>
            split
            · exact .pure trivial fun F _ _ _ => trivial
            · refine Steps.bind (collectArguments_fit (·.1) fun x hx => ?_) fun bound _ => ?_
              · have hlt : x.2.1 < node := p.tree.child_lt hkind (by simpa using x.2.2)
                exact (ih x.2.1 hlt).2 f known
                  (hparameters_lt x.1 (List.of_mem_zip (b := x.2) hx).1)
              · cases bound with
                | none => exact .pure trivial fun F _ _ _ _ _ => trivial
                | some bound =>
                  refine .pure trivial fun F _ hfit _ _ typed => ⟨parameters, hparameters, ?_⟩
                  have hfirst : (parameters.zip arguments.attach).map (·.1) = parameters :=
                    List.map_fst_zip (by simp [not_not.1 hlength])
                  exact hfirst ▸ hfit typed bound rfl
  · exact formed.refused_steps hnode rfl _ trivial fun _ _ => trivial
  · next hnone =>
    obtain ⟨kind, hkind⟩ := Tree.exists_node_of_lt hnode
    simp [hkind] at hnone

omit hnode in
theorem nodeFits (node : Nat) (hnode : node < p.tree.size) : TypeFits p node := by
  induction node using Nat.strongRecOn with
  | ind node ih =>
    refine formed.typeFits hnode fun child hchild => ?_
    have hlt := Nat.lt_trans hchild hnode
    exact ⟨ih child hchild hlt, formed.argumentFits hlt (ih child hchild hlt)⟩

end Program.Formed

namespace Program

/-- In every context, a type that is bound is constructed with arguments that fit, at any depth,
unless a constant of the error type is published. -/
theorem constructed_types_fit {d : Document} {options : Options} (hp : p.IsOf d options)
    {s : BindState} (reached : p.Reached s.findings) {chain : Chain} (hchain : chain.Known p)
    {node : NodeId} (hnode : node < p.tree.size) :
    Ends (· = .endlessRequests) (p.bindType p.answer chain node) s fun t u =>
      u.findings.ConstantsTyped → t.kind.Constructs p (p.FindsType s.findings u.findings) := by
  have hs := hp.formed.idle_of_reached reached
  refine Ends.imp (hp.formed.nodeFits node hnode s.findings hchain s hs.sound.stage) ?_
  rintro t u ⟨-, -, -, trace, -, hfits⟩
  exact hfits u.findings (.refl _)

/-- `class Box<int N> {}  Box<1> b;` -/
def boxedDocument : Document := ⟨"boxed", [
  .typeName "int" [] false, .templateParameter "N" (some 0), .classDeclaration "Box" .none [1] none [],
  .literal (.int 1), .typeName "Box" [3] false, .fieldDeclaration "b" .none (some 4) none,
  .compilationUnit [2, 5]]⟩

/-- The type at a node, and how many constants are published when it is bound. -/
def boundType? (node : NodeId) (c : Compilation) : Option (Ty × Nat × Nat) :=
  match c.program.bindType c.program.answer c.program.globalScope node {} with
  | .ok t u => some (t, u.findings.constants.size, u.findings.localConstants.size)
  | .error .. => none

set_option maxRecDepth 20000 in
theorem boundType?_boxed : Compilation.observe (boundType? 4) boxedDocument {} =
    some (some (⟨.constructed 1 [.constant (.value (.int 1))], false⟩, 0, 0)) := by cbv

theorem constructed_types_fit_boxed : ∃ p : Program, p.IsOf boxedDocument {} ∧
    ∃ t u, p.bindType p.answer p.globalScope 4 {} = .ok t u ∧
      t = ⟨.constructed 1 [.constant (.value (.int 1))], false⟩ ∧ u.findings.ConstantsTyped ∧
      t.kind.Constructs p (p.FindsType {} u.findings) := by
  obtain ⟨c, htree, hc, hlook⟩ := Compilation.exists_of_observe _ boundType?_boxed
  have hof : c.program.IsOf boxedDocument {} := ⟨htree, c, hc, rfl, rfl⟩
  have hnode := Tree.lt_size_of_node? (Tree.node?_of_ofDocument htree 4)
  have hfits := constructed_types_fit hof (s := {}) .start (globalScope_outside hof.formed).known hnode
  unfold boundType? at hlook
  split at hlook
  · next t u hrun =>
    simp only [Option.some.injEq, Prod.mk.injEq] at hlook
    obtain ⟨ht, hconstants, hlocals⟩ := hlook
    have typed : u.findings.ConstantsTyped := by
      have hfields := List.eq_nil_of_length_eq_zero hconstants
      have hlocals := List.eq_nil_of_length_eq_zero hlocals
      constructor <;> simp [Registry.get?, hfields, hlocals]
    exact ⟨c.program, hof, t, u, hrun, ht, typed, hfits.of_ok hrun typed⟩
  · cases hlook

end Program
end Bindery
