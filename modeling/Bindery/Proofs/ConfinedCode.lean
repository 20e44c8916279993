import Bindery.Proofs.CodeLogic
import Bindery.Proofs.Confinement

/-! # Binding code of an area

Binding types, expressions and local declarations under a chain inside an area is confined to the
area, provided that the requests of the code are (`confinedLogic`), and so is binding statements.
The requests of code are answered from what is published, but for the types of template parameters
and the signatures of local functions, which are bound anew, in scopes that lie inside the area as
well.  So the answers are confined at every depth of requests. -/

namespace Bindery

variable {p : Program} {area : Area}

/-- Code that is confined to an area. -/
def confinedLogic (closed : IsArea p area) : CodeLogic p where
  Holds m _ Q := Confined p area m Q
  pure := .pure
  bind := .bind
  of_throw := .of_throw
  Scope := Chain.Inside p area
  Outer := Chain.Inside p area
  Inferring _ := True
  Variable target := target.Inside area
  Function f := f.Inside p area
  May _ := True
  Tidied := False
  scope_push {_ kind} additional inside hkind := by
    refine inside.push _ additional ?_
    cases kind <;> trivial
  of_enclosing := (Chain.inherited_inside closed).enclosing
  of_scope _ := trivial
  of_lookup {_ _ _ found} inside hfound := by
    have h := Chain.lookup_inside closed inside hfound
    cases found <;> exact h
  of_localAt? inside h := Chain.localAt?_inside closed inside h
  of_functionAt? inside h := Chain.functionAt?_inside closed inside h
  may _ := trivial
  may_access _ _ := trivial
  may_lowLevel _ _ := trivial
  push _ := .push _
  modifyPass _ := .modifyPass _
  sawBadConstant := .sawBadConstant
  reads_local {target} htarget _ _ _ _ congr hk := by
    refine .bind_findings fun f g hfg => ⟨congr f g (Prod.ext ?_ ?_), hk f trivial⟩
    · exact hfg.locals.types target.key htarget.1
    · dsimp only
      split
      · next h => simp only [Findings.localConstant?, hfg.locals.constants target.key (htarget.2 h)]
      · rfl
  reads_default parameter _ _ _ _ congr hk := .bind_findings fun f g hfg =>
    ⟨congr f g (by dsimp only; rw [hfg.declared.defaults]), hk f trivial⟩
  reads_signature hf _ _ _ _ congr hk := .bind_findings fun f g hfg =>
    ⟨congr f g (hfg.locals.signatures _ hf.2.1), hk f False.elim⟩
  reads_defaults hf _ _ _ _ congr hk := .bind_findings fun f g hfg =>
    ⟨congr f g (hfg.locals.defaults _ hf.2.1), hk f trivial⟩
  publish_type htarget _ := .publishLocalType htarget.1 _
  publish_constant c htarget hconstant := .publishLocalConstant (htarget.2 hconstant) c
  publish_signature hf _ := .publishFunctionSignature hf _
  publish_defaults hf _ := .publishFunctionDefaults hf.2.1 _

namespace Program

variable {method : SymbolId}

theorem isMethod_of_eq (h : p.symbols.isMethod method = .ok true) :
    IsMethod p method := by
  obtain ⟨s, hs, hmethod⟩ := SymbolTable.exists_of_map_fetch h
  cases hkind : s.kind <;> simp [Symbol.isMethod, hkind] at hmethod
  exact ⟨s, _, hs, hkind⟩

theorem isMethod_eq (h : IsMethod p method) :
    p.symbols.isMethod method = .ok true := by
  obtain ⟨s, data, hs, hkind⟩ := h
  exact (SymbolTable.map_fetch _ hs).trans (by simp [Symbol.isMethod, hkind])

/-- What holds a parameter is a method. -/
theorem Reachable.isMethod (formed : p.Formed) (h : p.Reachable method) :
    IsMethod p method := by
  cases h with
  | method h => exact isMethod_of_eq h
  | @parameter x data hx hdata =>
    obtain ⟨s, hs, hcontaining⟩ := SymbolTable.exists_of_map_fetch hx
    rw [parameter?_eq hs] at hdata
    have hkind := parameter?_eq_some (Except.ok.inj hdata)
    obtain ⟨outer, houter, hholds⟩ := formed.table.held hs method hcontaining
    rw [hkind] at hholds
    cases houterKind : outer.kind <;> simp [houterKind, SymbolKind.mayHold] at hholds
    exact ⟨outer, _, houter, houterKind⟩

end Program

/-! ### Statements -/

namespace CodeLogic

/-- What a judgement about statements needs. -/
structure Statements (L : CodeLogic p) : Prop where
  inherited : Chain.Inherited p L.Scope
  may : ∀ message, L.May message
  of_method : ∀ {chain : Chain} {method : SymbolId}, L.Scope chain →
    chain.method? = some (.symbol method) → p.symbols.isMethod method = .ok true
  of_function : ∀ {chain : Chain} {f : LocalFunction}, L.Scope chain →
    chain.method? = some (.function f) → L.Function f

variable {L : CodeLogic p} (laws : L.Statements) {ask : Asker} (asker : L.Answers ask ask)
  {node : NodeId}
include laws

theorem jump (target : Option Label) (statement : Label → Statement) (node : NodeId)
    (message : Message) (name : String) :
    L.Has (p.jump target statement node message name) fun _ => True := by
  unfold Program.jump
  split
  · exact L.pure trivial
  · exact L.bind (L.report_may (laws.may message)) fun _ _ => L.pure trivial

section chain

variable {chain : Chain} (scope : L.Scope chain)
include asker scope

theorem returnTarget : L.Has (p.returnTarget ask chain) fun _ => True := by
  unfold Program.returnTarget
  split
  · next method hmethod =>
    exact L.bind_lift fun _ _ => L.bind (asker.signature (.method (laws.of_method scope hmethod)))
      fun _ _ => L.pure trivial
  · next function hfunction =>
    exact L.reads_signature (laws.of_function scope hfunction)
      (fun g g' hview => by simp only [hview]) fun _ _ => L.pure trivial
  · exact L.pure trivial

theorem bindReturn (expression : Option NodeId) (node : NodeId) :
    L.Has (p.bindReturn ask chain expression node) fun _ => True := by
  have report : ∀ {message : Message} {args : List String} {node : NodeId} {s : Statement},
      L.Has (do p.report node message args; return s) fun _ => True :=
    L.bind (L.report_may (laws.may _)) fun _ _ => L.pure trivial
  unfold Program.bindReturn
  refine L.may_bind (L.report_may (laws.may _)) (L.bind (returnTarget laws asker scope)
    fun target _ => ?_)
  cases expression with
  | none =>
    dsimp only
    split
    · exact L.bind_lift fun _ _ => report
    · exact L.pure trivial
  | some expression =>
    dsimp only
    split
    · exact L.bind (bindExpression asker scope expression .insignificant) fun _ _ => report
    · refine L.bind (bindExpression asker scope expression .rvalue) fun e _ => ?_
      exact L.bind (L.convert _ _ _) fun _ _ => L.pure trivial

end chain

section recursion

variable (L ask) (node : NodeId)

def OfStatement : Prop := ∀ {chain : Chain}, L.Scope chain →
  L.Has (p.bindStatement ask chain node) fun _ => True

def OfBlock : Prop := ∀ {chain : Chain}, L.Scope chain →
  L.Has (p.bindBlock ask chain node) fun _ => True

end recursion

include asker

theorem ofStatement (ih : ∀ child : Nat, child < node → L.OfStatement ask child ∧
    L.OfBlock ask child) : L.OfStatement ask node := by
  intro chain scope
  cases hnode : p.tree.node? node with
  | none =>
    rw [Program.bindStatement_eq_of_missing hnode]
    exact L.bind_lift fun _ _ => L.of_throw
  | some kind =>
    rw [Program.bindStatement_eq hnode]
    refine L.bind_lift fun own hown => ?_
    have scope := laws.inherited.innerOrSelf scope hown
    have part : ∀ {q : NodeId}, q ∈ kind.children →
        L.Has (p.bindStatement ask own q) fun _ => True :=
      fun h => (ih _ (p.tree.child_lt hnode h)).1 scope
    have parts : ∀ {found : Option NodeId}, (∀ q ∈ found, q ∈ kind.children) →
        L.Has (found.mapM (p.bindStatement ask own)) fun _ => True :=
      fun h => L.imp (L.optionMapM (T := fun _ => True) fun q hq => part (h q hq)) fun _ _ => trivial
    have other : L.Has (do
        if kind.isExpression then
          return Statement.expression (← p.bindExpression ask own node .insignificant)
        p.report node .notAStatement [kind.label]
        return .error node) fun _ => True := by
      split
      · exact L.bind (bindExpression asker scope _ _) fun _ _ => L.pure trivial
      · exact L.bind (L.report_may (laws.may _)) fun _ _ => L.pure trivial
    cases kind with
    | block statements =>
      refine L.bind_lift fun again hagain =>
        L.bind (L.mapM (T := fun _ _ => True) fun s hs => ?_) fun _ _ =>
          L.bind_lift fun _ _ => L.pure trivial
      exact (ih s (p.tree.child_lt hnode hs)).1 (laws.inherited.innerOrSelf scope hagain)
    | localDeclaration => exact bindLocalDeclaration asker scope hnode
    | localFunction name type parameters body =>
      refine L.bind (bindFunctionHead asker scope laws.inherited node) fun _ _ => ?_
      exact L.bind ((ih body (p.tree.child_lt hnode (by simp))).2 scope)
        fun _ _ => L.pure trivial
    | expressionStatement =>
      exact L.bind (bindExpression asker scope _ _) fun _ _ => L.pure trivial
    | ifStatement condition =>
      exact L.bind (converted asker scope condition _) fun _ _ =>
        L.bind (part (by simp)) fun _ _ =>
          L.bind (parts (by simp_all)) fun _ _ => L.pure trivial
    | whileStatement condition =>
      dsimp only [Program.statementStep]
      split
      · exact L.of_throw
      · exact L.bind (converted asker scope condition _) fun _ _ =>
          L.bind (part (by simp)) fun _ _ => L.pure trivial
    | breakStatement | continueStatement => exact jump laws _ _ _ _ _
    | returnStatement => exact bindReturn laws asker scope _ _
    | tryStatement =>
      exact L.bind (part (by simp)) fun _ _ =>
        L.bind (parts (by simp_all)) fun _ _ =>
          L.bind (parts (by simp_all)) fun _ _ => L.pure trivial
    | labeled =>
      refine L.bind_lift fun label _ => ?_
      cases label with
      | none => exact L.of_throw
      | some label =>
        exact L.bind_lift fun found _ => L.may_bind (L.report_may (laws.may _))
          (L.bind (part (by simp)) fun _ _ => L.pure trivial)
    | goto => exact L.bind_lift fun _ _ => jump laws _ _ _ _ _
    | _ => exact other

theorem ofCode (node : Nat) : L.OfStatement ask node ∧ L.OfBlock ask node := by
  induction node using Nat.strongRecOn with
  | ind node ih =>
    have hself : L.OfStatement ask node := ofStatement laws asker ih
    refine ⟨hself, fun {chain} scope => ?_⟩
    rw [Program.bindBlock]
    split
    · next statements hnode =>
      refine L.bind_lift fun own hown =>
        L.bind (L.mapM (T := fun _ _ => True) fun s _ => ?_) fun _ _ =>
          L.bind_lift fun _ _ => L.pure trivial
      exact (ih s.1 (p.tree.child_lt hnode s.2)).1 (laws.inherited.innerOrSelf scope hown)
    · exact L.bind_lift fun _ _ => L.bind_lift fun _ _ => L.bind (hself scope) fun _ _ =>
        L.pure trivial
    · exact L.of_throw

omit asker in
/-- A compilation unit is no statement, so nothing in it is bound. -/
theorem ofUnit {members : List NodeId}
    (hnode : p.tree.node? node = some (.compilationUnit members)) (chain : Chain) :
    L.Has (p.bindBlock ask chain node) fun _ => True := by
  have hstatement : L.Has (p.bindStatement ask chain node) fun _ => True := by
    rw [Program.bindStatement_eq hnode]
    exact L.bind_lift fun _ _ => L.bind (L.report_may (laws.may _)) fun _ _ => L.pure trivial
  rw [Program.bindBlock_eq_of_other hnode (by simp)]
  exact L.bind_lift fun _ _ => L.bind_lift fun _ _ => L.bind hstatement fun _ _ => L.pure trivial

theorem bindGlobalStatements {region : Chain} (scope : L.Scope region) :
    L.Has (p.bindGlobalStatements ask region) fun _ => True := by
  refine L.bind_lift fun own hown => L.bind (L.mapM (T := fun _ _ => True) fun s _ => ?_)
    fun _ _ => L.bind_lift fun _ _ => L.pure trivial
  exact (ofCode laws asker s).1 (laws.inherited.innerOrSelf scope hown)

end CodeLogic

theorem confinedLogic_statements (closed : IsArea p area) : (confinedLogic closed).Statements where
  inherited := Chain.inherited_inside closed
  may _ := trivial
  of_method inside h :=
    have inside : Chain.Inside p area _ := inside
    Program.isMethod_eq (Chain.method?_inside inside h)
  of_function inside h := Chain.method?_inside inside h

namespace Program

/-! ### Answers -/

variable {closed : IsArea p area} {ask : Asker}

/-- Requests are answered from what is published, or by binding types inside the area. -/
theorem perform_confined (formed : p.Formed) (asker : (confinedLogic closed).Answers ask ask) :
    (confinedLogic closed).Answers (p.perform ask) (p.perform ask) where
  signature {method} hmethod := by
    obtain ⟨s, data, hs, hkind⟩ := hmethod.isMethod formed
    refine .bind_findings fun f g hfg => ?_
    obtain ⟨known, hknown⟩ := hfg.published.signature hs hkind
    have hsame : g.signatures.get? method = some known := by rw [hfg.declared.signatures, hknown]
    simp only [hknown, hsame]
    exact ⟨trivial, .pure trivial⟩
  fieldType {i} data hfield list _ := by
    obtain ⟨s, hs, hkind⟩ := exists_of_field? hfield
    refine .bind_findings fun f g hfg => ?_
    obtain ⟨known, hknown⟩ := hfg.published.fieldType hs hkind
    have hsame : g.fieldTypes.get? i = some known := by rw [hfg.declared.fieldTypes, hknown]
    simp only [hknown, hsame]
    exact ⟨trivial, .pure trivial⟩
  fieldConstant {i} data hfield hconstant _ tracker := by
    obtain ⟨s, hs, hkind⟩ := exists_of_field? hfield
    refine .bind_findings fun f g hfg => ?_
    obtain ⟨known, hknown⟩ := hfg.published.constant hs hkind hconstant
    have hsame : g.constants.get? i = some known := by rw [hfg.declared.constants, hknown]
    simp only [hknown, hsame]
    exact ⟨trivial, .pure trivial⟩
  constantParameterType parameter := by
    refine .bind_lift fun found _ => .bind_lift fun container hcontainer => ?_
    split
    · next type owner _ =>
      have howner : owner < p.symbols.size := by
        obtain ⟨s, hs, hcontaining⟩ := SymbolTable.exists_of_map_fetch hcontainer
        exact Nat.lt_trans (formed.table.containing_lt hs hcontaining) (SymbolTable.lt_of_getElem? hs)
      obtain ⟨list, chain, hlist, hchain, -, hfetches⟩ := insideChain_spec formed howner
      refine .bind_lift fun list' hlist' => ?_
      obtain rfl := ok_unique hlist hlist'
      refine .bind (.regions hfetches) ?_
      rintro _ rfl
      obtain ⟨_, hlist'', hchain⟩ := exists_of_bind_eq_ok hchain
      obtain rfl := ok_unique hlist hlist''
      exact .bind (.quietly (CodeLogic.bindType asker (containerScope_inside hchain) type))
        fun _ _ => .pure trivial
    · exact .pure trivial
  functionSignature function inside :=
    .quietly (CodeLogic.bindFunctionSignature asker inside function)

variable (closed)

theorem answerWithin_confined (formed : p.Formed) (depth : Nat) :
    (confinedLogic closed).Answers (p.answerWithin depth) (p.answerWithin depth) := by
  induction depth with
  | zero => exact ⟨fun _ => .of_throw, fun _ _ _ => .of_throw, fun _ _ _ _ => .of_throw,
    fun _ => .of_throw, fun _ _ => .of_throw⟩
  | succ depth ih => exact perform_confined formed ih

theorem answer_confined (formed : p.Formed) : (confinedLogic closed).Answers p.answer p.answer :=
  answerWithin_confined closed formed p.requestDepth

/-! ### Members -/

variable (formed : p.Formed) {i : Nat} {s : Symbol} (hs : p.symbols.symbols[i]? = some s)
include closed formed hs

theorem bindBody_confined (hentry : ∀ data, s.kind = .method data → data.isEntry = true →
      ∀ entry, p.symbols.entry? = some entry → IsMethod p entry ∧ area.HoldsScope p 0 p.tree.root)
    (hbody : ∀ data body, s.kind = .method data → data.body = some body →
      area.HoldsScope p 0 body ∨ ∃ members, p.tree.node? body = some (.compilationUnit members)) :
    Confined p area (p.bindBody i) fun _ => True := by
  have asker := answer_confined closed formed
  have hdata := method?_eq hs
  cases hkind : s.kind.method? with
  | none =>
    rw [hkind] at hdata
    have hfetches : p.Fetches (p.bodyChain i) none := .bind_lift hdata (.pure none)
    refine .bind (.regions hfetches) ?_
    rintro _ rfl
    exact .bind_lift fun _ _ => .pure trivial
  | some data =>
    rw [hkind] at hdata
    have hkind := method?_eq_some hkind
    obtain ⟨found, hfound, hfetches, -⟩ := bodyChain_spec formed hs hkind
    refine .bind (.regions hfetches) fun region hregion => ?_
    subst hregion
    refine .bind_lift fun data' hdata' => ?_
    obtain rfl := ok_unique hdata hdata'
    cases region with
    | none => exact .pure trivial
    | some chain =>
      dsimp only
      split
      · next hisEntry =>
        have inside : chain.Inside p area := bodyScope_inside hdata (hentry data hkind)
          (by simp [hisEntry]) hfound
        exact .bind (.isolated
            (CodeLogic.bindGlobalStatements (confinedLogic_statements closed) asker inside))
          fun _ _ => .pure trivial
      · next hisEntry =>
        split
        · next body hsome =>
          refine .bind (.isolated (Q := fun _ => True) ?_) fun _ _ => .pure trivial
          rcases hbody data body hkind hsome with hscope | ⟨members, hnode⟩
          · have inside : chain.Inside p area := bodyScope_inside hdata (by simp [hisEntry])
              (fun _ root hroot => (Option.mem_unique hsome hroot) ▸ hscope) hfound
            exact (CodeLogic.ofCode (confinedLogic_statements closed) asker body).2 inside
          · exact CodeLogic.ofUnit (confinedLogic_statements closed) hnode chain
        · exact .pure trivial

theorem bindInitializer_confined
    (hroot : ∀ data root, s.kind = .field data → data.initializer = some root →
      area.HoldsScope p 0 root) : Confined p area (p.bindInitializer i) fun _ => True := by
  have asker := answer_confined closed formed
  obtain ⟨found, hfound, hfetches, -⟩ := initializerChain_spec formed hs
  refine .bind (.regions hfetches) ?_
  rintro _ rfl
  refine .bind_lift fun data hfield => ?_
  split
  · next chain initializer hinitializer =>
    obtain ⟨data, rfl, -⟩ := Option.bind_eq_some_iff.1 hinitializer
    have inside : chain.Inside p area := initializerScope_inside (fun data' root hdata' => by
      rw [field?_eq hs] at hdata'
      exact hroot data' root (field?_eq_some (Except.ok.inj hdata'))) hfound
    refine .bind (asker.fieldType hfield trivial) fun target _ => ?_
    exact .bind (.isolated (CodeLogic.converted asker inside initializer _))
      fun _ _ => .pure trivial
  · exact .pure trivial

end Program
end Bindery
