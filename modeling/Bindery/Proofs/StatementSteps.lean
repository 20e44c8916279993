import Bindery.Proofs.Coverage
import Bindery.Proofs.DeclarationSteps
import Bindery.Proofs.StatementPlaces

/-! # Binding statements

Binding a statement that stands under a chain follows the rules of statements.  Two facts go with it
from statement to statement: what is published stays sound, and the locals that get types are those
that are declared in the statement at hand (`Walk`).  Parts of a statement have no node in common,
so a local that is declared in one part has no type yet when the part is reached (`Unbound`). -/

namespace Bindery

variable {p : Program}

/-! ### Nodes of code -/

/-- Whether a node holds statements. -/
def Node.holdsCode : Node → Bool
  | .compilationUnit _ | .globalStatement _ => true
  | kind => kind.isStatement

/-- Whether `n` is reached from `node` through nodes that hold statements. -/
inductive Within (p : Program) (node : NodeId) : NodeId → Prop
  | refl : Within p node node
  | step {k child : NodeId} {kind : Node} (above : Within p node k)
      (hnode : p.tree.node? k = some kind) (hkind : kind.holdsCode = true)
      (hchild : child ∈ kind.children) : Within p node child

namespace Within

variable {a b c : NodeId}

theorem of_child {kind : Node} (hnode : p.tree.node? a = some kind) (hchild : b ∈ kind.children)
    (hkind : kind.holdsCode = true) : Within p a b :=
  .step .refl hnode hkind hchild

theorem of_statement {kind : Node} (hnode : p.tree.node? a = some kind) (h : b ∈ kind.statements) :
    Within p a b := by
  refine of_child hnode (Node.mem_children_of_mem_statements h) ?_
  cases kind <;> simp_all [Node.holdsCode, Node.isStatement]

theorem of_globalStatement (h : (match p.tree.node? a with
    | some (.globalStatement statement) => some statement
    | _ => none) = some b) : Within p a b := by
  split at h
  · next hnode =>
    obtain rfl := Option.some.inj h
    exact .of_child hnode (by simp) rfl
  · simp at h

theorem trans (h : Within p a b) (h' : Within p b c) : Within p a c := by
  induction h' with
  | refl => exact h
  | step _ hnode hkind hchild ih => exact .step ih hnode hkind hchild

theorem under (h : Within p a b) : p.tree.Under a b := by
  induction h with
  | refl => exact .refl
  | step _ hnode _ hchild ih => exact .step ih hnode hchild

/-- What lies between is reached too. -/
theorem between (linked : p.tree.Linked) (h : Within p a c) (hab : p.tree.Under a b)
    (hbc : p.tree.Under b c) : Within p a b := by
  induction h with
  | refl =>
    obtain rfl : b = a := Nat.le_antisymm hab.le hbc.le
    exact .refl
  | @step k child kind above hnode hkind hchild ih =>
    cases hbc with
    | refl => exact .step above hnode hkind hchild
    | step hbk hnode' hchild' =>
      obtain rfl := linked.parent_unique hnode hnode' hchild hchild'
      exact ih hbk

end Within

/-! ### Findings between statements -/

/-- Findings that can come after `f` once code in `area` is bound. -/
structure Walk (p : Program) (area : NodeId → Prop) (f g : Findings) : Prop where
  sound : Sound p g
  grows : f.Grows g
  locals : ∀ {key : LocalKey} {t : Ty}, g.localTypes.get? key = some t →
    f.localTypes.get? key = some t ∨ key.IsParameter p ∨ area key.declaration
  progress : g.signaturesInProgress = f.signaturesInProgress

/-- No local that is declared in the code at `node` has a type. -/
def Unbound (p : Program) (f : Findings) (node : NodeId) : Prop :=
  ∀ n, Within p node n → ∀ name type isConstant initializer,
    p.tree.node? n = some (.localDeclaration name type isConstant initializer) →
      ∀ store, f.localTypes.get? ⟨store, n⟩ = none

namespace Walk

variable {area area' : NodeId → Prop} {f g h : Findings}

theorem refl (hf : Sound p f) : Walk p area f f := ⟨hf, .refl f, .inl, rfl⟩

theorem stage (hw : Walk p area f g) (hs : Stage p g h) : Walk p area f h where
  sound := hs.sound
  grows := hw.grows.trans hs.grows
  locals := fun hk => (hs.locals hk).elim hw.locals fun hk => .inr (.inl hk)
  progress := hs.progress.trans hw.progress

theorem mono (hw : Walk p area f g) (hsub : ∀ n, area n → area' n) : Walk p area' f g where
  sound := hw.sound
  grows := hw.grows
  locals := fun hk => (hw.locals hk).imp_right fun hk => hk.imp_right (hsub _)
  progress := hw.progress

theorem trans (hw : Walk p area f g) (hw' : Walk p area g h) : Walk p area f h where
  sound := hw'.sound
  grows := hw.grows.trans hw'.grows
  locals := fun hk => (hw'.locals hk).elim hw.locals .inr
  progress := hw'.progress.trans hw.progress

theorem add {owned : LocalKey → Prop} (hw : Walk p area f g) (hadds : Adds p owned g h)
    (howned : ∀ key, owned key → area key.declaration) : Walk p area f h where
  sound := hw.sound.add hadds
  grows := hw.grows.trans hadds.grows
  locals := fun hk => (hadds.localTypes hk).elim hw.locals fun hk => .inr (.inr (howned _ hk.2))
  progress := hadds.progress.trans hw.progress

theorem inside {node part : NodeId} (hw : Walk p (Within p node) f g)
    (hp : Walk p (Within p part) g h) (hpart : Within p node part) : Walk p (Within p node) f h :=
  hw.trans (hp.mono fun _ => hpart.trans)

end Walk

/-- Two nodes have nothing below them in common. -/
def Apart (p : Program) (a b : NodeId) : Prop := ∀ n, Within p a n → ¬ Within p b n

theorem Apart.of_children (linked : p.tree.Linked) {node a b : NodeId} {kind : Node}
    (hnode : p.tree.node? node = some kind) (ha : a ∈ kind.children) (hb : b ∈ kind.children)
    (hne : a ≠ b) : Apart p a b := fun _ hna hnb =>
  hne (linked.under_disjoint hnode ha hb hna.under hnb.under)

namespace Unbound

variable {node part other : NodeId} {f g : Findings}

theorem inside (h : Unbound p f node) (hpart : Within p node part) : Unbound p f part :=
  fun n hn => h n (hpart.trans hn)

theorem of_keys (h : Unbound p f node) (hkeys : ∀ {key : LocalKey} {t : Ty},
    g.localTypes.get? key = some t → f.localTypes.get? key = some t ∨ key.IsParameter p ∨
      ¬ Within p node key.declaration) : Unbound p g node := by
  intro n hn name type isConstant initializer hnode store
  refine Option.eq_none_iff_forall_ne_some.2 fun t ht => ?_
  rcases hkeys ht with hold | ⟨_, _, _, hparameter⟩ | houtside
  · simp [h n hn name type isConstant initializer hnode store] at hold
  · simp [hnode] at hparameter
  · exact houtside hn

theorem stage (h : Unbound p f node) (hs : Stage p f g) : Unbound p g node :=
  h.of_keys fun hk => (hs.locals hk).imp_right .inl

/-- Binding one part leaves another one alone. -/
theorem after (h : Unbound p f part) (hw : Walk p (Within p other) f g) (hapart : Apart p part other) :
    Unbound p g part :=
  h.of_keys fun hk => (hw.locals hk).imp_right fun hk => hk.imp_right fun hunder hunder' =>
    hapart _ hunder' hunder

end Unbound

/-- A piece of code at `node` is bound from a state.  It follows the rules, and what is declared in
it is published. -/
abbrev BindsFrom (p : Program) (once : Prop) (node : NodeId) {α : Type} (m : BindM α) (s : BindState)
    (code : α → Code) : Prop :=
  StepsAt (Walk p (Within p node) s.findings) m s (fun _ => True) fun F a trace =>
    Binds p once F s.findings (code a) trace ∧ Covered p F node

/-! ### Watching for constants that are not known -/

theorem Steps.watchingConstants {α : Type} {I : Findings → Prop} {m : BindM α} {K : α → Prop}
    {R : Findings → α → Trace → Prop} (hm : Steps I m K R) :
    Steps I (Program.watchingConstants m) (fun r => K r.1) fun F r trace =>
      R F r.1 trace ∧ r.2 = trace.sawBadConstant := by
  intro s hs
  refine Ends.bind_get (Ends.bind_modify ?_)
  refine Ends.bind (hm _ hs) fun a s' ⟨hs', hgrows, ha, trace, htrace, hR⟩ => ?_
  refine Ends.bind_get (Ends.bind_modify (Ends.pure ?_))
  refine ⟨hs', hgrows, ha, trace, ?_, fun F hF => ⟨hR F hF, ?_⟩⟩
  · simp [htrace, Pass.extend, Bool.or_comm]
  · simp [htrace, Pass.extend]

namespace Program.Formed

variable (formed : p.Formed) {ask : Asker} (spec : AskerSpec p ask)

/-! ### Local declarations -/

section locals

include formed

variable {message : Message}

/-- A report that is made under a condition. -/
theorem mayReport_at {J : Findings → Prop} {c : Prop} [Decidable c] {node : NodeId}
    (hnode : node < p.tree.size) (hmessage : message.category = .error)
    (args : List String) {β : Type} {k : PUnit → BindM β} {s : BindState} {L : β → Prop}
    {Q : Findings → β → Trace → Prop}
    (hk : ∀ s' first, s'.findings = s.findings → MayRefuse first →
      StepsAt J (k ⟨⟩) s' L fun F b rest => Q F b (first ++ rest)) :
    StepsAt J (if c then p.report node message args >>= k else k ⟨⟩) s L Q := by
  split
  · refine (formed.report_steps (I := (· = s.findings)) hnode message args s rfl).bind ?_
    intro _ s' first _ hsame _ _ hreports
    exact hk s' first hsame (.inr ⟨_, hmessage, hreports s'.findings (.refl _)⟩)
  · exact hk s [] rfl (.inl rfl)

variable {I : Findings → Prop}

theorem mayReport_steps {c : Prop} [Decidable c] {node : NodeId}
    (hnode : node < p.tree.size) (hmessage : message.category = .error)
    (args : List String) {β : Type} {k : PUnit → BindM β} {L : β → Prop}
    {Q : Findings → β → Trace → Prop}
    (hk : Steps I (k ⟨⟩) L fun F b rest => ∀ first, MayRefuse first → Q F b (first ++ rest)) :
    Steps I (if c then p.report node message args >>= k else k ⟨⟩) L Q := by
  intro s hs
  refine formed.mayReport_at hnode hmessage args fun s' first hsame hfirst => ?_
  rw [← hsame] at hs
  exact (hk s' hs).imp (fun _ h => h) fun F b rest _ hQ => hQ first hfirst

variable (f : Findings) {node : NodeId} (hnode : node < p.tree.size) (name : String)
include hnode

variable {declared : Option Ty} {value : Option Expr}

theorem localTypeOf_steps
    (hdeclared : ∀ t, declared = some t → t.Known p) (hvalue : ∀ e, value = some e → e.Known p) :
    Steps (Stage p f) (p.localTypeOf declared value name node) (Ty.Known p) fun _ found trace =>
      TypesLocal declared value found trace := by
  unfold localTypeOf
  split
  · exact .pure (hdeclared _ rfl) fun _ => .declared
  · split
    · exact formed.refused_steps hnode rfl _ Ty.known_error .refused
    · exact .pure (hvalue _ rfl).2.1 fun _ => .inferred
  · exact formed.refused_steps hnode rfl _ Ty.known_error .refused

omit f in
theorem localConstantOf_steps (hvalue : ∀ e, value = some e → e.Known p) (saw : Bool) :
    Steps I (p.localConstantOf value saw name node) (fun _ => True) fun _ constant trace =>
      MayRefuse trace ∧ ∀ c, constant = some c → ∃ e, value = some e ∧ e.constant = some c := by
  unfold localConstantOf
  split
  · exact formed.refused_steps hnode rfl _ trivial fun htrace => ⟨.inr htrace, by simp⟩
  · refine formed.mayReport_steps (hvalue _ rfl).1 rfl _ (.pure trivial fun F trace htrace => ?_)
    rw [List.append_nil]
    exact ⟨htrace, fun c hc => ⟨_, rfl, hc⟩⟩

include spec in
theorem bindLocalInitializer_steps {chain : Chain} (hchain : chain.Known p) (target : Local)
    (hdeclared : ∀ t, declared = some t → t.Known p) :
    Steps (Stage p f) (p.bindLocalInitializer ask chain target declared node) (Expr.Known p)
      fun F e trace => Initializes p F f (Chain.push chain (.localInProgress target) {}) declared
        (some node) (some e) trace := by
  have hknown := hchain.push (.localInProgress target) {} trivial
  refine Steps.bind (formed.bindExpression_steps spec f hknown hnode .rvalue) fun e he => ?_
  split
  · exact (formed.convert_steps he (hdeclared _ rfl) hnode).mono fun F e' second hsecond first hfirst =>
      .typed (.converted hfirst hsecond)
  · exact .last he fun F first hfirst => .untyped hfirst

end locals

variable {chain : Chain} {owner : Member} {node : NodeId} {t : Ty}

/-- What the declaration of a variable publishes about its local. -/
theorem addsLocalType {g : Findings} {key : LocalKey} (hkey : ¬ key.IsConstant p) (ht : t.Known p) :
    Adds p (· = key) g { g with localTypes := g.localTypes.publish key t } := by
  refine {
    grows := { Findings.Grows.refl g with localTypes := Registry.grows_publish _ _ _ }
    localTypes := fun hk => ?_
    paired := fun hk hconstant => ?_ }
  · rcases Registry.of_get?_publish hk with hk | ⟨rfl, rfl⟩
    · exact .inl hk
    · exact .inr ⟨ht, rfl⟩
  · rcases Registry.of_get?_publish hk with hk | ⟨rfl, rfl⟩
    · exact .inl hk
    · exact absurd hconstant hkey

/-- What the declaration of a constant publishes about its local. -/
theorem addsConstantLocal {g : Findings} (hg : Sound p g) {key : LocalKey} (hkey : key.IsConstant p)
    (ht : t.Known p) (constant : Option Constant)
    (hconstant : ∀ F c, constant = some c → g.Grows F → F.localTypes.get? key = some t →
      LocalConstantFact p key c F) :
    Adds p (· = key) g { g with
      localTypes := g.localTypes.publish key t
      localConstants := g.localConstants.publish key constant } := by
  have hgrows : g.Grows { g with
      localTypes := g.localTypes.publish key t
      localConstants := g.localConstants.publish key constant } :=
    { Findings.Grows.refl g with
      localTypes := Registry.grows_publish _ _ _
      localConstants := Registry.grows_publish _ _ _ }
  refine {
    grows := hgrows
    localTypes := fun hk => ?_
    localConstants := fun {k c} hk => ?_
    paired := fun hk _ => ?_ }
  · rcases Registry.of_get?_publish hk with hk | ⟨rfl, rfl⟩
    · exact .inl hk
    · exact .inr ⟨ht, rfl⟩
  · cases hold : g.localConstants.get? key with
    | some known =>
      change (g.localConstants.publish key constant).get? k = _ at hk
      rw [Registry.publish_of_get? constant hold] at hk
      exact .inl hk
    | none =>
      rcases Registry.of_get?_publish hk with hk | ⟨rfl, hvalue⟩
      · exact .inl hk
      · have hfresh : g.localTypes.get? k = none := by
          refine Option.eq_none_iff_forall_ne_some.2 fun u hu => ?_
          obtain ⟨known, hknown⟩ := hg.paired hu hkey
          simp [hold] at hknown
        refine .inr fun F hF => hconstant F c hvalue.symm (hgrows.trans hF) ?_
        exact hF.localTypes (Registry.get?_publish_self t hfresh)
  · rcases Registry.of_get?_publish hk with hk | ⟨rfl, rfl⟩
    · exact .inl hk
    · obtain ⟨c, hc, -⟩ := g.localConstants.get?_publish_cases _ constant
      exact .inr ⟨c, hc⟩

include formed spec

theorem bindLocalDeclaration_steps {once : Prop} {scope : Chain} {name : String}
    {type initializer : Option NodeId} {isConstant : Bool}
    (hsite : Chain.SiteOf p owner chain node scope) (hscope : chain.innerOrSelf p node = .ok scope)
    (hnode : p.tree.node? node = some (.localDeclaration name type isConstant initializer))
    {s : BindState} (hs : Sound p s.findings) (hunbound : once → Unbound p s.findings node) :
    BindsFrom p once node (p.bindLocalDeclaration ask scope name type isConstant initializer node) s
      (.statement owner chain node) := by
  have hknown := hsite.known
  have hlt := Tree.lt_size_of_node? hnode
  have htype : ∀ n, type = some n → n < p.tree.size := fun n hn =>
    Tree.child_lt_size hnode (by simp [hn])
  have hinit : ∀ n, initializer = some n → n < p.tree.size := fun n hn =>
    Tree.child_lt_size hnode (by simp [hn])
  obtain ⟨-, _, _, _, -, site⟩ := id hsite
  have htarget := site.localAt? hnode
  obtain ⟨existing, hexisting, -⟩ := formed.lookupLocal?_yields hknown name hlt
  refine StepsAt.bind_lift htarget (StepsAt.bind_lift hexisting ?_)
  refine formed.mayReport_at hlt rfl _ fun s₁ first hsame hfirst => ?_
  have hs₁ : Stage p s.findings s₁.findings := by
    rw [hsame]
    exact hs.stage
  refine (Steps.optionMapM (K := fun _ t => t.Known p) (R := fun F n t trace =>
    Derives p F s.findings (.variableType scope n t) trace) (fun n hn =>
      formed.bindVariableType_steps spec s.findings hknown (htype n hn) name) s₁ hs₁).bind ?_
  intro declared s₂ second hdeclared hs₂ _ _ hsecond
  replace hdeclared : ∀ t, declared = some t → t.Known p := fun t ht => by
    obtain ⟨_, -, ht⟩ := hdeclared t ht
    exact ht
  refine ((Steps.optionMapM (K := fun _ e => e.Known p) (R := fun F n e trace =>
    Initializes p F s.findings (Chain.push scope _ {}) declared (some n) (some e) trace)
    fun n hn => formed.bindLocalInitializer_steps spec s.findings (hinit n hn) hknown _
      hdeclared).watchingConstants s₂ hs₂).bind ?_
  rintro ⟨value, saw⟩ s₃ third hvalue hs₃ hgrows₃ - hthird
  replace hvalue : ∀ e, value = some e → e.Known p := fun e he => by
    obtain ⟨_, -, he⟩ := hvalue e he
    exact he
  refine (formed.localTypeOf_steps s.findings hlt name hdeclared hvalue s₃ hs₃).bind ?_
  intro found s₄ fourth hfound hs₄ hgrows₄ _ hfourth
  have hgrows : s₄.findings.Grows { s₄.findings with
      localTypes := s₄.findings.localTypes.publish ⟨0, node⟩ found } :=
    { Findings.Grows.refl _ with localTypes := Registry.grows_publish _ _ _ }
  have hwalk : ∀ {g : Findings}, Adds p (· = ⟨0, node⟩) s₄.findings g →
      Walk p (Within p node) s.findings g := by
    intro g hadds
    refine ((Walk.refl hs).stage hs₄).add hadds ?_
    rintro key rfl
    exact .refl
  refine StepsAt.modifyFindings hgrows ?_
  obtain ⟨t, ht, hcases⟩ := s₄.findings.localTypes.get?_publish_cases ⟨0, node⟩ found
  have hkept : t = found ∨ ¬ once ∧ s.findings.localTypes.get? ⟨0, node⟩ = some t := by
    rcases hcases with hold | ⟨-, rfl⟩
    · rcases hs₄.locals hold with hold | ⟨_, _, _, hparameter⟩
      · refine .inr ⟨fun h => ?_, hold⟩
        simp [hunbound h node .refl name type isConstant initializer hnode 0] at hold
      · simp [hnode] at hparameter
    · exact .inl rfl
  have binds : ∀ F, Findings.Grows { s₄.findings with
      localTypes := s₄.findings.localTypes.publish ⟨0, node⟩ found } F → ∀ fifth, MayRefuse fifth →
      Binds p once F s.findings (.statement owner chain node (.localDeclaration
        ⟨name, node, type, isConstant, .ordinary, 0⟩ value))
          (first ++ (second ++ (third ++ (fourth ++ fifth)))) ∧ Covered p F node := by
    intro F hF fifth hfifth
    have hF₄ := hgrows.trans hF
    have hF₃ := hgrows₄.trans hF₄
    refine ⟨.localDeclaration hnode hscope htarget hfirst ?_ ?_ (hfourth F hF₄) (hF.localTypes ht)
      hkept hfifth, ?_⟩
    · rcases hsecond F (hgrows₃.trans hF₃) with ⟨rfl, rfl, rfl⟩ | ⟨n, t, rfl, rfl, h⟩
      · exact .none
      · exact .some h
    · rcases (hthird F hF₃).1 with ⟨rfl, rfl, rfl⟩ | ⟨n, e, rfl, rfl, h⟩
      · exact .none
      · exact h
    · refine .of_statements hnode ⟨fun _ => ⟨t, hF.localTypes ht⟩, fun h => ?_⟩ (by
        simp)
      simp [LocalFunction.ofNode?, hnode] at h
  split
  · next hconstant =>
    have hkey : LocalKey.IsConstant p ⟨0, node⟩ := ⟨name, type, initializer, hconstant ▸ hnode⟩
    refine (formed.localConstantOf_steps hlt name hvalue saw _ (Eq.refl _)).bind ?_
    rintro constant s₅ fifth - hs₅ - - hfifth
    -- the value of the constant was derived when the initializer was bound
    have hadds : Adds p _ s₄.findings _ := addsConstantLocal hs₄.sound hkey hfound constant ?_
    · have hgrows₅ : s₅.findings.Grows { s₅.findings with
          localConstants := s₅.findings.localConstants.publish ⟨0, node⟩ constant } :=
        { Findings.Grows.refl _ with localConstants := Registry.grows_publish _ _ _ }
      refine StepsAt.modifyFindings hgrows₅ (.pure ?_ trivial fun F hF => ?_)
      · rw [← hs₅]
        exact hwalk hadds
      · rw [List.append_nil]
        have hF₅ := hgrows₅.trans hF
        have htrace := (hfifth F hF₅).1
        rw [← hs₅] at hF₅
        exact binds F hF₅ fifth htrace
    · intro F c hc hF htype
      obtain ⟨e, rfl, he⟩ := (hfifth s₅.findings (.refl _)).2 c hc
      rcases (hthird F (hgrows₄.trans hF)).1 with ⟨-, hnone, -⟩ | ⟨n, e', -, he', h⟩
      · simp at hnone
      · obtain rfl := Option.some.inj he'
        exact ⟨_, _, h.localConstant (hfourth F hF) htype he⟩
  · next hconstant =>
    refine .pure (hwalk (addsLocalType ?_ hfound)) trivial fun F hF => binds F hF [] (.inl rfl)
    rintro ⟨_, _, _, hdeclaration⟩
    exact hconstant (by simpa using (Node.localDeclaration.inj
      (Option.mem_unique hnode hdeclaration)).2.2.1)

/-! ### Local functions -/

omit spec in
theorem checkParameterNames_steps (f : Findings) {list : List Local}
    (hlist : ∀ l ∈ list, l.declaration < p.tree.size) (seen : List String) :
    Steps (Stage p f) (p.checkParameterNames list seen) (fun _ => True) fun _ _ _ => True := by
  induction list generalizing seen with
  | nil => exact .pure trivial fun _ => trivial
  | cons parameter rest ih =>
    rw [checkParameterNames]
    refine formed.mayReport_steps (hlist parameter (by simp)) rfl _ ?_
    refine (ih (fun l hl => hlist l (List.mem_cons_of_mem _ hl)) _).imp (fun _ h => h) ?_
    exact fun _ _ _ _ _ _ => trivial

theorem bindDefault_steps (f : Findings) (hchain : chain.Known p) (hnode : node < p.tree.size)
    (ht : t.Known p) (name : String) :
    Steps (Stage p f) (p.bindDefault ask chain node t name) (Expr.Known p) fun F value trace =>
      ∃ first second, trace = first ++ second ∧ MayRefuse second ∧
        Derives p F f (.converted chain node t value) first := by
  refine Steps.bind (formed.bindExpression_steps spec f hchain hnode .rvalue) fun e he => ?_
  refine Steps.bind (formed.convert_steps he ht hnode) fun value hvalue => ?_
  refine formed.mayReport_steps hnode rfl _ (.pure hvalue fun F third hthird second hsecond first
    hfirst => ?_)
  rw [List.append_nil, ← List.append_assoc]
  exact ⟨first ++ second, third, rfl, hthird, .converted hfirst hsecond⟩

variable {function : LocalFunction}

theorem bindFunctionDefaults_steps (f : Findings) (hchain : chain.Known p)
    (hfunction : function.Known p) {types : List Ty} (htypes : ∀ t ∈ types, t.Known p) :
    Steps (Stage p f) (p.bindFunctionDefaults ask chain function types) (fun _ => True)
      fun F values _ => FunctionDefaultsFact p values F := by
  obtain ⟨_, -, hparameters⟩ := hfunction.nodes
  refine (Steps.mapM (K := fun _ _ => True) (R := fun F _ value _ => ∀ e, value = some e → ∃ t trace,
    GivesDefault p F f t e trace) fun pair hpair => ?_).imp (fun _ _ => trivial) ?_
  · obtain ⟨hparameter, htype⟩ := List.of_mem_zip (a := pair.1) (b := pair.2) hpair
    obtain ⟨-, type, defaultValue, -, hnode⟩ := hparameters pair.1 hparameter
    dsimp only
    rw [hnode]
    cases defaultValue with
    | none => exact .pure trivial (by simp)
    | some node =>
      dsimp only
      refine Steps.bind_lift (Chain.innerOrSelf_yields hchain pair.1.declaration)
        fun inner _ hinner => ?_
      refine Steps.bind (formed.bindDefault_steps spec f
        (hinner.push (.plain none) { inDefaultValue := true } trivial)
        (Tree.child_lt_size hnode (by simp)) (htypes _ htype) _) fun value _ => ?_
      refine .pure trivial ?_
      rintro F _ ⟨first, second, rfl, -, h⟩ _ ⟨rfl⟩
      exact ⟨_, _, _, node, first, second, rfl, h⟩
  · intro F values trace heach e he
    obtain ⟨_, -, _, h⟩ := heach.of_mem he
    exact ⟨f, h e rfl⟩

theorem bindFunctionHead_steps (f : Findings) (hchain : chain.Known p)
    (hat : chain.functionAt? p node = .ok (some function)) (hfunction : function.Known p) :
    Steps (Stage p f) (p.bindFunctionHead ask chain node) (· = function) fun F _ _ =>
      (∃ signature, F.functionSignature? function = some signature) ∧
        ∃ values, F.functionDefaults.get? function.key = some values := by
  refine Steps.bind_lift ⟨_, hat, rfl⟩ ?_
  rintro _ - rfl
  obtain ⟨_, -, hparameters⟩ := hfunction.nodes
  refine Steps.bind (formed.checkParameterNames_steps f (fun l hl => ?_) []) fun _ _ => ?_
  · obtain ⟨-, _, _, -, hnode⟩ := hparameters l hl
    exact Tree.lt_size_of_node? hnode
  refine Steps.bind_publish (formed.bindFunctionSignature_steps spec f hchain hfunction)
    (fun _ g _ hknown hg htypes => hg.sound.publishFunctionSignature hknown hfunction
      (htypes g (.refl g)).length_eq) fun signature g hknown hg => ?_
  obtain ⟨published, hget, hcases⟩ := g.functionSignature?_publish function signature
  rw [hget, Option.getD_some]
  have hpublished : published.Known p := by
    rcases hcases with hold | rfl
    · exact hg.sound.functionSignatures hold
    · exact hknown
  have hdefaults := formed.bindFunctionDefaults_steps spec f hchain hfunction hpublished.1
  intro s hs
  refine (hdefaults s hs).bind fun values s' trace _ hs' _ _ hlasting => ?_
  have hadds : Adds p (LocalKey.IsParameter p) s'.findings { s'.findings with
      functionDefaults := s'.findings.functionDefaults.publish function.key values } := by
    refine { grows := { Findings.Grows.refl s'.findings with
      functionDefaults := Registry.grows_publish _ _ _ }, functionDefaults := fun hk => ?_ }
    rcases Registry.of_get?_publish hk with hk | ⟨-, rfl⟩
    · exact .inl hk
    · exact .inr hlasting
  refine StepsAt.modifyFindings hadds.grows (.pure (hs'.add hadds) rfl fun F hF _ _ hgrows => ?_)
  obtain ⟨known, hvalues, -⟩ := s'.findings.functionDefaults.get?_publish_cases function.key values
  exact fun _ _ => ⟨⟨published, hgrows.functionSignatures hget⟩, known, hF.functionDefaults hvalues⟩

/-! ### Jumps -/

theorem returnTarget_steps (f : Findings) (hchain : chain.Known p)
    (hmethod : chain.method? = some owner) :
    Steps (Stage p f) (p.returnTarget ask chain) (fun r => r.2.Known p) fun F r trace =>
      trace = [] ∧ SeesReturn p F f owner r.2 := by
  have hknown := method?_known hchain hmethod
  unfold returnTarget
  rw [hmethod]
  cases owner with
  | symbol method =>
    refine Steps.bind_lift (formed.table.name_yields hknown) fun name _ _ => ?_
    refine Steps.bind (spec.sees f hknown) fun signature hsignature => .pure hsignature.2 ?_
    rintro F _ ⟨rfl, hsees⟩
    exact ⟨rfl, _, hsees, rfl⟩
  | function function =>
    refine Steps.bind_findings fun g hg => .pure ?_ fun F hF => ⟨rfl, g, hg.grows, hF, rfl⟩
    cases hsignature : g.functionSignature? function with
    | none => exact Ty.known_error
    | some signature => exact (hg.sound.functionSignatures hsignature).2

theorem bindReturn_steps (f : Findings) {once : Prop} {scope : Chain} (hscope : scope.Known p)
    (hmethod : scope.method? = some owner) {expression : Option NodeId}
    (hnode : p.tree.node? node = some (.returnStatement expression))
    (heq : chain.innerOrSelf p node = .ok scope) :
    Steps (Stage p f) (p.bindReturn ask scope expression node) (fun _ => True)
      fun F statement trace => Binds p once F f (.statement owner chain node statement) trace := by
  have hlt := Tree.lt_size_of_node? hnode
  unfold bindReturn
  refine formed.mayReport_steps hlt rfl _ ?_
  refine Steps.bind_answer (formed.returnTarget_steps spec f hscope hmethod) fun (name, t) ht => ?_
  cases expression with
  | none =>
    dsimp only
    split
    · refine Steps.bind_lift (formed.display_yields ht) fun text _ _ => ?_
      exact formed.refused_steps hlt rfl _ trivial fun hsecond hsees first hfirst =>
        .returnNothing hfirst hsees (.inr hsecond)
    · next hquiet =>
      refine .pure trivial fun F hsees first hfirst => .returnNothing hfirst hsees (.inl ⟨rfl, ?_⟩)
      simpa [or_iff_not_imp_left] using hquiet
  | some expression =>
    have hexpression : expression < p.tree.size :=
      Tree.child_lt_size hnode (by simp)
    dsimp only
    split
    · refine Steps.bind (formed.bindExpression_steps spec f hscope hexpression _) fun _ _ => ?_
      exact formed.refused_steps hexpression rfl _ trivial fun hthird _ _ _ _ _ =>
        .returnIgnored hthird
    · next hvoid =>
      refine Steps.bind (formed.bindExpression_steps spec f hscope hexpression _) fun e he => ?_
      refine Steps.bind_pure (formed.convert_steps he ht hexpression) fun value _ =>
        ⟨trivial, fun F third hthird second hsecond hsees first hfirst => ?_⟩
      exact .returnValue hnode heq hfirst hsees (eq_false_of_ne_true hvoid)
        (.converted hsecond hthird)

omit spec in
theorem jump_steps {I : Findings → Prop} {target : Option Label} {statement : Label → Statement}
    {node : NodeId} (hnode : node < p.tree.size) {message : Message}
    (hmessage : message.category = .error) (name : String) :
    Steps I (p.jump target statement node message name) (fun _ => True) fun _ result trace =>
      (∃ label, target = some label ∧ result = statement label ∧ trace = []) ∨
        result = .error node ∧ trace.Refuses := by
  unfold jump
  split
  · next label => exact .pure trivial fun _ => .inl ⟨label, rfl, rfl, rfl⟩
  · exact formed.refused_steps hnode hmessage _ trivial fun h => .inr ⟨rfl, h⟩

end Program.Formed

/-! ### Statements -/

theorem ownLocals_yields {chain : Option Chain} (h : ∀ scope, chain = some scope → scope.Known p) :
    Yields (p.ownLocals chain) fun _ => True := by
  unfold Program.ownLocals
  split
  · next frame _ =>
    exact .bind (Program.Formed.declarations?_yields (h _ rfl frame (by simp))) fun _ _ => .pure trivial
  · exact .pure trivial

/-- What is shown of a statement, given all that is smaller. -/
def StatementSteps (p : Program) (ask : Asker) (once : Prop) (node : NodeId) : Prop :=
  ∀ (owner : Member) (chain : Chain), Chain.Stands p owner chain node → ∀ s : BindState,
    Sound p s.findings → (once → Unbound p s.findings node) →
      BindsFrom p once node (p.bindStatement ask chain node) s (.statement owner chain node)

def BlockSteps (p : Program) (ask : Asker) (once : Prop) (node : NodeId) : Prop :=
  ∀ (owner : Member) (chain : Chain), Chain.Stands p owner chain node → ∀ s : BindState,
    Sound p s.findings → (once → Unbound p s.findings node) →
      BindsFrom p once node (p.bindBlock ask chain node) s (.block owner chain node)

section recursion

variable {ask : Asker} {once : Prop} {node : NodeId} {owner : Member} {chain scope : Chain}

/-- Statements of a list, one after the other. -/
theorem statementList_steps {parts : List NodeId} (hunder : ∀ q ∈ parts, Within p node q)
    (hapart : parts.Pairwise (Apart p)) (ih : ∀ q ∈ parts, StatementSteps p ask once q)
    (hstands : ∀ q ∈ parts, Chain.Stands p owner scope q) {f : Findings} {s : BindState}
    (hwalk : Walk p (Within p node) f s.findings)
    (hunbound : once → ∀ q ∈ parts, Unbound p s.findings q) :
    StepsAt (Walk p (Within p node) f) (parts.mapM (p.bindStatement ask scope)) s (fun _ => True)
      fun F statements trace =>
        Binds p once F s.findings (.statements owner scope parts statements) trace ∧
          ∀ q ∈ parts, Covered p F q := by
  induction parts generalizing s with
  | nil => exact .pure hwalk trivial fun _ _ => ⟨.noStatements, by simp⟩
  | cons q rest recur =>
    rw [List.mapM_cons]
    have hrest := List.pairwise_cons.1 hapart
    refine (ih q (by simp) owner scope (hstands q (by simp)) s hwalk.sound fun h =>
      hunbound h q (by simp)).bind fun statement s' first _ hs' hgrows _ hfirst => ?_
    refine (recur (fun r hr => hunder r (List.mem_cons_of_mem _ hr)) hrest.2
      (fun r hr => ih r (List.mem_cons_of_mem _ hr))
      (fun r hr => hstands r (List.mem_cons_of_mem _ hr))
      (hwalk.inside hs' (hunder q (by simp))) fun h r hr => ?_).bind ?_
    · refine (hunbound h r (List.mem_cons_of_mem _ hr)).after hs' fun n hn hn' => ?_
      exact hrest.1 r hr n hn' hn
    · intro statements s'' second _ hs'' hgrows' _ hsecond
      refine .pure hs'' trivial fun F hF => ?_
      rw [List.append_nil]
      have hfirst' := hfirst F (hgrows'.trans hF)
      exact ⟨.nextStatement hfirst'.1 hgrows ((hfirst s'.findings (.refl _)).2.declares q)
        (hsecond F hF).1, List.forall_mem_cons.2 ⟨hfirst'.2, (hsecond F hF).2⟩⟩

namespace Program.Formed

variable (formed : p.Formed) (spec : AskerSpec p ask)
  (ih : ∀ child : Nat, child < node →
    StatementSteps p ask once child ∧ BlockSteps p ask once child)
  {kind : Node} (hnode : p.tree.node? node = some kind)
include ih hnode

/-- A statement that may be missing. -/
theorem optionStatement_steps {part : Option NodeId} (hpart : ∀ q, part = some q → q ∈ kind.statements)
    (hstands : ∀ q, part = some q → Chain.Stands p owner scope q) {f : Findings} {s : BindState}
    (hwalk : Walk p (Within p node) f s.findings)
    (hunbound : once → ∀ q, part = some q → Unbound p s.findings q) :
    StepsAt (fun g => Walk p (Within p node) f g ∧ ∀ other, (∀ q, part = some q → Apart p other q) →
        Unbound p s.findings other → Unbound p g other)
      (part.mapM (p.bindStatement ask scope)) s (fun _ => True) fun F statement trace =>
        Binds p once F s.findings (.statements owner scope part.toList statement.toList) trace ∧
          ∀ q ∈ part.toList, Covered p F q := by
  cases part with
  | none => exact .pure ⟨hwalk, fun _ _ h => h⟩ trivial fun _ _ => ⟨.noStatements, by simp⟩
  | some q =>
    have hq := hpart q rfl
    refine StepsAt.bind ((ih q (p.tree.child_lt hnode (Node.mem_children_of_mem_statements hq))).1 owner
      scope (hstands q rfl) s hwalk.sound fun h => hunbound h q rfl)
      fun statement s' trace _ hs' hgrows _ hbinds => ?_
    refine .pure ⟨hwalk.inside hs' (.of_statement hnode hq), fun other hother h =>
      h.after hs' (hother q rfl)⟩ trivial fun F hF => ?_
    exact ⟨.nextStatement (hbinds F hF).1 hgrows ((hbinds s'.findings (.refl _)).2.declares q)
      .noStatements, by simpa using (hbinds F hF).2⟩

section parts

variable {s : BindState} (hunbound : once → Unbound p s.findings node)
include hunbound

/-- A part of the statement, from findings that come after those before the statement. -/
theorem part_steps {q : NodeId} (hq : q ∈ kind.statements) (hstands : Chain.Stands p owner scope q)
    {s₁ : BindState} (hs₁ : Stage p s.findings s₁.findings) :
    BindsFrom p once q (p.bindStatement ask scope q) s₁ (.statement owner scope q) :=
  (ih q (p.tree.child_lt hnode (Node.mem_children_of_mem_statements hq))).1 owner scope hstands s₁
    hs₁.sound fun h => ((hunbound h).stage hs₁).inside (.of_statement hnode hq)

include formed
omit hnode

variable {statements : List NodeId}

variable (hsite : Chain.SiteOf p owner chain node scope)
  (hscope : chain.innerOrSelf p node = .ok scope) (hs : Sound p s.findings)
include hsite hscope hs

/-- A block, statement by statement under its frame. -/
theorem bindBlock_steps (hnode : p.tree.node? node = some (.block statements)) :
    BindsFrom p once node (p.bindBlock ask chain node) s (.block owner chain node) := by
  obtain ⟨hinner, ⟨base, hframe⟩, locals, hlocals⟩ := hsite.block_eq hnode
  rw [bindBlock_eq hnode]
  refine StepsAt.bind_lift hscope ?_
  refine (statementList_steps (fun q hq => .of_statement hnode hq) ?_
    (fun q hq => (ih q (p.tree.child_lt hnode hq)).1)
    (fun q hq => hsite.part formed.linked hnode (by simp) hq) (.refl hs)
    fun h q hq => (hunbound h).inside (.of_statement hnode hq)).bind ?_
  · refine (formed.linked.nodup_children hnode).imp_of_mem fun ha hb hne => ?_
    exact .of_children formed.linked hnode ha hb hne
  · intro bound s' trace _ hs' _ _ hbound
    refine StepsAt.bind_lift hlocals (.pure hs' trivial fun F hF => ?_)
    rw [List.append_nil]
    exact ⟨.blockOfStatements hnode hinner hframe (hbound F hF).1 hlocals,
      .of_parts hnode (by simp) (by simp) (hbound F hF).2⟩

theorem blockStatement_steps (hnode : p.tree.node? node = some (.block statements)) :
    BindsFrom p once node (p.statementStep ask scope node (.block statements)) s
      (.statement owner chain node) := by
  rw [statementStep_block hnode hscope hsite.innerOrSelf_eq, ← bind_pure_comp]
  refine (formed.bindBlock_steps ih hunbound hsite hscope hs hnode).bind_pure
    fun block s' trace _ hs' _ hblock => ⟨hs', trivial, fun F hF => ?_⟩
  exact ⟨.block hnode (hblock F hF).1, (hblock F hF).2⟩

variable {body : NodeId}

theorem tryStatement_steps {catchBody finallyBody : Option NodeId}
    (hnode : p.tree.node? node = some (.tryStatement body catchBody finallyBody)) :
    BindsFrom p once node (p.statementStep ask scope node (.tryStatement body catchBody finallyBody)) s
      (.statement owner chain node) := by
  obtain ⟨kind, hkind⟩ : ∃ kind, kind = Node.tryStatement body catchBody finallyBody := ⟨_, rfl⟩
  have hnode' := hkind ▸ hnode
  have hnodup : (body :: (catchBody.toList ++ finallyBody.toList)).Nodup := by
    simpa using formed.linked.nodup_children hnode
  have hbody : body ∈ kind.statements := by simp [hkind]
  have hcatch : ∀ q, catchBody = some q → q ∈ kind.statements := by simp_all
  have hfinally : ∀ q, finallyBody = some q → q ∈ kind.statements := by simp_all
  have stands : ∀ q ∈ kind.statements, Chain.Stands p owner scope q := fun q hq =>
    hsite.part formed.linked hnode' (by simp [hkind]) hq
  have apart : ∀ a ∈ kind.statements, ∀ b ∈ kind.statements, a ≠ b → Apart p a b := fun a ha b hb =>
    .of_children formed.linked hnode' (Node.mem_children_of_mem_statements ha)
      (Node.mem_children_of_mem_statements hb)
  refine (part_steps ih hnode' hunbound hbody (stands body hbody) hs.stage).bind ?_
  intro bound s₁ first _ hs₁ hgrows₁ _ hfirst
  refine (optionStatement_steps ih hnode' hcatch (fun q hq => stands q (hcatch q hq))
    ((Walk.refl hs).inside hs₁ (.of_statement hnode' hbody)) fun h q hq => ?_).bind ?_
  · refine ((hunbound h).inside (.of_statement hnode' (hcatch q hq))).after hs₁
      (apart _ (hcatch q hq) _ hbody ?_)
    rintro rfl
    simp [hq] at hnodup
  intro caught s₂ second _ hs₂ hgrows₂ _ hsecond
  refine (optionStatement_steps ih hnode' hfinally (fun q hq => stands q (hfinally q hq)) hs₂.1
    fun h q hq => ?_).bind ?_
  · refine hs₂.2 q (fun r hr => apart _ (hfinally q hq) _ (hcatch r hr) ?_)
      (((hunbound h).inside (.of_statement hnode' (hfinally q hq))).after hs₁
        (apart _ (hfinally q hq) _ hbody ?_))
    all_goals
      rintro rfl
      simp_all
  intro final s₃ third _ hs₃ hgrows₃ _ hthird
  refine .pure hs₃.1 trivial fun F hF => ?_
  rw [List.append_nil]
  obtain ⟨hfirst, hcovered⟩ := hfirst F (hgrows₂.trans (hgrows₃.trans hF))
  obtain ⟨hsecond, hcaught⟩ := hsecond F (hgrows₃.trans hF)
  obtain ⟨hthird, hfinal⟩ := hthird F hF
  exact ⟨.tryCatch hnode hscope hfirst hgrows₁ hsecond hgrows₂ hthird,
    .of_parts hnode (by simp) (by simp) (List.forall_mem_cons.2 ⟨hcovered, List.forall_mem_append.2 ⟨hcaught, hfinal⟩⟩)⟩

theorem labeledStatement_steps {name : String} {statement : NodeId}
    (hnode : p.tree.node? node = some (.labeled name statement)) :
    BindsFrom p once node (p.statementStep ask scope node (.labeled name statement)) s
      (.statement owner chain node) := by
  have hstatement : statement ∈ (Node.labeled name statement).statements := by simp
  obtain ⟨-, _, _, _, -, site⟩ := id hsite
  obtain ⟨label, hlabel, -⟩ := site.labelAt? hnode
  obtain ⟨found, hfound, -⟩ := lookupLabel?_yields hsite.known name
  refine StepsAt.bind_lift hlabel (StepsAt.bind_lift hfound ?_)
  refine formed.mayReport_at (Tree.lt_size_of_node? hnode) rfl _ fun s₁ first hsame hfirst => ?_
  rw [← hsame] at hs hunbound ⊢
  refine (part_steps ih hnode hunbound hstatement (hsite.part formed.linked hnode (by simp) hstatement)
    hs.stage).bind ?_
  intro bound s₂ second _ hs₂ _ _ hbound
  refine .pure ((Walk.refl hs).inside hs₂ (.of_statement hnode hstatement)) trivial fun F hF => ⟨?_, ?_⟩
  · rw [List.append_nil]
    exact .labeled hnode hscope hlabel hfirst (hbound F hF).1
  · exact .of_parts hnode (by simp) (by simp) (by simpa using (hbound F hF).2)

include spec

theorem functionStatement_steps {name : String} {returnType : Option NodeId}
    {parameters : List NodeId}
    (hnode : p.tree.node? node = some (.localFunction name returnType parameters body)) :
    BindsFrom p once node
      (p.statementStep ask scope node (.localFunction name returnType parameters body)) s (.statement owner chain node) := by
  have hbody : body ∈ (Node.localFunction name returnType parameters body).statements := by
    simp
  obtain ⟨-, _, _, _, -, site⟩ := id hsite
  obtain ⟨function, hat, hof⟩ := site.functionAt? hnode
  refine (formed.bindFunctionHead_steps spec s.findings hsite.known hat ⟨0, node, hof⟩ s
    hs.stage).bind ?_
  rintro _ s₁ first rfl hs₁ hgrows₁ - hsignature
  refine ((ih body (p.tree.child_lt hnode (by simp))).2 _ scope
    (hsite.functionBody formed.linked hnode hof) s₁ hs₁.sound fun h =>
      ((hunbound h).stage hs₁).inside (.of_statement hnode hbody)).bind_pure
    fun block s₂ second _ hs₂ hgrows₂ hblock =>
    ⟨(((Walk.refl hs).stage hs₁).inside hs₂ (.of_statement hnode hbody)), trivial, fun F hF => ?_⟩
  refine ⟨.localFunction hnode hscope hat hgrows₁ (hsignature _ (.refl _)).1 (hblock F hF).1,
    .of_statements hnode ⟨by simp [hnode], fun hf => ?_⟩ (by
      simpa using (hblock F hF).2)⟩
  obtain rfl := Option.mem_unique hof hf
  exact hsignature F (hgrows₂.trans hF)

variable {condition : NodeId}

theorem ifStatement_steps {thenNode : NodeId} {elseNode : Option NodeId}
    (hnode : p.tree.node? node = some (.ifStatement condition thenNode elseNode)) :
    BindsFrom p once node (p.statementStep ask scope node (.ifStatement condition thenNode elseNode)) s
      (.statement owner chain node) := by
  have hthen : thenNode ∈ (Node.ifStatement condition thenNode elseNode).statements := by
    simp
  have helse : ∀ q, elseNode = some q →
      q ∈ (Node.ifStatement condition thenNode elseNode).statements := by simp_all
  refine (formed.converted_steps spec s.findings hsite.known
    (Tree.child_lt_size hnode (by simp)) (Ty.known_primitive .bool) s
    hs.stage).bind ?_
  intro e s₁ first _ hs₁ hgrows₁ _ he
  refine (part_steps ih hnode hunbound hthen
    (hsite.part formed.linked hnode (by simp) hthen) hs₁).bind ?_
  intro thenStatement s₂ second _ hs₂ hgrows₂ _ hsecond
  refine (optionStatement_steps ih hnode helse (fun q hq => hsite.part formed.linked hnode (by simp)
    (helse q hq)) (((Walk.refl hs).stage hs₁).inside hs₂ (.of_statement hnode hthen))
    fun h q hq => ?_).bind ?_
  · refine (((hunbound h).stage hs₁).inside (.of_statement hnode (helse q hq))).after hs₂
      (.of_children formed.linked hnode (by simp [hq]) (by simp) ?_)
    rintro rfl
    have hnodup := formed.linked.nodup_children hnode
    simp [hq] at hnodup
  intro elseStatement s₃ third _ hs₃ hgrows₃ _ hthird
  refine .pure hs₃.1 trivial fun F hF => ?_
  rw [List.append_nil]
  obtain ⟨hsecond, hcovered⟩ := hsecond F (hgrows₃.trans hF)
  exact ⟨.ifElse hnode hscope (he F (hgrows₂.trans (hgrows₃.trans hF))) hgrows₁ hsecond hgrows₂
    (hthird F hF).1, .of_parts hnode (by simp) (by simp)
      (List.forall_mem_cons.2 ⟨hcovered, (hthird F hF).2⟩)⟩

theorem whileStatement_steps (hnode : p.tree.node? node = some (.whileStatement condition body)) :
    BindsFrom p once node (p.statementStep ask scope node (.whileStatement condition body)) s
      (.statement owner chain node) := by
  have hbody : body ∈ (Node.whileStatement condition body).statements := by simp
  obtain ⟨-, _, _, _, -, site⟩ := id hsite
  have hloop := site.loop? hnode
  rw [statementStep, hloop]
  refine (formed.converted_steps spec s.findings hsite.known
    (Tree.child_lt_size hnode (by simp)) (Ty.known_primitive .bool) s
    hs.stage).bind ?_
  intro e s₁ first _ hs₁ hgrows₁ _ he
  refine (part_steps ih hnode hunbound hbody
    (hsite.part formed.linked hnode (by simp) hbody) hs₁).bind_pure fun statement s₂ second _ hs₂ hgrows₂ hsecond =>
    ⟨(((Walk.refl hs).stage hs₁).inside hs₂ (.of_statement hnode hbody)), trivial, fun F hF => ?_⟩
  exact ⟨.whileLoop hnode hscope hloop (he F (hgrows₂.trans hF)) hgrows₁ (hsecond F hF).1,
    .of_parts hnode (by simp) (by simp) (by simpa using (hsecond F hF).2)⟩

end parts

omit hnode
include formed spec

/-- A statement under its scope. -/
theorem statementSteps : StatementSteps p ask once node := by
  intro owner chain hstands s hs hunbound
  obtain ⟨scope, hscope, hknown, hsite⟩ := hstands.innerOrSelf_eq
  obtain ⟨kind, hnode⟩ := Tree.exists_node_of_lt hstands.node_lt
  -- a statement without parts that declares nothing is covered
  have alone : ∀ {m : BindM Statement}, (∀ name type isConstant initializer,
      kind ≠ .localDeclaration name type isConstant initializer) → kind.statements = [] →
      StepsAt (Walk p (Within p node) s.findings) m s (fun _ => True) (fun F statement trace =>
        Binds p once F s.findings (.statement owner chain node statement) trace) →
      BindsFrom p once node m s (.statement owner chain node) := by
    intro m hlocal hparts hm
    refine hm.imp (fun _ h => h) fun F _ _ _ h => ⟨h, .of_parts hnode hlocal ?_ (hparts ▸ by simp)⟩
    rintro name returnType parameters body rfl
    simp at hparts
  have jumps : ∀ {target : Option Label} {result : Label → Statement} {message : Message}
      (name : String), message.category = .error →
      (∀ F label, target = some label →
        Binds p once F s.findings (.statement owner chain node (result label)) []) →
      StepsAt (Walk p (Within p node) s.findings) (p.jump target result node message name) s
        (fun _ => True) fun F statement trace =>
          Binds p once F s.findings (.statement owner chain node statement) trace := by
    intro target result message name hmessage hresult
    refine (formed.jump_steps hstands.node_lt hmessage name s (Walk.refl hs)).imp (fun _ h => h) ?_
    rintro F statement trace - (⟨label, hlabel, rfl, rfl⟩ | ⟨rfl, htrace⟩)
    · exact hresult F label hlabel
    · exact .refused htrace
  -- an expression stands as a statement, or nothing does
  have other : StepsAt (Walk p (Within p node) s.findings) (do
      if kind.isExpression then
        return Statement.expression (← p.bindExpression ask scope node .insignificant)
      p.report node .notAStatement [kind.label]
      return .error node) s (fun _ => True) fun F statement trace =>
        Binds p once F s.findings (.statement owner chain node statement) trace := by
    split
    · refine (formed.bindExpression_steps spec s.findings hknown hstands.node_lt _ s
        hs.stage).bind_pure fun e s₁ trace _ hs₁ _ he =>
        ⟨((Walk.refl hs).stage hs₁), trivial, fun F hF => ?_⟩
      exact .bareExpression hscope (he F hF)
    · exact formed.refused_steps hstands.node_lt rfl _ trivial .refused s (Walk.refl hs)
  rw [bindStatement_eq hnode]
  refine StepsAt.bind_lift hscope ?_
  cases kind with
  | block => exact formed.blockStatement_steps ih hunbound (hsite _ hnode rfl) hscope hs hnode
  | localDeclaration =>
    exact formed.bindLocalDeclaration_steps spec (hsite _ hnode rfl) hscope hnode hs hunbound
  | localFunction =>
    exact formed.functionStatement_steps spec ih hunbound (hsite _ hnode rfl) hscope hs hnode
  | expressionStatement =>
    refine alone (by simp) rfl ?_
    refine (formed.bindExpression_steps spec s.findings hknown
      (Tree.child_lt_size hnode (by simp)) _ s hs.stage).bind_pure fun e s₁ trace _ hs₁ _ he =>
      ⟨((Walk.refl hs).stage hs₁), trivial, fun F hF => ?_⟩
    exact .expression hnode hscope (he F hF)
  | ifStatement =>
    exact formed.ifStatement_steps spec ih hunbound (hsite _ hnode rfl) hscope hs hnode
  | whileStatement =>
    exact formed.whileStatement_steps spec ih hunbound (hsite _ hnode rfl) hscope hs hnode
  | breakStatement =>
    exact alone (by simp) rfl (jumps _ rfl fun F label h => .breakTo hscope h)
  | continueStatement =>
    exact alone (by simp) rfl (jumps _ rfl fun F label h => .continueTo hscope h)
  | returnStatement =>
    refine alone (by simp) rfl ?_
    exact (formed.bindReturn_steps spec s.findings hknown (hsite _ hnode rfl).1 hnode hscope s
      hs.stage).weaken fun _ => (Walk.refl hs).stage
  | tryStatement => exact formed.tryStatement_steps ih hunbound (hsite _ hnode rfl) hscope hs hnode
  | labeled => exact formed.labeledStatement_steps ih hunbound (hsite _ hnode rfl) hscope hs hnode
  | goto name =>
    obtain ⟨label, hlabel, -⟩ := lookupLabel?_yields hknown name
    refine alone (by simp) rfl (StepsAt.bind_lift hlabel ?_)
    exact jumps _ rfl fun F found hfound => .goto hscope (hlabel.trans (congrArg _ hfound))
  | _ => exact alone (by simp) rfl other

omit spec in
theorem blockSteps (hself : StatementSteps p ask once node) : BlockSteps p ask once node := by
  intro owner chain hstands s hs hunbound
  obtain ⟨kind, hnode⟩ := Tree.exists_node_of_lt hstands.node_lt
  by_cases hblock : ∃ statements, kind = .block statements
  · obtain ⟨statements, rfl⟩ := hblock
    obtain ⟨scope, hscope, -, hsite⟩ := hstands.innerOrSelf_eq
    exact formed.bindBlock_steps ih hunbound (hsite _ hnode rfl) hscope hs hnode
  · rw [bindBlock_eq_of_other hnode fun statements h => hblock ⟨statements, h⟩]
    obtain ⟨inner, hinner, hknown⟩ := Chain.inner?_yields hstands.known node
    obtain ⟨locals, hlocals, -⟩ := ownLocals_yields hknown
    refine StepsAt.bind_lift hinner (StepsAt.bind_lift hlocals ?_)
    refine (hself owner chain hstands s hs hunbound).bind_pure fun bound s' trace _ hs' _ hbound =>
      ⟨hs', trivial, fun F hF => ?_⟩
    exact ⟨.blockOfOne (hbound F hF).1 hinner hlocals, (hbound F hF).2⟩

end Program.Formed

end recursion

/-! ### All code -/

namespace Program.Formed

variable (formed : p.Formed) {ask : Asker} (spec : AskerSpec p ask) (once : Prop)
include formed spec

theorem codeSteps (node : Nat) : StatementSteps p ask once node ∧ BlockSteps p ask once node := by
  induction node using Nat.strongRecOn with
  | ind node ih =>
    have hself : StatementSteps p ask once node := formed.statementSteps spec ih
    exact ⟨hself, formed.blockSteps ih hself⟩

/-- The global statements. -/
theorem bindGlobalStatements_steps {owner : Member} {region : Chain}
    (hregion : region.IsRegion p p.tree.root) (hmethod : region.method? = some owner)
    {s : BindState} (hs : Sound p s.findings) (hunbound : once → Unbound p s.findings p.tree.root) :
    StepsAt (Walk p (Within p p.tree.root) s.findings) (p.bindGlobalStatements ask region) s
      (fun _ => True) fun F block trace => Binds p once F s.findings (.statements owner
        (Chain.globalScopeOf p region) p.tree.globalStatements block.statements) trace ∧
          ∀ q ∈ p.tree.globalStatements, Covered p F q := by
  obtain ⟨members, hroot⟩ := formed.linked.root_eq
  have hmembers : p.tree.globalStatements = p.tree.globalStatementsOf members := by
    unfold Tree.globalStatements Tree.members
    rw [hroot]
  have under : ∀ q ∈ p.tree.globalStatementsOf members, Within p p.tree.root q := by
    intro q hq
    obtain ⟨m, hm, hnode⟩ := Tree.exists_of_mem_globalStatementsOf hq
    exact (Within.of_child hroot hm rfl).trans (.of_child hnode (by simp) rfl)
  refine StepsAt.bind_lift (hregion.innerOrSelf_root hroot) ?_
  obtain ⟨d, -, hlocals⟩ := Chain.scopeLocals_push formed.linked.root_lt region 0
  rw [hmembers]
  refine (statementList_steps under ?_ (fun q _ => (formed.codeSteps spec once q).1)
    (fun q hq => hregion.global_stands formed.linked hmethod hroot hq) (.refl hs)
    fun h q hq => (hunbound h).inside (under q hq)).bind ?_
  · have hapart : members.Pairwise (Apart p) :=
      (formed.linked.nodup_children hroot).imp_of_mem fun ha hb hne =>
        .of_children formed.linked hroot ha hb hne
    refine hapart.filterMap _ fun m m' hm q hq q' hq' n hn hn' => ?_
    exact hm n ((Within.of_globalStatement hq).trans hn) ((Within.of_globalStatement hq').trans hn')
  · intro bound s' trace _ hs' _ _ hbound
    refine StepsAt.bind_lift hlocals (.pure hs' trivial fun F hF => ?_)
    rw [List.append_nil]
    exact hbound F hF

end Program.Formed
end Bindery
