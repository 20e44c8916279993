import Bindery.Proofs.CallSteps

/-! # Steps of types and expressions

Binding a type, a template argument or an expression follows the rules of `Derives`.  The proof goes
by the number of the node, since binding goes from a node to its children; on one node, types come
before unchecked expressions, and these before expressions and template arguments. -/

namespace Bindery

variable [Endless] {p : Program}

/-! ### Arguments -/

variable (p) in
def TypeOrConstant.Known (a : TypeOrConstant) : Prop := a.toArgument.Known p

/-- Arguments are bound one after the other until one is an error. -/
theorem collectArguments_steps {α : Type} {f : Findings} (chain : Chain)
    (pair : α → SymbolId × NodeId) {bind : α → BindM TypeOrConstant} {list : List α}
    (h : ∀ a ∈ list, Steps (Stage p f) (bind a) (TypeOrConstant.Known p) fun F b trace =>
      Derives p F f (.argument chain (pair a).1 (pair a).2 b) trace) :
    Steps (Stage p f) (Program.collectArguments bind list)
      (fun bound => ∀ arguments, bound = some arguments → TemplateArgument.KnownList p arguments)
      fun F bound trace => Derives p F f (.arguments chain (list.map pair) bound) trace := by
  induction list with
  | nil =>
    refine .pure ?_ fun F => .noArguments
    rintro _ ⟨rfl⟩
    trivial
  | cons a rest ih =>
    rw [Program.collectArguments]
    refine Steps.bind (h a (by simp)) fun bound hbound => ?_
    split
    · next herror =>
      exact .last (by simp) fun F trace htrace => .brokenArgument htrace herror
    · next herror =>
      refine Steps.bind_pure (ih fun a ha => h a (List.mem_cons_of_mem _ ha)) fun others hothers =>
        ⟨fun arguments harguments => ?_, fun F second hsecond first hfirst =>
          .nextArgument hfirst (eq_false_of_ne_true herror) hsecond⟩
      obtain ⟨others, rfl, rfl⟩ := Option.map_eq_some_iff.1 harguments
      rw [TemplateArgument.KnownList]
      exact ⟨hbound, hothers others rfl⟩

variable (p) in
/-- The expression at the place of a constant template argument. -/
def Program.argumentValue (ask : Asker) (chain : Chain) (parameter : SymbolId) (node : NodeId) :
    BindM Expr := do
  match p.tree.node? node with
  | some (.typeName name [] false) => p.checkValueKind (← p.bindName ask chain name node) .rvalue
  | some (.typeName ..) | some (.nullableType _) =>
    p.reject node .templateMustBeConstant [← p.symbols.name parameter] node
  | _ => p.bindExpression ask chain node .rvalue

omit [Endless] in
theorem Program.bindTemplateArgument_eq (ask : Asker) (chain : Chain) (parameter : SymbolId)
    (node : NodeId) : p.bindTemplateArgument ask chain parameter node = (do
      match ← ask (.constantParameterType parameter) with
      | none => return .type (← p.bindType ask chain node)
      | some type =>
        p.constantArgument parameter type node (← p.argumentValue ask chain parameter node)) := by
  rw [bindTemplateArgument]
  refine bind_congr fun found => ?_
  cases found with
  | none => rfl
  | some type =>
    unfold argumentValue
    dsimp only
    split <;> simp_all [bind_assoc]

omit [Endless] in
/-- The arguments of a call are bound in order. -/
theorem operands_of_each {α : Type} {F f : Findings} {chain : Chain} (place : α → NodeId)
    {list : List α} {arguments : List Argument} {trace : Trace}
    (h : Each (fun a argument trace => ∃ e,
      argument = ⟨(argumentParts p (place a)).1, e, place a⟩ ∧
      Derives p F f (.expression chain (argumentParts p (place a)).2 .rvalue e) trace)
      list arguments trace) :
    Derives p F f (.operands chain (list.map place) arguments) trace := by
  induction h with
  | nil => exact .noOperands
  | cons head _ ih =>
    obtain ⟨e, rfl, h⟩ := head
    exact .nextOperand h ih

namespace Program.Formed

variable (formed : p.Formed)
include formed

omit [Endless] in
theorem simpleType?_yields {chain : Chain} (known : chain.Known p) (name : String) :
    Yields (p.simpleType? chain name) fun found => ∀ t, found = some t → t.Known p := by
  unfold simpleType?
  split
  · refine .pure ?_
    rintro _ ⟨rfl⟩
    exact Ty.known_primitive _
  · refine .bind (formed.lookupTemplateParameter?_yields known name) fun found hfound => .pure ?_
    intro t ht
    obtain ⟨s, hs, rfl⟩ := Option.map_eq_some_iff.1 ht
    exact hfound s hs

theorem bindDefinition_steps {I : Findings → Prop} {chain : Chain} (known : chain.Known p)
    {node : NodeId} (hnode : node < p.tree.size) (name : String) :
    Steps I (p.bindDefinition chain name node)
      (fun found => ∀ s : Nat, found = some s → s < p.symbols.size ∧ Defines p chain name node s)
      fun _ found trace => found.elim trace.Refuses fun _ => trace = [] := by
  unfold bindDefinition
  refine Steps.bind_lift (formed.lookup_yields known name hnode) fun found hlookup hfound => ?_
  cases found with
  | symbols found =>
    refine Steps.bind_reads (fun s => Ends.Reads.findM? (P := fun symbol =>
      p.symbols.isType symbol = .ok true) fun symbol hsymbol => ?_) fun definition hdefinition => ?_
    · obtain ⟨b, hb, -⟩ := formed.table.isType_yields (hfound symbol hsymbol)
      exact Ends.Reads.lift ⟨b, hb, fun h => h ▸ hb⟩
    · cases definition with
      | none => exact formed.refused_steps hnode rfl _ nofun id
      | some definition =>
        obtain ⟨hmem, htype⟩ := hdefinition definition rfl
        have hlt := hfound definition hmem
        refine Steps.bind_lift (formed.isAccessible_yields known hlt)
          fun accessible haccessible _ => ?_
        cases accessible with
        | false => exact formed.refused_steps hnode rfl _ nofun id
        | true =>
          refine .pure ?_ fun F => rfl
          rintro _ ⟨rfl⟩
          exact ⟨hlt, found, hlookup, hmem, htype, haccessible⟩
  | empty | localVariable _ | declaredLater _ | localFunction _ | parameter _
  | templateParameter _ => exact formed.refused_steps hnode rfl _ nofun id

theorem constantArgument_steps {I : Findings → Prop} {parameter : Nat} {type : Ty} {node : NodeId}
    {e : Expr} (hparameter : parameter < p.symbols.size) (htype : type.Known p)
    (hnode : node < p.tree.size) (he : e.Known p) :
    Steps I (p.constantArgument parameter type node e) (TypeOrConstant.Known p)
      fun _ bound trace => ∃ value first second, trace = first ++ second ∧
        Converts p false e type value first ∧
        ((∃ c, value.constant = some c ∧ bound = .constant c type node ∧ second = []) ∨
          value.constant = none ∧ bound = .type .error ∧
            (value.isError = true ∧ second = [] ∨ second.Refuses)) := by
  refine Steps.bind (formed.convert_steps he htype hnode) fun value hvalue => ?_
  dsimp only
  cases hconstant : value.constant with
  | some c =>
    exact .pure trivial fun F first h => ⟨value, first, [], rfl, h, .inl ⟨c, hconstant, rfl, rfl⟩⟩
  | none =>
    dsimp only
    split
    · next herror =>
      refine Steps.bind_lift (formed.table.name_yields hparameter) fun name _ _ => ?_
      exact formed.refused_steps hnode rfl _ trivial fun hsecond first h =>
        ⟨value, first, _, rfl, h, .inr ⟨hconstant, rfl, .inr hsecond⟩⟩
    · next herror =>
      refine .pure trivial fun F first h =>
        ⟨value, first, [], rfl, h, .inr ⟨hconstant, rfl, .inl ⟨by simpa using herror, rfl⟩⟩⟩

end Program.Formed

/-! ### The recursion -/

section recursion

variable (p) (ask : Asker) (node : NodeId)

def TypeSteps : Prop := ∀ (f : Findings) {chain : Chain}, chain.Known p →
  Steps (Stage p f) (p.bindType ask chain node) (Ty.Known p) fun F t trace =>
    Derives p F f (.type chain node t) trace

def UncheckedSteps : Prop := ∀ (f : Findings) {chain : Chain} (kind : ValueKind), chain.Known p →
  Steps (Stage p f) (p.bindUnchecked ask chain node kind) (Expr.Known p) fun F e trace =>
    Derives p F f (.unchecked chain node kind e) trace

def ExpressionSteps : Prop := ∀ (f : Findings) {chain : Chain} (kind : ValueKind), chain.Known p →
  Steps (Stage p f) (p.bindExpression ask chain node kind) (Expr.Known p) fun F e trace =>
    Derives p F f (.expression chain node kind e) trace

def ArgumentSteps : Prop := ∀ (f : Findings) {chain : Chain} {parameter : Nat}, chain.Known p →
  parameter < p.symbols.size →
  Steps (Stage p f) (p.bindTemplateArgument ask chain parameter node) (TypeOrConstant.Known p)
    fun F bound trace => Derives p F f (.argument chain parameter node bound) trace

end recursion

namespace Program.Formed

variable (formed : p.Formed) {ask : Asker} (spec : AskerSpec p ask) {node : NodeId}
  (hnode : node < p.tree.size)
include formed

theorem expressionSteps_of_unchecked (h : UncheckedSteps p ask node) :
    ExpressionSteps p ask node := by
  intro f chain kind known
  rw [bindExpression]
  refine Steps.bind (h f kind known) fun e he => ?_
  refine (formed.checkValueKind_steps he kind).mono fun F e' second hchecks first h => ?_
  exact .expression h hchecks

include spec hnode

theorem argumentValueSteps (hexpression : ExpressionSteps p ask node) (f : Findings) {chain : Chain}
    (known : chain.Known p) {parameter : Nat} (hparameter : parameter < p.symbols.size) :
    Steps (Stage p f) (p.argumentValue ask chain parameter node) (Expr.Known p) fun F e trace =>
      Derives p F f (.argumentValue chain node e) trace := by
  unfold argumentValue
  split
  · next name hname =>
    refine Steps.bind (formed.bindName_steps spec f known hnode name) fun e he => ?_
    refine (formed.checkValueKind_steps he .rvalue).mono ?_
    exact fun F e' second hchecks first h => .nameArgument hname h hchecks
  · exact Steps.bind_lift (formed.table.name_yields hparameter) fun _ _ _ =>
      formed.refuse_steps hnode hnode rfl _ .refusedArgument
  · exact Steps.bind_lift (formed.table.name_yields hparameter) fun _ _ _ =>
      formed.refuse_steps hnode hnode rfl _ .refusedArgument
  · exact (hexpression f .rvalue known).mono fun F e trace h => .expressionArgument h

theorem argumentSteps (htype : TypeSteps p ask node) (hexpression : ExpressionSteps p ask node) :
    ArgumentSteps p ask node := by
  intro f chain parameter known hparameter
  rw [bindTemplateArgument_eq]
  refine Steps.bind_answer (spec.constantParameterType f hparameter) fun type hknown => ?_
  cases type with
  | none =>
    refine Steps.bind_pure (htype f known) fun t ht => ⟨ht, fun F trace h hnone => ?_⟩
    exact .typeArgument hnone h
  | some type =>
    refine Steps.bind (formed.argumentValueSteps spec hnode hexpression f known hparameter)
      fun e he => ?_
    refine (formed.constantArgument_steps hparameter (hknown type rfl) hnode he).mono ?_
    rintro F bound _ ⟨value, second, third, rfl, hconverts, hcases⟩ first hfirst hconstant
    rcases hcases with ⟨c, hc, rfl, rfl⟩ | ⟨hc, rfl, hthird⟩
    · rw [List.append_nil]
      exact .constantArgument hconstant hfirst hconverts hc
    · exact .variableArgument hconstant hfirst hconverts hc hthird

omit spec in
theorem typeSteps (ih : ∀ child : Nat, child < node → TypeSteps p ask child ∧
    ArgumentSteps p ask child) : TypeSteps p ask node := by
  intro f chain known
  rw [bindType]
  split
  · next element hkind =>
    have hlt : element < node := p.tree.child_lt hkind (by simp)
    refine Steps.bind_pure ((ih element hlt).1 f known) fun t ht =>
      ⟨?_, fun F trace h => .nullableType hkind h⟩
    split <;> exact ht
  · next name arguments isUnbound hkind =>
    dsimp only
    refine Steps.ite_bind (K := fun found => ∀ t, found = some t → t.Known p)
      (R := fun F found trace => trace = [] ∧ ∀ t, found = some t →
        Derives p F f (.type chain node t) []) ?_ ?_ fun simple hsimple => ?_
    · intro hplain
      rw [Bool.and_eq_true, List.isEmpty_iff, Bool.not_eq_true'] at hplain
      obtain ⟨rfl, rfl⟩ := hplain
      refine Steps.lift (formed.simpleType?_yields known name) fun found hfound hknown =>
        ⟨hknown, fun F => ⟨rfl, ?_⟩⟩
      rintro t rfl
      exact .simpleType hkind hfound
    · exact fun _ => .pure (by simp) fun F => ⟨rfl, by simp⟩
    cases simple with
    | some type =>
      refine .pure (hsimple type rfl) ?_
      rintro F _ ⟨rfl, h⟩
      exact h type rfl
    | none =>
      refine (Steps.bind (formed.bindDefinition_steps known hnode name)
        fun definition hdefined => ?_).mono fun F t trace h first hfirst => hfirst.1 ▸ h
      cases definition with
      | none => exact .last Ty.known_error fun F trace htrace => .refusedType htrace
      | some definition =>
        obtain ⟨hlt, hdefines⟩ := hdefined definition rfl
        refine .silent (Steps.bind_lift (formed.table.templateParameters_yields hlt)
          fun parameters hparameters hparameters_lt => ?_)
        split
        · next hunbound =>
          split
          · next hallowed =>
            exact .pure hlt fun F => .namedType hkind hdefines (.inl ⟨hunbound, hallowed⟩)
          · exact formed.refused_steps hnode rfl _ Ty.known_error .refusedType
        · next hunbound =>
          obtain rfl : isUnbound = false := eq_false_of_ne_true hunbound
          split
          · exact formed.refused_steps hnode rfl _ Ty.known_error .refusedType
          · next hlength =>
            have hlength : arguments.length = parameters.length := not_not.1 hlength
            split
            · next hempty =>
              rw [List.isEmpty_iff] at hempty
              subst hempty
              exact .pure hlt fun F => .namedType hkind hdefines
                (.inr ⟨rfl, List.eq_nil_of_length_eq_zero hlength, hparameters⟩)
            · next hempty =>
              rw [List.isEmpty_iff] at hempty
              have hpairs : (parameters.zip arguments.attach).map (fun x => (x.1, x.2.1)) =
                  parameters.zip arguments := by
                conv_rhs => rw [← List.attach_map_subtype_val arguments]
                rw [List.zip_map_right]
                rfl
              refine Steps.bind (collectArguments_steps chain (fun x => (x.1, x.2.1))
                fun x hx => ?_) fun bound hbound => ?_
              · have hlt : x.2.1 < node := p.tree.child_lt hkind (by
                  simpa using x.2.2)
                exact (ih x.2.1 hlt).2 f known
                  (hparameters_lt x.1 (List.of_mem_zip (b := x.2) hx).1)
              · rw [hpairs]
                cases bound with
                | none => exact .last Ty.known_error fun F trace h => .brokenType hkind h
                | some bound =>
                  refine .last ?_ fun F trace h =>
                    .constructedType hkind hdefines hparameters hlength hempty h
                  unfold Ty.Known
                  rw [TyKind.Known]
                  exact ⟨hlt, hbound bound rfl⟩
  · next other _ _ hkind => exact formed.refused_steps hnode rfl _ Ty.known_error .refusedType
  · next hnone =>
    obtain ⟨kind, hkind⟩ := Tree.exists_node_of_lt hnode
    simp [hkind] at hnone

omit formed spec in
/-- The arguments of a call. -/
theorem operandSteps {nodes : List NodeId} (ih : ∀ child : Nat, child < node →
    ExpressionSteps p ask child) (hnodes : ∀ n ∈ nodes, n < node) (f : Findings) {chain : Chain}
    (known : chain.Known p) :
    Steps (Stage p f) (nodes.attach.mapM fun ⟨argument, _⟩ => do
      match _h' : p.tree.node? argument with
      | some (.argument name expression) =>
        return (⟨name, ← p.bindExpression ask chain expression .rvalue, argument⟩ : Argument)
      | _ => return (⟨none, ← p.bindExpression ask chain argument .rvalue, argument⟩ : Argument))
      (fun arguments => ∀ a ∈ arguments, a.Known p) fun F arguments trace =>
        Derives p F f (.operands chain nodes arguments) trace := by
  refine (Steps.mapM (K := fun _ argument => argument.Known p)
    (R := fun F (a : { n // n ∈ nodes }) argument trace => ∃ e,
      argument = ⟨(argumentParts p a.1).1, e, a.1⟩ ∧
      Derives p F f (.expression chain (argumentParts p a.1).2 .rvalue e) trace)
    fun a _ => ?_).imp (fun arguments hall argument hargument => ?_) fun F arguments trace heach => ?_
  · have hlt := hnodes a.1 a.2
    have hsize : a.1 < p.tree.size := Nat.lt_trans hlt hnode
    have bound : ∀ parts : Option String × NodeId, parts = argumentParts p a.1 → parts.2 < node →
        Steps (Stage p f) (do
          return (⟨parts.1, ← p.bindExpression ask chain parts.2 .rvalue, a.1⟩ : Argument))
          (fun argument => argument.Known p) fun F argument trace => ∃ e,
            argument = ⟨(argumentParts p a.1).1, e, a.1⟩ ∧
            Derives p F f (.expression chain (argumentParts p a.1).2 .rvalue e) trace := by
      rintro parts rfl hparts
      exact Steps.bind_pure (ih _ hparts f .rvalue known) fun e he =>
        ⟨⟨he, hsize⟩, fun F trace h => ⟨e, rfl, h⟩⟩
    dsimp only
    split
    · next name expression hargument =>
      refine bound (name, expression) ?_ (Nat.lt_trans
        (p.tree.child_lt hargument (by simp)) hlt)
      unfold argumentParts
      rw [hargument]
    · next hother =>
      refine bound (none, a.1) ?_ hlt
      unfold argumentParts
      split
      · next name expression hargument => exact absurd hargument (hother name expression)
      · rfl
  · exact forall_of_forall₂ hall _ hargument
  · have h := operands_of_each (fun a : { n // n ∈ nodes } => a.1) heach
    rwa [List.attach_map_subtype_val] at h

theorem uncheckedSteps (htype : TypeSteps p ask node) (ih : ∀ child : Nat, child < node →
    TypeSteps p ask child ∧ UncheckedSteps p ask child) : UncheckedSteps p ask node := by
  intro f chain kind known
  have expressions : ∀ child : Nat, child < node → ExpressionSteps p ask child := fun child hchild =>
    formed.expressionSteps_of_unchecked (ih child hchild).2
  have placeholder : ∀ {receiver : Expr}, receiver.Known p → receiver.isError = false →
      FrameKind.Known p (.conditionalReceiver (Program.receiverPlaceholder receiver)) :=
    fun hreceiver herror => ⟨Expr.known_plain hreceiver.1 hreceiver.2.1 trivial, rfl, by
      simp only [Expr.isError, Bool.or_eq_false_iff] at herror
      exact herror.2⟩
  -- a type in the place of an expression
  have typed : Steps (Stage p f) (do
      let type ← p.bindType ask chain node
      return if type.isError then .error node else .plain .type type node) (Expr.Known p)
      fun F e trace => Derives p F f (.unchecked chain node kind e) trace := by
    refine Steps.bind_pure (htype f known) fun t ht => ⟨?_, fun F trace h => .typeExpression h⟩
    split
    · exact Expr.known_error hnode
    · exact Expr.known_plain hnode ht trivial
  rw [bindUnchecked]
  split
  · next value hkind =>
    refine .pure ?_ fun F => .literal hkind
    unfold Expr.ofLiteral
    split
    · exact Expr.known_plain hnode trivial trivial
    · exact Expr.known_plain hnode (Ty.known_primitive _) trivial
  · next name hkind =>
    exact (formed.bindName_steps spec f known hnode name).mono fun F e trace h =>
      .identifier hkind h
  · next left name hkind =>
    have hlt : left < node := p.tree.child_lt hkind (by simp)
    refine Steps.bind (expressions left hlt f _ known) fun receiver hreceiver => ?_
    exact (formed.bindMemberAccess_steps spec f known hnode hreceiver name).mono
      fun F e second h first hfirst => .memberAccess hkind hfirst h
  · next left right hkind =>
    have hleft : left < node := p.tree.child_lt hkind (by simp)
    have hright : right < node := p.tree.child_lt hkind (by simp)
    refine Steps.bind (expressions left hleft f _ known) fun receiver hreceiver => ?_
    split
    · next herror =>
      refine .last (Expr.known_error hnode) fun F trace h => ?_
      exact .brokenConditional hkind h herror
    · next herror =>
      have herror := eq_false_of_ne_true herror
      refine Steps.bind_pure (expressions right hright f kind (known.push _ _ (placeholder hreceiver
        herror))) fun access haccess => ⟨?_, fun F second hsecond first hfirst =>
          .conditionalAccess hkind hfirst herror hsecond⟩
      unfold Program.conditionalAccess
      split
      · exact Expr.known_error hnode
      · refine Expr.known_plain hnode ?_ trivial
        split <;> exact haccess.2.1
  · next name hkind =>
    split
    · next receiver hreceiver =>
      obtain ⟨hknown, hplaceholder, hok⟩ := conditionalReceiver?_known known hreceiver
      exact (formed.bindMemberAccess_steps spec f known hnode hknown name).mono
        fun F e trace h => .memberBinding hkind hreceiver hplaceholder hok h
    · exact formed.refuse_steps hnode hnode rfl _ .refusedExpression
  · next callee arguments hkind =>
    have hcallee : callee < node := p.tree.child_lt hkind (by simp)
    refine Steps.bind (expressions callee hcallee f _ known) fun target htarget => ?_
    have hlt : ∀ n ∈ arguments, n < node := fun n hn =>
      p.tree.child_lt hkind (List.mem_cons_of_mem _ hn)
    refine Steps.bind (operandSteps hnode expressions hlt f known) fun operands hoperands => ?_
    exact (formed.bindCall_steps f spec hnode hoperands known htarget
      (Nat.lt_trans hcallee hnode)).mono
      fun F e third h second hsecond first hfirst => .call hkind hfirst hsecond h
  · next name expression hkind =>
    have hlt : expression < node := p.tree.child_lt hkind (by simp)
    exact ((ih expression hlt).2 f kind known).mono fun F e trace h =>
      .argumentNode hkind h
  · next op left right hkind =>
    have hleft : left < node := p.tree.child_lt hkind (by simp)
    have hright : right < node := p.tree.child_lt hkind (by simp)
    refine Steps.bind (expressions left hleft f _ known) fun place hplace => ?_
    refine Steps.bind (expressions right hright f _ known) fun value hvalue => ?_
    exact (formed.bindAssignment_steps op hplace hvalue (Nat.lt_trans hright hnode) hnode).mono
      fun F e third h second hsecond first hfirst =>
        .assignment hkind hfirst hsecond h
  · next op left right hkind =>
    have hleft : left < node := p.tree.child_lt hkind (by simp)
    have hright : right < node := p.tree.child_lt hkind (by simp)
    refine Steps.bind (expressions left hleft f _ known) fun a ha => ?_
    refine Steps.bind (expressions right hright f _ known) fun b hb => ?_
    exact (formed.bindBinary_steps op ha hb (Nat.lt_trans hleft hnode) (Nat.lt_trans hright hnode)
      hnode).mono fun F e third h second hsecond first hfirst =>
        .binary hkind hfirst hsecond h
  · next op operand hkind =>
    have hlt : operand < node := p.tree.child_lt hkind (by simp)
    refine Steps.bind (expressions operand hlt f _ known) fun a ha => ?_
    exact (formed.bindUnary_steps op ha hnode).mono fun F e second h first hfirst =>
      .unary hkind hfirst h
  · next type expression hkind =>
    have htypeLt : type < node := p.tree.child_lt hkind (by simp)
    have hlt : expression < node := p.tree.child_lt hkind (by simp)
    refine Steps.bind ((ih type htypeLt).1 f known) fun t ht => ?_
    refine Steps.bind (expressions expression hlt f _ known) fun a ha => ?_
    exact (formed.convertWith_steps true ha ht hnode).mono
      fun F e third h second hsecond first hfirst => .cast hkind hfirst hsecond h
  · next type hkind =>
    have hlt : type < node := p.tree.child_lt hkind (by simp)
    refine Steps.bind_pure ((ih type hlt).1 f (known.push .unboundTypeAllowed {} trivial))
      fun t ht => ⟨?_, fun F trace h => .typeOf hkind h⟩
    split
    · exact Expr.known_error hnode
    · exact Expr.known_plain hnode (Ty.known_primitive _) trivial
  · exact typed
  · exact typed
  · next hkind =>
    refine .pure (Expr.known_error hnode) fun F => .noExpression hkind ?_ ?_ ?_
    · grind [Node.isExpression]
    · grind [Node.isType]
    · grind
  · next hnone =>
    obtain ⟨kind, hkind⟩ := Tree.exists_node_of_lt hnode
    simp [hkind] at hnone

end Program.Formed

/-! ### Everything about one node -/

namespace Program.Formed

variable (formed : p.Formed) {ask : Asker} (spec : AskerSpec p ask)
include formed spec

theorem nodeSteps (node : Nat) (hnode : node < p.tree.size) :
    TypeSteps p ask node ∧ UncheckedSteps p ask node := by
  induction node using Nat.strongRecOn with
  | ind node ih =>
    have ih : ∀ child : Nat, child < node → TypeSteps p ask child ∧ UncheckedSteps p ask child :=
      fun child hchild => ih child hchild (Nat.lt_trans hchild hnode)
    have htype : TypeSteps p ask node := formed.typeSteps hnode fun child hchild =>
      ⟨(ih child hchild).1, formed.argumentSteps spec (Nat.lt_trans hchild hnode) (ih child hchild).1
        (formed.expressionSteps_of_unchecked (ih child hchild).2)⟩
    exact ⟨htype, formed.uncheckedSteps spec hnode htype ih⟩

variable (f : Findings) {chain : Chain} (known : chain.Known p) {node : NodeId}
  (hnode : node < p.tree.size)
include known hnode

theorem bindType_steps : Steps (Stage p f) (p.bindType ask chain node) (Ty.Known p) fun F t trace =>
    Derives p F f (.type chain node t) trace :=
  (formed.nodeSteps spec node hnode).1 f known

theorem bindExpression_steps (kind : ValueKind) :
    Steps (Stage p f) (p.bindExpression ask chain node kind) (Expr.Known p) fun F e trace =>
      Derives p F f (.expression chain node kind e) trace :=
  formed.expressionSteps_of_unchecked (formed.nodeSteps spec node hnode).2 f kind known

theorem bindVariableType_steps (name : String) :
    Steps (Stage p f) (p.bindVariableType ask chain node name) (Ty.Known p) fun F t trace =>
      Derives p F f (.variableType chain node t) trace := by
  refine Steps.bind (formed.bindType_steps spec f known hnode) fun t ht => ?_
  split
  · exact formed.refused_steps hnode rfl _ Ty.known_error fun hsecond first hfirst =>
      .voidVariable hfirst hsecond
  · next hvoid =>
    exact .last ht fun F trace h => .variableType h (eq_false_of_ne_true hvoid)

/-- A value, converted. -/
theorem converted_steps {target : Ty} (htarget : target.Known p) :
    Steps (Stage p f) (do p.convert (← p.bindValue ask chain node) target node) (Expr.Known p)
      fun F e trace => Derives p F f (.converted chain node target e) trace := by
  refine Steps.bind (formed.bindExpression_steps spec f known hnode .rvalue) fun e he => ?_
  exact (formed.convert_steps he htarget hnode).mono fun F e' second h first hfirst =>
    .converted hfirst h

end Program.Formed
end Bindery
