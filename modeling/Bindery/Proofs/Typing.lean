import Bindery.Proofs.ArgumentSlots
import Bindery.Proofs.CallSteps

/-! # Typing of bound expressions

`ExprKind.Fits p F kind t` is the typing rule of an expression of the given kind and the type `t`,
read in the findings `F`.

* A cast has the kind of conversion that leads from its operand to its type.
* The sides of an operator have the types of its signature, which is that of the sides before they
  were converted.
* The arguments of a call have the types of the parameters; a parameter without an argument gets its
  default value.

A rule says nothing about an expression that is an error, nor about its parts that are.  Everything
that is derived obeys the rules at every depth (`Derives.typed`). -/

namespace Bindery

/-! ### Parts of expressions -/

/-- The expressions that an expression of this kind is put together from. -/
@[simp] def ExprKind.subexpressions : ExprKind → List Expr
  | .field receiver _ | .methods receiver _ => receiver.toList
  | .call receiver _ arguments => receiver.toList ++ arguments
  | .localCall _ arguments => arguments
  | .cast operand _ | .unary _ operand => [operand]
  | .assignment _ left right | .binary _ left right => [left, right]
  | .conditionalAccess receiver access => [receiver, access]
  | _ => []

/-- The expression and all expressions in it have a property. -/
inductive Expr.Everywhere (P : Expr → Prop) : Expr → Prop
  | intro {e : Expr} (own : P e) (parts : ∀ part ∈ e.kind.subexpressions, Everywhere P part) :
      Everywhere P e

variable {e e' left right : Expr} {f : Findings} {parameters : List CandidateParameter}
  {node : NodeId} {trace : Trace} {P : Expr → Prop}

theorem Expr.Everywhere.own (h : e.Everywhere P) : P e := by
  cases h with
  | intro own _ => exact own

theorem Expr.Everywhere.parts (h : e.Everywhere P) :
    ∀ part ∈ e.kind.subexpressions, part.Everywhere P := by
  cases h with
  | intro _ parts => exact parts

/-! ### Rules -/

/-- An expression of type `source`, before it was converted to the type that it has. -/
def Expr.ConvertedFrom (e : Expr) (source : Ty) : Prop :=
  e.type = source ∨ ∃ operand cast, e.kind = .cast operand cast ∧ operand.type = source

/-- The sides of an operator have the types of its signature, which is that of the sides before they
were converted. -/
def OperandsFit (op : BinaryOp) (left right : Expr) (signature : BinarySignature) : Prop :=
  ∃ l r, BinarySignature.of? op l r = some signature ∧ left.ConvertedFrom l ∧ right.ConvertedFrom r ∧
    left.type = signature.left ∧ right.type = signature.right

/-- Arguments have the types of the parameters, unless they are default values. -/
def ArgumentsFit (types : List Ty) (isDefault : Nat → Expr → Prop) (arguments : List Expr) : Prop :=
  ∀ (i : Nat) (e : Expr), arguments[i]? = some e → e.isError = false →
    types[i]? = some e.type ∨ isDefault i e

variable (p : Program) (F : Findings)

/-- The published default value of a parameter of a method. -/
def IsDefaultOf (ids : List SymbolId) (i : Nat) (e : Expr) : Prop :=
  ∃ id known, ids[i]? = some id ∧ F.defaults.get? id = some known ∧ known.value = some e

/-- The published default value of a parameter of a local function. -/
def IsFunctionDefaultOf (function : LocalFunction) (i : Nat) (e : Expr) : Prop :=
  ∃ values, F.functionDefaults? function = some values ∧ values[i]? = some (some e)

/-- The typing rule of an expression of this kind and type. -/
def ExprKind.Fits : ExprKind → Ty → Prop
  | .literal, t => ∃ value : Literal, t = (Expr.ofLiteral value 0).type
  | .localVariable target, t => F.localType? target = some t
  | .parameter symbol, t => ∃ method data known,
      p.symbols.containing? symbol = .ok (some method) ∧
      p.symbols.parameter? symbol = .ok (some data) ∧
      F.signatures.get? method = some known ∧ known.value.parameters[data.ordinal]? = some t
  | .field _ symbol, t => ∃ known, F.fieldTypes.get? symbol = some known ∧ known.value = t
  | .methods _ _, t | .localFunction _, t => t = .void
  | .call _ method arguments, t => ∃ ids known, p.symbols.parameters method = .ok ids ∧
      F.signatures.get? method = some known ∧ t = known.value.returnType ∧
      ArgumentsFit known.value.parameters (IsDefaultOf F ids) arguments
  | .localCall function arguments, t => ∃ signature, F.functionSignature? function = some signature ∧
      t = signature.returnType ∧
      ArgumentsFit signature.parameters (IsFunctionDefaultOf F function) arguments
  | .cast operand way, t =>
      operand.type.conversion p.symbols t = .ok way ∧ way.isPossible = true
  | .assignment none left right, t => right.type = left.type ∧ t = left.type
  | .assignment (some op) left right, t => t = left.type ∧ ∃ source signature way,
      BinarySignature.of? op left.type source = some signature ∧ right.ConvertedFrom source ∧
      right.type = signature.right ∧
      signature.result.conversion p.symbols left.type = .ok way ∧ way.isImplicit = true
  | .binary op left right, t => left.isError = false → right.isError = false →
      ∃ signature, OperandsFit op left right signature ∧
        t = if comparesNull op left right then signature.result.asNullable else signature.result
  | .unary op operand, t => op.accepts operand.type = true ∧ t = operand.type
  | .conditionalAccess _ access, t =>
      t = if access.type.isVoid then access.type else access.type.asNullable
  | .typeOf _, t => t = .primitive .type
  | .type, _ | .conditionalReceiver, _ | .templateValue _, _ => True
  | .error, _ => False

/-- The expression is an error or obeys its typing rule. -/
def Expr.WellTyped (e : Expr) : Prop := e.isError = false → e.kind.Fits p F e.type

/-- The expression obeys the typing rules at every depth. -/
abbrev Expr.Typed (e : Expr) : Prop := e.Everywhere (Expr.WellTyped p F)

variable {p F}

namespace Expr

theorem typed_error (node : NodeId) : (error node).Typed p F :=
  .intro (by simp [WellTyped]) (by simp [error, plain])

variable {e : Expr}

/-- An expression, unless something in it is an error. -/
theorem typed_ite {broken : Bool} {node : NodeId} (h : e.Typed p F) :
    (if broken then error node else e).Typed p F := by
  split
  · exact typed_error node
  · exact h

/-- An expression with no parts. -/
theorem typed_of_fits {kind : ExprKind} {t : Ty} {constant : Option Constant} {node : NodeId}
    (h : (mk kind t constant node).isError = false → kind.Fits p F t)
    (hparts : ∀ part ∈ kind.subexpressions, part.Typed p F) : (mk kind t constant node).Typed p F :=
  .intro h hparts

theorem Typed.withConstant (h : e.Typed p F) (constant : Option Constant) :
    (e.withConstant constant).Typed p F := .intro h.own h.parts

/-- A conversion that is possible. -/
theorem Typed.castTo (h : e.Typed p F) {target : Ty} {cast : Cast}
    (hcast : e.type.conversion p.symbols target = .ok cast) (hpossible : cast.isPossible = true) :
    (e.castTo target cast).Typed p F := by
  unfold Expr.castTo
  split
  · exact h
  · refine .intro (fun _ => ⟨hcast, hpossible⟩) fun part hpart => ?_
    obtain rfl := List.mem_singleton.1 hpart
    exact h

theorem convertedFrom_castTo (e : Expr) (target : Ty) (cast : Cast) :
    (e.castTo target cast).ConvertedFrom e.type := by
  unfold Expr.castTo
  split
  · exact .inl rfl
  · exact .inr ⟨e, cast, rfl, rfl⟩

end Expr

theorem Cast.isPossible_of_isImplicit {cast : Cast} (h : cast.isImplicit = true) :
    cast.isPossible = true := by
  cases cast <;> simp_all [Cast.isImplicit, Cast.isPossible]

/-! ### Conversions and operators -/

variable {explicit : Bool}

/-- What a conversion gives has the type asked for and remembers the type before. -/
theorem Converts.type_eq {target : Ty} (h : Converts p explicit e target e' trace)
    (he' : e'.isError = false) (ht : target.isError = false) :
    e'.type = target ∧ e'.ConvertedFrom e.type := by
  cases h with
  | same h => simp [he', ht] at h
  | refused => simp at he'
  | done => exact ⟨e.type_castTo target _, e.convertedFrom_castTo target _⟩

theorem Converts.typed {target : Ty} (h : Converts p explicit e target e' trace)
    (he : e.Typed p F) : e'.Typed p F := by
  cases h with
  | same => exact he
  | refused => exact Expr.typed_error _
  | done _ _ hcast hpossible _ => exact (he.castTo hcast hpossible).withConstant _

theorem Checks.typed {kind : ValueKind} (h : Checks p kind e e' trace) (he : e.Typed p F) :
    e'.Typed p F := by
  cases h with
  | broken | passed => exact he
  | refused => exact Expr.typed_error _

theorem Assigns.typed {op : Option BinaryOp} (h : Assigns p left right node op e trace)
    (hleft : left.Typed p F) (hright : right.Typed p F) :
    e.Typed p F := by
  cases h with
  | broken | refused => exact Expr.typed_error _
  | plain hl hr hconverts hv =>
    obtain ⟨htype, -⟩ := hconverts.type_eq hv (Expr.isError_of_type hl)
    refine Expr.typed_of_fits (fun _ => ⟨htype, rfl⟩) ?_
    simpa using ⟨hleft, hconverts.typed hright⟩
  | compound hl hr hsignature hcast himplicit hconverts hv =>
    obtain ⟨-, hnoError, -⟩ := BinarySignature.of?_isError hsignature (Expr.isError_of_type hl)
      (Expr.isError_of_type hr)
    obtain ⟨htype, hfrom⟩ := hconverts.type_eq hv hnoError
    refine Expr.typed_of_fits (fun _ => ⟨rfl, _, _, _, hsignature, hfrom, htype, hcast, himplicit⟩) ?_
    simpa using ⟨hleft, hconverts.typed hright⟩

/-- The converted sides of an operator. -/
theorem operandsFit {op : BinaryOp} {a b : Expr} {signature : BinarySignature}
    {first second : Trace} (hl : left.isError = false) (hr : right.isError = false)
    (hsignature : BinarySignature.of? op left.type right.type = some signature)
    (ha : Converts p false left signature.left a first)
    (hb : Converts p false right signature.right b second) (hae : a.isError = false)
    (hbe : b.isError = false) : OperandsFit op a b signature := by
  obtain ⟨hlne, hrne, -⟩ := BinarySignature.of?_isError hsignature (Expr.isError_of_type hl)
    (Expr.isError_of_type hr)
  obtain ⟨hatype, hafrom⟩ := ha.type_eq hae hlne
  obtain ⟨hbtype, hbfrom⟩ := hb.type_eq hbe hrne
  exact ⟨left.type, right.type, hsignature, hafrom, hbfrom, hatype, hbtype⟩

theorem Combines.typed {op : BinaryOp} (h : Combines p op left right node e trace)
    (hleft : left.Typed p F) (hright : right.Typed p F) :
    e.Typed p F := by
  cases h with
  | broken | refused => exact Expr.typed_error _
  | done hl hr hsignature ha hb hnull =>
    refine Expr.typed_of_fits (fun _ hae hbe => ⟨_, operandsFit hl hr hsignature ha hb hae hbe, ?_⟩) ?_
    · rw [if_neg (by simp [hnull])]
    · simpa using ⟨ha.typed hleft, hb.typed hright⟩
  | null hl hr hsignature ha hb hnull =>
    refine Expr.typed_of_fits (fun _ hae hbe => ⟨_, operandsFit hl hr hsignature ha hb hae hbe, ?_⟩) ?_
    · rw [if_pos hnull]
    · simpa using ⟨ha.typed hleft, hb.typed hright⟩

theorem Negates.typed {op : UnaryOp} {operand : Expr} (h : Negates op operand node e trace)
    (hoperand : operand.Typed p F) : e.Typed p F := by
  cases h with
  | broken | refused => exact Expr.typed_error _
  | done _ haccepts =>
    refine Expr.typed_of_fits (fun _ => ⟨haccepts, rfl⟩) ?_
    simpa using hoperand

/-! ### Arguments of calls -/

namespace Candidate

variable {α : Type}

/-- Where the argument for a parameter comes from. -/
def Passes (symbols : SymbolTable) (arguments : List Argument) (parameter : CandidateParameter)
    (e : Expr) : Prop :=
  parameter.defaultValue = some e ∨ ∃ a ∈ arguments, ∃ cast,
    a.expression.type.conversion symbols parameter.type = .ok cast ∧ cast.isImplicit = true ∧
      e = a.expression.castTo parameter.type cast

/-- The arguments of an applicable candidate, one for each parameter. -/
theorem passes_of_apply (c : Candidate α) {symbols : SymbolTable} {arguments : List Argument}
    {passed : List Expr} {cost : Nat}
    (h : (c.apply symbols arguments).run = .ok (.ok (passed, cost))) :
    List.Forall₂ (Passes symbols arguments) c.parameters passed := by
  obtain ⟨hlength, slot, -, hassigned, hothers⟩ := exists_assigns_of_apply h
  refine List.forall₂_iff_get.2 ⟨hlength.symm, fun n hn hn' => ?_⟩
  have hpassed : passed[n]? = some (passed.get ⟨n, hn'⟩) := by simp
  by_cases hslot : ∃ i, slot i = ⟨n, hn⟩
  · obtain ⟨i, hi⟩ := hslot
    obtain ⟨e, he, cast, hcast, himplicit, hvalue⟩ := hassigned i
    rw [hi] at he hcast hvalue
    obtain rfl := Option.mem_unique he hpassed
    exact .inr ⟨arguments.get i, List.get_mem _ _, cast, hcast, himplicit, hvalue⟩
  · obtain ⟨e, he, hdefault⟩ := hothers ⟨n, hn⟩ fun i hi => hslot ⟨i, hi⟩
    obtain rfl := Option.mem_unique he hpassed
    exact .inl hdefault

end Candidate

/-- A signature that is seen from inside itself has no types. -/
theorem SeesSignature.published_or_error {method : SymbolId} {signature : Signature}
    (h : SeesSignature p F f method signature) :
    (∃ known, F.signatures.get? method = some known ∧ known.value = signature) ∨
      signature.returnType.isError = true ∧ ∀ t ∈ signature.parameters, t.isError = true := by
  refine h.imp_right fun ⟨_, _, hunknown⟩ => ?_
  unfold Program.unknownSignature at hunknown
  cases hids : p.symbols.parameters method with
  | error => simp [hids, bind, Except.bind] at hunknown
  | ok ids =>
    rw [hids] at hunknown
    obtain rfl := Except.ok.inj hunknown
    refine ⟨rfl, fun t ht => ?_⟩
    obtain ⟨_, -, rfl⟩ := List.mem_map.1 ht
    rfl

variable {arguments : List Argument} {passed : List Expr} {types : List Ty}

/-- Arguments that were passed fit the types that the candidate was seen with. -/
theorem ArgumentsFit.of_passes {isDefault : Nat → Expr → Prop}
    (h : List.Forall₂ (Candidate.Passes p.symbols arguments) parameters passed)
    (htypes : ∀ (i : Nat) (q : CandidateParameter), parameters[i]? = some q →
      types[i]? = some q.type ∨ q.type.isError = true)
    (hdefaults : ∀ (i : Nat) (q : CandidateParameter) (e : Expr), parameters[i]? = some q →
      q.defaultValue = some e → e.isError = false → isDefault i e) :
    ArgumentsFit types isDefault passed := by
  intro i e he hne
  obtain ⟨q, hq, hpasses⟩ := exists_getElem?_of_forall₂ h he
  rcases hpasses with hdefault | ⟨a, -, cast, -, -, rfl⟩
  · exact .inr (hdefaults i q e hq hdefault hne)
  · rw [Expr.type_castTo]
    refine .inl ((htypes i q hq).resolve_right fun herror => ?_)
    have hok := Expr.isError_of_type hne
    rw [Expr.type_castTo, herror] at hok
    simp at hok

/-- What is passed is typed where the arguments and the default values are. -/
theorem typed_of_passes (h : List.Forall₂ (Candidate.Passes p.symbols arguments) parameters passed)
    (harguments : ∀ a ∈ arguments, a.expression.Typed p F)
    (hdefaults : ∀ (i : Nat) (q : CandidateParameter) (e : Expr), parameters[i]? = some q →
      q.defaultValue = some e → e.Typed p F) : ∀ e ∈ passed, e.Typed p F := by
  intro e he
  obtain ⟨i, hi⟩ := List.mem_iff_getElem?.1 he
  obtain ⟨q, hq, hpasses⟩ := exists_getElem?_of_forall₂ h hi
  rcases hpasses with hdefault | ⟨a, ha, cast, hcast, himplicit, rfl⟩
  · exact hdefaults i q e hq hdefault
  · exact (harguments a ha).castTo hcast (Cast.isPossible_of_isImplicit himplicit)

theorem getElem?_of_map_type {α : Type} {list : List α}
    (h : parameters.map (·.type) = (list.zip types).map (·.2)) {i : Nat} {q : CandidateParameter}
    (hq : parameters[i]? = some q) :
    types[i]? = some q.type ∧ ∃ a, list[i]? = some a := by
  have hi : ((list.zip types).map (·.2))[i]? = some q.type := by
    rw [← h, List.getElem?_map, hq]
    rfl
  rw [List.getElem?_map] at hi
  obtain ⟨⟨a, t⟩, hpair, rfl⟩ := Option.map_eq_some_iff.1 hi
  obtain ⟨ha, ht⟩ := List.getElem?_zip_eq_some.1 hpair
  exact ⟨ht, a, ha⟩

/-! ### Derivations -/

theorem exists_of_getD_isError {t : Option Ty} (h : (t.getD .error).isError = false) :
    ∃ u, t = some u := by
  cases t with
  | none => simp [Ty.isError, Ty.error] at h
  | some u => exact ⟨u, rfl⟩

/-- The type of a local is the published one, unless it is an error. -/
theorem Expr.typed_local {g : Findings} (hF : g.Grows F) {target : Local} :
    (mk (.localVariable target) ((g.localType? target).getD .error) none node).Typed p F := by
  refine typed_of_fits (fun hne => ?_) (by simp)
  obtain ⟨t, ht⟩ := exists_of_getD_isError (isError_of_type hne)
  change F.localType? target = some ((g.localType? target).getD .error)
  rw [ht, Option.getD_some]
  exact hF.localTypes ht

/-- A default value that is no error is the published one. -/
theorem Derives.isDefaultOf {ids : List SymbolId} {i : Nat} {id : SymbolId}
    (h : Derives p F f (.default ids[i]? e) []) (hid : ids[i]? = some id) (he : e.isError = false) :
    IsDefaultOf F ids i e := by
  generalize hfound : ids[i]? = found at h
  cases h with
  | missingDefault | unboundDefault => simp at he
  | default hpublished _ =>
    obtain ⟨known, hknown, hvalue⟩ := hpublished id (hfound.symm.trans hid)
    exact ⟨id, known, hid, hknown, hvalue⟩

variable (p F) in
/-- What a judgement says of the types of expressions. -/
def Judgement.Typed : Judgement → Prop
  | .argumentValue _ _ e | .name _ _ _ e | .default _ e | .unchecked _ _ _ e | .expression _ _ _ e =>
      e.Typed p F
  | .converted _ _ target e =>
      e.Typed p F ∧ (e.isError = false → target.isError = false → e.type = target)
  | .members _ receiver _ _ e => (∀ r ∈ receiver.toList, r.Typed p F) → e.Typed p F
  | .access _ receiver _ _ e => receiver.Typed p F → e.Typed p F
  | .call _ callee args _ e => callee.Typed p F →
      (∀ a ∈ args, a.expression.Typed p F) → e.Typed p F
  | .operands _ _ args => ∀ a ∈ args, a.expression.Typed p F
  | _ => True

/-- Everything that is derived obeys the typing rules. -/
theorem Derives.typed {j : Judgement} (h : Derives p F f j trace) :
    j.Typed p F := by
  induction h with
  | nameArgument _ _ hchecks ih => exact hchecks.typed ih
  | expressionArgument _ ih => exact ih
  | refusedArgument | refusedName | refusedExpression | noExpression => exact Expr.typed_error _
  | localVariable _ _ _ _ hF => exact Expr.typed_local hF
  | constantLocal _ _ _ htype _ _ hF =>
    exact Expr.typed_of_fits (fun _ => hF.localTypes htype) (by simp)
  | localFunction => exact Expr.typed_of_fits (fun _ => rfl) (by simp)
  | parameter _ hmethod hdata hsignature =>
    refine Expr.typed_of_fits (fun hne => ?_) (by simp)
    have hok := Expr.isError_of_type hne
    obtain ⟨t, ht⟩ := exists_of_getD_isError hok
    rcases hsignature.published_or_error with ⟨known, hknown, rfl⟩ | ⟨-, herror⟩
    · exact ⟨_, _, known, hmethod, hdata, hknown, by rw [ht, Option.getD_some]⟩
    · rw [Expr.type_mk, ht, Option.getD_some, herror t (List.mem_of_getElem? ht)] at hok
      simp at hok
  | strayParameter => exact Expr.typed_of_fits (by simp [Expr.isError, Ty.isError, Ty.error]) (by simp)
  | templateValue | templateType | primitiveName =>
    exact Expr.typed_of_fits (fun _ => trivial) (by simp)
  | memberName _ _ ih => exact ih (by simp)
  | methods => exact fun hreceiver => Expr.typed_of_fits (fun _ => rfl) hreceiver
  | field _ _ _ htype => exact fun hreceiver => Expr.typed_of_fits (fun _ => ⟨_, htype, rfl⟩) hreceiver
  | constantField _ _ _ htype =>
    exact fun hreceiver => Expr.typed_of_fits (fun _ => ⟨_, htype, rfl⟩) hreceiver
  | badConstantField _ _ _ htype =>
    exact fun hreceiver => Expr.typed_of_fits (fun _ => ⟨_, htype, rfl⟩) hreceiver
  | typeMember => exact fun _ => Expr.typed_of_fits (fun _ => trivial) (by simp)
  | refusedMember | brokenAccess | refusedAccess => exact fun _ => Expr.typed_error _
  | access _ _ _ _ ih =>
    intro hreceiver
    refine ih fun r hr => ?_
    split at hr
    · simp at hr
    · obtain rfl : r = _ := by simpa using hr
      exact hreceiver
  | missingDefault | unboundDefault => exact Expr.typed_error _
  | default _ _ ih => exact ih.1
  | brokenCall | refusedCall => exact fun _ _ => Expr.typed_error _
  | @methodCall _ ids _ _ _ passed _ _ _ _ _ receiver candidate _ hcallee _ hids hsignature htypes
    hdefaults happly hresult _ ih =>
    intro htyped harguments
    have hpasses := candidate.passes_of_apply happly
    refine Expr.typed_of_fits (fun hne => ?_) fun part hpart => ?_
    · rcases hresult.published_or_error with ⟨known, hknown, rfl⟩ | ⟨herror, -⟩
      · refine ⟨ids, known, hids, hknown, rfl, .of_passes hpasses (fun i q hq => ?_) ?_⟩
        · obtain ⟨htype, -⟩ := getElem?_of_map_type htypes hq
          rcases hsignature.published_or_error with ⟨known', hknown', rfl⟩ | ⟨-, herror⟩
          · obtain rfl := Option.mem_unique hknown hknown'
            exact .inl htype
          · exact .inr (herror _ (List.mem_of_getElem? htype))
        · intro i q e hq he hne
          obtain ⟨-, id, hid⟩ := getElem?_of_map_type htypes hq
          exact (hdefaults i q e hq he).isDefaultOf hid hne
      · have hok := Expr.isError_of_type hne
        rw [Expr.type_mk, herror] at hok
        simp at hok
    · rcases List.mem_append.1 hpart with hpart | hpart
      · exact htyped.parts part (by rw [hcallee]; exact hpart)
      · exact typed_of_passes hpasses harguments ih part hpart
  | @functionCall _ _ _ _ _ _ _ _ _ candidate hcallee _ hsignature htypes hpublished _ happly ih =>
    intro htyped harguments
    have hpasses := candidate.passes_of_apply happly
    refine Expr.typed_of_fits (fun _ => ⟨_, hsignature, rfl, .of_passes hpasses (fun i q hq => ?_) ?_⟩)
      (typed_of_passes hpasses harguments ih)
    · exact .inl (getElem?_of_map_type htypes hq).1
    · exact fun i q e hq he _ => hpublished i q e hq he
  | noOperands => simp [Judgement.Typed]
  | nextOperand _ _ ih ihrest =>
    intro a ha
    rcases List.mem_cons.1 ha with rfl | ha
    · exact ih
    · exact ihrest a ha
  | @literal node value _ _ _ _ =>
    have htype : (Expr.ofLiteral value node).type = (Expr.ofLiteral value 0).type := by
      unfold Expr.ofLiteral
      split <;> rfl
    have hkind : (Expr.ofLiteral value node).kind = .literal := by
      unfold Expr.ofLiteral
      split <;> rfl
    refine .intro (fun _ => ?_) (by simp [hkind])
    rw [hkind]
    exact ⟨value, htype⟩
  | identifier _ _ ih => exact ih
  | memberAccess _ _ _ ihreceiver ih => exact ih ihreceiver
  | brokenConditional => exact Expr.typed_error _
  | conditionalAccess _ _ _ _ ihreceiver ih =>
    refine Expr.typed_ite (Expr.typed_of_fits (fun _ => rfl) ?_)
    simpa using ⟨ihreceiver, ih⟩
  | memberBinding _ _ hkind _ _ ih =>
    refine ih (.intro (fun _ => ?_) (by simp [hkind]))
    rw [hkind]
    trivial
  | call _ _ _ _ ihcallee iharguments ih => exact ih ihcallee iharguments
  | argumentNode _ _ ih => exact ih
  | assignment _ _ _ h ihleft ihright => exact h.typed ihleft ihright
  | binary _ _ _ h ihleft ihright => exact h.typed ihleft ihright
  | unary _ _ h ih => exact h.typed ih
  | cast _ _ _ h _ ih => exact h.typed ih
  | typeOf =>
    exact Expr.typed_ite (Expr.typed_of_fits (fun _ => rfl) (by simp))
  | typeExpression =>
    exact Expr.typed_ite (Expr.typed_of_fits (fun _ => trivial) (by simp))
  | expression _ hchecks ih => exact hchecks.typed ih
  | converted _ hconverts ih =>
    exact ⟨hconverts.typed ih, fun hne ht => (hconverts.type_eq hne ht).1⟩
  | _ => trivial

end Bindery
