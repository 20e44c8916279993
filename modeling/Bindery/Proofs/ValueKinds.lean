import Bindery.Proofs.CompilationReports
import Bindery.Proofs.StatementTyping

/-! # Values and places

Whatever bound code reads has a value, and whatever it writes to is a place.

* `Expr.IsPlace` says that an expression is a variable that may be written to.
* `ExprKind.UsesValues` says of one expression that the parts it reads have values and the part it
  writes to is a place, and `Expr.UsesValues` says it at every depth.
* A position asks for a value or a place when the expression in it is bound; a conversion may
  follow. It leads to a type other than `void`, because variables and parameters have no other
  (`Tidy`). -/

namespace Bindery

variable {p : Program} {F : Findings}

/-! ### Rules -/

/-- A variable that may be written to. -/
def Expr.IsPlace (p : Program) (e : Expr) : Prop :=
  match e.kind with
  | .localVariable target => target.isConstant = false
  | .parameter _ => True
  | .field _ field => p.symbols.isConstantField field = .ok false
  | _ => False

/-- What an expression of this kind reads has a value, and what it writes to is a place. -/
def ExprKind.UsesValues (p : Program) : ExprKind → Prop
  | .call _ _ arguments | .localCall _ arguments => ∀ e ∈ arguments, e.IsValue
  | .cast operand _ => operand.IsValue
  | .assignment _ left right => left.IsPlace p ∧ right.IsValue
  | .binary _ left right => left.IsValue ∧ right.IsValue
  | .unary op operand => operand.IsValue ∧ (op.writesBack = true → operand.IsPlace p)
  | .conditionalAccess receiver _ => receiver.IsValue
  | _ => True

/-- The expression and all expressions in it use values. -/
abbrev Expr.UsesValues (p : Program) (e : Expr) : Prop := e.Everywhere fun e => e.kind.UsesValues p

namespace Statement

/-- The expressions whose values a statement reads. -/
def values : Statement → List Expr
  | localDeclaration _ initializer => initializer.toList
  | ifElse condition _ _ | whileLoop condition _ _ _ => [condition]
  | returnValue value => value.toList
  | _ => []

/-- The expressions of a statement. -/
def expressions : Statement → List Expr
  | expression e => [e]
  | s => s.values

/-- The statements that a statement consists of. -/
def substatements : Statement → List Statement
  | block statements _ | localFunction _ statements _ => statements
  | ifElse _ thenStatement elseStatement => thenStatement :: elseStatement.toList
  | whileLoop _ body _ _ => [body]
  | tryCatch body catchBody finallyBody => body :: (catchBody.toList ++ finallyBody.toList)
  | labeled _ statement => [statement]
  | _ => []

inductive UsesValues (p : Program) : Statement → Prop
  | intro {s : Statement} (values : ∀ e ∈ s.values, e.IsValue)
      (expressions : ∀ e ∈ s.expressions, e.UsesValues p)
      (parts : ∀ part ∈ s.substatements, UsesValues p part) : UsesValues p s

end Statement

/-- The code of a global scope and the default values of parameters use values. -/
structure GlobalScope.UsesValues (p : Program) (F : Findings) (scope : GlobalScope) : Prop where
  bodies : ∀ entry ∈ scope.bodies, ∀ s ∈ entry.2.statements, s.UsesValues p
  statements : ∀ s ∈ scope.statements, s.UsesValues p
  initializers : ∀ entry ∈ scope.initializers, entry.2.IsValue ∧ entry.2.UsesValues p
  defaults : ∀ parameter known, F.defaults.get? parameter = some known →
    ∀ e ∈ known.value, e.IsValue ∧ e.UsesValues p
  functionDefaults : ∀ key values, F.functionDefaults.get? key = some values →
    ∀ e, some e ∈ values → e.IsValue ∧ e.UsesValues p

/-! ### Positions -/

theorem UnaryOp.isVoid_of_accepts {op : UnaryOp} {t : Ty} (h : op.accepts t = true) :
    t.isVoid = false := by
  unfold accepts at h
  cases hprimitive : t.primitive? with
  | none => simp [Ty.isVoid, Ty.isPrimitive, hprimitive]
  | some q =>
    cases q <;> split at h <;>
      simp_all [Ty.isVoid, Ty.isPrimitive, Ty.isNumeric, Primitive.isNumeric]

namespace Expr

/-- An expression with no parts. -/
theorem usesValues_of_leaf {kind : ExprKind} {t : Ty} {constant : Option Constant} {node : NodeId}
    (h : kind.UsesValues p) (hparts : kind.subexpressions = []) :
    (mk kind t constant node).UsesValues p := .intro h (hparts ▸ by simp)

theorem usesValues_error (node : NodeId) : (error node).UsesValues p := usesValues_of_leaf trivial rfl

variable {e : Expr}

theorem usesValues_ite {broken : Bool} {node : NodeId} (h : e.UsesValues p) :
    (if broken then error node else e).UsesValues p := by
  split
  · exact usesValues_error node
  · exact h

theorem IsPlace.isValue (h : e.IsPlace p) (ht : e.type.isVoid = false) : e.IsValue := by
  intro _
  unfold IsPlace at h
  unfold isMethods isType
  split at h <;> simp_all

/-- No variable is of type `void`. -/
theorem IsPlace.isVoid_eq_false (tidy : Tidy p F) (h : e.IsPlace p) (he : e.WellTyped p F)
    (hne : e.isError = false) : e.type.isVoid = false := by
  have hfits := he hne
  unfold IsPlace at h
  split at h
  · next target hkind =>
    rw [hkind] at hfits
    exact tidy.localTypes hfits
  · next parameter hkind =>
    rw [hkind] at hfits
    obtain ⟨_, _, known, -, -, hknown, ht⟩ := hfits
    exact (tidy.signatures hknown).1 _ (List.mem_of_getElem? ht)
  · next field hkind =>
    rw [hkind] at hfits
    obtain ⟨known, hknown, ht⟩ := hfits
    exact ht ▸ (tidy.fieldTypes hknown).1
  · exact h.elim

/-- What stands in a position of this kind. -/
structure Stands (p : Program) (kind : ValueKind) (e : Expr) : Prop where
  uses : e.UsesValues p
  value : kind = .rvalue → e.IsValue
  place : kind.needsPlace = true → e.isError = false → e.IsPlace p

theorem stands_error (kind : ValueKind) (node : NodeId) : (error node).Stands p kind :=
  ⟨usesValues_error node, fun _ => isValue_error node, fun _ h => by simp at h⟩

/-- A value in any position that asks for one. -/
theorem UsesValues.stands (h : e.UsesValues p) (hvalue : e.IsValue) :
    e.Stands p .rvalue := ⟨h, fun _ => hvalue, fun h => by cases h⟩

/-- A conversion reads its operand. -/
theorem Stands.castTo (h : e.Stands p .rvalue) (target : Ty) (cast : Cast) :
    (e.castTo target cast).UsesValues p := by
  unfold Expr.castTo
  split
  · exact h.uses
  · refine .intro (h.value rfl) fun part hpart => ?_
    obtain rfl := List.mem_singleton.1 hpart
    exact h.uses

end Expr

variable {chain : Chain} {e : Expr} {f : Findings} {node : NodeId} {trace : Trace}

theorem isPlace_of_placeError? (h : p.placeError? e = .ok none) : e.IsPlace p := by
  unfold Program.placeError? at h
  split at h
  · next target hkind =>
    cases hconstant : target.isConstant with
    | false => simpa only [Expr.IsPlace, hkind] using hconstant
    | true => simp [hconstant, pure, Except.pure] at h
  · next hkind => simp only [Expr.IsPlace, hkind]
  · next field hkind =>
    obtain ⟨isConstant, hconstant, h⟩ := exists_of_bind_eq_ok h
    cases isConstant with
    | false => simpa only [Expr.IsPlace, hkind] using hconstant
    | true =>
      obtain ⟨_, -, h⟩ := exists_of_bind_eq_ok h
      cases h
  · cases h

variable {kind : ValueKind}

theorem Checks.stands {e' : Expr} (h : Checks p kind e e' trace)
    (he : e.UsesValues p) : e'.Stands p kind := by
  cases h with
  | broken herror =>
    exact ⟨he, fun _ h => by simp [herror] at h, fun _ h => by simp [herror] at h⟩
  | refused => exact Expr.stands_error kind _
  | passed _ hmeets =>
    refine ⟨he, ?_, fun hplace _ => ?_⟩
    · rintro rfl -
      have hlacks := hmeets rfl
      unfold Program.lacksValue at hlacks
      split at hlacks
      · cases hlacks
      · next hmethods => exact ⟨by simpa using hmethods, by simpa using hlacks⟩
    · unfold MeetsKind at hmeets
      rw [if_pos hplace] at hmeets
      exact isPlace_of_placeError? hmeets

/-! ### Conversions and operators -/

namespace Converts

variable {explicit : Bool} {e e' : Expr} {target : Ty} {trace : Trace}

theorem usesValues (h : Converts p explicit e target e' trace) (he : e.Stands p .rvalue) :
    e'.UsesValues p := by
  cases h with
  | same => exact he.uses
  | refused => exact Expr.usesValues_error _
  | done =>
    have hcast := he.castTo target
    exact .intro (hcast _).own (hcast _).parts

theorem stands (h : Converts p explicit e target e' trace) (he : e.Stands p .rvalue)
    (ht : target.isVoid = false) : e'.Stands p .rvalue := by
  refine (h.usesValues he).stands ?_
  cases h with
  | same => exact he.value rfl
  | refused => exact Expr.isValue_error _
  | done => exact (he.value rfl).castTo ht _ _

end Converts

/-- An assignment converts its right side to the type of a variable. -/
theorem Assigns.usesValues (tidy : Tidy p F) {left right : Expr} {op : Option BinaryOp}
    (h : Assigns p left right node op e trace) (hleft : left.Stands p kind)
    (hkind : kind.needsPlace = true) (htyped : left.WellTyped p F)
    (hright : right.Stands p .rvalue) : e.UsesValues p := by
  have done : ∀ {value : Expr}, left.isError = false → value.Stands p .rvalue →
      (Expr.plain (.assignment op left value) left.type node).UsesValues p := by
    intro value hl hvalue
    refine .intro ⟨hleft.place hkind hl, hvalue.value rfl⟩ ?_
    simpa [Expr.plain] using ⟨hleft.uses, hvalue.uses⟩
  have hvoid : left.isError = false → left.type.isVoid = false := fun hl =>
    (hleft.place hkind hl).isVoid_eq_false tidy htyped hl
  cases h with
  | broken | refused => exact Expr.usesValues_error _
  | plain hl _ hconverts _ => exact done hl (hconverts.stands hright (hvoid hl))
  | compound hl hr hsignature _ _ hconverts _ =>
    obtain ⟨-, hv, -⟩ := BinarySignature.of?_isVoid hsignature (hvoid hl) (hright.value rfl hr).2.2
    exact done hl (hconverts.stands hright hv)

theorem Combines.usesValues {op : BinaryOp} {left right : Expr}
    (h : Combines p op left right node e trace) (hleft : left.Stands p .rvalue)
    (hright : right.Stands p .rvalue) : e.UsesValues p := by
  have done : ∀ {signature : BinarySignature} {a b : Expr} {first second : Trace} {t : Ty}
      {constant : Option Constant}, left.isError = false → right.isError = false →
      BinarySignature.of? op left.type right.type = some signature →
      Converts p false left signature.left a first → Converts p false right signature.right b second →
      (Expr.mk (.binary op a b) t constant node).UsesValues p := by
    intro signature a b _ _ _ _ hl hr hsignature ha hb
    obtain ⟨hlv, hrv, -⟩ := BinarySignature.of?_isVoid hsignature (hleft.value rfl hl).2.2
      (hright.value rfl hr).2.2
    have ha := ha.stands hleft hlv
    have hb := hb.stands hright hrv
    refine .intro ⟨ha.value rfl, hb.value rfl⟩ ?_
    simpa using ⟨ha.uses, hb.uses⟩
  cases h with
  | broken | refused => exact Expr.usesValues_error _
  | done hl hr hsignature ha hb => exact done hl hr hsignature ha hb
  | null hl hr hsignature ha hb => exact done hl hr hsignature ha hb

theorem Negates.usesValues {op : UnaryOp} {operand : Expr} (h : Negates op operand node e trace)
    (hoperand : operand.Stands p (if op.writesBack then .increment else .rvalue)) :
    e.UsesValues p := by
  cases h with
  | broken | refused => exact Expr.usesValues_error _
  | done hok haccepts =>
    refine .intro ?_ (by simpa using hoperand.uses)
    cases hwrites : op.writesBack with
    | false =>
      rw [hwrites] at hoperand
      exact ⟨hoperand.value rfl, fun h => by cases hwrites.symm.trans h⟩
    | true =>
      rw [hwrites] at hoperand
      have hplace := hoperand.place rfl hok
      exact ⟨hplace.isValue (UnaryOp.isVoid_of_accepts haccepts), fun _ => hplace⟩

/-! ### Arguments of calls -/

variable {signature : Signature} {method : SymbolId}

/-- No parameter is of type `void`. -/
theorem SeesSignature.proper (tidy : Tidy p F)
    (h : SeesSignature p F f method signature) : signature.Proper := by
  rcases h.published_or_error with ⟨known, hknown, rfl⟩ | ⟨-, herrors⟩
  · exact (tidy.signatures hknown).1
  · exact fun t ht => Ty.isVoid_of_isError (herrors t ht)

variable {parameters : List CandidateParameter}

theorem isVoid_of_map_type {α : Type} {list : List α} (proper : signature.Proper)
    (h : parameters.map (·.type) = (list.zip signature.parameters).map (·.2)) {i : Nat}
    {q : CandidateParameter} (hq : parameters[i]? = some q) : q.type.isVoid = false :=
  proper _ (List.mem_of_getElem? (getElem?_of_map_type h hq).1)

/-- What is passed has a value where the arguments and the default values have one. -/
theorem stands_of_passes {arguments : List Argument} {passed : List Expr}
    (h : List.Forall₂ (Candidate.Passes p.symbols arguments) parameters passed)
    (harguments : ∀ a ∈ arguments, a.expression.Stands p .rvalue)
    (htypes : ∀ (i : Nat) (q : CandidateParameter), parameters[i]? = some q → q.type.isVoid = false)
    (hdefaults : ∀ (i : Nat) (q : CandidateParameter) (e : Expr), parameters[i]? = some q →
      q.defaultValue = some e → e.Stands p .rvalue) : ∀ e ∈ passed, e.Stands p .rvalue := by
  intro e he
  obtain ⟨i, hi⟩ := List.mem_iff_getElem?.1 he
  obtain ⟨q, hq, hpasses⟩ := exists_getElem?_of_forall₂ h hi
  rcases hpasses with hdefault | ⟨a, ha, cast, -, -, rfl⟩
  · exact hdefaults i q e hq hdefault
  · have hcast := ((harguments a ha).value rfl).castTo (htypes i q hq) cast none
    exact ((harguments a ha).castTo q.type cast).stands hcast

/-! ### Derivations -/

variable (p) in
/-- What a judgement says of the values that expressions use. -/
def Judgement.UsesValues : Judgement → Prop
  | .argumentValue _ _ e | .name _ _ _ e | .default _ e | .unchecked _ _ _ e => e.UsesValues p
  | .expression _ _ kind e => e.Stands p kind
  | .converted _ _ target e => e.UsesValues p ∧ (target.isVoid = false → e.IsValue)
  | .members _ receiver _ _ e => (∀ r ∈ receiver.toList, r.UsesValues p) → e.UsesValues p
  | .access _ receiver _ _ e => receiver.UsesValues p → e.UsesValues p
  | .call _ callee args _ e => callee.UsesValues p →
      (∀ a ∈ args, a.expression.Stands p .rvalue) → e.UsesValues p
  | .operands _ _ args => ∀ a ∈ args, a.expression.Stands p .rvalue
  | _ => True

/-- Everything that is derived uses values. -/
theorem Derives.usesValues (tidy : Tidy p F) {j : Judgement} (h : Derives p F f j trace) :
    j.UsesValues p := by
  induction h with
  | nameArgument _ _ hchecks ih => exact (hchecks.stands ih).uses
  | expressionArgument _ ih => exact ih.uses
  | refusedArgument | refusedName | refusedExpression | noExpression => exact Expr.usesValues_error _
  | localVariable | constantLocal | localFunction | parameter | strayParameter | templateValue
  | templateType | primitiveName => exact Expr.usesValues_of_leaf trivial rfl
  | memberName _ _ ih => exact ih (by simp)
  | methods | field | constantField | badConstantField => exact fun hreceiver => .intro trivial hreceiver
  | typeMember => exact fun _ => Expr.usesValues_of_leaf trivial rfl
  | refusedMember | brokenAccess | refusedAccess => exact fun _ => Expr.usesValues_error _
  | access _ _ _ _ ih =>
    intro hreceiver
    refine ih fun r hr => ?_
    split at hr
    · simp at hr
    · obtain rfl : r = _ := by simpa using hr
      exact hreceiver
  | missingDefault | unboundDefault => exact Expr.usesValues_error _
  | default _ _ ih => exact ih.1
  | brokenCall | refusedCall => exact fun _ _ => Expr.usesValues_error _
  | @methodCall _ ids _ _ _ passed _ _ _ _ _ receiver candidate _ hcallee _ hids hsignature htypes
    hdefaults happly _ _ ih =>
    intro hcalleeUses harguments
    have hpassed := stands_of_passes (candidate.passes_of_apply happly) harguments
      (fun i q hq => isVoid_of_map_type (hsignature.proper tidy) htypes hq) fun i q e hq he => by
        refine (ih i q e hq he).stands fun hne => ?_
        obtain ⟨-, id, hid⟩ := getElem?_of_map_type htypes hq
        obtain ⟨_, known, -, hknown, hvalue⟩ := (hdefaults i q e hq he).isDefaultOf hid hne
        exact (tidy.defaults hknown).1 e hvalue hne
    refine .intro (fun e he => (hpassed e he).value rfl) fun part hpart => ?_
    rcases List.mem_append.1 hpart with hpart | hpart
    · exact hcalleeUses.parts part (by rw [hcallee]; exact hpart)
    · exact (hpassed part hpart).uses
  | @functionCall _ _ _ _ _ _ _ _ _ candidate hcallee _ hsignature htypes hpublished _ happly ih =>
    intro _ harguments
    have hpassed := stands_of_passes (candidate.passes_of_apply happly) harguments
      (fun i q hq => isVoid_of_map_type (tidy.functionSignatures hsignature) htypes hq)
      fun i q e hq he => by
        obtain ⟨values, hvalues, hvalue⟩ := hpublished i q e hq he
        exact (ih i q e hq he).stands
          (tidy.functionDefaults hvalues e (List.mem_of_getElem? hvalue))
    exact .intro (fun e he => (hpassed e he).value rfl) fun part hpart => (hpassed part hpart).uses
  | noOperands => simp [Judgement.UsesValues]
  | nextOperand _ _ ih ihrest =>
    intro a ha
    rcases List.mem_cons.1 ha with rfl | ha
    · exact ih
    · exact ihrest a ha
  | @literal node value _ _ _ _ =>
    have hkind : (Expr.ofLiteral value node).kind = .literal := by
      unfold Expr.ofLiteral
      split <;> rfl
    exact .intro (by rw [hkind]; trivial) (by simp [hkind])
  | identifier _ _ ih => exact ih
  | memberAccess _ _ _ ihreceiver ih => exact ih ihreceiver.uses
  | brokenConditional => exact Expr.usesValues_error _
  | conditionalAccess _ _ _ _ ihreceiver ih =>
    refine Expr.usesValues_ite (.intro (ihreceiver.value rfl) ?_)
    simpa [Expr.plain] using ⟨ihreceiver.uses, ih.uses⟩
  | memberBinding _ _ hkind _ _ ih =>
    exact ih (.intro (by rw [hkind]; trivial) (by simp [hkind]))
  | call _ _ _ _ ihcallee iharguments ih => exact ih ihcallee.uses iharguments
  | argumentNode _ _ ih => exact ih
  | assignment _ hleft _ h ihleft ihright =>
    exact h.usesValues tidy ihleft (by split <;> rfl) hleft.typed.own ihright
  | binary _ _ _ h ihleft ihright => exact h.usesValues ihleft ihright
  | unary _ _ h ih => exact h.usesValues ih
  | cast _ _ _ h _ ih => exact h.usesValues ih
  | typeOf | typeExpression => exact Expr.usesValues_ite (Expr.usesValues_of_leaf trivial rfl)
  | expression _ hchecks ih => exact hchecks.stands ih
  | converted _ hconverts ih =>
    exact ⟨hconverts.usesValues ih, fun ht => (hconverts.stands ih ht).value rfl⟩
  | _ => trivial

/-! ### Statements -/

theorem Derives.isVoid_of_variableType {t : Ty}
    (h : Derives p F f (.variableType chain node t) trace) : t.isVoid = false := by
  cases h with
  | variableType _ hvoid => exact hvoid
  | voidVariable => rfl

theorem Derives.stands (tidy : Tidy p F) {target : Ty}
    (h : Derives p F f (.converted chain node target e) trace) (ht : target.isVoid = false) :
    e.Stands p .rvalue :=
  have huses := h.usesValues tidy
  huses.1.stands (huses.2 ht)

/-- A local starts with a value. -/
theorem Initializes.stands (tidy : Tidy p F) {g : Findings} {scope : Chain}
    {type initializer : Option NodeId} {declared : Option Ty} {value : Option Expr}
    {first second : Trace} (h : Initializes p F f chain declared initializer value second)
    (hdeclared : NamesType p F g scope type declared first) : ∀ e ∈ value, e.Stands p .rvalue := by
  cases h with
  | none => simp
  | typed h =>
    rintro _ ⟨rfl⟩
    cases hdeclared with
    | some ht => exact h.stands tidy ht.isVoid_of_variableType
  | untyped h =>
    rintro _ ⟨rfl⟩
    exact h.usesValues tidy

variable (p) in
def Code.UsesValues : Code → Prop
  | .statement _ _ _ s => s.UsesValues p
  | .statements _ _ _ list => ∀ s ∈ list, s.UsesValues p
  | .block _ _ _ bound => ∀ s ∈ bound.statements, s.UsesValues p

namespace Statement

/-- A statement whose expressions all stand where values are read. -/
theorem UsesValues.of_stands {s : Statement} (hvalues : s.expressions = s.values)
    (h : ∀ e ∈ s.values, e.Stands p .rvalue) (parts : ∀ part ∈ s.substatements, part.UsesValues p) :
    s.UsesValues p :=
  .intro (fun e he => (h e he).value rfl) (fun e he => (h e (hvalues ▸ he)).uses) parts

end Statement

/-- Code that was bound uses values. -/
theorem Binds.usesValues (tidy : Tidy p F) {once : Prop} {code : Code}
    (h : Binds p once F f code trace) : code.UsesValues p := by
  induction h with
  | noStatements => simp [Code.UsesValues]
  | nextStatement _ _ _ _ ih ihrest =>
    intro s hs
    rcases List.mem_cons.1 hs with rfl | hs
    · exact ih
    · exact ihrest s hs
  | blockOfStatements _ _ _ _ _ ih => exact ih
  | blockOfOne _ _ _ ih =>
    intro s hs
    obtain rfl := List.mem_singleton.1 hs
    exact ih
  | block _ _ ih => exact .of_stands rfl (by simp [Statement.values]) ih
  | localDeclaration _ _ _ _ hdeclared hvalue _ _ _ _ =>
    refine .of_stands rfl (fun e he => ?_) (by simp [Statement.substatements])
    exact hvalue.stands tidy hdeclared e (Option.mem_toList.1 he)
  | localFunction _ _ _ _ _ _ ih =>
    exact .of_stands rfl (by simp [Statement.ofFunction, Statement.values]) ih
  | expression _ _ h =>
    refine .intro (by simp [Statement.values]) (fun e he => ?_) (by simp [Statement.substatements])
    obtain rfl := List.mem_singleton.1 he
    exact (h.usesValues tidy).uses
  | bareExpression _ h =>
    refine .intro (by simp [Statement.values]) (fun e he => ?_) (by simp [Statement.substatements])
    obtain rfl := List.mem_singleton.1 he
    exact (h.usesValues tidy).uses
  | ifElse _ _ hcondition _ _ _ _ ihthen ihelse =>
    refine .of_stands rfl (fun e he => ?_) fun s hs => ?_
    · obtain rfl := List.mem_singleton.1 he
      exact hcondition.stands tidy rfl
    · rcases List.mem_cons.1 hs with rfl | hs
      · exact ihthen
      · exact ihelse s hs
  | whileLoop _ _ _ hcondition _ _ ih =>
    refine .of_stands rfl (fun e he => ?_) fun s hs => ?_
    · obtain rfl := List.mem_singleton.1 he
      exact hcondition.stands tidy rfl
    · obtain rfl := List.mem_singleton.1 hs
      exact ih
  | tryCatch _ _ _ _ _ _ _ ihbody ihcatch ihfinally =>
    refine .of_stands rfl (by simp [Statement.values]) fun s hs => ?_
    rcases List.mem_cons.1 hs with rfl | hs
    · exact ihbody
    · exact (List.mem_append.1 hs).elim (ihcatch s) (ihfinally s)
  | labeled _ _ _ _ _ ih =>
    refine .of_stands rfl (by simp [Statement.values]) fun s hs => ?_
    obtain rfl := List.mem_singleton.1 hs
    exact ih
  | returnValue _ _ _ _ hvoid h =>
    refine .of_stands rfl (fun e he => ?_) (by simp [Statement.substatements])
    obtain rfl := List.mem_singleton.1 he
    exact h.stands tidy hvoid
  | breakTo | continueTo | goto | returnNothing | returnIgnored | refused =>
    exact .of_stands rfl (by simp [Statement.values]) (by simp [Statement.substatements])

/-! ### Global scopes -/

theorem BoundAfter.usesValues (tidy : Tidy p F) {once : Prop} {start : Findings}
    {diagnostics : DiagnosticQueue} {block : Block}
    (h : BoundAfter p once start F diagnostics (.body method block)) :
    ∀ s ∈ block.statements, s.UsesValues p := by
  obtain ⟨f, trace, -, -, hbody⟩ := h
  cases hbody with
  | script _ _ _ _ h => exact h.usesValues tidy
  | body _ _ _ h => exact h.usesValues tidy

namespace Compilation

variable {c : Compilation} {scope : GlobalScope}

theorem Explained.usesValues (h : c.Explained scope F) (sound : Sound c.program F)
    (tidy : Tidy c.program F) : scope.UsesValues c.program F := by
  obtain ⟨start, -, -, hparts⟩ := h.code
  constructor
  case bodies => exact fun entry hentry => (hparts.bodies entry hentry).usesValues tidy
  case statements =>
    intro s hs
    rcases hparts.statements with hnone | ⟨method, block, -, hblock, hbody⟩
    · simp [show scope.statements = [] from hnone] at hs
    · exact hbody.usesValues tidy s (by rw [hblock]; exact hs)
  case initializers =>
    intro entry hentry
    obtain ⟨f, trace, -, -, chain, node, known, -, hknown, hvalue⟩ := hparts.initializers entry hentry
    have hstands := hvalue.stands tidy (tidy.fieldTypes hknown).1
    exact ⟨hstands.value rfl, hstands.uses⟩
  case defaults =>
    intro parameter known hknown e he
    obtain ⟨g, t, trace, -, -, chain, node, first, second, -, hvalue⟩ :=
      (sound.defaults hknown F (.refl F)).2 e he
    exact ⟨(tidy.defaults hknown).1 e he, (hvalue.usesValues tidy).1⟩
  case functionDefaults =>
    intro key values hvalues e he
    obtain ⟨g, t, trace, chain, node, first, second, -, hvalue⟩ :=
      sound.functionDefaults hvalues F (.refl F) e he
    exact ⟨tidy.functionDefaults hvalues e he, (hvalue.usesValues tidy).1⟩

/-- Wherever the code of an accepted tree reads an expression, it is an error or has a value, and
whatever an assignment, an increment or a decrement writes to is a place. -/
theorem bound_code_usesValues {d : Document} {options : Options} {c : Compilation}
    {scope : GlobalScope} {F : Findings} (h : Compiles d options c scope F) :
    scope.UsesValues c.program F :=
  h.explained.usesValues h.sound h.tells.1

/-- `var x = 1; ++x;`. -/
def incrementDocument : Document := ⟨"increment", [
  .literal (.int 1), .localDeclaration "x" none false (some 0), .globalStatement 1,
  .identifier "x", .unary .increment 3, .globalStatement 4, .compilationUnit [2, 5]]⟩

def GlobalScope.hasIncrement (scope : GlobalScope) : Bool :=
  scope.bodies.any fun entry => entry.2.statements.any fun
    | .expression (.mk (.unary .increment _) _ _ _) => true
    | _ => false

set_option maxRecDepth 20000 in
theorem compiles_increment :
    observe (inScope? GlobalScope.hasIncrement) incrementDocument {} = some (some true) := by cbv

theorem bound_code_usesValues_increment : ∃ c scope F, Compiles incrementDocument {} c scope F ∧
    ∃ method block e operand, (method, block) ∈ scope.bodies ∧ .expression e ∈ block.statements ∧
      e.kind = .unary .increment operand ∧ operand.IsValue ∧ operand.IsPlace c.program := by
  obtain ⟨c, scope, F, h, hlook⟩ := exists_compiles compiles_increment
  obtain ⟨⟨method, block⟩, hentry, hlook⟩ := List.any_eq_true.1 hlook
  obtain ⟨s, hs, hlook⟩ := List.any_eq_true.1 hlook
  split at hlook
  · next operand t constant node =>
    have huses := (bound_code_usesValues h).bodies _ hentry _ hs
    cases huses with
    | intro _ expressions _ =>
      obtain ⟨hvalue, hplace⟩ := (expressions _ (List.mem_singleton_self _)).own
      exact ⟨c, scope, F, h, method, block, _, operand, hentry, hs, rfl, hvalue, hplace rfl⟩
  · cases hlook

end Compilation
end Bindery
