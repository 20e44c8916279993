import Bindery.Proofs.Reports

/-! # Reports about expressions and declarations

Binding types, expressions and local declarations is quiet under a chain with the flags of the
options, provided that the requests of the code are (`quietLogic`).  The answers are quiet at every
depth of requests, since each of them is computed as a pass of its own. -/

namespace Bindery

variable {p : Program}

/-- Requests that can be made without anything being owed. -/
structure QuietAsker (p : Program) (ask : Asker) : Prop where
  signature : ∀ method, Quiet p (ask (.signature method)) fun known =>
    known.value.Proper ∧ known.Tame p
  fieldType : ∀ field beingBound, Quiet p (ask (.fieldType field beingBound)) fun known =>
    known.value.isVoid = false ∧ known.Tame p
  fieldConstant : ∀ field tracker, Quiet p (ask (.fieldConstant field tracker)) fun found =>
    ∀ known ∈ found, known.Tame p
  constantParameterType : ∀ parameter, Quiet p (ask (.constantParameterType parameter)) fun _ => True
  functionSignature : ∀ (scope : Chain) function, scope.Carries p →
    Quiet p (ask (.functionSignature scope function)) Signature.Proper

theorem Message.Anywhere.mayOccur {message : Message} (h : message.Anywhere) : message.MayOccur p := by
  cases message <;> trivial

/-- Code that is quiet. -/
def quietLogic (p : Program) : CodeLogic p where
  Holds m _ Q := Quiet p m Q
  pure := .pure
  bind := .bind
  of_throw := .of_throw
  Scope := Chain.Carries p
  Outer := Chain.Carries p
  Inferring _ := True
  Variable _ := True
  Function _ := True
  May := Message.MayOccur p
  Tidied := True
  scope_push additional carries _ := carries.push _ additional
  of_enclosing := Chain.inherited_carries.enclosing
  of_scope _ := trivial
  of_lookup {_ _ _ found} _ _ := by cases found <;> trivial
  of_localAt? _ _ := trivial
  of_functionAt? _ _ := trivial
  may h := h.mayOccur
  may_access carries h := by
    change p.flags.ignoresAccess = false
    by_contra hp
    simp [carries.flags.ignoresAccess (by simpa using hp)] at h
  may_lowLevel carries h := by
    change p.flags.lowLevel = false
    by_contra hp
    simp [carries.flags.lowLevel (by simpa using hp)] at h
  push := .push
  modifyPass := .modifyPass
  sawBadConstant := .sawBadConstant
  reads_local _ _ := fun _ hk => .bind_findings fun f _ => hk f trivial
  reads_default _ _ := fun _ hk => .bind_findings fun f _ => hk f trivial
  reads_signature _ _ := fun _ hk => .bind_findings fun f hf => hk f fun _ _ hknown =>
    hf.functionSignatures hknown
  reads_defaults _ _ := fun _ hk => .bind_findings fun f _ => hk f trivial
  publish_type _ ht := .modifyFindings fun _ hf => hf.publishLocalType _ ht
  publish_constant c _ _ := .modifyFindings fun _ hf => hf.publishLocalConstant _ c
  publish_signature _ hsignature := .modifyFindings fun _ hf =>
    hf.publishFunctionSignature _ hsignature
  publish_defaults _ hvalues := .modifyFindings fun _ hf =>
    hf.publishFunctionDefaults _ (hvalues trivial)

theorem Says.mapM {α β : Type} {list : List α} {f : α → BindM β} {T : α → β → Prop}
    (h : ∀ a ∈ list, Quiet p (f a) (T a)) : Quiet p (list.mapM f) (List.Forall₂ T list) :=
  show (quietLogic p).Has (list.mapM f) _ from (quietLogic p).mapM h

theorem QuietAsker.code {ask : Asker} (asker : QuietAsker p ask) :
    (quietLogic p).Answers ask ask where
  signature _ := (asker.signature _).imp fun _ _ => trivial
  fieldType _ _ _ := (asker.fieldType _ _).imp fun _ _ => trivial
  fieldConstant _ _ _ _ := (asker.fieldConstant _ _).imp fun _ _ => trivial
  constantParameterType := asker.constantParameterType
  functionSignature f carries := asker.functionSignature _ f carries

end Bindery
