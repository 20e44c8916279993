import Bindery.Proofs.ArgumentSlots
import Bindery.Proofs.OverloadChoice

/-! # Arguments that stand for errors

The error type converts to every type, so an argument about which an error has been reported fits
wherever the argument it stands for did.

* A candidate that takes some arguments also takes them with errors among them
  (`Candidate.apply_isOk_of_standsFor`).  So a call that was resolved does not fail for an erroneous
  argument.
* It may become ambiguous: the argument no longer tells the candidates apart.  That is all that is
  ever reported, and a call with one candidate reports nothing
  (`Resolution.error_argument_at_most_ambiguous`). -/

namespace Bindery

/-- The second argument is the first, or stands in its place for an error. -/
structure Argument.StandsFor (a a' : Argument) : Prop where
  name : a'.name = a.name
  expression : a'.expression = a.expression ∨ a'.expression.type.isError = true

namespace Candidate

variable {α : Type} {c : Candidate α} {symbols : SymbolTable} {arguments arguments' : List Argument}

theorem GoesTo.of_name_eq {a a' : Argument} {position : Nat} {index : Fin c.parameters.length}
    (h : c.GoesTo a position index) (hname : a'.name = a.name) : c.GoesTo a' position index := by
  unfold GoesTo at h ⊢
  rw [hname]
  exact h

theorem PassesTo.of_standsFor {a a' : Argument} {parameter : CandidateParameter} {e : Expr}
    (h : PassesTo symbols a parameter e) (hstands : a.StandsFor a') :
    ∃ e', PassesTo symbols a' parameter e' := by
  rcases hstands.expression with hsame | herror
  · obtain ⟨cast, hcast, himplicit, rfl⟩ := h
    exact ⟨_, cast, hsame ▸ hcast, himplicit, rfl⟩
  · have hidentity : a'.expression.type.conversion symbols parameter.type = .ok .identity := by
      simp only [Ty.conversion, herror, Bool.true_or, if_true]
      rfl
    exact ⟨_, .identity, hidentity, rfl, rfl⟩

/-- Errors among the arguments keep no candidate from taking them. -/
theorem apply_isOk_of_standsFor (hstands : List.Forall₂ Argument.StandsFor arguments arguments')
    {passed : List Expr} {cost : Nat}
    (h : (c.apply symbols arguments).run = .ok (.ok (passed, cost))) :
    ∃ passed' cost', (c.apply symbols arguments').run = .ok (.ok (passed', cost')) := by
  have hlength : arguments'.length = arguments.length := hstands.length_eq.symm
  have hstands : ∀ i : Fin arguments'.length,
      (arguments.get (i.cast hlength)).StandsFor (arguments'.get i) := fun i => hstands.get _ i.isLt
  obtain ⟨-, slot, assigns, hpasses, hdefaults⟩ := exists_assigns_of_apply h
  have assigns' : c.Assigns arguments' 0 fun i => slot (i.cast hlength) := by
    refine ⟨fun i j hij => Fin.cast_injective hlength (assigns.injective hij), fun i => ?_⟩
    exact (assigns.goesTo (i.cast hlength)).of_name_eq (hstands i).name
  refine assigns'.apply_isOk (fun i => ?_) fun j hj => ?_
  · obtain ⟨e, -, he⟩ := hpasses (i.cast hlength)
    exact he.of_standsFor (hstands i)
  · obtain ⟨e, -, he⟩ := hdefaults j fun i => hj (i.cast hlength.symm)
    rw [he]
    rfl

end Candidate

namespace Resolution

variable {α : Type} {tree : Tree} {symbols : SymbolTable} {candidates : List (Candidate α)}
  {arguments : List Argument} {node : NodeId}

/-- An ambiguous call is reported as such. -/
theorem message_of_ambiguous {reported : List Diagnostic}
    (h : resolve tree symbols candidates arguments node = .ok (.ambiguous, reported)) :
    ∃ d, reported = [d] ∧ d.message = .ambiguousOverload := by
  unfold resolve at h
  split at h
  · cases h
  · obtain ⟨result, -, h⟩ := exists_of_bind_eq_ok h
    cases result with
    | ok passed => cases h
    | error mismatch =>
      obtain ⟨d, -, h⟩ := exists_of_bind_eq_ok h
      cases h
  · obtain ⟨list, -, h⟩ := exists_of_bind_eq_ok h
    split at h
    · obtain ⟨d, -, h⟩ := exists_of_bind_eq_ok h
      cases h
    · cases h
    · obtain ⟨names, -, h⟩ := exists_of_bind_eq_ok h
      obtain ⟨d, hd, ⟨rfl⟩⟩ := exists_of_bind_pure_eq_ok h
      obtain ⟨span, -, rfl⟩ := exists_of_bind_pure_eq_ok hd
      exact ⟨_, rfl, rfl⟩

theorem not_isTied_singleton {c : Candidate α} : ¬ IsTied symbols arguments [c] := by
  rintro ⟨_, _, _, htwo, -⟩
  simpa using htwo.length_le

/-- The arguments with an error in the place of one of them. -/
def withError (arguments : List Argument) (i : Fin arguments.length) (place : NodeId) :
    List Argument :=
  arguments.set i { arguments.get i with expression := .error place }

theorem standsFor_withError (arguments : List Argument) (i : Fin arguments.length) (place : NodeId) :
    List.Forall₂ Argument.StandsFor arguments (withError arguments i place) := by
  have same : ∀ rest : List Argument, List.Forall₂ Argument.StandsFor rest rest := fun rest =>
    List.forall₂_same.2 fun _ _ => ⟨rfl, .inl rfl⟩
  induction arguments with
  | nil => exact i.elim0
  | cons a rest ih =>
    refine Fin.cases ?_ (fun i => ?_) i
    · exact .cons ⟨rfl, .inr rfl⟩ (same rest)
    · exact .cons ⟨rfl, .inl rfl⟩ (ih i)

/-- An error in the place of an argument makes a call that was resolved ambiguous at worst: where
two candidates now share the least number of conversions.  This is then the only report.  It is not
made about a call with a single candidate. -/
theorem error_argument_at_most_ambiguous (p : Program) (candidates : List (Candidate α))
    (arguments : List Argument) (node : NodeId) {overload : α} {passed : List Expr}
    {reported : List Diagnostic}
    (h : resolve p.tree p.symbols candidates arguments node = .ok (.succeeded overload passed, reported))
    (i : Fin arguments.length) (place : NodeId) :
    (∀ r reported', resolve p.tree p.symbols candidates (withError arguments i place) node =
        .ok (r, reported') →
      (reported' = [] ↔ ¬ IsTied p.symbols (withError arguments i place) candidates) ∧
      (reported' = [] → r.isSucceeded = true) ∧
      (reported' ≠ [] → r = .ambiguous ∧
        ∃ d, reported' = [d] ∧ d.message = .ambiguousOverload) ∧
      (candidates.length = 1 → reported' = [])) ∧
    (p.Formed → (∀ a ∈ arguments, a.Known p) →
      (∀ c ∈ candidates, ∀ q ∈ c.parameters, q.type.Known p) → node < p.tree.size →
      place < p.tree.size →
      ∃ result,
        resolve p.tree p.symbols candidates (withError arguments i place) node = .ok result) := by
  refine ⟨fun r reported' h' => ?_, fun formed hknown htypes hnode hplace => ?_⟩
  · obtain ⟨c, ⟨before, after, cost, hsplit, happlies, -⟩, -⟩ :=
      ofCheapest_attempts_eq_succeeded.1 (of_resolve h).1.symm
    obtain ⟨passed', cost', happlies'⟩ := Candidate.apply_isOk_of_standsFor
      (standsFor_withError arguments i place) happlies
    obtain ⟨houtcome, hreported⟩ := of_resolve h'
    have hc : c ∈ candidates := by simp [hsplit]
    have hfailed : r ≠ .failed := fun hfailed =>
      ofCheapest_attempts_eq_failed.1 (houtcome.symm.trans hfailed) c hc passed' cost' happlies'
    have htied : r = .ambiguous ↔ IsTied p.symbols (withError arguments i place) candidates := by
      rw [houtcome, ofCheapest_attempts_eq_ambiguous]
    cases r with
    | failed => exact absurd rfl hfailed
    | succeeded overload' passed' =>
      obtain rfl : reported' = [] := by simpa [isSucceeded] using hreported
      simpa [isSucceeded] using htied
    | ambiguous =>
      obtain ⟨d, rfl, hmessage⟩ := message_of_ambiguous h'
      have htied := htied.1 rfl
      refine ⟨by simpa using htied, by simp, fun _ => ⟨rfl, d, rfl, hmessage⟩, fun hone => ?_⟩
      obtain ⟨only, rfl⟩ := List.length_eq_one_iff.1 hone
      exact absurd htied not_isTied_singleton
  · have hknown' : ∀ a ∈ withError arguments i place, a.Known p := by
      intro a ha
      rcases List.mem_or_eq_of_mem_set ha with ha | rfl
      · exact hknown a ha
      · exact ⟨⟨hplace, trivial, trivial⟩, (hknown _ (List.get_mem ..)).2⟩
    obtain ⟨result, hresult, -⟩ := formed.resolve_yields hknown' htypes hnode
    exact ⟨result, hresult⟩

/-- The call `f(x)`. -/
def callDocument : Document := ⟨"call", [
  .identifier "f", .identifier "x", .call 0 [1], .expressionStatement 2, .globalStatement 3,
  .compilationUnit [4]]⟩

/-- An overload of `f` with parameters of these types. -/
def overloadOf (types : List Primitive) : Candidate (List Primitive) :=
  ⟨types, "f", types.map fun p => ⟨p.name, .primitive p, none⟩⟩

/-- Of `f(int)` and `f(int, int)`, a call with one argument means the first, whatever the argument
is. -/
theorem error_argument_at_most_ambiguous_count : ∃ tree passed passed',
    Tree.ofDocument callDocument = .ok tree ∧
    resolve tree .empty [overloadOf [.int], overloadOf [.int, .int]]
      [⟨none, .ofLiteral (.int 1) 1, 1⟩] 2 = .ok (.succeeded [.int] passed, []) ∧
    resolve tree .empty [overloadOf [.int], overloadOf [.int, .int]] [⟨none, .error 1, 1⟩] 2 =
      .ok (.succeeded [.int] passed', []) ∧
    ¬ IsTied .empty [⟨none, .error 1, 1⟩] [overloadOf [.int], overloadOf [.int, .int]] := by
  obtain ⟨tree, h⟩ : ∃ tree, Tree.ofDocument callDocument = .ok tree := ⟨_, rfl⟩
  obtain ⟨hreport, -⟩ := error_argument_at_most_ambiguous { tree, symbols := .empty }
    [overloadOf [.int], overloadOf [.int, .int]] [⟨none, .ofLiteral (.int 1) 1, 1⟩] 2 rfl 0 1
  exact ⟨tree, _, _, h, rfl, rfl, (hreport _ _ rfl).1.1 rfl⟩

/-- Of `f(int)` and `f(string)` the call `f(1)` means the first.  With an error for the number it is
ambiguous, and this is reported as well. -/
theorem error_argument_reported : ∃ tree passed d, Tree.ofDocument callDocument = .ok tree ∧
    resolve tree .empty [overloadOf [.int], overloadOf [.string]]
      [⟨none, .ofLiteral (.int 1) 1, 1⟩] 2 = .ok (.succeeded [.int] passed, []) ∧
    resolve tree .empty [overloadOf [.int], overloadOf [.string]] [⟨none, .error 1, 1⟩] 2 =
      .ok (.ambiguous, [d]) ∧ d.message = .ambiguousOverload :=
  ⟨_, _, _, rfl, rfl, rfl, rfl⟩

end Resolution
end Bindery
