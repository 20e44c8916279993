import Bindery.Proofs.BoundStatements
import Bindery.Proofs.ConstantRequests

/-! # Circular constants

Once everything is bound, a constant whose dependencies lead into a cycle is bad
(`Compilation.circular_constants_bad`).  A constant with a value is published after those it is
computed from, so that its dependencies come to an end; but from a cycle they never do. -/

namespace Bindery

/-- Dependencies that come to an end do not lead into a cycle. -/
theorem Program.Grounded.not_circular {p : Program} {F : Findings} {field other : SymbolId}
    (h : p.Grounded F field) (hleads : Relation.ReflTransGen (p.DependsOn F) field other) :
    ¬Relation.TransGen (p.DependsOn F) other other := by
  intro hcycle
  induction h with
  | intro field _ ih =>
    obtain ⟨next, hnext, hrest⟩ := Relation.TransGen.head'_iff.1 (.trans_right hleads hcycle)
    exact ih next hnext hrest

namespace Compilation

variable {d : Document} {options : Options} {c : Compilation} {scope : GlobalScope} {F : Findings}

/-- In the end, every constant is published. -/
theorem Compiles.exists_constant (h : Compiles d options c scope F) {field : SymbolId}
    (hfield : field ∈ c.program.symbols.constantFields) :
    ∃ known, F.constants.get? field = some known := by
  obtain ⟨start, hgrows, hsettled, -⟩ := h.explained.code
  obtain ⟨known, hknown, -⟩ := hsettled.constants field hfield
  exact ⟨known, hgrows.constants hknown⟩

/-- Constants that are computed from themselves are bad, and so is every constant that is computed
from such a constant, however far away. -/
theorem circular_constants_bad (h : Compiles d options c scope F) {field other : SymbolId}
    (hleads : Relation.ReflTransGen (c.program.DependsOn F) field other)
    (hcycle : Relation.TransGen (c.program.DependsOn F) other other) :
    ∃ known, F.constants.get? field = some known ∧ known.value = .bad := by
  obtain ⟨next, hnext, -⟩ := Relation.TransGen.head'_iff.1 (.trans_right hleads hcycle)
  obtain ⟨known, hknown⟩ := h.exists_constant hnext.1
  refine ⟨known, hknown, Classical.byContradiction fun hvalue => ?_⟩
  have hgrounded := h.sound.grounded ⟨known, hknown, hvalue⟩ F (.refl F)
  exact hgrounded.not_circular hleads hcycle

/-! ### Documents of integer constants -/

/-- Nothing can go wrong once everything is bound. -/
theorem assemble_succeeds (formed : c.program.Formed) (settled : List DiagnosticQueue)
    (parts : CodeParts) (s : BindState) :
    Succeeds (c.assemble settled parts) s fun _ _ => True := by
  refine Ends.bind_lift (c.selectEntryPoint_yields formed) fun _ _ => ?_
  refine Ends.bind_lift (c.globalsWhere_yields formed _) fun _ _ => ?_
  refine Ends.bind_lift (c.globalsWhere_yields formed _) fun _ _ => ?_
  exact Ends.bind_lift (c.globalsWhere_yields formed _) fun _ _ => Ends.pure trivial

/-- Nothing is declared but constants of integer arithmetic. -/
def onlyConstants (c : Compilation) : Bool :=
  c.program.symbols.entry?.isNone &&
    (c.program.symbols.symbols.toList.all fun x => (x.kind matches .global _) || x.isConstantField) &&
    c.program.symbols.constantFields.all fun field => (c.program.defined? field).isSome

namespace Arithmetical

variable (h : Arithmetical d options c)
include h

theorem fieldTypeOf_spec {field : SymbolId} (hfield : field ∈ c.program.symbols.constantFields)
    {s : BindState} (hs : s.findings.Reckoned c.program) :
    Succeeds (c.program.fieldTypeOf field []) s fun _ s' => s'.findings.Reckoned c.program := by
  obtain ⟨term, hdefines⟩ := h.constants field hfield
  obtain ⟨depth, hanswer⟩ := Program.answer_eq_perform h.deep
  unfold Program.fieldTypeOf
  rw [hanswer]
  refine Ends.imp ((h.formed.integerAsker _).fieldType hdefines s hs.integral) ?_
  rintro _ s' ⟨-, kept⟩
  exact hs.of_constants_eq kept.integral kept.constants

theorem bindDeclaration_spec {x : Symbol} (hx : x ∈ c.program.symbols.symbols.toList)
    (honly : (∃ members, x.kind = .global members) ∨ x.isConstantField = true) {s : BindState}
    (hs : s.findings.Reckoned c.program) :
    Succeeds (bindDeclaration c.program x) s fun _ s' => s'.findings.Reckoned c.program := by
  unfold bindDeclaration
  rcases honly with ⟨members, hkind⟩ | hconstant
  · rw [hkind]
    exact Ends.pure hs
  · have hfield : x.id ∈ c.program.symbols.constantFields :=
      List.mem_map.2 ⟨x, List.mem_filter.2 ⟨hx, hconstant⟩, rfl⟩
    cases hkind : x.kind with
    | field data => exact Ends.bind (h.fieldTypeOf_spec hfield hs) fun _ _ hs' => Ends.pure hs'
    | _ => simp [Symbol.isConstantField, hkind] at hconstant

theorem settle_spec (honly : ∀ x ∈ c.program.symbols.symbols.toList,
    (∃ members, x.kind = .global members) ∨ x.isConstantField = true) :
    Succeeds c.settle {} fun _ s => s.findings.Reckoned c.program := by
  refine Ends.bind (Ends.mapM (I := fun s => s.findings.Reckoned c.program) .empty fun x hx s hs =>
    h.bindDeclaration_spec hx (honly x hx) hs) fun _ s hs => ?_
  refine Ends.bind (Ends.mapM (I := fun s => s.findings.Reckoned c.program) hs
    fun field hfield s hs => ?_) fun _ s hs => Ends.pure hs
  obtain ⟨term, hdefines⟩ := h.constants field hfield
  refine Ends.bind (h.formed.fieldConstantOf_spec h.constants h.deep hdefines hs) ?_
  rintro _ s' ⟨hs', -, known, rfl, -⟩
  exact Ends.pure hs'

end Arithmetical

/-- Binding a document that declares nothing but integer constants comes to an end. -/
theorem exists_compiles_of_onlyConstants (haccepted : Tree.ofDocument d = .ok c.program.tree)
    (hdeclared : declare c.program.tree options = .ok c) (honly : c.onlyConstants = true) :
    ∃ scope F, Compiles d options c scope F := by
  simp only [onlyConstants, Bool.and_eq_true, Option.isNone_iff_eq_none] at honly
  obtain ⟨⟨hentry, hsymbols⟩, hall⟩ := honly
  have h : Arithmetical d options c := ⟨haccepted, hdeclared, Program.integerConstants_of_all hall⟩
  have hsymbols : ∀ x ∈ c.program.symbols.symbols.toList,
      (∃ members, x.kind = .global members) ∨ x.isConstantField = true := fun x hx => by
    have hx := List.all_eq_true.1 hsymbols x hx
    cases hkind : x.kind <;> simp_all
  have hwork : c.workList = [] := by
    refine List.filter_eq_nil_iff.2 fun x hx => ?_
    rcases hsymbols x hx with ⟨members, hkind⟩ | hconstant
    · simp [hkind, SymbolKind.hasCode]
    · cases hkind : x.kind <;> simp_all [Symbol.isConstantField, SymbolKind.hasCode]
  have hcode : c.bindAllCode = pure {} := by
    rw [bindAllCode_eq, hwork]
    change c.bindEntry {} = _
    rw [bindEntry, hentry]
  have hbind : Succeeds c.bind {} fun _ _ => True := by
    rw [Compilation.bind, hcode]
    refine Ends.bind (h.settle_spec hsymbols) fun settled s _ => ?_
    exact assemble_succeeds h.formed settled {} s
  obtain ⟨scope, s, hrun, -⟩ := hbind.exists_ok
  refine ⟨scope, s.findings, haccepted, hdeclared, ?_⟩
  unfold run EStateM.run
  rw [hrun]

/-! ### A document with a cycle -/

/-- The initializer of a field, and what a name in it leads to. -/
def initializerName (field : SymbolId) (name : String) (node : NodeId) (c : Compilation) :
    Option NodeId × List SymbolId :=
  match (c.program.symbols.field? field).map (·.bind (·.initializer)),
    c.program.initializerScope field with
  | .ok initializer, .ok (some scope) =>
    match scope.lookup c.program name node with
    | .ok (.symbols found) => (initializer, found)
    | _ => (none, [])
  | _, _ => (none, [])

theorem exists_of_initializerName {field other : SymbolId} {name : String} {node root : NodeId}
    (h : initializerName field name node c = (some root, [other])) :
    ∃ scope, c.program.initializerScope field = .ok (some scope) ∧
      (c.program.symbols.field? field).map (·.bind (·.initializer)) = .ok (some root) ∧
      scope.lookup c.program name node = .ok (.symbols [other]) := by
  unfold initializerName at h
  split at h
  · next hroot hscope =>
    split at h
    · next hlookup =>
      obtain ⟨rfl, rfl⟩ := Prod.mk.inj h
      exact ⟨_, hscope, hroot, hlookup⟩
    · simp at h
  · simp at h

/-- Constants `a = b - 1`, `b = c` and `c = -b`. -/
def circularDocument : Document := ⟨"circular", [
  .typeName "int" [] false, .identifier "b", .literal (.int 1), .binary .subtract 1 2,
  .fieldDeclaration "a" .isConst (some 0) (some 3),
  .typeName "int" [] false, .identifier "c", .fieldDeclaration "b" .isConst (some 5) (some 6),
  .typeName "int" [] false, .identifier "b", .unary .negate 9,
  .fieldDeclaration "c" .isConst (some 8) (some 10), .compilationUnit [4, 7, 11]]⟩

theorem exists_compiles_circular : ∃ c scope F, Compiles circularDocument {} c scope F ∧
    c.program.DependsOn F 1 2 ∧ c.program.DependsOn F 2 3 ∧ c.program.DependsOn F 3 2 := by
  obtain ⟨c, haccepted, hdeclared, hlook⟩ := exists_of_observe
    (fun c => (c.onlyConstants, c.program.symbols.constantFields,
      [initializerName 1 "b" 1 c, initializerName 2 "c" 6 c, initializerName 3 "b" 9 c]))
    (show observe _ circularDocument {} =
      some (true, [1, 2, 3], [(some 3, [2]), (some 6, [3]), (some 10, [2])]) by decide +kernel)
  simp only [Prod.mk.injEq, List.cons.injEq, and_true] at hlook
  obtain ⟨honly, hfields, ha, hb, hc⟩ := hlook
  obtain ⟨scope, F, h⟩ := exists_compiles_of_onlyConstants haccepted hdeclared honly
  have hnodes := Tree.node?_of_ofDocument haccepted
  obtain ⟨_, hscope, hroot, hlookup⟩ := exists_of_initializerName ha
  obtain ⟨_, hscope', hroot', hlookup'⟩ := exists_of_initializerName hb
  obtain ⟨_, hscope'', hroot'', hlookup''⟩ := exists_of_initializerName hc
  refine ⟨c, scope, F, h, ⟨by simp [hfields], by simp [hfields], _, _, hscope, hroot, ?_⟩,
    ⟨by simp [hfields], by simp [hfields], _, _, hscope', hroot', .name (hnodes 6) hlookup'⟩,
    ⟨by simp [hfields], by simp [hfields], _, _, hscope'', hroot'', ?_⟩⟩
  · exact .left (hnodes 3) (fun h => by cases h) (.name (hnodes 1) hlookup)
  · exact .unary (hnodes 10) (.name (hnodes 9) hlookup'')

theorem circular_constants_bad_chain : ∃ c scope F, Compiles circularDocument {} c scope F ∧
    Relation.ReflTransGen (c.program.DependsOn F) 1 2 ∧
    Relation.TransGen (c.program.DependsOn F) 2 2 ∧
    ∃ known, F.constants.get? 1 = some known ∧ known.value = .bad := by
  obtain ⟨c, scope, F, h, hab, hbc, hcb⟩ := exists_compiles_circular
  have hleads : Relation.ReflTransGen (c.program.DependsOn F) 1 2 := .single hab
  have hcycle : Relation.TransGen (c.program.DependsOn F) 2 2 := .tail (.single hbc) hcb
  exact ⟨c, scope, F, h, hleads, hcycle, circular_constants_bad h hleads hcycle⟩

end Compilation
end Bindery
