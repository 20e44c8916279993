import Bindery.Proofs.CompilationSteps
import Bindery.Proofs.BaseResolution
import Mathlib

/-! # Binding keeps its contracts

A fault is a broken contract of the library.  Declaring the symbols of an accepted tree never
faults, and binding it faults only where declarations ask for each other without end: whatever
stands in whatever place of the tree, every loop is bound under its own frame, every label, local
and local function is found in a scope of its chain, every block has a scope, and the constants can
be ordered. -/

namespace Bindery

/-- Answers are given from the answers of a depth below. -/
theorem Program.answer_eq_perform {p : Program} (deep : p.symbols.size < p.requestDepth) :
    ∃ depth, p.answer = p.perform (p.answerWithin depth) := by
  obtain ⟨depth, hdepth⟩ := Nat.exists_eq_add_one.2 (Nat.zero_lt_of_lt deep)
  refine ⟨depth, ?_⟩
  unfold answer
  rw [hdepth]
  rfl

namespace Compilation

/-- Declaring the symbols of a tree gives a well-formed program. -/
theorem declare_yields {tree : Tree} (linked : tree.Linked) (options : Options) :
    ∃ c, declare tree options = .ok c ∧ c.options = options ∧ c.program.tree = tree ∧
      c.program.Formed := by
  obtain ⟨d, hd, formed, -⟩ := Declarations.declare_formed linked options.libraries
  unfold declare
  rw [hd]
  exact ⟨_, rfl, rfl, rfl, linked, formed⟩

theorem declare_formed {d : Document} {c : Compilation} {tree : Tree} {options : Options}
    (htree : Tree.ofDocument d = .ok tree) (hc : declare tree options = .ok c) :
    c.program.tree = tree ∧ c.program.Formed := by
  obtain ⟨_, hc', -, hformed⟩ := declare_yields (Tree.ofDocument_linked htree) options
  obtain rfl := ok_unique hc hc'
  exact hformed

theorem size_lt_requestDepth {tree : Tree} {options : Options} {c : Compilation}
    (h : declare tree options = .ok c) : c.program.symbols.size < c.program.requestDepth := by
  unfold declare at h
  split at h
  · next declared _ =>
    obtain rfl := Except.ok.inj h
    calc declared.table.size < tree.size + declared.table.size + 1 :=
          Nat.lt_succ_of_le (Nat.le_add_left _ _)
      _ ≤ _ := Nat.le_mul_self _
      _ ≤ _ := Nat.le_mul_of_pos_right _ (Nat.succ_pos _)
  · cases h

/-- What `look` sees in a document whose symbols can be declared. -/
def observe {α : Type} (look : Compilation → α) (d : Document) (options : Options) : Option α :=
  match Tree.ofDocument d with
  | .error _ => none
  | .ok tree =>
    match declare tree options with
    | .error _ => none
    | .ok c => some (look c)

theorem exists_of_observe {α : Type} (look : Compilation → α) {d : Document} {options : Options} {a : α}
    (h : observe look d options = some a) :
    ∃ c, Tree.ofDocument d = .ok c.program.tree ∧ declare c.program.tree options = .ok c ∧
      look c = a := by
  unfold observe at h
  split at h
  · simp at h
  · next tree htree =>
    split at h
    · simp at h
    · next c hc =>
      obtain ⟨rfl, -⟩ := declare_formed htree hc
      exact ⟨c, htree, hc, Option.some.inj h⟩

/-- The document was accepted, its symbols were declared and everything was bound. -/
structure Compiles (d : Document) (options : Options) (c : Compilation) (scope : GlobalScope)
    (F : Findings) : Prop where
  accepted : Tree.ofDocument d = .ok c.program.tree
  declared : declare c.program.tree options = .ok c
  bound : c.run = .ok (scope, F)

namespace Compiles

variable {d : Document} {options : Options} {c : Compilation} {scope : GlobalScope} {F : Findings}

theorem formed (h : Compiles d options c scope F) : c.program.Formed :=
  (declare_formed h.accepted h.declared).2

theorem declares (h : Compiles d options c scope F) : ∃ types, Declarations.Sound c.program.tree
    ⟨c.program.symbols, c.declarationDiagnostics, types⟩ := by
  obtain ⟨_, declared, -, -, hrun, resolves, -⟩ :=
    Declarations.declare_in_order (Tree.ofDocument_linked h.accepted) options.libraries
  have hdeclared := h.declared
  unfold declare at hdeclared
  rw [hrun] at hdeclared
  rw [← Except.ok.inj hdeclared]
  exact ⟨_, resolves.sound⟩

theorem look_eq (h : Compiles d options c scope F) {α : Type} (look : Compilation → α) {a : α}
    (ha : observe look d options = some a) : look c = a := by
  unfold observe at ha
  rw [h.accepted] at ha
  dsimp only at ha
  rw [h.declared] at ha
  exact Option.some.inj ha

theorem sound_and_explained (h : Compiles d options c scope F) :
    Sound c.program F ∧ c.Explained scope F := by
  rcases c.run_spec h.formed with ⟨_, _, hrun, hspec⟩ | hrun
  · obtain ⟨rfl, rfl⟩ := Prod.mk.inj (ok_unique hrun h.bound)
    exact hspec
  · exact absurd (hrun.symm.trans h.bound) (by simp)

theorem sound (h : Compiles d options c scope F) : Sound c.program F := h.sound_and_explained.1

theorem explained (h : Compiles d options c scope F) : c.Explained scope F := h.sound_and_explained.2

end Compiles

/-- What `look` sees in the global scope, if everything is bound. -/
def inScope? {α : Type} (look : GlobalScope → α) (c : Compilation) : Option α :=
  match c.run with
  | .error _ => none
  | .ok (scope, _) => some (look scope)

theorem exists_compiles {α : Type} {look : GlobalScope → α} {d : Document} {options : Options} {a : α}
    (h : observe (inScope? look) d options = some (some a)) :
    ∃ c scope F, Compiles d options c scope F ∧ look scope = a := by
  obtain ⟨c, htree, hc, h⟩ := exists_of_observe _ h
  unfold inScope? at h
  split at h
  · cases h
  · next scope F hrun => exact ⟨c, scope, F, ⟨htree, hc, hrun⟩, Option.some.inj h⟩

/-! ### Contracts -/

/-- Binding with another bound on the depth of requests. -/
def within (c : Compilation) (depth : Nat) : Compilation :=
  { c with program := { c.program with requestDepth := depth } }

end Compilation
end Bindery
