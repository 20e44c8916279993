import Bindery.Proofs.StatementRules
import Mathlib.Logic.Relation

/-! # What bound code leaves published

The type of a local is published when its declaration is bound; signature and default values of a
local function are, when its head is.  `Covered p F node` says that everything is published that is
declared at `node` or in a statement in it.  Binding goes through all declarations of a piece of
code, so it leaves every statement covered (`Program.Formed.codeSteps`), and every body
(`Program.Formed.bindBody_steps`). -/

namespace Bindery

/-- The second node is the first one or a statement in it. -/
def Tree.Reaches (t : Tree) : NodeId → NodeId → Prop := Relation.ReflTransGen t.HasStatement

variable {p : Program}

section covered

variable (p) (F : Findings)

/-- What is declared at a node is published. -/
structure PublishedAt (n : NodeId) : Prop where
  type : ∀ {name : String} {type initializer : Option NodeId} {isConstant : Bool},
    p.tree.node? n = some (.localDeclaration name type isConstant initializer) →
    ∃ t, F.localTypes.get? ⟨0, n⟩ = some t
  function : ∀ {f : LocalFunction}, LocalFunction.ofNode? p.tree 0 n = some f →
    (∃ signature, F.functionSignature? f = some signature) ∧
      ∃ values, F.functionDefaults.get? f.key = some values

/-- So is what is declared in the statements in it. -/
def Covered (node : NodeId) : Prop := ∀ n, p.tree.Reaches node n → PublishedAt p F n

/-- The code of a method is covered.  That of the entry method, if it is found, are the global
statements. -/
structure CodeCovered (data : MethodData) : Prop where
  statements : data.isEntry = true → p.symbols.entry? ≠ none →
    ∀ q ∈ p.tree.globalStatements, Covered p F q
  body : ∀ body, data.body = some body → Covered p F body

end covered

variable {F G : Findings} {node : NodeId}

namespace Covered

theorem part (h : Covered p F node) {child : NodeId} (hpart : p.tree.HasStatement node child) :
    Covered p F child := fun n hn => h n (.head hpart hn)

theorem of_statements {kind : Node} (hnode : p.tree.node? node = some kind)
    (hself : PublishedAt p F node) (hparts : ∀ child ∈ kind.statements, Covered p F child) :
    Covered p F node := by
  intro n hn
  rcases Relation.ReflTransGen.cases_head hn with rfl | ⟨child, ⟨kind', hnode', hchild⟩, hn⟩
  · exact hself
  · obtain rfl := Option.mem_unique hnode hnode'
    exact hparts child hchild n hn

/-- A statement that declares nothing. -/
theorem of_parts {kind : Node} (hnode : p.tree.node? node = some kind)
    (hlocal : ∀ name type isConstant initializer,
      kind ≠ .localDeclaration name type isConstant initializer)
    (hfunction : ∀ name returnType parameters body,
      kind ≠ .localFunction name returnType parameters body)
    (hparts : ∀ child ∈ kind.statements, Covered p F child) : Covered p F node := by
  refine of_statements hnode ⟨fun h => absurd (Option.mem_unique hnode h) (hlocal _ _ _ _),
    fun {f} h => ?_⟩ hparts
  obtain ⟨_, hf, -⟩ := LocalFunction.Known.nodes ⟨0, node, h⟩
  rw [show f.declaration = node from congrArg LocalKey.declaration (LocalFunction.key_eq h)] at hf
  exact absurd (Option.mem_unique hnode hf) (hfunction _ _ _ _)

end Covered

theorem PublishedAt.grows (h : PublishedAt p F node) (hG : F.Grows G) : PublishedAt p G node where
  type hnode := (h.type hnode).imp fun _ => hG.localTypes
  function hf := (h.function hf).imp (.imp fun _ => hG.functionSignatures)
    (.imp fun _ => hG.functionDefaults)

theorem CodeCovered.grows {data : MethodData} (h : CodeCovered p F data) (hG : F.Grows G) :
    CodeCovered p G data where
  statements hisEntry hentry q hq n hn := (h.statements hisEntry hentry q hq n hn).grows hG
  body body hbody n hn := (h.body body hbody n hn).grows hG

/-- In particular the locals have types that a statement declares in the scope around it. -/
theorem Covered.declares (node : Nat) (h : Covered p F node) : Declares p F node :=
  (LocalDeclarations.ofStatement_all (F := fun _ => True)
    (fun h hnode => h.part ⟨_, hnode, by simp⟩)
    (fun h hnode => (h _ .refl).type hnode) (fun _ _ => trivial) node h).1

end Bindery
