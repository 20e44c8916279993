import Bindery.Syntax.Document
import Bindery.Text.Span

/-!
# Syntax trees

A tree is a node list in which every child stands before its parent, every node but the last is the
child of exactly one node, and the last node, the root, is a compilation unit.

* `ofDocument` accepts exactly such lists and links them: it records the parent of every node and
  where the subtree of every node starts.
* Positions are node numbers, so the span of a node ends right after it and starts at the least
  number in its subtree.
* A number that no node has is a fault wherever the node itself is needed.
-/

namespace Bindery

/-- What keeps a document from being a tree. -/
inductive TreeError where
  | notADocument
  | empty
  | rootNotCompilationUnit (found : String)
  | childAfterParent (parent child : NodeId)
  | sharedChild (child first second : NodeId)
  | orphan (node : NodeId)
deriving DecidableEq, Repr

namespace TreeError

def message : TreeError → String
  | notADocument => "malformed syntax tree document"
  | empty => "syntax tree has no nodes"
  | rootNotCompilationUnit found => s!"the last node must be a compilation unit, found a {found}"
  | childAfterParent parent child => s!"node #{child} must precede its parent #{parent}"
  | sharedChild child first second => s!"node #{child} is claimed by both #{first} and #{second}"
  | orphan node => s!"node #{node} is not reachable from the compilation unit"

end TreeError

/-! ### Linking -/

/-- A node list together with the links between its nodes. -/
structure Tree where
  fileName : String
  nodes : Array Node
  parents : Array (Option NodeId)
  /-- For every node, the least number in its subtree. -/
  starts : Array Nat
  /-- Children stand before their parents. -/
  children_lt : ∀ {n : Nat} {node : Node}, nodes[n]? = some node →
    ∀ child ∈ node.children, child < n
  lt_parent : ∀ {n parent : Nat}, parents[n]? = some (some parent) → n < parent

namespace Tree

/-- Every node paired with the node it is a child of, in the order of the list. -/
def edges (nodes : List Node) : List (NodeId × NodeId) :=
  nodes.zipIdx.flatMap fun (node, index) => node.children.map fun child => (child, index)

/-- Record the parent of a child. -/
def adopt (parents : Array (Option NodeId)) (child parent : NodeId) :
    Except TreeError (Array (Option NodeId)) :=
  if child < parent then
    match parents[child]? with
    | some (some first) => .error (.sharedChild child first parent)
    | _ => .ok (parents.setIfInBounds child (some parent))
  else .error (.childAfterParent parent child)

def adoptAll : List (NodeId × NodeId) → Array (Option NodeId) →
    Except TreeError (Array (Option NodeId))
  | [], parents => .ok parents
  | (child, parent) :: rest, parents =>
    match adopt parents child parent with
    | .ok parents => adoptAll rest parents
    | .error e => .error e

theorem lt_of_adopt_ok {parents result : Array (Option NodeId)} {child parent : NodeId}
    (h : adopt parents child parent = .ok result) :
    child < parent ∧ result = parents.setIfInBounds child (some parent) := by
  unfold adopt at h
  split at h
  · split at h <;> simp_all
  · simp at h

theorem lt_of_adoptAll_ok {list : List (NodeId × NodeId)} {parents result : Array (Option NodeId)}
    (h : adoptAll list parents = .ok result) : ∀ entry ∈ list, entry.1 < entry.2 := by
  induction list generalizing parents with
  | nil => simp
  | cons entry rest ih =>
    obtain ⟨child, parent⟩ := entry
    rw [adoptAll] at h
    split at h
    · next adopted =>
      intro entry hmem
      rcases List.mem_cons.1 hmem with rfl | hmem
      · exact (lt_of_adopt_ok adopted).1
      · exact ih h entry hmem
    · simp at h

/-- Whether every recorded parent stands after its child. -/
def ParentsAfter (parents : Array (Option NodeId)) : Prop :=
  ∀ {n parent : Nat}, parents[n]? = some (some parent) → n < parent

theorem parentsAfter_of_adoptAll_ok {list : List (NodeId × NodeId)}
    {parents result : Array (Option NodeId)} (start : ParentsAfter parents)
    (h : adoptAll list parents = .ok result) : ParentsAfter result := by
  induction list generalizing parents with
  | nil => simp_all [adoptAll]
  | cons entry rest ih =>
    obtain ⟨child, parent⟩ := entry
    rw [adoptAll] at h
    split at h
    · next adopted =>
      obtain ⟨hlt, rfl⟩ := lt_of_adopt_ok adopted
      refine ih ?_ h
      intro n other hother
      rw [Array.getElem?_setIfInBounds] at hother
      split at hother
      · split at hother <;> simp_all
      · exact start hother
    · simp at h

theorem parentsAfter_replicate (size : Nat) : ParentsAfter (Array.replicate size none) := by
  intro n parent h
  simp [Array.getElem?_replicate] at h

theorem mem_edges {nodes : List Node} {n child : NodeId} {node : Node}
    (h : nodes[n]? = some node) (hchild : child ∈ node.children) : (child, n) ∈ edges nodes := by
  refine List.mem_flatMap.2 ⟨(node, n), ?_, List.mem_map.2 ⟨child, hchild, rfl⟩⟩
  exact List.mem_zipIdx_iff_getElem?.2 h

/-- The starts of the subtrees, from the first node to the last. -/
def subtreeStarts (nodes : List Node) : Array Nat :=
  nodes.foldl (fun starts node =>
    starts.push (node.children.foldl (fun start child => min start (starts.getD child start))
      starts.size)) #[]

/-- Validate a document and link it. -/
def ofDocument (d : Document) : Except TreeError Tree :=
  match d.nodes.getLast? with
  | none => .error .empty
  | some root =>
    if root.isCompilationUnit then
      match h : adoptAll (edges d.nodes) (Array.replicate d.nodes.length none) with
      | .error e => .error e
      | .ok parents =>
        match (parents.toList.take (d.nodes.length - 1)).findIdx? Option.isNone with
        | some orphan => .error (.orphan orphan)
        | none => .ok {
            fileName := d.fileName
            nodes := d.nodes.toArray
            parents
            starts := subtreeStarts d.nodes
            children_lt := fun {n node} hnode child hchild =>
              lt_of_adoptAll_ok h (child, n) (mem_edges (by simpa using hnode) hchild)
            lt_parent := parentsAfter_of_adoptAll_ok (parentsAfter_replicate _) h }
    else .error (.rootNotCompilationUnit root.label)

def ofDocument? : Option Document → Except TreeError Tree
  | none => .error .notADocument
  | some d => ofDocument d

def ofJson (value : Json) : Except TreeError Tree := ofDocument? (Document.ofJson? value)

def read (text : String) : Except TreeError Tree := ofDocument? (Document.read? text)

/-- Put a tree together from the nodes before its compilation unit. -/
def build (fileName : String) (nodes : List Node) (members : List NodeId) : Except Fault Tree :=
  match ofDocument ⟨fileName, nodes ++ [.compilationUnit members]⟩ with
  | .ok tree => .ok tree
  | .error e => .error (.malformedTree e.message)

/-! ### Access -/

variable (t : Tree) (n : NodeId)

def size : Nat := t.nodes.size

def root : NodeId := t.size - 1

def node? : Option Node := t.nodes[n]?

def parent? : Option NodeId := t.parents[n]?.join

/-- The fault of asking about a node that does not exist. -/
def missing : Fault := .outOfRange t.size n

/-- The node of a number, which has to exist. -/
def fetch : Except Fault Node :=
  match t.node? n with
  | some node => .ok node
  | none => .error (t.missing n)

/-- The span of a node: its own position and those of its subtree. -/
def span : Except Fault Span :=
  match t.starts[n]? with
  | some start => .ok (.ofBounds start (n + 1))
  | none => .error (t.missing n)

def toDocument : Document := ⟨t.fileName, t.nodes.toList⟩

def members : List NodeId :=
  match t.node? t.root with
  | some (.compilationUnit members) => members
  | _ => []

/-- The global statements among the members of a compilation unit. -/
def globalStatementsOf (members : List NodeId) : List NodeId :=
  members.filterMap fun member =>
    match t.node? member with
    | some (.globalStatement statement) => some statement
    | _ => none

def globalStatements : List NodeId := t.globalStatementsOf t.members

theorem child_lt {n child : Nat} {node : Node} (h : t.node? n = some node)
    (hchild : child ∈ node.children) : child < n :=
  t.children_lt h child hchild

/-- A node followed by its ancestors up to the root. -/
def ancestorsAndSelf (n : NodeId) : List NodeId :=
  match _h : t.parents[n]? with
  | some (some parent) => n :: ancestorsAndSelf parent
  | _ => [n]
termination_by t.parents.size - n
decreasing_by
  have hn : n < t.parents.size := (Array.getElem?_eq_some_iff.1 _h).1
  exact Nat.sub_lt_sub_left hn (t.lt_parent _h)

/-- The way from a node up to the root. -/
def pathToRoot : Except Fault (List NodeId) := do
  let _ ← t.fetch n
  return t.ancestorsAndSelf n

/-- Whether the span of `n` lies in the span of `ancestor`. -/
def isWithin (ancestor : NodeId) : Except Fault Bool := do
  return (← t.span ancestor).covers (← t.span n)

/-- The text of the name at a node, for diagnostics. -/
def textOf (n : NodeId) : String :=
  match _h : t.node? n with
  | none => ""
  | some (.identifier name) | some (.memberBinding name) => name
  | some (.memberAccess receiver name) => textOf receiver ++ "." ++ name
  | some (.typeName name arguments isUnbound) =>
    if isUnbound then name ++ "<>"
    else if arguments.isEmpty then name
    else
      name ++ "<" ++ String.intercalate ", " (arguments.attach.map fun ⟨a, _⟩ => textOf a) ++ ">"
  | some (.nullableType element) => textOf element ++ "?"
  | some node => node.declaredName?.getD node.label
termination_by n
decreasing_by
  all_goals
    apply t.child_lt _h
    simp_all

end Tree
end Bindery
