import Bindery.Syntax.Tree

/-! # The links of an accepted tree

What `Tree.ofDocument` has checked when it accepts a document, as one structure `Tree.Linked`:

* the root is a compilation unit, and every node has a span;
* the recorded parent of a node is the one node it is a child of;
* no node is listed twice among the children of a node.

`Tree.Under n m` says that `m` lies in the subtree of `n`.  Since parents are unique, the subtrees
of two children of one node have nothing in common (`Linked.under_disjoint`). -/

namespace Bindery.Tree

/-- What holds of every tree that was read from a document. -/
structure Linked (t : Tree) : Prop where
  starts_size : t.starts.size = t.size
  root_eq : ∃ members, t.node? t.root = some (.compilationUnit members)
  parent_of_child : ∀ {n : NodeId} {node : Node}, t.node? n = some node →
    ∀ child ∈ node.children, t.parents[child]? = some (some n)
  nodup_children : ∀ {n : NodeId} {node : Node}, t.node? n = some node → node.children.Nodup

variable {parents result : Array (Option NodeId)} {list : List (NodeId × NodeId)} {node : Node}
  {child parent n : NodeId}

/-! ### Linking -/

theorem adopt_ok (h : adopt parents child parent = .ok result) :
    child < parent ∧ parents[child]?.join = none ∧
      result = parents.setIfInBounds child (some parent) := by
  unfold adopt at h
  split at h
  · next hlt =>
    split at h
    · simp at h
    · next hfree =>
      refine ⟨hlt, ?_, by simpa using h.symm⟩
      cases hp : parents[child]? with
      | none => rfl
      | some first =>
        cases first with
        | none => rfl
        | some first => exact absurd hp (hfree first)
  · simp at h

/-- A recorded parent stays recorded. -/
theorem adoptAll_keeps (h : adoptAll list parents = .ok result)
    (hn : parents[n]? = some (some parent)) : result[n]? = some (some parent) := by
  induction list generalizing parents with
  | nil => simp_all [adoptAll]
  | cons entry rest ih =>
    obtain ⟨child, above⟩ := entry
    rw [adoptAll] at h
    split at h
    · next adopted =>
      obtain ⟨_, hfree, rfl⟩ := adopt_ok adopted
      refine ih h ?_
      have hne : child ≠ n := by
        rintro rfl
        simp [hn] at hfree
      rw [Array.getElem?_setIfInBounds_ne hne]
      exact hn
    · simp at h

theorem adoptAll_size (h : adoptAll list parents = .ok result) : result.size = parents.size := by
  induction list generalizing parents with
  | nil => simp_all [adoptAll]
  | cons entry rest ih =>
    obtain ⟨child, above⟩ := entry
    rw [adoptAll] at h
    split at h
    · next adopted =>
      obtain ⟨_, _, rfl⟩ := adopt_ok adopted
      simpa using ih h
    · simp at h

/-- Every listed child that has a place ends with the listed parent. -/
theorem adoptAll_records (h : adoptAll list parents = .ok result) (hmem : (child, parent) ∈ list)
    (hlt : child < parents.size) :
    result[child]? = some (some parent) := by
  induction list generalizing parents with
  | nil => simp at hmem
  | cons entry rest ih =>
    obtain ⟨first, above⟩ := entry
    rw [adoptAll] at h
    split at h
    · next adopted =>
      obtain ⟨_, _, rfl⟩ := adopt_ok adopted
      rcases List.mem_cons.1 hmem with heq | hmem
      · obtain ⟨rfl, rfl⟩ := Prod.mk.inj heq
        exact adoptAll_keeps h (by rw [Array.getElem?_setIfInBounds_self_of_lt hlt])
      · exact ih h hmem (by simpa using hlt)
    · simp at h

/-- No child with a place is listed twice, nor listed when its parent is recorded already. -/
theorem adoptAll_nodup (h : adoptAll list parents = .ok result)
    (hlt : ∀ entry ∈ list, entry.1 < parents.size) :
    (list.map (·.1)).Nodup ∧ ∀ entry ∈ list, parents[entry.1]?.join = none := by
  induction list generalizing parents with
  | nil => simp
  | cons entry rest ih =>
    obtain ⟨child, above⟩ := entry
    rw [adoptAll] at h
    split at h
    · next adopted =>
      obtain ⟨_, hfree, rfl⟩ := adopt_ok adopted
      have hchild : child < parents.size := hlt (child, above) (by simp)
      obtain ⟨hnodup, hrest⟩ := ih h fun e he => by
        simpa using hlt e (List.mem_cons_of_mem _ he)
      have hne : ∀ e ∈ rest, e.1 ≠ child := by
        rintro e he rfl
        have := hrest e he
        rw [Array.getElem?_setIfInBounds_self_of_lt hchild] at this
        simp at this
      refine ⟨?_, ?_⟩
      · rw [List.map_cons, List.nodup_cons]
        refine ⟨?_, hnodup⟩
        rintro hmem
        obtain ⟨e, he, heq⟩ := List.mem_map.1 hmem
        exact hne e he heq
      · intro e he
        rcases List.mem_cons.1 he with rfl | he
        · exact hfree
        · have := hrest e he
          rwa [Array.getElem?_setIfInBounds_ne (hne e he).symm] at this
    · simp at h

theorem subtreeStarts_size (nodes : List Node) : (subtreeStarts nodes).size = nodes.length := by
  unfold subtreeStarts
  suffices h : ∀ (list : List Node) (starts : Array Nat), (list.foldl (fun starts node =>
      starts.push (node.children.foldl (fun start child => min start (starts.getD child start))
        starts.size)) starts).size = starts.size + list.length by simpa using h nodes #[]
  intro list
  induction list with
  | nil => simp
  | cons node rest ih =>
    intro starts
    rw [List.foldl_cons, ih, Array.size_push, List.length_cons]
    omega

theorem mem_edges_iff {nodes : List Node} {entry : NodeId × NodeId} :
    entry ∈ edges nodes ↔
      ∃ node, nodes[entry.2]? = some node ∧ entry.1 ∈ node.children := by
  obtain ⟨child, parent⟩ := entry
  unfold edges
  rw [List.mem_flatMap]
  constructor
  · rintro ⟨⟨node, index⟩, hnode, hmem⟩
    obtain ⟨c, hc, heq⟩ := List.mem_map.1 hmem
    obtain ⟨rfl, rfl⟩ := Prod.mk.inj heq
    exact ⟨node, List.mem_zipIdx_iff_getElem?.1 hnode, hc⟩
  · rintro ⟨node, hnode, hmem⟩
    exact ⟨(node, parent), List.mem_zipIdx_iff_getElem?.2 hnode, List.mem_map.2 ⟨child, hmem, rfl⟩⟩

/-- The children of one node form a part of the list of edges. -/
theorem children_sublist_edges {nodes : List Node} (h : nodes[n]? = some node) :
    (node.children.map fun child => (child, n)).Sublist (edges nodes) := by
  obtain ⟨before, after, hsplit⟩ := List.append_of_mem
    (List.mem_zipIdx_iff_getElem? (x := (node, n)).2 h)
  unfold edges
  rw [hsplit, List.flatMap_append, List.flatMap_cons]
  exact (List.sublist_append_left _ _).trans (List.sublist_append_right _ _)

/-! ### Accepted documents -/

/-- Everything that was checked when a document is accepted. -/
theorem ofDocument_ok {d : Document} {t : Tree} (h : ofDocument d = .ok t) :
    ∃ parents, adoptAll (edges d.nodes) (Array.replicate d.nodes.length none) = .ok parents ∧
      (∃ members, d.nodes.getLast? = some (.compilationUnit members)) ∧
      (parents.toList.take (d.nodes.length - 1)).findIdx? Option.isNone = none ∧
      t.fileName = d.fileName ∧ t.nodes = d.nodes.toArray ∧ t.parents = parents ∧
      t.starts = subtreeStarts d.nodes := by
  unfold ofDocument at h
  split at h
  · simp at h
  · next root hroot =>
    split at h
    · next hunit =>
      split at h
      · simp at h
      · next parents hparents =>
        split at h
        · simp at h
        · next horphan =>
          simp only [Except.ok.injEq] at h
          subst h
          refine ⟨parents, hparents, ?_, horphan, rfl, rfl, rfl, rfl⟩
          cases root <;> simp_all [Node.isCompilationUnit]
    · simp at h

theorem node?_of_ofDocument {d : Document} {t : Tree} (h : ofDocument d = .ok t) (n : NodeId) :
    t.node? n = d.nodes[n]? := by
  obtain ⟨_, -, -, -, -, hnodes, -, -⟩ := ofDocument_ok h
  simp [node?, hnodes]

theorem size_of_ofDocument {d : Document} {t : Tree} (h : ofDocument d = .ok t) :
    t.size = d.nodes.length := by
  obtain ⟨_, -, -, -, -, hnodes, -, -⟩ := ofDocument_ok h
  simp [size, hnodes]

theorem ofDocument_linked {d : Document} {t : Tree} (h : ofDocument d = .ok t) : t.Linked := by
  obtain ⟨parents, hadopt, ⟨members, hlast⟩, _, _, hnodes, hparents, hstarts⟩ := ofDocument_ok h
  have hnode := node?_of_ofDocument h
  have hsize := size_of_ofDocument h
  have hedge : ∀ entry ∈ edges d.nodes,
      entry.1 < (Array.replicate d.nodes.length (none : Option NodeId)).size := by
    intro entry hentry
    obtain ⟨node, hget, -⟩ := mem_edges_iff.1 hentry
    have hlt : entry.1 < entry.2 := lt_of_adoptAll_ok hadopt entry hentry
    have : entry.2 < d.nodes.length := (List.getElem?_eq_some_iff.1 hget).1
    rw [Array.size_replicate]
    exact Nat.lt_trans hlt this
  refine ⟨?_, ⟨members, ?_⟩, ?_, ?_⟩
  · rw [hstarts, subtreeStarts_size, hsize]
  · rw [hnode, root, hsize, ← List.getLast?_eq_getElem?]
    exact hlast
  · intro n node hn child hchild
    rw [hparents]
    have hmem : (child, n) ∈ edges d.nodes := mem_edges_iff.2 ⟨node, hnode n ▸ hn, hchild⟩
    exact adoptAll_records hadopt hmem (hedge _ hmem)
  · intro n node hn
    have hsub := (children_sublist_edges (hnode n ▸ hn)).map (·.1)
    have hnodup := (adoptAll_nodup hadopt hedge).1.sublist hsub
    rw [List.map_map] at hnodup
    simpa [Function.comp_def] using hnodup

variable {t : Tree}

theorem lt_size_of_node? (h : t.node? n = some node) : n < t.size :=
  (Array.getElem?_eq_some_iff.1 h).1

theorem exists_node_of_lt (h : n < t.size) : ∃ node, t.node? n = some node :=
  ⟨t.nodes[n], Array.getElem?_eq_getElem h⟩

theorem fetch_of_node? (h : t.node? n = some node) :
    t.fetch n = .ok node := by
  simp [fetch, h]

theorem node?_of_fetch (h : t.fetch n = .ok node) : t.node? n = some node := by
  unfold fetch at h
  split at h
  · next hnode => rw [hnode, Except.ok.inj h]
  · simp at h

theorem child_lt_size (h : t.node? n = some node) (hchild : child ∈ node.children) :
    child < t.size :=
  Nat.lt_trans (t.child_lt h hchild) (lt_size_of_node? h)

/-- A global statement is the one child of a member of the compilation unit. -/
theorem exists_of_mem_globalStatementsOf {members : List NodeId} {statement : NodeId}
    (h : statement ∈ t.globalStatementsOf members) :
    ∃ m ∈ members, t.node? m = some (.globalStatement statement) := by
  obtain ⟨m, hm, hstatement⟩ := List.mem_filterMap.1 h
  split at hstatement
  · next hnode =>
    obtain rfl := Option.some.inj hstatement
    exact ⟨m, hm, hnode⟩
  · simp at hstatement

/-! ### Subtrees -/

/-- Whether `m` lies in the subtree of `n`. -/
inductive Under (t : Tree) (n : NodeId) : NodeId → Prop where
  | refl : Under t n n
  | step {k m : NodeId} {node : Node} (above : Under t n k) (hnode : t.node? k = some node)
      (hchild : m ∈ node.children) : Under t n m

theorem Under.le {n m : Nat} (h : t.Under n m) : m ≤ n := by
  induction h with
  | refl => exact Nat.le_refl _
  | step _ hnode hchild ih => exact Nat.le_trans (Nat.le_of_lt (t.child_lt hnode hchild)) ih

theorem Under.of_child (hnode : t.node? n = some node) (hchild : child ∈ node.children) :
    t.Under n child :=
  .step .refl hnode hchild

theorem Under.trans {m k : NodeId} (h : t.Under n m) (h' : t.Under m k) : t.Under n k := by
  induction h' with
  | refl => exact h
  | step _ hnode hchild ih => exact .step ih hnode hchild

namespace Linked

variable (linked : t.Linked)
include linked

theorem root_lt : t.root < t.size := by
  obtain ⟨_, h⟩ := linked.root_eq
  exact lt_size_of_node? h

variable {n m : NodeId}

theorem span_ok (h : n < t.size) : ∃ span, t.span n = .ok span := by
  have hlt : n < t.starts.size := by rw [linked.starts_size]; exact h
  refine ⟨.ofBounds t.starts[n] (n + 1), ?_⟩
  unfold Tree.span
  rw [Array.getElem?_eq_getElem hlt]

theorem parent_unique {child : NodeId} {a b : Node} (ha : t.node? n = some a)
    (hb : t.node? m = some b) (hca : child ∈ a.children) (hcb : child ∈ b.children) : n = m := by
  have h1 := linked.parent_of_child ha child hca
  have h2 := linked.parent_of_child hb child hcb
  rw [h1] at h2
  simpa using h2

/-- Of two nodes above one node, one lies in the subtree of the other. -/
theorem under_total {a b : NodeId} (ha : t.Under a m) (hb : t.Under b m) :
    t.Under a b ∨ t.Under b a := by
  induction ha with
  | refl => exact .inr hb
  | @step k m node above hnode hchild ih =>
    cases hb with
    | refl => exact .inl (.step above hnode hchild)
    | step above' hnode' hchild' =>
      obtain rfl := linked.parent_unique hnode hnode' hchild hchild'
      exact ih above'

/-- The subtrees of two children of one node have nothing in common. -/
theorem under_disjoint {a b : NodeId} {node : Node} (hnode : t.node? n = some node)
    (ha : a ∈ node.children) (hb : b ∈ node.children) (hma : t.Under a m) (hmb : t.Under b m) :
    a = b := by
  have key : ∀ {x y : NodeId}, x ∈ node.children → y ∈ node.children → t.Under x y → x = y := by
    intro x y hx hy hxy
    cases hxy with
    | refl => rfl
    | step above hk hyk =>
      obtain rfl := linked.parent_unique hnode hk hy hyk
      exact absurd (t.child_lt hnode hx) (Nat.not_lt.2 above.le)
  rcases linked.under_total hma hmb with h | h
  · exact key ha hb h
  · exact (key hb ha h).symm

end Linked

end Bindery.Tree
