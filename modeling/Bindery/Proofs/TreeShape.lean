import Bindery.Proofs.TreeLinks
import Mathlib.Data.List.Induction
import Mathlib.Data.List.Nodup
import Mathlib.Order.Bounds.Basic

/-! # The shape of accepted documents

A document is accepted exactly if its nodes form a tree (`Document.IsTree`): children stand before
their parents, and each node but the last, a compilation unit, occurs once among all children.

The links of an accepted document say no more and no less than its nodes (`Tree.Mirrors`):

* the parent of a node is the node it is a child of;
* the way up from any node climbs to the root, which all nodes lie under;
* the span of a node starts at the least node under it.  The starts are computed from the first node
  to the last, so each is the least of the starts of the children (`Tree.subtreeStarts_eq`). -/

namespace Bindery

/-- The nodes of the document form a tree. -/
structure Document.IsTree (d : Document) : Prop where
  root : ∃ members, d.nodes.getLast? = some (.compilationUnit members)
  before : ∀ {n : NodeId} {node : Node}, d.nodes[n]? = some node → ∀ child ∈ node.children, child < n
  once : ∀ n : Nat, n + 1 < d.nodes.length → (d.nodes.flatMap Node.children).count n = 1

namespace Tree

variable {t : Tree}

/-! ### Adopting -/

/-- Every child is listed before its parent and once, and no listed child has a parent yet. -/
structure Adoptable (list : List (NodeId × NodeId)) (parents : Array (Option NodeId)) : Prop where
  before : ∀ entry ∈ list, entry.1 < entry.2
  once : (list.map (·.1)).Nodup
  free : ∀ entry ∈ list, parents[entry.1]?.join = none

variable {parents : Array (Option NodeId)} {d : Document} {n : NodeId}
  {list : List (NodeId × NodeId)}

theorem Adoptable.adoptAll_ok (h : Adoptable list parents) :
    ∃ result, adoptAll list parents = .ok result := by
  induction list generalizing parents with
  | nil => exact ⟨parents, rfl⟩
  | cons entry rest ih =>
    obtain ⟨child, above⟩ := entry
    have hfree : parents[child]?.join = none := h.free (child, above) (by simp)
    have hadopt : adopt parents child above =
        .ok (parents.setIfInBounds child (some above)) := by
      unfold adopt
      rw [if_pos (h.before (child, above) (by simp))]
      split
      · next first hfirst => simp [hfirst] at hfree
      · rfl
    rw [adoptAll, hadopt]
    obtain ⟨hnot, honce⟩ := List.nodup_cons.1 h.once
    refine ih ⟨fun e he => h.before e (List.mem_cons_of_mem _ he), honce, fun e he => ?_⟩
    have hne : child ≠ e.1 := by
      rintro rfl
      exact hnot (List.mem_map.2 ⟨e, he, rfl⟩)
    rw [Array.getElem?_setIfInBounds_ne hne]
    exact h.free e (List.mem_cons_of_mem _ he)

variable {parent : NodeId}

/-- A recorded parent was there before or is listed. -/
theorem mem_of_adoptAll {result : Array (Option NodeId)}
    (h : adoptAll list parents = .ok result) (hn : result[n]? = some (some parent)) :
    parents[n]? = some (some parent) ∨ (n, parent) ∈ list := by
  induction list generalizing parents with
  | nil =>
    rw [adoptAll, Except.ok.injEq] at h
    exact .inl (h ▸ hn)
  | cons entry rest ih =>
    obtain ⟨child, above⟩ := entry
    rw [adoptAll] at h
    split at h
    · next adopted =>
      obtain ⟨-, -, rfl⟩ := adopt_ok adopted
      rcases ih h with hset | hmem
      · rw [Array.getElem?_setIfInBounds] at hset
        split at hset
        · next heq =>
          subst heq
          split at hset
          · obtain rfl := Option.some.inj (Option.some.inj hset)
            exact .inr (by simp)
          · cases hset
        · exact .inl hset
      · exact .inr (List.mem_cons_of_mem _ hmem)
    · cases h

theorem map_fst_edges (nodes : List Node) :
    (edges nodes).map (·.1) = nodes.flatMap Node.children := by
  unfold edges
  rw [List.map_flatMap]
  conv_rhs => rw [← List.zipIdx_map_fst 0 nodes, List.flatMap_map]
  refine congrArg (List.flatMap · _) (funext fun entry => ?_)
  rw [List.map_map]
  exact List.map_id _

/-! ### Acceptance -/

theorem edges_lt (hbefore : ∀ {n : NodeId} {node : Node}, d.nodes[n]? = some node →
    ∀ child ∈ node.children, child < n) {child parent : Nat} (h : (child, parent) ∈ edges d.nodes) :
    child < parent ∧ parent < d.nodes.length := by
  obtain ⟨node, hnode, hchild⟩ := mem_edges_iff.1 h
  exact ⟨hbefore hnode child hchild, (List.getElem?_eq_some_iff.1 hnode).1⟩

variable {n : Nat}

/-- A node before the root of an accepted document has a recorded parent. -/
theorem exists_parent_of_accepted {last : Nat}
    (h : (parents.toList.take last).findIdx? Option.isNone = none) (hn : n < last)
    (hsize : n < parents.size) : ∃ parent, parents[n]? = some (some parent) := by
  have hsome := List.findIdx?_eq_none_iff.1 h
  cases hget : parents[n] with
  | some parent => exact ⟨parent, by rw [Array.getElem?_eq_getElem hsize, hget]⟩
  | none =>
    refine absurd (hsome none (List.mem_iff_getElem?.2 ⟨n, ?_⟩)) (by simp)
    rw [List.getElem?_take_of_lt hn, Array.getElem?_toList, Array.getElem?_eq_getElem hsize, hget]

/-- The recorded parents of an accepted document are those of its nodes. -/
theorem parents_iff (h : ofDocument d = .ok t) {child parent : Nat} :
    t.parents[child]? = some (some parent) ↔ (child, parent) ∈ edges d.nodes := by
  obtain ⟨parents, hadopt, -, -, -, -, rfl, -⟩ := ofDocument_ok h
  constructor
  · intro hparent
    rcases mem_of_adoptAll hadopt hparent with hold | hmem
    · simp [Array.getElem?_replicate] at hold
    · exact hmem
  · intro hmem
    have hlt := edges_lt (fun hnode child hchild =>
      lt_of_adoptAll_ok hadopt (child, _) (mem_edges hnode hchild)) hmem
    refine adoptAll_records hadopt hmem ?_
    rw [Array.size_replicate]
    exact Nat.lt_trans hlt.1 hlt.2

theorem isTree_of_ofDocument (h : ofDocument d = .ok t) : d.IsTree := by
  obtain ⟨parents, hadopt, hroot, horphan, -, -, hparents, -⟩ := ofDocument_ok h
  have hbefore : ∀ {n : NodeId} {node : Node}, d.nodes[n]? = some node → ∀ child ∈ node.children,
      child < n := fun hnode child hchild =>
    lt_of_adoptAll_ok hadopt (child, _) (mem_edges hnode hchild)
  refine ⟨hroot, hbefore, fun n hn => ?_⟩
  have hsize : n < parents.size := by
    rw [adoptAll_size hadopt, Array.size_replicate]
    omega
  obtain ⟨parent, hparent⟩ := exists_parent_of_accepted horphan (by omega) hsize
  have hmem : (n, parent) ∈ edges d.nodes := (parents_iff h).1 (hparents ▸ hparent)
  have hnodup := (adoptAll_nodup hadopt fun entry hentry => by
    rw [Array.size_replicate]
    have := edges_lt hbefore hentry
    exact Nat.lt_trans this.1 this.2).1
  rw [← map_fst_edges]
  exact List.count_eq_one_of_mem hnodup (List.mem_map.2 ⟨(n, parent), hmem, rfl⟩)

/-- No number occurs twice among the children of a tree. -/
theorem nodup_children_of_isTree (h : d.IsTree) :
    (d.nodes.flatMap Node.children).Nodup := by
  refine List.nodup_iff_count_le_one.2 fun (n : Nat) => ?_
  by_cases hmem : n ∈ d.nodes.flatMap Node.children
  · rw [← map_fst_edges] at hmem
    obtain ⟨⟨child, parent⟩, hedge, rfl⟩ := List.mem_map.1 hmem
    obtain ⟨hlt, hparent⟩ := edges_lt h.before hedge
    exact Nat.le_of_eq (h.once child (Nat.lt_of_le_of_lt hlt hparent))
  · rw [List.count_eq_zero_of_not_mem hmem]
    omega

theorem ofDocument_of_isTree (h : d.IsTree) : ∃ t, ofDocument d = .ok t := by
  obtain ⟨members, hroot⟩ := h.root
  have hedges : ∀ {child parent : Nat}, (child, parent) ∈ edges d.nodes →
      child < parent ∧ parent < d.nodes.length := edges_lt h.before
  have hadoptable : Adoptable (edges d.nodes) (Array.replicate d.nodes.length none) :=
    ⟨fun entry hentry => (hedges hentry).1, map_fst_edges d.nodes ▸ nodup_children_of_isTree h,
      fun entry _ => by rw [Array.getElem?_replicate]; split <;> rfl⟩
  obtain ⟨parents, hadopt⟩ := hadoptable.adoptAll_ok
  have horphan : (parents.toList.take (d.nodes.length - 1)).findIdx? Option.isNone = none := by
    rw [List.findIdx?_eq_none_iff]
    intro parent hparent
    obtain ⟨n, hn⟩ := List.mem_iff_getElem?.1 hparent
    have hlt : n < d.nodes.length - 1 := by
      have := (List.getElem?_eq_some_iff.1 hn).1
      rw [List.length_take] at this
      omega
    rw [List.getElem?_take_of_lt hlt, Array.getElem?_toList] at hn
    have hmem : n ∈ d.nodes.flatMap Node.children :=
      List.one_le_count_iff.1 (Nat.le_of_eq (h.once n (by omega)).symm)
    rw [← map_fst_edges] at hmem
    obtain ⟨⟨_, above⟩, hedge, rfl⟩ := List.mem_map.1 hmem
    have hrecorded := adoptAll_records hadopt hedge (by
      rw [Array.size_replicate]
      exact Nat.lt_trans (hedges hedge).1 (hedges hedge).2)
    obtain rfl := Option.mem_unique hn hrecorded
    rfl
  unfold ofDocument
  rw [hroot]
  simp only [Node.isCompilationUnit, if_true]
  split
  · next herror => cases hadopt.symm.trans herror
  · next found hfound =>
    obtain rfl := Except.ok.inj (hadopt.symm.trans hfound)
    rw [horphan]
    exact ⟨_, rfl⟩

/-! ### The way up -/

theorem ancestorsAndSelf_eq_cons (t : Tree) (n : NodeId) :
    ∃ above, t.ancestorsAndSelf n = n :: above := by
  rw [ancestorsAndSelf]
  split <;> exact ⟨_, rfl⟩

theorem ancestorsAndSelf_of_parent (h : t.parents[n]? = some (some parent)) :
    t.ancestorsAndSelf n = n :: t.ancestorsAndSelf parent := by
  rw [ancestorsAndSelf]
  split
  · next other hother =>
    obtain rfl := Option.some.inj (Option.mem_unique h hother)
    rfl
  · next hnone => exact absurd h (hnone parent)

theorem ancestorsAndSelf_of_no_parent (h : ∀ parent, t.parents[n]? ≠ some (some parent)) :
    t.ancestorsAndSelf n = [n] := by
  rw [ancestorsAndSelf]
  split
  · next parent hparent => exact absurd hparent (h parent)
  · rfl

/-- The way up from a child goes on with its parent. -/
theorem Linked.ancestorsAndSelf_child (linked : t.Linked) {child : NodeId} {kind : Node}
    (hnode : t.node? n = some kind) (hchild : child ∈ kind.children) :
    t.ancestorsAndSelf child = child :: t.ancestorsAndSelf n :=
  ancestorsAndSelf_of_parent (linked.parent_of_child hnode child hchild)

theorem le_of_mem_ancestorsAndSelf {m : Nat} (h : m ∈ t.ancestorsAndSelf n) : n ≤ m := by
  induction n using Tree.ancestorsAndSelf.induct t with
  | case1 n parent hparent ih =>
    rw [ancestorsAndSelf_of_parent hparent] at h
    rcases List.mem_cons.1 h with rfl | h
    · exact Nat.le_refl _
    · exact Nat.le_trans (Nat.le_of_lt (t.lt_parent hparent)) (ih h)
  | case2 n hnone =>
    rw [ancestorsAndSelf_of_no_parent hnone] at h
    exact Nat.le_of_eq (List.mem_singleton.1 h).symm

theorem lt_of_mem_above {m : Nat} {above : List NodeId} (h : t.ancestorsAndSelf n = n :: above)
    (hm : m ∈ above) : n < m := by
  rw [ancestorsAndSelf] at h
  split at h
  · next parent hparent =>
    rw [← (List.cons.inj h).2] at hm
    exact Nat.lt_of_lt_of_le (t.lt_parent hparent) (le_of_mem_ancestorsAndSelf hm)
  · simp [← (List.cons.inj h).2] at hm

theorem pathToRoot_eq {kind : Node} (h : t.node? n = some kind) :
    t.pathToRoot n = .ok (t.ancestorsAndSelf n) := by
  unfold pathToRoot
  rw [fetch_of_node? h]
  rfl

theorem pairwise_ancestorsAndSelf (t : Tree) (n : NodeId) :
    (t.ancestorsAndSelf n).Pairwise (· < ·) := by
  induction n using Tree.ancestorsAndSelf.induct t with
  | case1 n parent hparent ih =>
    have heq := ancestorsAndSelf_of_parent hparent
    rw [heq, List.pairwise_cons]
    exact ⟨fun m hm => lt_of_mem_above heq hm, ih⟩
  | case2 n hnone =>
    rw [ancestorsAndSelf_of_no_parent hnone]
    exact List.pairwise_singleton _ _

theorem isChain_ancestorsAndSelf (t : Tree) (n : NodeId) :
    (t.ancestorsAndSelf n).IsChain fun child parent => t.parent? child = some parent := by
  induction n using Tree.ancestorsAndSelf.induct t with
  | case1 n parent hparent ih =>
    obtain ⟨above, habove⟩ := t.ancestorsAndSelf_eq_cons parent
    rw [ancestorsAndSelf_of_parent hparent, habove, List.isChain_cons_cons]
    exact ⟨by rw [parent?, hparent]; rfl, habove ▸ ih⟩
  | case2 n hnone =>
    rw [ancestorsAndSelf_of_no_parent hnone]
    exact .singleton _

section accepted

variable {d : Document} (h : ofDocument d = .ok t)
include h

theorem parent?_iff {child parent : NodeId} : t.parent? child = some parent ↔
    ∃ node, t.node? parent = some node ∧ child ∈ node.children := by
  rw [parent?, Option.join_eq_some_iff, parents_iff h, mem_edges_iff]
  simp only [node?_of_ofDocument h]

variable {n : Nat}

/-- Every node but the root has a parent. -/
theorem eq_root_of_no_parent (hn : n < t.size)
    (hnone : ∀ parent, t.parents[n]? ≠ some (some parent)) : n = t.root := by
  obtain ⟨parents, hadopt, -, horphan, -, -, hparents, -⟩ := ofDocument_ok h
  have hsize : n < parents.size := by
    rw [adoptAll_size hadopt, Array.size_replicate, ← size_of_ofDocument h]
    exact hn
  by_contra hne
  have hlt : n < d.nodes.length - 1 := by
    rw [← size_of_ofDocument h]
    unfold root at hne
    omega
  obtain ⟨parent, hparent⟩ := exists_parent_of_accepted horphan hlt hsize
  exact hnone parent (hparents ▸ hparent)

theorem parent_lt {parent : Nat} (hparent : t.parents[n]? = some (some parent)) :
    parent < t.size := by
  obtain ⟨node, hnode, -⟩ := mem_edges_iff.1 ((parents_iff h).1 hparent)
  rw [size_of_ofDocument h]
  exact (List.getElem?_eq_some_iff.1 hnode).1

/-- The way up ends at the root. -/
theorem getLast?_ancestorsAndSelf (hn : n < t.size) :
    (t.ancestorsAndSelf n).getLast? = some t.root := by
  induction n using Tree.ancestorsAndSelf.induct t with
  | case1 n parent hparent ih =>
    obtain ⟨above, habove⟩ := t.ancestorsAndSelf_eq_cons parent
    have hlast := ih (parent_lt h hparent)
    rw [ancestorsAndSelf_of_parent hparent, habove, List.getLast?_cons_cons, ← habove, hlast]
  | case2 n hnone =>
    rw [ancestorsAndSelf_of_no_parent hnone, ← eq_root_of_no_parent h hn hnone]
    rfl

/-- Every node lies under the root. -/
theorem under_root (hn : n < t.size) : t.Under t.root n := by
  induction n using Tree.ancestorsAndSelf.induct t with
  | case1 n parent hparent ih =>
    obtain ⟨node, hnode, hchild⟩ := (parent?_iff h).1 (by rw [parent?, hparent]; rfl)
    exact .step (ih (parent_lt h hparent)) hnode hchild
  | case2 n hnone =>
    rw [eq_root_of_no_parent h hn hnone]
    exact .refl

end accepted

/-! ### Spans -/

theorem subtreeStarts_append (nodes : List Node) (node : Node) :
    subtreeStarts (nodes ++ [node]) = (subtreeStarts nodes).push
      (node.children.foldl (fun start child => min start ((subtreeStarts nodes).getD child start))
        nodes.length) := by
  conv_rhs => rw [← subtreeStarts_size nodes]
  unfold subtreeStarts
  rw [List.foldl_append]
  rfl

/-- Where children stand before their parents, each start comes from those of the children. -/
theorem subtreeStarts_eq {nodes : List Node}
    (hbefore : ∀ {n : NodeId} {node : Node}, nodes[n]? = some node → ∀ child ∈ node.children, child < n)
    {node : Node} (hnode : nodes[n]? = some node) :
    (subtreeStarts nodes)[n]? = some (node.children.foldl
      (fun start child => min start ((subtreeStarts nodes).getD child start)) n) := by
  induction nodes using List.reverseRecOn with
  | nil => simp at hnode
  | append_singleton nodes last ih =>
    have hsize := subtreeStarts_size nodes
    have hlt : n < nodes.length + 1 := by
      simpa using (List.getElem?_eq_some_iff.1 hnode).1
    -- what the last node adds is not among the children
    have hsame : ∀ start, ∀ child ∈ node.children,
        min start ((subtreeStarts (nodes ++ [last])).getD child start) =
          min start ((subtreeStarts nodes).getD child start) := by
      intro start child hchild
      have hchild : child < nodes.length := Nat.lt_of_lt_of_le (hbefore hnode child hchild)
        (Nat.le_of_lt_succ hlt)
      rw [subtreeStarts_append, Array.getD_eq_getD_getElem?, Array.getD_eq_getD_getElem?,
        Array.getElem?_push_lt (hsize ▸ hchild), Array.getElem?_eq_getElem (hsize ▸ hchild)]
    rw [List.foldl_ext _ _ _ hsame]
    rcases Nat.lt_succ_iff_lt_or_eq.1 hlt with hlt | rfl
    · rw [List.getElem?_append_left hlt] at hnode
      rw [subtreeStarts_append, Array.getElem?_push_lt (hsize ▸ hlt),
        ← Array.getElem?_eq_getElem (hsize ▸ hlt)]
      refine ih (fun {m kind} hm => hbefore ?_) hnode
      rw [List.getElem?_append_left (List.getElem?_eq_some_iff.1 hm).1]
      exact hm
    · obtain rfl : node = last := by simpa using hnode.symm
      rw [subtreeStarts_append, ← hsize, Array.getElem?_push_size]

theorem isLeast_foldl_min {starts : Array Nat} {children : List Nat}
    (h : ∀ child ∈ children, child < starts.size) (first : Nat) :
    IsLeast {k | k = first ∨ ∃ child ∈ children, starts[child]? = some k}
      (children.foldl (fun start child => min start (starts.getD child start)) first) := by
  induction children generalizing first with
  | nil => exact ⟨.inl rfl, by simp [lowerBounds]⟩
  | cons child rest ih =>
    obtain ⟨own, hget⟩ : ∃ own, starts[child]? = some own :=
      ⟨_, Array.getElem?_eq_getElem (h child (by simp))⟩
    have hgetD : starts.getD child first = own := by
      rw [Array.getD_eq_getD_getElem?, hget]
      rfl
    rw [List.foldl_cons, hgetD]
    obtain ⟨hmem, hleast⟩ := ih (fun c hc => h c (List.mem_cons_of_mem _ hc)) (min first own)
    refine ⟨?_, ?_⟩
    · rcases hmem with heq | ⟨c, hc, hstart⟩
      · rw [heq]
        rcases Nat.le_total first own with hle | hle
        · exact .inl (Nat.min_eq_left hle)
        · exact .inr ⟨child, by simp, by rw [hget, Nat.min_eq_right hle]⟩
      · exact .inr ⟨c, List.mem_cons_of_mem _ hc, hstart⟩
    · have hle := hleast (.inl rfl)
      rintro k (rfl | ⟨c, hc, hstart⟩)
      · exact Nat.le_trans hle (Nat.min_le_left _ _)
      · rcases List.mem_cons.1 hc with rfl | hc
        · obtain rfl := Option.mem_unique hget hstart
          exact Nat.le_trans hle (Nat.min_le_right _ _)
        · exact hleast (.inr ⟨c, hc, hstart⟩)

/-- What lies under a node is the node itself or lies under a child. -/
theorem under_iff {m : NodeId} {node : Node} (hnode : t.node? n = some node) :
    t.Under n m ↔ m = n ∨ ∃ child ∈ node.children, t.Under child m := by
  constructor
  · intro h
    induction h with
    | refl => exact .inl rfl
    | step _ hk hm ih =>
      rcases ih with rfl | ⟨child, hchild, hunder⟩
      · obtain rfl := Option.mem_unique hnode hk
        exact .inr ⟨_, hm, .refl⟩
      · exact .inr ⟨child, hchild, .step hunder hk hm⟩
  · rintro (rfl | ⟨child, hchild, hunder⟩)
    · exact .refl
    · exact (Under.of_child hnode hchild).trans hunder

/-- The start of a subtree is the least node in it. -/
theorem isLeast_start (h : ofDocument d = .ok t) {start : Nat}
    (hstart : t.starts[n]? = some start) : IsLeast {k | t.Under n k} start := by
  obtain ⟨_, -, -, -, -, -, -, hstarts⟩ := ofDocument_ok h
  have hsize : t.starts.size = t.size := (ofDocument_linked h).starts_size
  induction n using Nat.strongRecOn generalizing start with
  | ind n ih =>
    obtain ⟨node, hnode⟩ := exists_node_of_lt (t := t) (n := n)
      (hsize ▸ (Array.getElem?_eq_some_iff.1 hstart).1)
    have hlt : ∀ child ∈ node.children, child < t.starts.size := fun child hchild => by
      rw [hsize]
      exact child_lt_size hnode hchild
    have heq := subtreeStarts_eq (isTree_of_ofDocument h).before
      (node?_of_ofDocument h n ▸ hnode)
    rw [← hstarts, hstart] at heq
    obtain rfl := Option.some.inj heq
    obtain ⟨hmem, hleast⟩ := isLeast_foldl_min hlt n
    refine ⟨?_, fun k hk => ?_⟩
    · refine (under_iff hnode).2 (hmem.imp id ?_)
      rintro ⟨child, hchild, hchildStart⟩
      exact ⟨child, hchild, (ih child (t.child_lt hnode hchild) hchildStart).1⟩
    · rcases (under_iff hnode).1 hk with rfl | ⟨child, hchild, hunder⟩
      · exact hleast (.inl rfl)
      · have hget := Array.getElem?_eq_getElem (hlt child hchild)
        exact Nat.le_trans (hleast (.inr ⟨child, hchild, hget⟩))
          ((ih child (t.child_lt hnode hchild) hget).2 hunder)

/-- The span of a node reaches from the least node under it to the node itself. -/
theorem span_bounds (h : ofDocument d = .ok t) {span : Span}
    (hspan : t.span n = .ok span) : IsLeast {k | t.Under n k} span.start ∧ span.stop = n + 1 := by
  unfold Tree.span at hspan
  split at hspan
  · next start hstart =>
    obtain rfl := Except.ok.inj hspan
    have hleast := isLeast_start h hstart
    have hle : start ≤ n := hleast.2 .refl
    exact ⟨hleast, Nat.add_sub_cancel' (Nat.le_succ_of_le hle)⟩
  · cases hspan

/-- No two nodes have one span. -/
theorem span_injective (h : ofDocument d = .ok t) {m : NodeId} {s : Span} (hn : t.span n = .ok s)
    (hm : t.span m = .ok s) : n = m :=
  Nat.succ.inj ((span_bounds h hn).2.symm.trans (span_bounds h hm).2)

/-! ### Documents and their trees -/

/-- The links of a tree say what its nodes say. -/
structure Mirrors (t : Tree) (nodes : List Node) : Prop where
  node?_eq : ∀ n, t.node? n = nodes[n]?
  root_eq : t.root + 1 = nodes.length
  parent?_iff : ∀ {child parent : NodeId}, t.parent? child = some parent ↔
    ∃ node, nodes[parent]? = some node ∧ child ∈ node.children
  parent?_root : t.parent? t.root = none
  /-- The way up from a node starts there, goes from parent to parent and ends at the root. -/
  ancestors : ∀ n < nodes.length, ∃ path, t.pathToRoot n = .ok path ∧ path.head? = some n ∧
    path.IsChain (fun child parent => t.parent? child = some parent) ∧ path.Pairwise (· < ·) ∧
    path.getLast? = some t.root
  span_bounds : ∀ n < nodes.length, ∃ span, t.span n = .ok span ∧
    IsLeast {k | t.Under n k} span.start ∧ span.stop = n + 1
  span_root : t.span t.root = .ok ⟨0, nodes.length⟩

theorem mirrors_of_ofDocument (h : ofDocument d = .ok t) : t.Mirrors d.nodes := by
  have linked := ofDocument_linked h
  have hsize := size_of_ofDocument h
  have hroot : t.root + 1 = d.nodes.length := by
    rw [← hsize]
    exact Nat.succ_pred_eq_of_pos (Nat.zero_lt_of_lt linked.root_lt)
  have hspan : ∀ n < d.nodes.length, ∃ span, t.span n = .ok span ∧
      IsLeast {k | t.Under n k} span.start ∧ span.stop = n + 1 := by
    intro n hn
    obtain ⟨span, hspan⟩ := linked.span_ok (hsize ▸ hn)
    exact ⟨span, hspan, span_bounds h hspan⟩
  constructor
  case node?_eq => exact node?_of_ofDocument h
  case root_eq => exact hroot
  case parent?_iff =>
    intro child parent
    rw [← node?_of_ofDocument h]
    exact parent?_iff h
  case parent?_root =>
    cases hparent : t.parent? t.root with
    | none => rfl
    | some parent =>
      obtain ⟨node, hnode, hchild⟩ := (parent?_iff h).1 hparent
      have hlt := lt_size_of_node? hnode
      rw [hsize, ← hroot] at hlt
      exact absurd (t.child_lt hnode hchild) (Nat.not_lt.2 (Nat.le_of_lt_succ hlt))
  case ancestors =>
    intro n hn
    obtain ⟨node, hnode⟩ := exists_node_of_lt (t := t) (hsize ▸ hn)
    obtain ⟨above, habove⟩ := t.ancestorsAndSelf_eq_cons n
    exact ⟨_, pathToRoot_eq hnode, by rw [habove]; rfl, t.isChain_ancestorsAndSelf n,
      t.pairwise_ancestorsAndSelf n, getLast?_ancestorsAndSelf h (hsize ▸ hn)⟩
  case span_bounds => exact hspan
  case span_root =>
    obtain ⟨⟨start, length⟩, hget, hleast, hstop⟩ := hspan t.root (hroot ▸ Nat.lt_succ_self _)
    have hstart : start = 0 := Nat.le_zero.1
      (hleast.2 (under_root h (Nat.zero_lt_of_lt linked.root_lt)))
    subst hstart
    have hlength : length = d.nodes.length := by
      rw [← hroot, ← hstop]
      exact (Nat.zero_add length).symm
    rw [hget, hlength]

/-- A document is accepted exactly if its nodes form a tree, and the links of its tree are those of
the nodes. -/
theorem accepts_exactly_trees (d : Document) : ((∃ t, ofDocument d = .ok t) ↔ d.IsTree) ∧
    ∀ t, ofDocument d = .ok t → t.Mirrors d.nodes :=
  ⟨⟨fun ⟨_, h⟩ => isTree_of_ofDocument h, ofDocument_of_isTree⟩, fun _ => mirrors_of_ofDocument⟩

/-- `-1 + -2;`, with the subtrees of both operands interleaved. -/
def interleavedDocument : Document := ⟨"interleaved", [
  .literal (.int 1), .literal (.int 2), .unary .negate 0, .unary .negate 1, .binary .add 2 3,
  .expressionStatement 4, .globalStatement 5, .compilationUnit [6]]⟩

theorem accepts_exactly_trees_interleaved : ∃ t, ofDocument interleavedDocument = .ok t ∧
    interleavedDocument.IsTree ∧ t.Mirrors interleavedDocument.nodes := by
  obtain ⟨t, h⟩ : ∃ t, ofDocument interleavedDocument = .ok t := ⟨_, rfl⟩
  have accepts := accepts_exactly_trees interleavedDocument
  exact ⟨t, h, accepts.1.1 ⟨t, h⟩, accepts.2 t h⟩

end Tree
end Bindery
