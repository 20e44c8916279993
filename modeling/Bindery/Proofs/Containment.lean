import Bindery.Proofs.TreeShape

/-! # Containment and ancestry

Containment compares spans, and the span of a node reaches down to the least node under it.  An
ancestor therefore contains what lies under it.  The converse asks for more than a tree: where the
subtrees of two nodes interleave, one of them contains nodes of the other.

Containment is ancestry exactly in the contiguous trees (`containment_is_ancestry_iff_contiguous`),
where the nodes under a node have all the numbers from the least of them up to the node. -/

namespace Bindery.Tree

variable {t : Tree} {d : Document}

/-- The nodes under each node have consecutive numbers. -/
def IsContiguous (t : Tree) : Prop :=
  ∀ a < t.size, ∀ low m : Nat, t.Under a low → low ≤ m → m ≤ a → t.Under a m

section accepted

variable (h : ofDocument d = .ok t)
include h

/-- The nodes on the way up are those the node lies under. -/
theorem mem_ancestorsAndSelf_iff {n a : NodeId} : a ∈ t.ancestorsAndSelf n ↔ t.Under a n := by
  induction n using Tree.ancestorsAndSelf.induct t with
  | case1 n parent hparent ih =>
    obtain ⟨node, hnode, hchild⟩ := (parent?_iff h).1 (by rw [parent?, hparent]; rfl)
    rw [ancestorsAndSelf_of_parent hparent, List.mem_cons, ih]
    constructor
    · rintro (rfl | hunder)
      · exact .refl
      · exact .step hunder hnode hchild
    · intro hunder
      cases hunder with
      | refl => exact .inl rfl
      | step above hnode' hchild' =>
        obtain rfl := (ofDocument_linked h).parent_unique hnode hnode' hchild hchild'
        exact .inr above
  | case2 n hnone =>
    rw [ancestorsAndSelf_of_no_parent hnone, List.mem_singleton]
    constructor
    · rintro rfl
      exact .refl
    · intro hunder
      cases hunder with
      | refl => rfl
      | step above hnode hchild =>
        exact absurd ((ofDocument_linked h).parent_of_child hnode n hchild) (hnone _)

theorem exists_least {n : Nat} (hn : n < t.size) : ∃ low, IsLeast {k | t.Under n k} low := by
  obtain ⟨span, hspan⟩ := (ofDocument_linked h).span_ok hn
  exact ⟨span.start, (span_bounds h hspan).1⟩

/-- Containment compares the least nodes and the nodes themselves. -/
theorem isWithin_eq {n a low low' : Nat} (hn : n < t.size) (ha : a < t.size)
    (hlow : IsLeast {k | t.Under n k} low) (hlow' : IsLeast {k | t.Under a k} low') :
    t.isWithin n a = .ok (decide (low' ≤ low ∧ n ≤ a)) := by
  obtain ⟨inner, hinner⟩ := (ofDocument_linked h).span_ok hn
  obtain ⟨outer, houter⟩ := (ofDocument_linked h).span_ok ha
  obtain ⟨hleast, hstop⟩ := span_bounds h hinner
  obtain ⟨hleast', hstop'⟩ := span_bounds h houter
  obtain rfl := hlow.unique hleast
  obtain rfl := hlow'.unique hleast'
  unfold isWithin
  rw [houter, hinner]
  change Except.ok (outer.covers inner) = _
  rw [Span.covers, hstop, hstop', Bool.decide_and]
  simp only [Nat.add_le_add_iff_right]

theorem isWithin_iff {n a low low' : Nat} (hn : n < t.size) (ha : a < t.size)
    (hlow : IsLeast {k | t.Under n k} low) (hlow' : IsLeast {k | t.Under a k} low') :
    t.isWithin n a = .ok true ↔ low' ≤ low ∧ n ≤ a := by
  rw [isWithin_eq h hn ha hlow hlow', Except.ok.injEq, decide_eq_true_iff]

theorem IsContiguous.isWithin_iff (contiguous : t.IsContiguous) {n a : Nat} (hn : n < t.size)
    (ha : a < t.size) : t.isWithin n a = .ok true ↔ t.Under a n := by
  obtain ⟨low, hlow⟩ := exists_least h hn
  obtain ⟨low', hlow'⟩ := exists_least h ha
  rw [Tree.isWithin_iff h hn ha hlow hlow']
  constructor
  · rintro ⟨hle, hna⟩
    exact contiguous a ha low' n hlow'.1 (Nat.le_trans hle hlow.1.le) hna
  · intro hunder
    exact ⟨hlow'.2 (hunder.trans hlow.1), hunder.le⟩

/-- Where containment is ancestry, no node between those under `a` is left out: either `a` contains
it, or it contains the least node under `a` and so lies on one way up with `a`. -/
theorem isContiguous_of_isWithin
    (within : ∀ {n a : Nat}, n < t.size → a < t.size → t.isWithin n a = .ok true → t.Under a n) :
    t.IsContiguous := by
  intro a ha k m hk hkm hma
  have hm : m < t.size := Nat.lt_of_le_of_lt hma ha
  obtain ⟨low, hlow⟩ := exists_least h hm
  obtain ⟨low', hlow'⟩ := exists_least h ha
  have hle : low' ≤ m := Nat.le_trans (hlow'.2 hk) hkm
  rcases Nat.le_total low' low with hbelow | habove
  · exact within hm ha ((isWithin_iff h hm ha hlow hlow').2 ⟨hbelow, hma⟩)
  · have hleast : IsLeast {k | t.Under low' k} low' :=
      ⟨.refl, fun _ hunder => hlow'.2 (hlow'.1.trans hunder)⟩
    have hlt : low' < t.size := Nat.lt_of_le_of_lt hle hm
    have hunder := within hlt hm ((isWithin_iff h hlt hm hleast hlow).2 ⟨habove, hle⟩)
    rcases (ofDocument_linked h).under_total hlow'.1 hunder with hdone | hup
    · exact hdone
    · obtain rfl := Nat.le_antisymm hma hup.le
      exact .refl

/-- Between nodes of a tree containment always answers, and says that `n` comes no later than `a`
and nothing under `n` before everything under `a`.  An ancestor contains the node, and only
ancestors do exactly if the tree is contiguous. -/
theorem containment_is_ancestry_iff_contiguous :
    (∀ n < t.size, ∀ a < t.size, ∃ within, t.isWithin n a = .ok within ∧
      (within = true ↔ n ≤ a ∧ ∃ low, t.Under a low ∧ ∀ m, t.Under n m → low ≤ m) ∧
      (a ∈ t.ancestorsAndSelf n → within = true)) ∧
    (t.IsContiguous ↔ ∀ n < t.size, ∀ a < t.size,
      (t.isWithin n a = .ok true ↔ a ∈ t.ancestorsAndSelf n)) := by
  simp only [mem_ancestorsAndSelf_iff h]
  refine ⟨fun n hn a ha => ?_, fun contiguous n hn a ha => contiguous.isWithin_iff h hn ha,
    fun within => isContiguous_of_isWithin h fun hn ha => (within _ hn _ ha).1⟩
  obtain ⟨low, hlow⟩ := exists_least h hn
  obtain ⟨low', hlow'⟩ := exists_least h ha
  refine ⟨_, isWithin_eq h hn ha hlow hlow', ?_, fun hunder => ?_⟩
  · rw [decide_eq_true_iff, and_comm]
    refine and_congr_right fun _ => ⟨fun hle => ⟨low', hlow'.1, fun m hm => ?_⟩, ?_⟩
    · exact Nat.le_trans hle (hlow.2 hm)
    · rintro ⟨k, hk, hbelow⟩
      exact Nat.le_trans (hlow'.2 hk) (hbelow low hlow.1)
  · exact decide_eq_true ⟨hlow'.2 (hunder.trans hlow.1), hunder.le⟩

end accepted

/-- In `-1 + -2;` with interleaved operands, the first operand contains the digit of the second. -/
theorem containment_without_ancestry : ∃ t, ofDocument interleavedDocument = .ok t ∧
    t.isWithin 1 2 = .ok true ∧ 2 ∉ t.ancestorsAndSelf 1 ∧ ¬ t.IsContiguous := by
  obtain ⟨t, h⟩ : ∃ t, ofDocument interleavedDocument = .ok t := ⟨_, rfl⟩
  have hsize : t.size = 8 := size_of_ofDocument h
  have hnode : t.node? 2 = some (.unary .negate 0) := node?_of_ofDocument h 2
  obtain ⟨contains, contiguous⟩ := containment_is_ancestry_iff_contiguous h
  have hout : 2 ∉ t.ancestorsAndSelf 1 := by
    rw [mem_ancestorsAndSelf_iff h, under_iff hnode]
    rintro (heq | ⟨child, hchild, hunder⟩)
    · cases heq
    · obtain rfl := List.mem_singleton.1 hchild
      exact absurd hunder.le (by decide)
  obtain ⟨within, hwithin, hiff, -⟩ := contains 1 (by omega) 2 (by omega)
  have hin : within = true :=
    hiff.2 ⟨by decide, 0, .of_child hnode (by decide), fun _ _ => Nat.zero_le _⟩
  subst hin
  exact ⟨t, h, hwithin, hout, fun hc => hout ((contiguous.1 hc 1 (by omega) 2 (by omega)).1 hwithin)⟩

end Bindery.Tree
