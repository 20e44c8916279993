import Bindery.Proofs.ConstantGraph

/-! # Rounds of the ordering

Which fields the rounds of `DependencyGraph.order` take.

* A round looks at what is done and at which field depends on which.  It sees neither the order in
  which the fields were discovered nor how often a dependency is listed, so rearranged graphs have
  the same order (`order_eq_of_rearranged`).
* A marked field is the least one that is left on some cycle, taken when every field that is left
  waits for another one (`Chosen`).  The cycles are those of the whole graph: one of them may have
  been broken before.  So a marked field is on a cycle of fields that are all left, or it comes
  before such a cycle and waits for it (`marked_fields_wait_for_cycles`). -/

namespace Bindery.DependencyGraph

variable {g h : DependencyGraph}

/-! ### Discovery order -/

/-- The same fields with the same dependencies, in any order and listed any number of times. -/
structure Rearranged (g h : DependencyGraph) : Prop where
  nodup_left : g.keys.Nodup
  nodup_right : h.keys.Nodup
  mem_keys : ∀ field, field ∈ g.keys ↔ field ∈ h.keys
  dependsOn : ∀ a b, g.DependsOn a b ↔ h.DependsOn a b

namespace Rearranged

variable (same : Rearranged g h)
include same

theorem length_keys : g.keys.length = h.keys.length :=
  ((List.perm_ext_iff_of_nodup same.nodup_left same.nodup_right).2 same.mem_keys).length_eq

theorem dependsOn_eq : g.DependsOn = h.DependsOn :=
  funext fun a => funext fun b => propext (same.dependsOn a b)

/-- The fields that are ready are sorted, so it is enough that they are the same fields. -/
theorem ready_eq {s t : Progress} (hs : g.Counts s) (ht : h.Counts t) (hdone : s.done = t.done) :
    s.ready = t.ready := by
  have hperm : s.ready.Perm t.ready := by
    refine (List.perm_ext_iff_of_nodup (hs.nodup_ready same.nodup_left)
      (ht.nodup_ready same.nodup_right)).2 fun field => ?_
    rw [hs.mem_ready same.nodup_left, ht.mem_ready same.nodup_right, hdone, same.mem_keys,
      same.dependsOn_eq]
  have hsorted : ∀ u : Progress, u.ready.Pairwise fun a b => decide (a ≤ b) = true := fun u =>
    List.pairwise_mergeSort (by simpa using fun a b c => Nat.le_trans)
      (by simpa using fun a b => Nat.le_total a b) _
  exact hperm.eq_of_pairwise (fun a b _ _ hab hba => Nat.le_antisymm (by simpa using hab)
    (by simpa using hba)) (hsorted s) (hsorted t)

theorem cycleStart?_eq (done : List SymbolId) : g.cycleStart? done = h.cycleStart? done := by
  ext start
  rw [cycleStart?_eq_some_iff, cycleStart?_eq_some_iff, same.dependsOn_eq]
  simp only [same.mem_keys]

/-- Where the same has been done, the same is done next. -/
theorem extend_eq {rounds : Nat} {s t : Progress} (hs : g.Counts s) (ht : h.Counts t)
    (horder : s.order = t.order) : g.extend rounds s = h.extend rounds t := by
  induction rounds generalizing s t with
  | zero => rw [extend, extend, horder]
  | succ rounds ih =>
    have hdone : s.done = t.done := by rw [Progress.done, Progress.done, horder]
    rw [extend, extend, hdone, same.length_keys, same.ready_eq hs ht hdone, same.cycleStart?_eq,
      horder]
    split
    · split
      · cases hstart : h.cycleStart? t.done with
        | none => rfl
        | some start =>
          have hnot : start ∉ t.done := (cycleStart?_some hstart).2.1
          refine ih (hs.finish same.nodup_left true (hdone ▸ hnot))
            (ht.finish same.nodup_right true hnot) ?_
          rw [order_finish, order_finish, horder]
      · have hnot : ∀ field ∈ t.ready, field ∉ t.done := fun field hfield =>
          ((ht.mem_ready same.nodup_right).1 hfield).2.1
        have hnodup := ht.nodup_ready same.nodup_right
        obtain ⟨hs', horder'⟩ := hs.finish_all same.nodup_left false hnodup (hdone ▸ hnot)
        obtain ⟨ht', horder''⟩ := ht.finish_all same.nodup_right false hnodup hnot
        exact ih hs' ht' (by rw [horder', horder'', horder])
    · rfl

end Rearranged

/-- The order of fields depends on the fields and on which of them depend on which, not on the order
in which fields and dependencies were discovered.  A closed graph has an order. -/
theorem order_eq_of_rearranged (same : Rearranged g h) :
    g.order = h.order ∧ (g.Closed → ∃ order, g.order = .ok order ∧ h.order = .ok order) := by
  have heq : g.order = h.order := by
    have hlength : g.entries.length = h.entries.length := by simpa [keys] using same.length_keys
    unfold order
    rw [hlength]
    exact same.extend_eq (counts_start g) (counts_start h) rfl
  refine ⟨heq, fun closed => ?_⟩
  obtain ⟨order, horder, -⟩ := order_spec closed
  exact ⟨order, horder, heq ▸ horder⟩

/-- The fields of `overlapping` as they are found from another one, without the double
dependency. -/
def overlappingFromTwo : DependencyGraph :=
  ⟨[(2, []), (4, [6, 5]), (6, [4]), (3, [3]), (5, [4]), (9, [3, 5])]⟩

theorem overlapping_rearranged : Rearranged overlapping overlappingFromTwo := by
  have hkeys : ∀ field, field ∈ overlapping.keys ↔ field ∈ overlappingFromTwo.keys := fun field => by
    rw [(by decide : overlapping.keys.Perm overlappingFromTwo.keys).mem_iff]
  have hleft : ∀ a ∈ overlapping.keys, ∀ b ∈ overlapping.dependencies a,
      b ∈ overlappingFromTwo.dependencies a := by decide
  have hright : ∀ a ∈ overlappingFromTwo.keys, ∀ b ∈ overlappingFromTwo.dependencies a,
      b ∈ overlapping.dependencies a := by decide
  exact ⟨by decide, by decide, hkeys, fun a b => ⟨fun h => hleft a (mem_keys_of_dependsOn h) b h,
    fun h => hright a (mem_keys_of_dependsOn h) b h⟩⟩

theorem order_eq_of_rearranged_overlapping :
    Rearranged overlapping overlappingFromTwo ∧ overlapping.Closed ∧
      overlapping.order = overlappingFromTwo.order ∧
      ∃ order, overlapping.order = .ok order ∧ overlappingFromTwo.order = .ok order := by
  obtain ⟨heq, hclosed⟩ := order_eq_of_rearranged overlapping_rearranged
  exact ⟨overlapping_rearranged, overlapping_closed, heq, hclosed overlapping_closed⟩

/-! ### Marked fields -/

/-- What a round adds to the order: the fields that are ready, or the start of a cycle. -/
theorem extend_rec (hkeys : g.keys.Nodup) {Q : List (SymbolId × Bool) → Prop}
    (take : ∀ {s : Progress}, g.Counts s → Q s.order → Q (s.order ++ s.ready.map (·, false)))
    (mark : ∀ {s : Progress} {start : SymbolId}, g.Counts s → s.ready = [] →
      g.cycleStart? s.done = some start → Q s.order → Q (s.order ++ [(start, true)]))
    {rounds : Nat} {s : Progress} {result : List (SymbolId × Bool)} (counts : g.Counts s)
    (hs : Q s.order) (hresult : g.extend rounds s = .ok result) : Q result := by
  induction rounds generalizing s with
  | zero =>
    obtain rfl := Except.ok.inj hresult
    exact hs
  | succ rounds ih =>
    rw [extend] at hresult
    split at hresult
    · split at hresult
      · next hnone =>
        cases hstart : g.cycleStart? s.done with
        | none => simp [hstart] at hresult
        | some start =>
          rw [hstart] at hresult
          refine ih (counts.finish hkeys true (cycleStart?_some hstart).2.1) ?_ hresult
          rw [order_finish]
          exact mark counts hnone hstart hs
      · obtain ⟨hcounts, horder⟩ := counts.finish_all hkeys false (counts.nodup_ready hkeys)
          fun field hfield => ((counts.mem_ready hkeys).1 hfield).2.1
        refine ih hcounts ?_ hresult
        rw [horder]
        exact take counts hs
    · obtain rfl := Except.ok.inj hresult
      exact hs

/-- Every marked field was taken when all fields that were left had to wait for another one that was
left, and it was the least of those that lie on a cycle. -/
def Chosen (g : DependencyGraph) (order : List (SymbolId × Bool)) : Prop :=
  ∀ before field after, order = before ++ (field, true) :: after →
    (∀ a ∈ g.keys, a ∉ before.map (·.1) → ∃ b, g.DependsOn a b ∧ b ∉ before.map (·.1)) ∧
    g.cycleStart? (before.map (·.1)) = some field

variable {order : List (SymbolId × Bool)}

theorem Chosen.append_ready (chosen : g.Chosen order)
    (fields : List SymbolId) : g.Chosen (order ++ fields.map (·, false)) := by
  intro before field after hsplit
  rcases split_append hsplit with ⟨rest, horder⟩ | ⟨extra, -, hadded⟩
  · exact chosen before field rest horder
  · have hfield : (field, true) ∈ fields.map (·, false) := by
      rw [hadded]
      simp
    simp at hfield

variable {start : SymbolId}

theorem Chosen.append_start (closed : g.Closed) {s : Progress} (counts : g.Counts s)
    (chosen : g.Chosen s.order) (hnone : s.ready = [])
    (hstart : g.cycleStart? s.done = some start) : g.Chosen (s.order ++ [(start, true)]) := by
  intro before field after hsplit
  rcases split_append hsplit with ⟨rest, horder⟩ | ⟨extra, hbefore, hadded⟩
  · exact chosen before field rest horder
  · obtain ⟨rfl, rfl, -⟩ : extra = [] ∧ start = field ∧ after = [] := by
      cases extra with
      | nil => simpa using hadded
      | cons => simp at hadded
    rw [List.append_nil] at hbefore
    subst hbefore
    refine ⟨fun a hkey hleft => ?_, hstart⟩
    by_contra hfree
    have hready : a ∈ s.ready := (counts.mem_ready closed.nodup).2 ⟨hkey, hleft, fun next hnext => by
      by_contra hmissing
      exact hfree ⟨next, hnext, hmissing⟩⟩
    simp [hnone] at hready

theorem chosen_of_order (closed : g.Closed) (h : g.order = .ok order) : g.Chosen order :=
  extend_rec closed.nodup (fun _ chosen => chosen.append_ready _)
    (fun counts hnone hstart chosen => chosen.append_start closed counts hnone hstart)
    (counts_start g) (by simp [Chosen, start]) h

/-! ### Live cycles -/

/-- A dependency on a field that is not done. -/
def WaitsFor (g : DependencyGraph) (done : List SymbolId) (a b : SymbolId) : Prop :=
  g.DependsOn a b ∧ b ∉ done

/-- A cycle of fields none of which is done. -/
def IsLiveCycle (g : DependencyGraph) (done cycle : List SymbolId) : Prop :=
  g.IsCycle cycle ∧ ∀ field ∈ cycle, field ∉ done

variable {field : SymbolId} {done : List SymbolId}

/-- Where every field that is left waits for another one, each of them waits for a live cycle. -/
theorem exists_live_cycle (closed : g.Closed)
    (hstuck : ∀ a ∈ g.keys, a ∉ done → ∃ b, g.WaitsFor done a b) (hkey : field ∈ g.keys)
    (hleft : field ∉ done) :
    ∃ live, g.IsLiveCycle done live ∧
      ∃ member ∈ live, Relation.ReflTransGen (g.WaitsFor done) field member := by
  classical
  let waited := g.keys.filter fun a => a ∉ done ∧ Relation.ReflTransGen (g.WaitsFor done) field a
  have hmem : ∀ {a : SymbolId}, a ∈ waited ↔
      a ∈ g.keys ∧ a ∉ done ∧ Relation.ReflTransGen (g.WaitsFor done) field a := by
    intro a
    simp [waited]
  have hfield : field ∈ waited := hmem.2 ⟨hkey, hleft, .refl⟩
  obtain ⟨member, hmember, hcycle⟩ := exists_cycle (R := g.WaitsFor done)
    (List.ne_nil_of_mem hfield) (by
      intro a ha
      obtain ⟨hakey, haleft, hway⟩ := hmem.1 ha
      obtain ⟨b, hwaits⟩ := hstuck a hakey haleft
      exact ⟨b, hmem.2 ⟨closed.mem_keys hakey hwaits.1, hwaits.2, hway.tail hwaits⟩, hwaits⟩)
  obtain ⟨live, hlive, hin, hleft⟩ := exists_isCycle_of (fun hwaits => hwaits) hcycle
  exact ⟨live, ⟨hlive, hleft⟩, member, hin, (hmem.1 hmember).2.2⟩

variable {cycle : List SymbolId}

/-- Dependencies lead from every field of a cycle back to it. -/
theorem IsCycle.transGen (hcycle : g.IsCycle cycle)
    (hfield : field ∈ cycle) : Relation.TransGen g.DependsOn field field := by
  cases cycle with
  | nil => simp at hfield
  | cons first rest =>
    have hchain : ((first :: rest) ++ [first]).IsChain (Relation.TransGen g.DependsOn) :=
      List.IsChain.imp (fun _ _ => Relation.TransGen.single) hcycle
    obtain ⟨hwithin, -, hback⟩ := List.pairwise_append.1 hchain.pairwise
    have hfirst : Relation.TransGen g.DependsOn field first := hback field hfield first (by simp)
    rcases List.mem_cons.1 hfield with rfl | hrest
    · exact hfirst
    · exact hfirst.trans ((List.pairwise_cons.1 hwithin).1 field hrest)

theorem IsCycle.exists_previous (hcycle : g.IsCycle cycle) (hfield : field ∈ cycle) :
    ∃ previous ∈ cycle, g.DependsOn previous field := by
  cases cycle with
  | nil => exact hcycle.elim
  | cons first rest =>
    have hrotate : ∀ {f : SymbolId}, f ∈ first :: rest ↔ f ∈ rest ++ [first] := by simp [or_comm]
    obtain ⟨previous, hprevious, hdepends⟩ :=
      exists_previous_of_isChain hcycle (hrotate.1 hfield)
    refine ⟨previous, ?_, hdepends⟩
    rcases List.mem_cons.1 hprevious with rfl | hprevious
    · simp
    · exact hrotate.2 hprevious

variable {live : List SymbolId}

/-- No field of a live cycle comes before the field that is taken to break a cycle. -/
theorem cycleStart?_le (hstart : g.cycleStart? done = some start)
    (hlive : g.IsLiveCycle done live) {member : SymbolId} (hmember : member ∈ live) :
    start ≤ member := by
  obtain ⟨next, -, hnext⟩ := hlive.1.exists_next hmember
  exact (cycleStart?_eq_some_iff.1 hstart).2 member (mem_keys_of_dependsOn hnext)
    (hlive.2 member hmember) (hlive.1.transGen hmember)

/-- Ordering a closed graph marks no field while a lesser one is left on a live cycle.  A marked
field lies on a live cycle itself, or else it waits for one whose fields all come after it, and lies
on a cycle that was broken before. -/
theorem marked_fields_wait_for_cycles (closed : g.Closed) :
    ∃ order, g.order = .ok order ∧
      ∀ before field after, order = before ++ (field, true) :: after →
        (∀ live, g.IsLiveCycle (before.map (·.1)) live → ∀ member ∈ live, field ≤ member) ∧
        ((∃ live, g.IsLiveCycle (before.map (·.1)) live ∧ field ∈ live) ∨
          ∃ broken live, g.IsCycle broken ∧ field ∈ broken ∧
            (∃ member ∈ broken, member ∈ before.map (·.1)) ∧
            g.IsLiveCycle (before.map (·.1)) live ∧ (∀ member ∈ live, field < member) ∧
            ∃ member ∈ live, Relation.TransGen (g.WaitsFor (before.map (·.1))) field member) := by
  obtain ⟨order, horder, -⟩ := order_spec closed
  refine ⟨order, horder, fun before field after hsplit => ?_⟩
  obtain ⟨hstuck, hstart⟩ := chosen_of_order closed horder before field after hsplit
  obtain ⟨hkey, hleft, hcyclic⟩ := cycleStart?_some hstart
  refine ⟨fun live hlive member => cycleStart?_le hstart hlive, ?_⟩
  obtain ⟨live, hlive, member, hmember, hway⟩ := exists_live_cycle closed hstuck hkey hleft
  obtain ⟨cycle, hcycle, hfield⟩ := exists_isCycle hcyclic
  by_cases hfound : ∃ live, g.IsLiveCycle (before.map (·.1)) live ∧ field ∈ live
  · exact .inl hfound
  · have hbroken : ∃ member ∈ cycle, member ∈ before.map (·.1) := by
      by_contra hnone
      exact hfound ⟨cycle, ⟨hcycle, fun member hin hdone => hnone ⟨member, hin, hdone⟩⟩, hfield⟩
    have houtside : ∀ member ∈ live, field ≠ member := by
      rintro member hin rfl
      exact hfound ⟨live, hlive, hin⟩
    refine .inr ⟨cycle, live, hcycle, hfield, hbroken, hlive, fun member hin =>
      lt_of_le_of_ne (cycleStart?_le hstart hlive hin) (houtside member hin), member, hmember, ?_⟩
    exact (Relation.reflTransGen_iff_eq_or_transGen.1 hway).resolve_left
      fun heq => houtside member hmember heq.symm

/-- The cycle of `1` and `2`, of which `2` also waits for the cycle of `3` and `4`. -/
def successive : DependencyGraph := ⟨[(1, [2]), (2, [1, 3]), (3, [4]), (4, [3])]⟩

theorem successive_closed : successive.Closed := by
  refine ⟨by decide, fun {a b} ha => ?_⟩
  have h : ∀ a ∈ successive.keys, ∀ b ∈ successive.dependencies a, b ∈ successive.keys := by decide
  exact h a ha b

theorem order_successive :
    successive.order = .ok [(1, true), (2, true), (3, true), (4, false)] := by
  cbv

/-- Only `1` depends on `2`, so `2` is on no cycle without `1`. -/
theorem not_mem_live_successive (hlive : successive.IsLiveCycle [1] live) :
    2 ∉ live := by
  intro hmem
  obtain ⟨previous, hprevious, hdepends⟩ := hlive.1.exists_previous hmem
  have honly : ∀ a ∈ successive.keys, 2 ∈ successive.dependencies a → a ∈ [1] := by decide
  exact hlive.2 previous hprevious (honly previous (mem_keys_of_dependsOn hdepends) hdepends)

theorem marked_fields_wait_for_cycles_successive : successive.Closed ∧ ∃ broken live,
    successive.IsCycle broken ∧ 1 ∈ broken ∧ 2 ∈ broken ∧
      successive.IsLiveCycle [1] live ∧ ∀ member ∈ live, 2 < member := by
  refine ⟨successive_closed, ?_⟩
  obtain ⟨order, horder, hmarked⟩ := marked_fields_wait_for_cycles successive_closed
  obtain rfl := Except.ok.inj (order_successive.symm.trans horder)
  rcases (hmarked [(1, true)] 2 [(3, true), (4, false)] rfl).2 with
    ⟨live, hlive, hmem⟩ | ⟨broken, live, hbroken, hfield, ⟨member, hin, hdone⟩, hlive, hlt, -⟩
  · exact absurd hmem (not_mem_live_successive hlive)
  · obtain rfl : member = 1 := by simpa using hdone
    exact ⟨broken, live, hbroken, hin, hfield, hlive, hlt⟩

/-- A marked field need not be on a live cycle: after the cycle of `1` and `2` was broken, `2` is
marked because of the cycle that it waits for. -/
theorem broken_cycle_marked_again : successive.Closed ∧ ∃ before field after,
    successive.order = .ok (before ++ (field, true) :: after) ∧
      ¬ ∃ live, successive.IsLiveCycle (before.map (·.1)) live ∧ field ∈ live := by
  refine ⟨successive_closed, [(1, true)], 2, [(3, true), (4, false)], order_successive, ?_⟩
  rintro ⟨live, hlive, hmem⟩
  exact not_mem_live_successive hlive hmem

end Bindery.DependencyGraph
