import Bindery.Binding.ConstantOrder
import Mathlib.Data.List.Chain
import Mathlib.Data.List.Permutation
import Mathlib.Data.Fintype.Card
import Mathlib.Order.Preorder.Finite

/-! # Ordering constants

What `DependencyGraph.order` gives for a closed graph, one whose dependencies are all fields of it:

* it never stalls: where no field is ready, the fields that are left lead to each other for ever, so
  one of them lies on a cycle (`exists_cycle`), and the search finds it (`isOnCycle_iff`);
* the counts are at any time the numbers of dependencies that are not done (`Counts`), so the fields
  that are ready are those whose dependencies are;
* every field is taken exactly once, after its dependencies unless it is marked; the marked fields
  lie on cycles and break all of them (`order_breaks_cycles`). -/

namespace Bindery.DependencyGraph

variable {g : DependencyGraph}

/-- Whether `b` is a dependency of `a`. -/
def DependsOn (g : DependencyGraph) (a b : SymbolId) : Prop := b ∈ g.dependencies a

/-- Every dependency is a field of the graph, and no field is entered twice. -/
structure Closed (g : DependencyGraph) : Prop where
  nodup : g.keys.Nodup
  mem_keys : ∀ {a b : SymbolId}, a ∈ g.keys → g.DependsOn a b → b ∈ g.keys

/-! ### Searching for cycles -/

variable {target : SymbolId} {visited stack : List SymbolId}

theorem reaches_sound (h : g.reaches target visited stack = true) :
    ∃ start ∈ stack, Relation.ReflTransGen g.DependsOn start target := by
  fun_induction g.reaches target visited stack with
  | case1 => simp at h
  | case2 => exact ⟨target, by simp, .refl⟩
  | case3 visited field rest _ _ ih =>
    obtain ⟨start, hstart, hpath⟩ := ih h
    exact ⟨start, List.mem_cons_of_mem _ hstart, hpath⟩
  | case4 visited field rest _ _ ih =>
    obtain ⟨start, hstart, hpath⟩ := ih h
    rcases List.mem_append.1 hstart with hdep | hrest
    · exact ⟨field, by simp, .head (List.mem_reverse.1 hdep) hpath⟩
    · exact ⟨start, List.mem_cons_of_mem _ hrest, hpath⟩

/-- A search that finds nothing has seen a set of fields that is closed under dependencies. -/
theorem reaches_complete (h : g.reaches target visited stack = false) :
    ∃ seen : List SymbolId, visited ⊆ seen ∧ stack ⊆ seen ∧ ∀ field ∈ seen,
      field ∈ visited ∨ field ≠ target ∧ ∀ next, g.DependsOn field next → next ∈ seen := by
  fun_induction g.reaches target visited stack with
  | case1 => exact ⟨_, fun _ hf => hf, by simp, fun field hf => .inl hf⟩
  | case2 => simp at h
  | case3 visited field rest _ hmem ih =>
    obtain ⟨seen, hv, hs, hclosed⟩ := ih h
    refine ⟨seen, hv, fun f hf => ?_, hclosed⟩
    rcases List.mem_cons.1 hf with rfl | hf
    · exact hv hmem
    · exact hs hf
  | case4 visited field rest hne _ ih =>
    obtain ⟨seen, hv, hs, hclosed⟩ := ih h
    have hin : field ∈ seen := hv (by simp)
    refine ⟨seen, fun f hf => hv (List.mem_cons_of_mem _ hf), fun f hf => ?_, fun f hf => ?_⟩
    · rcases List.mem_cons.1 hf with rfl | hf
      · exact hin
      · exact hs (List.mem_append_right _ hf)
    · rcases hclosed f hf with hmem' | hclosed
      · rcases List.mem_cons.1 hmem' with rfl | hmem'
        · exact .inr ⟨hne, fun next hnext =>
            hs (List.mem_append_left _ (List.mem_reverse.2 hnext))⟩
        · exact .inl hmem'
      · exact .inr hclosed

/-- The search finds exactly the fields from which dependencies lead back. -/
theorem isOnCycle_iff (field : SymbolId) :
    g.isOnCycle field = true ↔ Relation.TransGen g.DependsOn field field := by
  unfold isOnCycle
  constructor
  · intro h
    obtain ⟨start, hstart, hpath⟩ := reaches_sound h
    exact .head' (List.mem_reverse.1 hstart) hpath
  · intro hcycle
    by_contra hfalse
    obtain ⟨seen, -, hs, hclosed⟩ := reaches_complete (Bool.eq_false_of_not_eq_true hfalse)
    obtain ⟨next, hnext, hpath⟩ := Relation.TransGen.head'_iff.1 hcycle
    have hstay : ∀ {f : SymbolId}, Relation.ReflTransGen g.DependsOn next f → f ∈ seen := by
      intro f hf
      induction hf with
      | refl => exact hs (List.mem_reverse.2 hnext)
      | tail _ hstep ih =>
        rcases hclosed _ ih with hv | ⟨_, hnext⟩
        · simp at hv
        · exact hnext _ hstep
    rcases hclosed field (hstay hpath) with hv | ⟨hne, _⟩
    · simp at hv
    · exact hne rfl

/-- The turns of a search and its answer.  Each turn takes a field off the stack. -/
inductive Searches (g : DependencyGraph) (target : SymbolId) :
    List SymbolId → List SymbolId → Nat → Bool → Prop
  | exhausted {visited : List SymbolId} : Searches g target visited [] 0 false
  | found {visited rest : List SymbolId} : Searches g target visited (target :: rest) 1 true
  | known {visited rest : List SymbolId} {field : SymbolId} {turns : Nat} {answer : Bool} :
      field ≠ target → field ∈ visited → Searches g target visited rest turns answer →
      Searches g target visited (field :: rest) (turns + 1) answer
  | visit {visited rest : List SymbolId} {field : SymbolId} {turns : Nat} {answer : Bool} :
      field ≠ target → field ∉ visited →
      Searches g target (field :: visited) ((g.dependencies field).reverse ++ rest) turns answer →
      Searches g target visited (field :: rest) (turns + 1) answer

/-- A field is visited once, so its dependencies come onto the stack once. -/
theorem searches_reaches (g : DependencyGraph) (target : SymbolId) (visited stack : List SymbolId) :
    ∃ turns ≤ (g.unseen visited).length + stack.length,
      g.Searches target visited stack turns (g.reaches target visited stack) := by
  fun_induction g.reaches target visited stack with
  | case1 => exact ⟨0, by simp, .exhausted⟩
  | case2 => exact ⟨1, by rw [List.length_cons]; omega, .found⟩
  | case3 visited field rest hne hmem ih =>
    obtain ⟨turns, hturns, hsearch⟩ := ih
    exact ⟨turns + 1, by simpa [← Nat.add_assoc] using hturns, .known hne hmem hsearch⟩
  | case4 visited field rest hne hmem ih =>
    obtain ⟨turns, hturns, hsearch⟩ := ih
    have hunseen := g.length_unseen_cons hmem
    simp only [List.length_append, List.length_reverse] at hturns
    exact ⟨turns + 1, by rw [List.length_cons]; omega, .visit hne hmem hsearch⟩

/-- The search ends after at most a turn for each dependency of the graph and of the field, whatever
the graph is, and answers whether dependencies lead from the field back to it. -/
theorem cycle_search_exact (g : DependencyGraph) (field : SymbolId) :
    (∃ turns ≤ (g.entries.flatMap (·.2)).length + (g.dependencies field).length,
      g.Searches field [] (g.dependencies field).reverse turns (g.isOnCycle field)) ∧
    (g.isOnCycle field = true ↔ Relation.TransGen g.DependsOn field field) := by
  refine ⟨?_, isOnCycle_iff field⟩
  simpa [unseen, isOnCycle] using g.searches_reaches field [] (g.dependencies field).reverse

variable {order : List (SymbolId × Bool)} {fields done : List SymbolId} {s : Progress}
  {field start : SymbolId} {R : SymbolId → SymbolId → Prop}

/-- Fields that all lead on among themselves contain a cycle. -/
theorem exists_cycle (hne : fields ≠ []) (hstep : ∀ a ∈ fields, ∃ b ∈ fields, R a b) :
    ∃ a ∈ fields, Relation.TransGen R a a := by
  by_contra hnone
  have hnone : ∀ a ∈ fields, ¬ Relation.TransGen R a a := fun a ha h => hnone ⟨a, ha, h⟩
  let leads (a b : { f // f ∈ fields }) : Prop := Relation.TransGen R b.1 a.1
  have htrans : IsTrans _ leads := ⟨fun a b c hab hbc => Relation.TransGen.trans hbc hab⟩
  have hirrefl : Std.Irrefl leads := ⟨fun a => hnone a.1 a.2⟩
  obtain ⟨first, hfirst⟩ := List.exists_mem_of_ne_nil fields hne
  obtain ⟨least, -, hleast⟩ := (Finite.wellFounded_of_trans_of_irrefl leads).has_min Set.univ
    ⟨⟨first, hfirst⟩, trivial⟩
  obtain ⟨b, hb, hdep⟩ := hstep least.1 least.2
  exact hleast ⟨b, hb⟩ trivial (.single hdep)

/-! ### Counting down -/

/-- Every count is the number of dependencies of its field that are not done. -/
def Counts (g : DependencyGraph) (s : Progress) : Prop :=
  s.remaining = g.entries.map fun entry => (entry.1, entry.2.countP (· ∉ s.done))

theorem counts_start (g : DependencyGraph) : g.Counts g.start := by
  unfold Counts start
  refine List.map_congr_left fun entry _ => ?_
  simp [Progress.done]

theorem foldl_release (fields : List SymbolId) (s : Progress) :
    fields.foldl .release s =
      { s with remaining := s.remaining.map fun entry =>
        (entry.1, entry.2 - fields.count entry.1) } := by
  induction fields generalizing s with
  | nil => simp
  | cons field rest ih =>
    rw [List.foldl_cons, ih]
    simp only [Progress.release, List.map_map, Progress.mk.injEq, and_true]
    refine List.map_congr_left fun entry _ => ?_
    by_cases h : entry.1 = field
    · subst h
      simp [Nat.sub_sub, Nat.add_comm]
    · simp [h, List.count_cons_of_ne (Ne.symm h)]

variable {entry : SymbolId × List SymbolId}

/-- A field is released once for each of its dependencies on the field that is done. -/
theorem count_dependents {entries : List (SymbolId × List SymbolId)}
    (hnodup : (entries.map (·.1)).Nodup) (h : entry ∈ entries) (field : SymbolId) :
    ((DependencyGraph.mk entries).dependents field).count entry.1 = entry.2.count field := by
  induction entries with
  | nil => simp at h
  | cons first rest ih =>
    obtain ⟨hfirst, hrest⟩ := List.nodup_cons.1 hnodup
    have hcons : (DependencyGraph.mk (first :: rest)).dependents field =
        List.replicate (first.2.count field) first.1 ++ (DependencyGraph.mk rest).dependents field :=
      List.flatMap_cons
    rw [hcons, List.count_append, List.count_replicate]
    rcases List.mem_cons.1 h with rfl | h
    · -- no other entry has this field, so no other one is counted
      have hzero : ((DependencyGraph.mk rest).dependents field).count entry.1 = 0 := by
        refine List.count_eq_zero.2 fun hmem => ?_
        obtain ⟨other, hother, hin⟩ := List.mem_flatMap.1 hmem
        exact hfirst (List.mem_map.2 ⟨other, hother, (List.eq_of_mem_replicate hin).symm⟩)
      simp [hzero]
    · have hne : first.1 ≠ entry.1 := fun heq => hfirst (List.mem_map.2 ⟨entry, h, heq.symm⟩)
      simpa [hne] using ih hrest h

theorem order_finish (marked : Bool) (s : Progress) (field : SymbolId) :
    (g.finish marked s field).order = s.order ++ [(field, marked)] := by
  simp [finish, foldl_release]

theorem done_finish (marked : Bool) (s : Progress) (field : SymbolId) :
    (g.finish marked s field).done = s.done ++ [field] := by
  simp [Progress.done, order_finish]

/-- Of the dependencies that are not done, those on `field` come off. -/
theorem countP_sub_count (h : field ∉ done) (dependencies : List SymbolId) :
    dependencies.countP (· ∉ done) - dependencies.count field =
      dependencies.countP (· ∉ done ++ [field]) := by
  have hsplit : dependencies.countP (· ∉ done) =
      dependencies.countP (· ∉ done ++ [field]) + dependencies.count field := by
    induction dependencies with
    | nil => rfl
    | cons next rest ih =>
      rw [List.countP_cons, List.countP_cons, List.count_cons, ih]
      by_cases hnext : next = field
      · subst hnext
        simp [h]
        omega
      · simp [hnext]
        omega
  omega

theorem Counts.finish (hkeys : g.keys.Nodup) (counts : g.Counts s) (marked : Bool)
    (h : field ∉ s.done) : g.Counts (g.finish marked s field) := by
  unfold Counts
  rw [done_finish, DependencyGraph.finish, foldl_release]
  dsimp only
  rw [show s.remaining = _ from counts, List.map_map]
  refine List.map_congr_left fun entry hentry => ?_
  simp only [Function.comp, count_dependents hkeys hentry, countP_sub_count h]

/-- Finishing several fields that are not done. -/
theorem Counts.finish_all (hkeys : g.keys.Nodup) (counts : g.Counts s) (marked : Bool)
    (hnodup : fields.Nodup) (h : ∀ field ∈ fields, field ∉ s.done) :
    g.Counts (fields.foldl (g.finish marked) s) ∧
      (fields.foldl (g.finish marked) s).order = s.order ++ fields.map (·, marked) := by
  induction fields generalizing s with
  | nil => simpa using counts
  | cons field rest ih =>
    obtain ⟨hfield, hrest⟩ := List.nodup_cons.1 hnodup
    obtain ⟨hcounts, horder⟩ := ih (counts.finish hkeys marked (h field (by simp))) hrest (by
      intro other hother hdone
      rw [done_finish] at hdone
      rcases List.mem_append.1 hdone with hdone | hdone
      · exact h other (List.mem_cons_of_mem _ hother) hdone
      · exact hfield (List.mem_singleton.1 hdone ▸ hother))
    refine ⟨hcounts, ?_⟩
    rw [List.foldl_cons, horder, order_finish]
    simp

theorem dependencies_eq (hkeys : g.keys.Nodup)
    (h : entry ∈ g.entries) : g.dependencies entry.1 = entry.2 := by
  have hfind : g.entries.find? (fun other => other.1 = entry.1) = some entry := by
    obtain ⟨found, hfound⟩ := Option.isSome_iff_exists.1
      (List.find?_isSome (p := fun other => decide (other.1 = entry.1)).2 ⟨entry, h, by simp⟩)
    have hkey : found.1 = entry.1 := by simpa using List.find?_some hfound
    rw [hfound, List.inj_on_of_nodup_map hkeys (List.mem_of_find?_eq_some hfound) h hkey]
  simp [dependencies, hfind]

/-- The fields that wait for nothing are those whose dependencies are all done. -/
theorem Counts.mem_ready (hkeys : g.keys.Nodup) (counts : g.Counts s) :
    field ∈ s.ready ↔ field ∈ g.keys ∧ field ∉ s.done ∧
      ∀ next, g.DependsOn field next → next ∈ s.done := by
  unfold Progress.ready
  rw [(List.mergeSort_perm _ _).mem_iff, show s.remaining = _ from counts]
  simp only [List.mem_map, List.mem_filter, keys]
  constructor
  · rintro ⟨_, ⟨⟨entry, hentry, rfl⟩, htest⟩, rfl⟩
    simp only [Bool.and_eq_true, decide_eq_true_eq, Bool.not_eq_true', List.contains_eq_mem,
      decide_eq_false_iff_not, List.countP_eq_zero, not_not] at htest
    refine ⟨⟨entry, hentry, rfl⟩, htest.2, fun next hnext => ?_⟩
    unfold DependsOn at hnext
    rw [dependencies_eq hkeys hentry] at hnext
    exact htest.1 next hnext
  · rintro ⟨⟨entry, hentry, rfl⟩, hnot, hdone⟩
    refine ⟨_, ⟨⟨entry, hentry, rfl⟩, ?_⟩, rfl⟩
    unfold DependsOn at hdone
    rw [dependencies_eq hkeys hentry] at hdone
    simp only [Bool.and_eq_true, decide_eq_true_eq, Bool.not_eq_true', List.contains_eq_mem,
      decide_eq_false_iff_not, List.countP_eq_zero, not_not]
    exact ⟨hdone, hnot⟩

theorem Counts.nodup_ready (hkeys : g.keys.Nodup) (counts : g.Counts s) :
    s.ready.Nodup := by
  unfold Progress.ready
  refine (List.mergeSort_perm _ _).nodup_iff.2 (List.Nodup.sublist
    (List.filter_sublist.map _) ?_)
  rw [show s.remaining = _ from counts, List.map_map]
  exact hkeys

/-! ### Taking fields -/

/-- What holds of a list of fields that were taken one after the other. -/
structure Taken (g : DependencyGraph) (order : List (SymbolId × Bool)) : Prop where
  nodup : (order.map (·.1)).Nodup
  mem_keys : ∀ entry ∈ order, entry.1 ∈ g.keys
  after : ∀ {before after : List (SymbolId × Bool)} {field : SymbolId},
    order = before ++ (field, false) :: after →
    ∀ next, g.DependsOn field next → next ∈ before.map (·.1)
  cyclic : ∀ {field : SymbolId}, (field, true) ∈ order → Relation.TransGen g.DependsOn field field

/-- A place in an order that was extended is a place in the old part or in the new one. -/
theorem split_append {added before after : List (SymbolId × Bool)} {entry : SymbolId × Bool}
    (h : order ++ added = before ++ entry :: after) :
    (∃ rest, order = before ++ entry :: rest) ∨
      ∃ extra, before = order ++ extra ∧ added = extra ++ entry :: after := by
  rcases List.append_eq_append_iff.1 h with hnew | ⟨extra, hold, hsplit⟩
  · exact .inr hnew
  · cases extra with
    | nil => exact .inr ⟨[], by simpa using hold.symm, by simpa using hsplit.symm⟩
    | cons head rest =>
      obtain ⟨rfl, -⟩ := List.cons.inj hsplit
      exact .inl ⟨rest, hold⟩

theorem taken_nil : g.Taken [] := ⟨by simp, by simp, by simp, by simp⟩

/-- Taking fields whose dependencies are all taken. -/
theorem Taken.append_ready (taken : g.Taken order) (hnodup : fields.Nodup)
    (hready : ∀ field ∈ fields, field ∈ g.keys ∧ field ∉ order.map (·.1) ∧
      ∀ next, g.DependsOn field next → next ∈ order.map (·.1)) :
    g.Taken (order ++ fields.map (·, false)) := by
  have hfst : (fields.map (·, false)).map (·.1) = fields := by
    rw [List.map_map]
    exact List.map_id _
  refine ⟨?_, ?_, ?_, ?_⟩
  · rw [List.map_append, hfst]
    exact List.nodup_append.2 ⟨taken.nodup, hnodup, fun a ha b hb hab =>
      (hready b hb).2.1 (hab ▸ ha)⟩
  · intro entry hentry
    rcases List.mem_append.1 hentry with h | h
    · exact taken.mem_keys entry h
    · obtain ⟨field, hfield, rfl⟩ := List.mem_map.1 h
      exact (hready field hfield).1
  · intro before after field heq next hnext
    rcases split_append heq with ⟨rest, horder⟩ | ⟨extra, hbefore, hsplit⟩
    · exact taken.after horder next hnext
    · -- the field is one of those just taken
      have hfield : (field, false) ∈ fields.map (·, false) := by
        rw [hsplit]
        simp
      obtain ⟨_, hmem, hpair⟩ := List.mem_map.1 hfield
      obtain ⟨rfl, -⟩ := Prod.mk.inj hpair
      rw [hbefore, List.map_append]
      exact List.mem_append_left _ ((hready _ hmem).2.2 next hnext)
  · intro field hfield
    rcases List.mem_append.1 hfield with h | h
    · exact taken.cyclic h
    · obtain ⟨_, -, hpair⟩ := List.mem_map.1 h
      simp at hpair

/-- The field that is taken to break a cycle: the least one that is left on a cycle. -/
theorem cycleStart?_eq_some_iff :
    g.cycleStart? done = some start ↔
      (start ∈ g.keys ∧ start ∉ done ∧ Relation.TransGen g.DependsOn start start) ∧
        ∀ other ∈ g.keys, other ∉ done → Relation.TransGen g.DependsOn other other →
          start ≤ other := by
  simp only [cycleStart?, List.min?_eq_some_iff, List.mem_filter, Bool.and_eq_true,
    Bool.not_eq_true', List.contains_eq_mem, decide_eq_false_iff_not, isOnCycle_iff, and_imp]

theorem cycleStart?_some (h : g.cycleStart? done = some start) :
    start ∈ g.keys ∧ start ∉ done ∧ Relation.TransGen g.DependsOn start start :=
  (cycleStart?_eq_some_iff.1 h).1

/-- Taking a field on a cycle. -/
theorem Taken.append_start (taken : g.Taken order)
    (hstart : g.cycleStart? (order.map (·.1)) = some start) :
    g.Taken (order ++ [(start, true)]) := by
  obtain ⟨hkey, hnot, hcycle⟩ := cycleStart?_some hstart
  refine ⟨?_, ?_, ?_, ?_⟩
  · rw [List.map_append]
    refine List.nodup_append.2 ⟨taken.nodup, by simp, fun a ha b hb hab => ?_⟩
    rw [List.map_singleton, List.mem_singleton] at hb
    subst hb
    exact hnot (hab ▸ ha)
  · intro entry hentry
    rcases List.mem_append.1 hentry with h | h
    · exact taken.mem_keys entry h
    · rw [List.mem_singleton.1 h]
      exact hkey
  · intro before after field heq next hnext
    rcases split_append heq with ⟨rest, horder⟩ | ⟨extra, hbefore, hsplit⟩
    · exact taken.after horder next hnext
    · have hfield : (field, false) ∈ [(start, true)] := by
        rw [hsplit]
        simp
      simp at hfield
  · intro field hfield
    rcases List.mem_append.1 hfield with h | h
    · exact taken.cyclic h
    · obtain ⟨rfl, -⟩ := Prod.mk.inj (List.mem_singleton.1 h)
      exact hcycle

/-- Fields that were taken are some of the fields, each of them once. -/
theorem Taken.subperm (taken : g.Taken order) :
    (order.map (·.1)).Subperm g.keys := by
  refine List.subperm_of_subset taken.nodup fun field hfield => ?_
  obtain ⟨entry, hentry, rfl⟩ := List.mem_map.1 hfield
  exact taken.mem_keys entry hentry

/-- Where fields are left and none is ready, one of them is on a cycle. -/
theorem cycleStart?_isSome (closed : g.Closed) (counts : g.Counts s)
    (hleft : s.done.length < g.keys.length) (hnone : s.ready = []) :
    ∃ start, g.cycleStart? s.done = some start := by
  let left := g.keys.filter fun field => !s.done.contains field
  have hmem : ∀ {field : SymbolId}, field ∈ left ↔ field ∈ g.keys ∧ field ∉ s.done := by
    intro field
    simp [left]
  have hne : left ≠ [] := by
    intro hnil
    have hsub : g.keys ⊆ s.done := by
      intro field hfield
      by_contra hnot
      have : field ∈ left := hmem.2 ⟨hfield, hnot⟩
      simp [hnil] at this
    have := closed.nodup.length_le_of_subset hsub
    omega
  obtain ⟨start, hstart, hcycle⟩ := exists_cycle (R := g.DependsOn) hne (by
    intro field hfield
    obtain ⟨hkey, hnot⟩ := hmem.1 hfield
    by_contra hstuck
    have : field ∈ s.ready := (counts.mem_ready closed.nodup).2 ⟨hkey, hnot, fun next hnext => by
      by_contra hmissing
      exact hstuck ⟨next, hmem.2 ⟨closed.mem_keys hkey hnext, hmissing⟩, hnext⟩⟩
    simp [hnone] at this)
  obtain ⟨hkey, hnot⟩ := hmem.1 hstart
  refine Option.isSome_iff_exists.1 (List.isSome_min?_of_mem (List.mem_filter.2 ⟨hkey, ?_⟩))
  simp [hnot, (isOnCycle_iff start).2 hcycle]

/-- With a round for every field that is left, all fields are taken. -/
theorem extend_spec (closed : g.Closed) {rounds : Nat} (counts : g.Counts s)
    (taken : g.Taken s.order) (hrounds : g.entries.length ≤ rounds + s.order.length) :
    ∃ result, g.extend rounds s = .ok result ∧ g.Taken result ∧ (result.map (·.1)).Perm g.keys := by
  have hlength : g.keys.length = g.entries.length := by simp [keys]
  have hdone : s.done.length = s.order.length := by simp [Progress.done]
  induction rounds generalizing s with
  | zero =>
    refine ⟨s.order, rfl, taken, taken.subperm.perm_of_length_le ?_⟩
    rw [List.length_map]
    omega
  | succ rounds ih =>
    rw [extend]
    split
    · next hleft =>
      split
      · next hnone =>
        obtain ⟨start, hstart⟩ := cycleStart?_isSome closed counts hleft hnone
        rw [hstart]
        have horder := order_finish (g := g) true s start
        refine ih (counts.finish closed.nodup true (cycleStart?_some hstart).2.1) ?_ ?_
          (by simp [Progress.done])
        · rw [horder]
          exact taken.append_start hstart
        · rw [horder, List.length_append, List.length_singleton]
          omega
      · next hsome =>
        have hready := fun field (h : field ∈ s.ready) => (counts.mem_ready closed.nodup).1 h
        obtain ⟨hcounts, horder⟩ := counts.finish_all closed.nodup false
          (counts.nodup_ready closed.nodup) fun field h => (hready field h).2.1
        refine ih hcounts ?_ ?_ (by simp [Progress.done])
        · rw [horder]
          exact taken.append_ready (counts.nodup_ready closed.nodup) hready
        · have hpos : 0 < s.ready.length := List.length_pos_iff.2 (by simpa using hsome)
          rw [horder, List.length_append, List.length_map]
          omega
    · next hall =>
      refine ⟨s.order, rfl, taken, taken.subperm.perm_of_length_le ?_⟩
      rw [List.length_map]
      omega

/-- A closed graph is ordered without a stall: every field once, after its dependencies or marked as
lying on a cycle. -/
theorem order_spec (closed : g.Closed) :
    ∃ result, g.order = .ok result ∧ g.Taken result ∧ (result.map (·.1)).Perm g.keys :=
  extend_spec closed (counts_start g) taken_nil (by simp)

/-! ### Cycles -/

/-- Fields of which each depends on the next, and the last on the first. -/
def IsCycle (g : DependencyGraph) : List SymbolId → Prop
  | [] => False
  | first :: rest => (first :: (rest ++ [first])).IsChain g.DependsOn

theorem IsCycle.exists_next {cycle : List SymbolId} (h : g.IsCycle cycle) (hfield : field ∈ cycle) :
    ∃ next ∈ cycle, g.DependsOn field next := by
  cases cycle with
  | nil => exact h.elim
  | cons first rest =>
    obtain ⟨before, after, hsplit⟩ := List.append_of_mem hfield
    have hchain : (before ++ field :: (after ++ [first])).IsChain g.DependsOn := by
      have : first :: (rest ++ [first]) = before ++ field :: (after ++ [first]) := by
        rw [← List.cons_append, hsplit, List.append_assoc, List.cons_append]
      rw [← this]
      exact h
    have hafter := (List.isChain_append.1 hchain).2.1
    cases after with
    | nil => exact ⟨first, by simp, (List.isChain_cons_cons.1 hafter).1⟩
    | cons next rest' =>
      exact ⟨next, by rw [hsplit]; simp, (List.isChain_cons_cons.1 hafter).1⟩

theorem exists_previous_of_isChain {first : SymbolId} {rest : List SymbolId}
    (h : (first :: rest).IsChain R) (hfield : field ∈ rest) :
    ∃ previous ∈ first :: rest, R previous field := by
  induction rest generalizing first with
  | nil => simp at hfield
  | cons second rest ih =>
    obtain ⟨hstep, hrest⟩ := List.isChain_cons_cons.1 h
    rcases List.mem_cons.1 hfield with rfl | hfield
    · exact ⟨first, by simp, hstep⟩
    · obtain ⟨previous, hprevious, hdepends⟩ := ih hrest hfield
      exact ⟨previous, List.mem_cons_of_mem _ hprevious, hdepends⟩

/-- A way from a field back to it, as a cycle.  The cycle is made of the fields on the way. -/
theorem exists_isCycle_of {P : SymbolId → Prop}
    (hR : ∀ {a b : SymbolId}, R a b → g.DependsOn a b ∧ P b) (h : Relation.TransGen R field field) :
    ∃ cycle, g.IsCycle cycle ∧ field ∈ cycle ∧ ∀ member ∈ cycle, P member := by
  obtain ⟨next, hnext, hpath⟩ := Relation.TransGen.head'_iff.1 h
  obtain ⟨rest, hchain, hlast⟩ := List.exists_isChain_cons_of_relationReflTransGen hpath
  have hclose : (next :: rest).dropLast ++ [field] = next :: rest := by
    rw [← hlast]
    exact List.dropLast_append_getLast _
  have hway : (field :: next :: rest).IsChain R := List.isChain_cons_cons.2 ⟨hnext, hchain⟩
  refine ⟨field :: (next :: rest).dropLast, ?_, by simp, fun member hmember => ?_⟩
  · rw [IsCycle, hclose]
    exact hway.imp fun _ _ hab => (hR hab).1
  · -- every field on the way is one that the way leads to, the first one at its end
    have hmember : member ∈ next :: rest := by
      rcases List.mem_cons.1 hmember with rfl | hmember
      · rw [← hclose]
        simp
      · exact List.mem_of_mem_dropLast hmember
    obtain ⟨_, -, hstep⟩ := exists_previous_of_isChain hway hmember
    exact (hR hstep).2

theorem exists_isCycle (h : Relation.TransGen g.DependsOn field field) :
    ∃ cycle, g.IsCycle cycle ∧ field ∈ cycle := by
  obtain ⟨cycle, hcycle, hfield, -⟩ := exists_isCycle_of (P := fun _ => True) (fun h => ⟨h, trivial⟩) h
  exact ⟨cycle, hcycle, hfield⟩

theorem mem_keys_of_dependsOn {a b : SymbolId} (h : g.DependsOn a b) : a ∈ g.keys := by
  unfold DependsOn dependencies at h
  cases hfind : g.entries.find? fun entry => entry.1 = a with
  | none => simp [hfind] at h
  | some entry =>
    exact List.mem_map.2 ⟨entry, List.mem_of_find?_eq_some hfind, by
      simpa using List.find?_some hfind⟩

/-- Of fields that lead on among themselves, the first one that is taken is marked. -/
theorem Taken.exists_marked (taken : g.Taken order) (hne : fields ≠ [])
    (htaken : fields ⊆ order.map (·.1)) (hstep : ∀ a ∈ fields, ∃ b ∈ fields, g.DependsOn a b) :
    ∃ a ∈ fields, (a, true) ∈ order := by
  obtain ⟨some', hsome⟩ := List.exists_mem_of_ne_nil fields hne
  obtain ⟨entry, hentry, heq⟩ := List.mem_map.1 (htaken hsome)
  obtain ⟨⟨first, marked⟩, hfirst⟩ := Option.isSome_iff_exists.1
    (List.find?_isSome (p := fun entry => decide (entry.1 ∈ fields)).2
      ⟨entry, hentry, by simpa [heq] using hsome⟩)
  obtain ⟨htest, before, after, hsplit, hbefore⟩ := List.find?_eq_some_iff_append.1 hfirst
  have hmem : first ∈ fields := by simpa using htest
  refine ⟨first, hmem, ?_⟩
  cases marked with
  | true =>
    rw [hsplit]
    simp
  | false =>
    obtain ⟨next, hnext, hdepends⟩ := hstep first hmem
    obtain ⟨earlier, hearlier, rfl⟩ := List.mem_map.1 (taken.after hsplit next hdepends)
    have := hbefore earlier hearlier
    simp [hnext] at this

/-- Ordering a closed graph never stalls and takes every field exactly once.  A field that is not
marked comes after all its dependencies.  The marked ones lie on cycles and every cycle has one, so
nothing is marked exactly if there are no cycles. -/
theorem order_breaks_cycles (closed : g.Closed) :
    ∃ order, g.order = .ok order ∧ (order.map (·.1)).Nodup ∧ (order.map (·.1)).Perm g.keys ∧
      (∀ before field after, order = before ++ (field, false) :: after →
        ∀ next, g.DependsOn field next → next ∈ before.map (·.1)) ∧
      (∀ field, (field, true) ∈ order → ∃ cycle, g.IsCycle cycle ∧ field ∈ cycle) ∧
      (∀ cycle, g.IsCycle cycle → ∃ field ∈ cycle, (field, true) ∈ order) ∧
      ((∀ entry ∈ order, entry.2 = false) ↔ ∀ cycle, ¬ g.IsCycle cycle) := by
  obtain ⟨order, horder, taken, hperm⟩ := order_spec closed
  have hcyclic : ∀ field, (field, true) ∈ order → ∃ cycle, g.IsCycle cycle ∧ field ∈ cycle :=
    fun field hfield => exists_isCycle (taken.cyclic hfield)
  have hmarked : ∀ cycle, g.IsCycle cycle → ∃ field ∈ cycle, (field, true) ∈ order := by
    intro cycle hcycle
    refine taken.exists_marked ?_ (fun field hfield => ?_) fun field hfield =>
      hcycle.exists_next hfield
    · rintro rfl
      exact hcycle
    · obtain ⟨next, -, hdepends⟩ := hcycle.exists_next hfield
      exact hperm.mem_iff.2 (mem_keys_of_dependsOn hdepends)
  refine ⟨order, horder, taken.nodup, hperm, fun before field after => taken.after, hcyclic, hmarked,
    fun hnone cycle hcycle => ?_, fun hacyclic entry hentry => ?_⟩
  · obtain ⟨field, -, hfield⟩ := hmarked cycle hcycle
    simpa using hnone _ hfield
  · obtain ⟨field, marked⟩ := entry
    cases marked with
    | false => rfl
    | true =>
      obtain ⟨cycle, hcycle, -⟩ := hcyclic field hentry
      exact absurd hcycle (hacyclic cycle)

/-- Two cycles that share the field `4`, a field that depends on itself, and one that waits for
both. -/
def overlapping : DependencyGraph :=
  ⟨[(9, [5, 3, 3]), (5, [4]), (4, [5, 6]), (6, [4]), (3, [3]), (2, [])]⟩

theorem overlapping_closed : overlapping.Closed := by
  refine ⟨by decide, fun {a b} ha => ?_⟩
  have h : ∀ a ∈ overlapping.keys, ∀ b ∈ overlapping.dependencies a, b ∈ overlapping.keys := by decide
  exact h a ha b

theorem order_breaks_cycles_overlapping : overlapping.Closed ∧ ∃ order,
    overlapping.order = .ok order ∧ order =
      [(2, false), (3, true), (4, true), (5, false), (6, false), (9, false)] ∧
      (∀ cycle, overlapping.IsCycle cycle → ∃ field ∈ cycle, (field, true) ∈ order) := by
  obtain ⟨order, horder, -, -, -, -, hmarked, -⟩ := order_breaks_cycles overlapping_closed
  refine ⟨overlapping_closed, order, horder, ?_, hmarked⟩
  have hvalue : overlapping.order =
      .ok [(2, false), (3, true), (4, true), (5, false), (6, false), (9, false)] := by
    cbv
  exact Except.ok.inj (horder.symm.trans hvalue)

end Bindery.DependencyGraph
