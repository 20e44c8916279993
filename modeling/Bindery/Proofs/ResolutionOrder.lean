import Bindery.Proofs.ArgumentSlots
import Bindery.Proofs.OverloadChoice

/-! # The order of candidates and arguments

Resolving a call does not depend on the order in which the candidates are tried, nor on the order of
arguments that are all named.

* Named arguments fill slots as a fold whose steps commute (`Candidate.place_right_comm`): of two
  arguments for one slot, the later one is refused.  So an order of the arguments decides at most
  which of them is blamed (`Candidate.apply_perm`).
* The cheapest candidates of a rearranged list are the same ones rearranged
  (`Resolution.cheapest_perm`), and the outcome for them is the same.
* A call meets a fault in one order exactly if it meets one in the other, since all candidates are
  tried (`Resolution.resolve_many_isOk_iff`).

Together this is `Resolution.order_independent`. -/

namespace Bindery

/-! ### Computations that meet no fault -/

section Faults

variable {β γ : Type}

theorem bind_isOk_iff {x : Except Fault β} {k : β → Except Fault γ} :
    (∃ c, x >>= k = .ok c) ↔ ∃ b, x = .ok b ∧ ∃ c, k b = .ok c := by
  cases x with
  | error fault => simp [bind, Except.bind]
  | ok b => simp [bind, Except.bind]

theorem mapM_isOk_iff {f : β → Except Fault γ} {list : List β} :
    (∃ results, list.mapM f = .ok results) ↔ ∀ b ∈ list, ∃ c, f b = .ok c := by
  induction list with
  | nil => simp [pure, Except.pure]
  | cons b rest ih =>
    rw [List.forall_mem_cons, ← ih, List.mapM_cons, bind_isOk_iff]
    simp only [bind_isOk_iff, pure, Except.pure, Except.ok.injEq, exists_eq', and_true,
      exists_and_right]

theorem filterMapM_isOk_iff {f : β → Except Fault (Option γ)} {list : List β} :
    (∃ kept, list.filterMapM f = .ok kept) ↔ ∀ b ∈ list, ∃ found, f b = .ok found := by
  induction list with
  | nil => simp [pure, Except.pure]
  | cons b rest ih =>
    rw [List.forall_mem_cons, ← ih, List.filterMapM_cons, bind_isOk_iff, ← exists_and_right]
    refine exists_congr fun found => and_congr_right fun _ => ?_
    cases found with
    | none => rfl
    | some c => simp only [bind_isOk_iff, pure, Except.pure, Except.ok.injEq, exists_eq', and_true]

end Faults

/-! ### The order of named arguments -/

namespace Candidate

variable {α : Type} {c : Candidate α} {symbols : SymbolTable} {arguments arguments' : List Argument}

/-- Put a named argument into the slot of its parameter, if the slots so far could be filled and it
is free. -/
def place (c : Candidate α) (slots? : Option (List (Option Argument))) (a : Argument) :
    Option (List (Option Argument)) :=
  slots?.bind fun slots => (c.slotOf a 0).toOption.bind fun index =>
    if slots[index]?.join.isSome then none else some (slots.set index (some a))

theorem foldl_place_none (arguments : List Argument) : arguments.foldl c.place none = none := by
  induction arguments with
  | nil => rfl
  | cons a rest ih => exact ih

/-- A name leads to the same slot from every position. -/
theorem slotOf_eq_of_named {a : Argument} (h : a.name.isSome = true) (position : Nat) :
    c.slotOf a position = c.slotOf a 0 := by
  obtain ⟨name, hname⟩ := Option.isSome_iff_exists.1 h
  simp only [slotOf, hname]

theorem toOption_fillSlots (hnamed : ∀ a ∈ arguments, a.name.isSome = true) (position : Nat)
    (slots : List (Option Argument)) :
    (c.fillSlots arguments position slots).toOption = arguments.foldl c.place (some slots) := by
  induction arguments generalizing position slots with
  | nil => rfl
  | cons a rest ih =>
    rw [fillSlots, slotOf_eq_of_named (hnamed a (by simp)), List.foldl_cons, place]
    cases c.slotOf a 0 with
    | error mismatch => exact (foldl_place_none rest).symm
    | ok index =>
      have onward := ih (fun a ha => hnamed a (List.mem_cons_of_mem _ ha)) (position + 1)
        (slots.set index (some a))
      simp only [bind, Except.bind, Except.toOption, Option.bind_some]
      cases hslot : slots[index]? with
      | none => exact onward
      | some content =>
        cases content with
        | none => exact onward
        | some taken => exact (foldl_place_none rest).symm

theorem place_right_comm (slots? : Option (List (Option Argument))) (a b : Argument) :
    c.place (c.place slots? a) b = c.place (c.place slots? b) a := by
  unfold place
  cases slots? with
  | none => rfl
  | some slots =>
    cases c.slotOf a 0 with
    | error => cases c.slotOf b 0 <;> simp [Except.toOption]
    | ok i =>
      cases c.slotOf b 0 with
      | error => simp [Except.toOption]
      | ok j =>
        simp only [Except.toOption, Option.bind_some]
        by_cases hij : i = j
        · subst hij
          -- whichever comes first takes the slot from the other
          by_cases hlt : i < slots.length
          · split <;> simp [hlt]
          · simp [List.set_eq_of_length_le (Nat.le_of_not_lt hlt), hlt]
        · have hi : (slots.set j (some b))[i]? = slots[i]? := List.getElem?_set_ne (Ne.symm hij)
          have hj : (slots.set i (some a))[j]? = slots[j]? := List.getElem?_set_ne hij
          have hcomm := List.set_comm (l := slots) (some a) (some b) hij
          split <;> split <;> simp_all

theorem toOption_fillSlots_perm (hperm : arguments.Perm arguments')
    (hnamed : ∀ a ∈ arguments, a.name.isSome = true) (position : Nat)
    (slots : List (Option Argument)) : (c.fillSlots arguments position slots).toOption =
      (c.fillSlots arguments' position slots).toOption := by
  rw [toOption_fillSlots hnamed, toOption_fillSlots fun a ha => hnamed a (hperm.mem_iff.2 ha)]
  exact hperm.foldl_eq' (fun a _ b _ slots? => place_right_comm slots? a b) _

/-- Where slots cannot be filled, an argument is blamed. -/
theorem complaint_of_fillSlots {position : Nat} {slots : List (Option Argument)} {mismatch : Mismatch}
    (h : c.fillSlots arguments position slots = .error mismatch) (count : Nat) (call : NodeId) :
    ∃ a ∈ arguments, (c.complaint count call mismatch).1 = a.node := by
  induction arguments generalizing position slots with
  | nil => simp [fillSlots] at h
  | cons a rest ih =>
    rw [fillSlots] at h
    cases hslot : c.slotOf a position with
    | error other =>
      simp only [hslot, bind, Except.bind] at h
      obtain rfl := Except.error.inj h
      unfold slotOf at hslot
      split at hslot
      · simp at hslot
      · split at hslot
        · simp at hslot
        · obtain rfl := Except.error.inj hslot
          exact ⟨a, by simp, rfl⟩
    | ok index =>
      simp only [hslot, bind, Except.bind] at h
      split at h
      · obtain rfl := Except.error.inj h
        exact ⟨a, by simp, rfl⟩
      · obtain ⟨b, hb, hplace⟩ := ih h
        exact ⟨b, List.mem_cons_of_mem _ hb, hplace⟩

/-- Named arguments in another order are taken the same way, or else refused both times with one of
them to blame. -/
theorem apply_perm (symbols : SymbolTable) (hperm : arguments.Perm arguments')
    (hnamed : ∀ a ∈ arguments, a.name.isSome = true) :
    (c.apply symbols arguments).run = (c.apply symbols arguments').run ∨
      ∃ mismatch mismatch', (c.apply symbols arguments).run = .ok (.error mismatch) ∧
        (c.apply symbols arguments').run = .ok (.error mismatch') ∧ ∀ count call,
          (∃ a ∈ arguments, (c.complaint count call mismatch).1 = a.node) ∧
            ∃ a ∈ arguments', (c.complaint count call mismatch').1 = a.node := by
  unfold apply
  rw [hperm.length_eq]
  split
  · exact .inl rfl
  · have hsame := toOption_fillSlots_perm (c := c) hperm hnamed 0 (c.parameters.map fun _ => none)
    cases hfill : c.fillSlots arguments 0 (c.parameters.map fun _ => none) with
    | ok slots =>
      cases hfill' : c.fillSlots arguments' 0 (c.parameters.map fun _ => none) with
      | ok slots' =>
        rw [hfill, hfill'] at hsame
        rw [Option.some.inj hsame]
        exact .inl rfl
      | error =>
        rw [hfill, hfill'] at hsame
        cases hsame
    | error mismatch =>
      cases hfill' : c.fillSlots arguments' 0 (c.parameters.map fun _ => none) with
      | ok =>
        rw [hfill, hfill'] at hsame
        cases hsame
      | error mismatch' => exact .inr ⟨mismatch, mismatch', rfl, rfl, fun count call =>
        ⟨complaint_of_fillSlots hfill count call, complaint_of_fillSlots hfill' count call⟩⟩

/-- What trying a candidate comes to. -/
def trial (symbols : SymbolTable) (arguments : List Argument) (c : Candidate α) :
    Except Fault (Option (Applicable α)) := do
  match ← (c.apply symbols arguments).run with
  | .ok (passed, cost) => return some ⟨c, passed, cost⟩
  | .error _ => return none

theorem attempt?_eq_trial :
    c.attempt? symbols arguments = (c.trial symbols arguments).toOption.join := by
  unfold attempt? trial
  cases (c.apply symbols arguments).run with
  | error fault => rfl
  | ok result => cases result <;> rfl

theorem trial_perm (hperm : arguments.Perm arguments')
    (hnamed : ∀ a ∈ arguments, a.name.isSome = true) :
    c.trial symbols arguments = c.trial symbols arguments' := by
  unfold trial
  rcases c.apply_perm symbols hperm hnamed with heq | ⟨_, _, hrun, hrun', -⟩
  · rw [heq]
  · rw [hrun, hrun']
    rfl

end Candidate

/-! ### The order of candidates -/

namespace Resolution

variable {α : Type} {tree : Tree} {symbols : SymbolTable} {node : NodeId} {r : Resolution α}
  {candidates candidates' : List (Candidate α)} {arguments arguments' : List Argument}

variable {list list' : List (Applicable α)}

theorem cheapest_perm (h : list.Perm list') :
    (cheapest list).Perm (cheapest list') := by
  have hleast : ∀ a : Applicable α, (list.all fun b => decide (a.cost ≤ b.cost)) =
      list'.all fun b => decide (a.cost ≤ b.cost) := fun _ => h.all_eq
  simp only [cheapest, hleast]
  exact h.filter _

theorem ofCheapest_perm (h : list.Perm list') :
    ofCheapest list = ofCheapest list' := by
  match list, list', h.length_eq with
  | [], [], _ => rfl
  | [_], [_], _ => rw [List.singleton_perm_singleton.1 h]
  | _ :: _ :: _, _ :: _ :: _, _ => rfl

/-- What there is to say about the cheapest candidates can be put into words. -/
def Reportable (tree : Tree) (symbols : SymbolTable) (node : NodeId) : List (Applicable α) → Prop
  | [] => ∃ span, tree.span node = .ok span
  | [_] => True
  | tied => (∀ a ∈ tied, ∃ text, a.candidate.signatureText symbols = .ok text) ∧
      ∃ span, tree.span node = .ok span

theorem reportable_perm (h : list.Perm list') :
    Reportable tree symbols node list ↔ Reportable tree symbols node list' := by
  match list, list', h.length_eq with
  | [], [], _ => rfl
  | [_], [_], _ => rfl
  | _ :: _ :: _, _ :: _ :: _, _ =>
    exact and_congr_left' (forall_congr' fun a => imp_congr_left h.mem_iff)

/-- A single candidate must be tried, and where it is not applicable there must be a place to say
so. -/
theorem resolve_single_isOk_iff {c : Candidate α} :
    (∃ result, resolve tree symbols [c] arguments node = .ok result) ↔
      ∃ result, (c.apply symbols arguments).run = .ok result ∧
        ∀ mismatch, result = .error mismatch →
          ∃ span, tree.span (c.complaint arguments.length node mismatch).1 = .ok span := by
  refine bind_isOk_iff.trans (exists_congr fun result => and_congr_right fun _ => ?_)
  cases result with
  | ok passed => exact iff_of_true ⟨_, rfl⟩ (by simp)
  | error mismatch => simp [bind_isOk_iff, pure, Except.pure]

/-- Of several candidates every one is tried, so that none of them may meet a fault. -/
theorem resolve_many_isOk_iff {first second : Candidate α} {rest : List (Candidate α)} :
    (∃ result, resolve tree symbols (first :: second :: rest) arguments node = .ok result) ↔
      (∀ c ∈ first :: second :: rest, ∃ found, c.trial symbols arguments = .ok found) ∧
        Reportable tree symbols node
          (cheapest (attempts symbols arguments (first :: second :: rest))) := by
  have happlicable :
      (∀ c ∈ first :: second :: rest, ∃ found, c.trial symbols arguments = .ok found) ↔
        ∃ list, applicable symbols (first :: second :: rest) arguments = .ok list :=
    filterMapM_isOk_iff.symm
  rw [happlicable, ← exists_and_right]
  refine bind_isOk_iff.trans (exists_congr fun list => and_congr_right fun hlist => ?_)
  rw [← eq_attempts_of_applicable hlist]
  generalize cheapest list = least
  match least with
  | [] => simp [bind_isOk_iff, pure, Except.pure, Reportable]
  | [best] => exact iff_of_true ⟨_, rfl⟩ trivial
  | a :: b :: more =>
    simp only [bind_isOk_iff, pure, Except.pure, Except.ok.injEq, exists_eq', and_true, Reportable]
    rw [exists_and_right, mapM_isOk_iff]

theorem resolve_isOk_perm (hperm : candidates.Perm candidates') :
    (∃ result, resolve tree symbols candidates arguments node = .ok result) ↔
      ∃ result, resolve tree symbols candidates' arguments node = .ok result := by
  match candidates, candidates', hperm.length_eq with
  | [], [], _ => rfl
  | [_], [_], _ => rw [List.singleton_perm_singleton.1 hperm]
  | _ :: _ :: _, _ :: _ :: _, _ =>
    have hattempts := hperm.filterMap (Candidate.attempt? symbols arguments)
    rw [resolve_many_isOk_iff, resolve_many_isOk_iff, attempts, attempts,
      reportable_perm (cheapest_perm hattempts)]
    exact and_congr_left' (forall_congr' fun c => imp_congr_left hperm.mem_iff)

/-! ### The outcome -/

theorem attempts_perm (hcandidates : candidates.Perm candidates')
    (harguments : ∀ c : Candidate α, c.trial symbols arguments = c.trial symbols arguments') :
    (attempts symbols arguments candidates).Perm (attempts symbols arguments' candidates') := by
  have hattempt : Candidate.attempt? (α := α) symbols arguments =
      Candidate.attempt? symbols arguments' :=
    funext fun c => by rw [Candidate.attempt?_eq_trial, Candidate.attempt?_eq_trial, harguments]
  unfold attempts
  rw [hattempt]
  exact hcandidates.filterMap _

/-- Named arguments in another order meet a fault only where there was one, if the one that is
blamed has a place in the tree. -/
theorem resolve_isOk_arguments (hperm : arguments.Perm arguments')
    (hnamed : ∀ a ∈ arguments, a.name.isSome = true)
    (hplaced : ∀ a ∈ arguments, ∃ span, tree.span a.node = .ok span) :
    (∃ result, resolve tree symbols candidates arguments node = .ok result) ↔
      ∃ result, resolve tree symbols candidates arguments' node = .ok result := by
  have htrial : ∀ c : Candidate α, c.trial symbols arguments = c.trial symbols arguments' := fun c =>
    Candidate.trial_perm hperm hnamed
  match candidates with
  | [] => rfl
  | [c] =>
    rw [resolve_single_isOk_iff, resolve_single_isOk_iff]
    rcases c.apply_perm symbols hperm hnamed with heq | ⟨mismatch, mismatch', hrun, hrun', hblamed⟩
    · rw [heq, hperm.length_eq]
    · obtain ⟨⟨a, ha, hplace⟩, -⟩ := hblamed arguments.length node
      obtain ⟨-, a', ha', hplace'⟩ := hblamed arguments'.length node
      refine iff_of_true ⟨_, hrun, ?_⟩ ⟨_, hrun', ?_⟩
      · rintro _ ⟨rfl⟩
        exact hplace ▸ hplaced a ha
      · rintro _ ⟨rfl⟩
        exact hplace' ▸ hplaced a' (hperm.mem_iff.2 ha')
  | first :: second :: rest =>
    rw [resolve_many_isOk_iff, resolve_many_isOk_iff,
      reportable_perm (cheapest_perm (attempts_perm (.refl _) htrial))]
    simp only [htrial]

/-- The call is resolved so, whatever is reported about it. -/
def ResolvesTo (tree : Tree) (symbols : SymbolTable) (candidates : List (Candidate α))
    (arguments : List Argument) (node : NodeId) (r : Resolution α) : Prop :=
  ∃ reported, resolve tree symbols candidates arguments node = .ok (r, reported)

theorem resolvesTo_iff : ResolvesTo tree symbols candidates arguments node r ↔
    (∃ result, resolve tree symbols candidates arguments node = .ok result) ∧
      r = ofCheapest (cheapest (attempts symbols arguments candidates)) := by
  constructor
  · rintro ⟨reported, h⟩
    exact ⟨⟨_, h⟩, (of_resolve h).1⟩
  · rintro ⟨⟨⟨r', reported⟩, h⟩, rfl⟩
    exact ⟨reported, (of_resolve h).1 ▸ h⟩

/-- Resolving a call gives the same for the candidates in every order: it fails, is ambiguous or
succeeds, then with the same overload and the same arguments passed to it.  Nor do arguments in
another order change this, if all of them are named.  A call that meets a fault meets one in every
order, given that the named arguments have a place in the tree at which they can be reported. -/
theorem order_independent (tree : Tree) (symbols : SymbolTable)
    {candidates candidates' : List (Candidate α)} (hcandidates : candidates.Perm candidates')
    (arguments : List Argument) (node : NodeId) :
    (∀ r, ResolvesTo tree symbols candidates arguments node r ↔
      ResolvesTo tree symbols candidates' arguments node r) ∧
    ∀ arguments', arguments.Perm arguments' → (∀ a ∈ arguments, a.name.isSome = true) →
      (∀ r r', ResolvesTo tree symbols candidates arguments node r →
        ResolvesTo tree symbols candidates' arguments' node r' → r = r') ∧
      ((∀ a ∈ arguments, ∃ span, tree.span a.node = .ok span) →
        ∀ r, ResolvesTo tree symbols candidates arguments node r ↔
          ResolvesTo tree symbols candidates' arguments' node r) := by
  have outcome : ∀ arguments' : List Argument,
      (∀ c : Candidate α, c.trial symbols arguments = c.trial symbols arguments') →
      ofCheapest (cheapest (attempts symbols arguments candidates)) =
        ofCheapest (cheapest (attempts symbols arguments' candidates')) := fun arguments' htrial =>
    ofCheapest_perm (cheapest_perm (attempts_perm hcandidates htrial))
  refine ⟨fun r => ?_, fun arguments' hperm hnamed => ?_⟩
  · rw [resolvesTo_iff, resolvesTo_iff, resolve_isOk_perm hcandidates, outcome arguments fun _ => rfl]
  · have hsame := outcome arguments' fun c => Candidate.trial_perm hperm hnamed
    refine ⟨fun r r' h h' => ?_, fun hplaced r => ?_⟩
    · rw [(resolvesTo_iff.1 h).2, (resolvesTo_iff.1 h').2, hsame]
    · rw [resolvesTo_iff, resolvesTo_iff, resolve_isOk_perm hcandidates,
        resolve_isOk_arguments hperm hnamed hplaced, hsame]

/-- A statement with two numbers. -/
def numbersDocument : Document := ⟨"numbers", [
  .literal (.int 1), .literal (.int 2), .binary .add 0 1, .expressionStatement 2, .globalStatement 3,
  .compilationUnit [4]]⟩

/-- `f(int a, decimal b)`. -/
def narrow : Candidate Nat :=
  ⟨1, "f", [⟨"a", .primitive .int, none⟩, ⟨"b", .primitive .decimal, none⟩]⟩

/-- `f(any b, any a)`. -/
def wide : Candidate Nat :=
  ⟨2, "f", [⟨"b", .primitive .any, none⟩, ⟨"a", .primitive .any, none⟩]⟩

/-- `f(a: 1, b: 2)` and `f(b: 2, a: 1)` both mean the overload with the narrower types, whichever is
tried first. -/
theorem order_independent_numbers : ∃ tree passed, Tree.ofDocument numbersDocument = .ok tree ∧
    ResolvesTo tree .empty [narrow, wide]
      [⟨some "a", .ofLiteral (.int 1) 0, 0⟩, ⟨some "b", .ofLiteral (.int 2) 1, 1⟩] 2
      (.succeeded 1 passed) ∧
    ResolvesTo tree .empty [wide, narrow]
      [⟨some "b", .ofLiteral (.int 2) 1, 1⟩, ⟨some "a", .ofLiteral (.int 1) 0, 0⟩] 2
      (.succeeded 1 passed) := by
  obtain ⟨tree, h, hspan, hspan'⟩ : ∃ tree, Tree.ofDocument numbersDocument = .ok tree ∧
      (∃ span, tree.span 0 = .ok span) ∧ ∃ span, tree.span 1 = .ok span :=
    ⟨_, rfl, ⟨_, rfl⟩, ⟨_, rfl⟩⟩
  obtain ⟨-, hnamed⟩ := order_independent tree .empty (.swap wide narrow [])
    [⟨some "a", .ofLiteral (.int 1) 0, 0⟩, ⟨some "b", .ofLiteral (.int 2) 1, 1⟩] 2
  obtain ⟨-, hiff⟩ := hnamed _ (.swap _ _ []) (by simp)
  refine ⟨tree, _, h, ⟨[], rfl⟩, (hiff (by simp [hspan, hspan']) _).1 ⟨[], rfl⟩⟩

end Resolution
end Bindery
