import Bindery.Bound.Overload
import Mathlib.Data.Fin.Tuple.Basic
import Mathlib.Data.Fintype.Card
import Mathlib.Data.List.FinRange
import Mathlib.Data.List.Perm.Subperm

/-! # Arguments and their parameters

How an applicable candidate takes the arguments of a call.

* `GoesTo` says which parameter an argument is meant for, and `Assigns` that every argument has one
  of its own.  Slots can be filled exactly if there is an assignment (`exists_assigns_of_fillSlots`,
  `Assigns.fillSlots`).
* `Receives` says what a parameter gets: the converted argument in its slot, or its default value.
* A candidate takes the arguments one for each parameter, and it is applicable whenever all
  arguments can be assigned and converted and the other parameters have default values
  (`apply_keeps_arguments`).  The count that is checked first refuses nothing else. -/

namespace Bindery

theorem exists_getElem?_of_forall₂ {β γ : Type} {R : β → γ → Prop} {list : List β} {results : List γ}
    (h : List.Forall₂ R list results) {i : Nat} {c : γ} (hc : results[i]? = some c) :
    ∃ b, list[i]? = some b ∧ R b c := by
  induction h generalizing i with
  | nil => simp at hc
  | @cons b _ _ _ head _ ih =>
    cases i with
    | zero =>
      obtain rfl := Option.some.inj hc
      exact ⟨b, rfl, head⟩
    | succ i => exact ih hc

namespace Candidate

variable {α : Type} {c : Candidate α}

variable {a : Argument} {slots : List (Option Argument)} {arguments : List Argument}
  {passed : List Expr} {position cost : Nat} {β : Type} {b : β}

/-! ### Attempts -/

/-- A successful attempt, taken apart. -/
theorem bind_eq_ok_iff {γ : Type} {x : Attempt β} {k : β → Attempt γ} {c : γ} :
    (x >>= k).run = .ok (.ok c) ↔ ∃ b, x.run = .ok (.ok b) ∧ (k b).run = .ok (.ok c) := by
  rw [ExceptT.run_bind]
  cases x.run with
  | error fault => simp [bind, Except.bind]
  | ok result =>
    cases result with
    | error mismatch => simp [bind, Except.bind, pure, Except.pure]
    | ok b => simp [bind, Except.bind]

theorem run_throw_ne {m : Mismatch} :
    (throw m : Attempt β).run ≠ .ok (.ok b) := by
  simp [throw, throwThe, MonadExceptOf.throw, ExceptT.run, ExceptT.mk, pure, Except.pure]

theorem run_pure_eq_ok_iff {a : β} :
    (pure a : Attempt β).run = .ok (.ok b) ↔ b = a := by
  simp [ExceptT.run, pure, ExceptT.pure, ExceptT.mk, Except.pure, eq_comm]

theorem run_lift_eq_ok_iff {x : Except Fault β} :
    (liftM x : Attempt β).run = .ok (.ok b) ↔ x = .ok b := by
  cases x <;> simp [liftM, monadLift, MonadLift.monadLift, ExceptT.lift, ExceptT.run, ExceptT.mk,
    Functor.map, Except.map]

theorem run_ofExcept_eq_ok_iff {x : Except Mismatch β} :
    (ofExcept x : Attempt β).run = .ok (.ok b) ↔ x = .ok b := by
  cases x with
  | error mismatch => exact iff_of_false run_throw_ne (by simp)
  | ok a => simp [ofExcept, ExceptT.run, pure, ExceptT.pure, ExceptT.mk, Except.pure]

/-! ### The parameter of an argument -/

/-- The parameter that an argument is meant for: the first one of its name, or the one at its
position. -/
def GoesTo (c : Candidate α) (a : Argument) (position : Nat) (index : Fin c.parameters.length) :
    Prop :=
  match a.name with
  | none => index.val = position
  | some name => (c.parameters.get index).name = name ∧
      ∀ earlier < index, (c.parameters.get earlier).name ≠ name

theorem slotOf_eq_ok_iff {index : Fin c.parameters.length} :
    c.slotOf a position = .ok index.val ↔ c.GoesTo a position index := by
  unfold slotOf GoesTo
  cases a.name with
  | none => simp [eq_comm]
  | some name =>
    have hfound : c.slotOf { a with name := some name } position = .ok index.val ↔
        c.parameters.findIdx? (fun parameter => parameter.name = name) = some index.val := by
      unfold slotOf
      dsimp only
      split
      · next found hfind => simp [hfind]
      · next hfind => simp [hfind]
    refine hfound.trans (List.findIdx?_eq_some_iff_getElem.trans ⟨?_, ?_⟩)
    · rintro ⟨_, hname, hearlier⟩
      exact ⟨by simpa using hname, fun earlier hlt => by simpa using hearlier earlier.val hlt⟩
    · rintro ⟨hname, hearlier⟩
      exact ⟨index.isLt, by simpa using hname, fun j hj => by
        simpa using hearlier ⟨j, hj.trans index.isLt⟩ hj⟩

theorem exists_goesTo {n : Nat} (h : c.slotOf a position = .ok n)
    (hposition : position < c.parameters.length) :
    ∃ index : Fin c.parameters.length, n = index.val ∧ c.GoesTo a position index := by
  have hlt : n < c.parameters.length := by
    unfold slotOf at h
    split at h
    · obtain rfl := Except.ok.inj h
      exact hposition
    · split at h
      · next hfind =>
        obtain rfl := Except.ok.inj h
        exact (List.findIdx?_eq_some_iff_getElem.1 hfind).1
      · simp at h
  exact ⟨⟨n, hlt⟩, rfl, slotOf_eq_ok_iff.1 h⟩

theorem GoesTo.unique {i j : Fin c.parameters.length} (hi : c.GoesTo a position i)
    (hj : c.GoesTo a position j) : i = j :=
  Fin.ext (Except.ok.inj ((slotOf_eq_ok_iff.2 hi).symm.trans (slotOf_eq_ok_iff.2 hj)))

/-! ### Filling slots -/

/-- Every argument from `position` on goes to a parameter of its own. -/
structure Assigns (c : Candidate α) (arguments : List Argument) (position : Nat)
    (slot : Fin arguments.length → Fin c.parameters.length) : Prop where
  injective : Function.Injective slot
  goesTo : ∀ i, c.GoesTo (arguments.get i) (position + i) (slot i)

variable {filled : List (Option Argument)}

/-- Slots that were filled hold every argument at its parameter, and are else as they were. -/
theorem exists_assigns_of_fillSlots (hslots : slots.length = c.parameters.length)
    (hroom : position + arguments.length ≤ c.parameters.length)
    (h : c.fillSlots arguments position slots = .ok filled) :
    ∃ slot, c.Assigns arguments position slot ∧ (∀ i, slots[(slot i).val]? = some none) ∧
      (∀ i, filled[(slot i).val]? = some (some (arguments.get i))) ∧
      ∀ j : Fin c.parameters.length, (∀ i, slot i ≠ j) → filled[j.val]? = slots[j.val]? := by
  induction arguments generalizing position slots with
  | nil =>
    obtain rfl := Except.ok.inj h
    exact ⟨Fin.elim0, ⟨fun i => i.elim0, fun i => i.elim0⟩, fun i => i.elim0, fun i => i.elim0,
      fun _ _ => rfl⟩
  | cons argument rest ih =>
    rw [List.length_cons] at hroom
    rw [fillSlots] at h
    cases hslot : c.slotOf argument position with
    | error => simp [hslot, bind, Except.bind] at h
    | ok n =>
      rw [hslot] at h
      obtain ⟨index, rfl, hgoes⟩ := exists_goesTo hslot (by omega)
      dsimp only [bind, Except.bind] at h
      split at h
      · simp at h
      · next hfree =>
        have hfree : slots[index.val]? = some none := by
          have hlt : index.val < slots.length := by omega
          rw [List.getElem?_eq_getElem hlt] at hfree ⊢
          cases hvalue : slots[index.val] with
          | none => rfl
          | some a => exact absurd (by rw [hvalue]) (hfree a)
        have hset : (slots.set index.val (some argument))[index.val]? = some (some argument) := by
          rw [List.getElem?_set_self (by omega)]
        obtain ⟨slot, assigns, hfrees, hfilled, hothers⟩ := ih (by simpa using hslots)
          (by omega) h
        have hne : ∀ i, slot i ≠ index := by
          rintro i rfl
          have := (hfrees i).symm.trans hset
          simp at this
        have hkept : ∀ {j : Fin c.parameters.length}, j ≠ index →
            (slots.set index.val (some argument))[j.val]? = slots[j.val]? := fun hj =>
          List.getElem?_set_ne fun heq => hj (Fin.ext heq.symm)
        refine ⟨Fin.cons index slot, ⟨?_, ?_⟩, ?_, ?_, ?_⟩
        · exact Fin.cons_injective_iff.2 ⟨fun ⟨i, hi⟩ => hne i hi, assigns.injective⟩
        · intro i
          refine Fin.cases ?_ (fun i => ?_) i
          · exact hgoes
          · have := assigns.goesTo i
            rw [Nat.add_right_comm] at this
            exact this
        · intro i
          refine Fin.cases ?_ (fun i => ?_) i
          · exact hfree
          · exact (hkept (hne i)).symm.trans (hfrees i)
        · intro i
          refine Fin.cases ?_ (fun i => ?_) i
          · exact (hothers index hne).trans hset
          · exact hfilled i
        · intro j hj
          have hindex : j ≠ index := fun heq => hj 0 heq.symm
          exact (hothers j fun i => hj i.succ).trans (hkept hindex)

theorem length_fillSlots
    (h : c.fillSlots arguments position slots = .ok filled) : filled.length = slots.length := by
  induction arguments generalizing position slots with
  | nil =>
    obtain rfl := Except.ok.inj h
    rfl
  | cons argument rest ih =>
    rw [fillSlots] at h
    cases hslot : c.slotOf argument position with
    | error => simp [hslot, bind, Except.bind] at h
    | ok index =>
      rw [hslot] at h
      dsimp only [bind, Except.bind] at h
      split at h
      · simp at h
      · simpa using ih h

/-- From free slots: every one of them holds the argument of its parameter or is still free. -/
theorem slots_of_fillSlots (hroom : arguments.length ≤ c.parameters.length)
    (h : c.fillSlots arguments 0 (c.parameters.map fun _ => none) = .ok slots) :
    ∃ slot, c.Assigns arguments 0 slot ∧ ∀ j : Fin c.parameters.length,
      (∃ i, slot i = j ∧ slots[j.val]? = some (some (arguments.get i))) ∨
        (∀ i, slot i ≠ j) ∧ slots[j.val]? = some none := by
  obtain ⟨slot, assigns, -, hfilled, hothers⟩ := exists_assigns_of_fillSlots (by simp) (by omega) h
  refine ⟨slot, assigns, fun j => ?_⟩
  by_cases hj : ∃ i, slot i = j
  · obtain ⟨i, rfl⟩ := hj
    exact .inl ⟨i, rfl, hfilled i⟩
  · have hj : ∀ i, slot i ≠ j := fun i hi => hj ⟨i, hi⟩
    refine .inr ⟨hj, (hothers j hj).trans ?_⟩
    simp

variable {slot : Fin arguments.length → Fin c.parameters.length}

/-- Slots can be filled where every argument goes to a parameter of its own. -/
theorem Assigns.fillSlots
    (assigns : c.Assigns arguments position slot) (hfree : ∀ i, slots[(slot i).val]? = some none) :
    ∃ filled, c.fillSlots arguments position slots = .ok filled := by
  induction arguments generalizing position slots with
  | nil => exact ⟨slots, rfl⟩
  | cons argument rest ih =>
    have hslot : c.slotOf argument position = .ok (slot 0).val :=
      slotOf_eq_ok_iff.2 (assigns.goesTo 0)
    have hrest : c.Assigns rest (position + 1) fun i => slot i.succ := by
      refine ⟨fun i j hij => Fin.succ_injective _ (assigns.injective hij), fun i => ?_⟩
      have := assigns.goesTo i.succ
      rw [Fin.val_succ, ← Nat.add_assoc, Nat.add_right_comm] at this
      exact this
    rw [Candidate.fillSlots, hslot]
    dsimp only [bind, Except.bind]
    rw [hfree 0]
    refine ih hrest fun i => ?_
    have hne : slot 0 ≠ slot i.succ := fun heq => Fin.succ_ne_zero i (assigns.injective heq).symm
    rw [List.getElem?_set_ne fun heq => hne (Fin.ext heq)]
    exact hfree i.succ

/-! ### Passing arguments -/

/-- What a parameter gets, and at what cost: the argument in its slot, converted implicitly, or else
its default value. -/
def Receives (symbols : SymbolTable) (parameter : CandidateParameter) (slot : Option Argument)
    (e : Expr) (cost : Nat) : Prop :=
  match slot with
  | none => parameter.defaultValue = some e ∧ cost = 0
  | some a => ∃ cast, a.expression.type.conversion symbols parameter.type = .ok cast ∧
      cast.isImplicit = true ∧ e = a.expression.castTo parameter.type cast ∧
      cost = if cast = .identity then 0 else 1

variable {symbols : SymbolTable}

theorem passArguments_cons_iff {slot : Option Argument} {parameter : CandidateParameter}
    {rest : List (Option Argument × CandidateParameter)} :
    (passArguments symbols ((slot, parameter) :: rest)).run = .ok (.ok (passed, cost)) ↔
      ∃ e n others costs, Receives symbols parameter slot e n ∧
        (passArguments symbols rest).run = .ok (.ok (others, costs)) ∧
        passed = e :: others ∧ cost = n + costs := by
  -- the rest is passed the same way whatever the parameter gets
  have onward : ∀ {e : Expr} {n : Nat}, (passArguments symbols rest >>= fun others =>
      pure (e :: others.1, n + others.2) : Attempt (List Expr × Nat)).run = .ok (.ok (passed, cost)) ↔
      ∃ others costs, (passArguments symbols rest).run = .ok (.ok (others, costs)) ∧
        passed = e :: others ∧ cost = n + costs := by
    intro e n
    simp only [bind_eq_ok_iff, run_pure_eq_ok_iff, Prod.exists, Prod.mk.injEq]
  conv_lhs => unfold passArguments
  cases slot with
  | none =>
    cases hdefault : parameter.defaultValue with
    | none =>
      refine iff_of_false (fun h => ?_) (by simp [Receives, hdefault])
      obtain ⟨_, hthrow, -⟩ := bind_eq_ok_iff.1 h
      exact run_throw_ne hthrow
    | some value =>
      refine (onward (e := value) (n := 0)).trans ?_
      simp [Receives, hdefault]
  | some a =>
    constructor
    · intro h
      obtain ⟨cast, hcast, h⟩ := bind_eq_ok_iff.1 h
      split at h
      · next himplicit =>
        obtain ⟨others, costs, hothers, hpassed, hcost⟩ := onward.1 h
        exact ⟨_, _, others, costs, ⟨cast, run_lift_eq_ok_iff.1 hcast, himplicit, rfl, rfl⟩, hothers,
          hpassed, hcost⟩
      · obtain ⟨_, -, h⟩ := bind_eq_ok_iff.1 h
        obtain ⟨_, -, h⟩ := bind_eq_ok_iff.1 h
        obtain ⟨_, hthrow, -⟩ := bind_eq_ok_iff.1 h
        exact absurd hthrow run_throw_ne
    · rintro ⟨_, _, others, costs, ⟨cast, hcast, himplicit, rfl, rfl⟩, hothers, hpassed, hcost⟩
      refine bind_eq_ok_iff.2 ⟨cast, run_lift_eq_ok_iff.2 hcast, ?_⟩
      rw [if_pos himplicit]
      exact onward.2 ⟨others, costs, hothers, hpassed, hcost⟩

variable {pairs : List (Option Argument × CandidateParameter)}

/-- What was passed, one expression for each parameter. -/
theorem forall₂_of_passArguments
    (h : (passArguments symbols pairs).run = .ok (.ok (passed, cost))) :
    List.Forall₂ (fun pair e => ∃ n, Receives symbols pair.2 pair.1 e n) pairs passed := by
  induction pairs generalizing passed cost with
  | nil =>
    obtain ⟨rfl, -⟩ := Prod.mk.inj (run_pure_eq_ok_iff.1 h)
    exact .nil
  | cons pair rest ih =>
    obtain ⟨e, n, others, costs, hreceives, hothers, rfl, -⟩ := passArguments_cons_iff.1 h
    exact .cons ⟨n, hreceives⟩ (ih hothers)

theorem passArguments_isOk (h : ∀ pair ∈ pairs, ∃ e n, Receives symbols pair.2 pair.1 e n) :
    ∃ passed cost, (passArguments symbols pairs).run = .ok (.ok (passed, cost)) := by
  induction pairs with
  | nil => exact ⟨[], 0, rfl⟩
  | cons pair rest ih =>
    obtain ⟨e, n, hreceives⟩ := h pair (by simp)
    obtain ⟨others, costs, hothers⟩ := ih fun pair hpair => h pair (List.mem_cons_of_mem _ hpair)
    exact ⟨e :: others, n + costs,
      passArguments_cons_iff.2 ⟨e, n, others, costs, hreceives, hothers, rfl, rfl⟩⟩

/-! ### Applicable candidates -/

theorem apply_eq_ok_iff :
    (c.apply symbols arguments).run = .ok (.ok (passed, cost)) ↔
      arguments.length ≤ c.parameters.length ∧ c.requiredCount ≤ arguments.length ∧
        ∃ slots, c.fillSlots arguments 0 (c.parameters.map fun _ => none) = .ok slots ∧
          (passArguments symbols (slots.zip c.parameters)).run = .ok (.ok (passed, cost)) := by
  unfold apply
  split
  · next hcount =>
    refine iff_of_false (fun h => ?_) ?_
    · obtain ⟨_, hthrow, -⟩ := bind_eq_ok_iff.1 h
      exact run_throw_ne hthrow
    · simp only [Bool.or_eq_true, decide_eq_true_eq] at hcount
      omega
  · next hcount =>
    simp only [Bool.or_eq_true, decide_eq_true_eq, not_or, not_lt] at hcount
    simp only [hcount, true_and]
    exact bind_eq_ok_iff.trans (exists_congr fun slots => and_congr run_ofExcept_eq_ok_iff Iff.rfl)

/-- Where only parameters with default values are left over, there are enough arguments. -/
theorem requiredCount_le (slot : Fin arguments.length → Fin c.parameters.length)
    (hothers : ∀ j, (∀ i, slot i ≠ j) → (c.parameters.get j).defaultValue.isSome = true) :
    c.requiredCount ≤ arguments.length := by
  let required := (List.finRange c.parameters.length).filter fun j =>
    (c.parameters.get j).defaultValue.isNone
  have hlength : c.requiredCount = required.length := by
    have hparameters : (List.finRange c.parameters.length).map c.parameters.get = c.parameters := by
      rw [← List.ofFn_eq_map, List.ofFn_get]
    have hfilter := congrArg (List.filter (·.defaultValue.isNone)) hparameters
    rw [List.filter_map] at hfilter
    rw [requiredCount, ← hfilter, List.length_map]
    rfl
  have hsub : required ⊆ (List.finRange arguments.length).map slot := by
    intro j hj
    by_contra hnot
    have hdefault := hothers j fun i hi => hnot (List.mem_map.2 ⟨i, List.mem_finRange i, hi⟩)
    have hnone := (List.mem_filter.1 hj).2
    rw [Option.isNone_iff_eq_none] at hnone
    rw [hnone] at hdefault
    simp at hdefault
  have hnodup : required.Nodup := (List.nodup_finRange _).filter _
  simpa [hlength] using hnodup.length_le_of_subset hsub

/-- What the parameter at an index gets is found at that index. -/
theorem receives_of_passArguments
    (h : (passArguments symbols (slots.zip c.parameters)).run = .ok (.ok (passed, cost)))
    {j : Fin c.parameters.length} {slot : Option Argument} (hslot : slots[j.val]? = some slot) :
    ∃ e n, passed[j.val]? = some e ∧ Receives symbols (c.parameters.get j) slot e n := by
  have hpair : (slots.zip c.parameters)[j.val]? = some (slot, c.parameters.get j) :=
    List.getElem?_zip_eq_some.2 ⟨hslot, by simp⟩
  obtain ⟨e, he, n, hreceives⟩ := exists_getElem?_of_forall₂ (forall₂_of_passArguments h).flip hpair
  exact ⟨e, n, he, hreceives⟩

/-- The argument as a parameter takes it, converted implicitly to the parameter's type. -/
def PassesTo (symbols : SymbolTable) (a : Argument) (parameter : CandidateParameter) (e : Expr) :
    Prop :=
  ∃ cast, a.expression.type.conversion symbols parameter.type = .ok cast ∧
    cast.isImplicit = true ∧ e = a.expression.castTo parameter.type cast

/-- An applicable candidate takes every argument at a parameter of its own, converted, and default
values at the others. -/
theorem exists_assigns_of_apply (h : (c.apply symbols arguments).run = .ok (.ok (passed, cost))) :
    passed.length = c.parameters.length ∧ ∃ slot, c.Assigns arguments 0 slot ∧
      (∀ i, ∃ e, passed[(slot i).val]? = some e ∧
        PassesTo symbols (arguments.get i) (c.parameters.get (slot i)) e) ∧
      ∀ j, (∀ i, slot i ≠ j) → ∃ e, passed[j.val]? = some e ∧
        (c.parameters.get j).defaultValue = some e := by
  obtain ⟨hroom, -, slots, hfill, hpass⟩ := apply_eq_ok_iff.1 h
  obtain ⟨slot, assigns, hslots⟩ := slots_of_fillSlots hroom hfill
  refine ⟨?_, slot, assigns, fun i => ?_, fun j hj => ?_⟩
  · have := (forall₂_of_passArguments hpass).length_eq
    simpa [length_fillSlots hfill] using this.symm
  · obtain ⟨i', hi, hslot⟩ := (hslots (slot i)).resolve_right fun h => h.1 i rfl
    obtain rfl := assigns.injective hi
    obtain ⟨e, n, he, cast, hcast, himplicit, rfl, -⟩ := receives_of_passArguments hpass hslot
    exact ⟨_, he, cast, hcast, himplicit, rfl⟩
  · obtain ⟨-, hslot⟩ := (hslots j).resolve_left fun ⟨i, hi, _⟩ => hj i hi
    obtain ⟨e, n, he, hdefault, -⟩ := receives_of_passArguments hpass hslot
    exact ⟨e, he, hdefault⟩

/-- The count that is checked first refuses no arguments that could be passed. -/
theorem Assigns.apply_isOk (assigns : c.Assigns arguments 0 slot)
    (hpasses : ∀ i, ∃ e, PassesTo symbols (arguments.get i) (c.parameters.get (slot i)) e)
    (hdefaults : ∀ j, (∀ i, slot i ≠ j) → (c.parameters.get j).defaultValue.isSome = true) :
    ∃ passed cost, (c.apply symbols arguments).run = .ok (.ok (passed, cost)) := by
  have hroom : arguments.length ≤ c.parameters.length := by
    simpa using Fintype.card_le_of_injective slot assigns.injective
  have hfree : ∀ i, (c.parameters.map fun _ => (none : Option Argument))[(slot i).val]? = some none := by
    simp
  obtain ⟨slots, hfill⟩ := assigns.fillSlots hfree
  obtain ⟨slot', assigns', hslots⟩ := slots_of_fillSlots hroom hfill
  obtain rfl : slot' = slot := funext fun i => (assigns'.goesTo i).unique (assigns.goesTo i)
  have hreceives : ∀ pair ∈ slots.zip c.parameters, ∃ e n, Receives symbols pair.2 pair.1 e n := by
    rintro ⟨content, parameter⟩ hpair
    obtain ⟨j, hj⟩ := List.mem_iff_getElem?.1 hpair
    obtain ⟨hcontent, hparameter⟩ := List.getElem?_zip_eq_some.1 hj
    obtain ⟨hlt, rfl⟩ := List.getElem?_eq_some_iff.1 hparameter
    rcases hslots ⟨j, hlt⟩ with ⟨i, hi, hslot⟩ | ⟨hfree, hslot⟩
    · obtain rfl := Option.mem_unique hcontent hslot
      obtain ⟨e, cast, hcast, himplicit, he⟩ := hpasses i
      rw [hi] at hcast he
      exact ⟨e, _, cast, hcast, himplicit, he, rfl⟩
    · obtain rfl := Option.mem_unique hcontent hslot
      obtain ⟨value, hvalue⟩ := Option.isSome_iff_exists.1 (hdefaults ⟨j, hlt⟩ hfree)
      exact ⟨value, 0, hvalue, rfl⟩
  obtain ⟨passed, cost, hpass⟩ := passArguments_isOk hreceives
  exact ⟨passed, cost,
    apply_eq_ok_iff.2 ⟨hroom, requiredCount_le slot' hdefaults, slots, hfill, hpass⟩⟩

/-- An applicable candidate takes one expression for each of its parameters.  Every argument goes to
a parameter of its own, which gets it converted, and the other parameters get their default values.
A candidate is applicable whenever its parameters can be provided for in this way. -/
theorem apply_keeps_arguments (c : Candidate α) (symbols : SymbolTable) (arguments : List Argument) :
    (∀ passed cost, (c.apply symbols arguments).run = .ok (.ok (passed, cost)) →
      passed.length = c.parameters.length ∧ ∃ slot, c.Assigns arguments 0 slot ∧
        (∀ i, ∃ e, passed[(slot i).val]? = some e ∧
          PassesTo symbols (arguments.get i) (c.parameters.get (slot i)) e) ∧
        ∀ j, (∀ i, slot i ≠ j) → ∃ e, passed[j.val]? = some e ∧
          (c.parameters.get j).defaultValue = some e) ∧
    ∀ slot, c.Assigns arguments 0 slot →
      (∀ i, ∃ e, PassesTo symbols (arguments.get i) (c.parameters.get (slot i)) e) →
      (∀ j, (∀ i, slot i ≠ j) → (c.parameters.get j).defaultValue.isSome = true) →
      ∃ passed cost, (c.apply symbols arguments).run = .ok (.ok (passed, cost)) :=
  ⟨fun _ _ happly => exists_assigns_of_apply happly,
    fun _ assigns hpasses hdefaults => assigns.apply_isOk hpasses hdefaults⟩

/-- `f(decimal a, int b = 1, string c)`. -/
def sample : Candidate Unit where
  overload := ()
  name := "f"
  parameters := [⟨"a", .primitive .decimal, none⟩,
    ⟨"b", .primitive .int, some (.ofLiteral (.int 1) 4)⟩, ⟨"c", .primitive .string, none⟩]

/-- The arguments of `f(2, c: "x")`. -/
def sampleArguments : List Argument :=
  [⟨none, .ofLiteral (.int 2) 0, 0⟩, ⟨some "c", .ofLiteral (.string "x") 1, 1⟩]

/-- `2` is widened for `a`, and `b` is left to its default value. -/
theorem apply_keeps_arguments_sample : ∃ passed cost,
    (sample.apply .empty sampleArguments).run = .ok (.ok (passed, cost)) ∧ passed.length = 3 ∧
      ∃ slot, sample.Assigns sampleArguments 0 slot ∧ ∀ i, ∃ e, passed[(slot i).val]? = some e ∧
        PassesTo .empty (sampleArguments.get i) (sample.parameters.get (slot i)) e := by
  obtain ⟨hsound, hcomplete⟩ := apply_keeps_arguments sample .empty sampleArguments
  let slot : Fin 2 → Fin 3 := fun i => if i = 0 then 0 else 2
  have hinjective : ∀ i j : Fin 2, slot i = slot j → i = j := by decide
  have hdefaults : ∀ j : Fin 3, (∀ i : Fin 2, slot i ≠ j) →
      (sample.parameters.get j).defaultValue.isSome = true := by decide
  have assigns : sample.Assigns sampleArguments 0 slot :=
    ⟨hinjective, Fin.cases rfl (Fin.cases ⟨rfl, by decide⟩ fun i => i.elim0)⟩
  obtain ⟨passed, cost, happly⟩ := hcomplete slot assigns (Fin.cases ⟨_, .implicit, rfl, rfl, rfl⟩
    (Fin.cases ⟨_, .identity, rfl, rfl, rfl⟩ fun i => i.elim0)) hdefaults
  obtain ⟨hlength, slot', assigns', hassigned, -⟩ := hsound passed cost happly
  exact ⟨passed, cost, happly, hlength, slot', assigns', hassigned⟩

end Candidate
end Bindery
