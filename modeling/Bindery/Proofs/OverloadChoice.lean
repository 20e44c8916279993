import Bindery.Proofs.CallSteps

/-! # Choosing among candidates

Resolving a call chooses the applicable candidate with the fewest conversions.

* `Resolution.ofCheapest` is the outcome for the cheapest applicable candidates: there are none,
  exactly one, or several.  One candidate alone is resolved like many; only what is reported differs
  (`Resolution.of_resolve`).
* The cheapest applicable candidate is alone if every other one has more conversions
  (`cheapest_eq_singleton_iff`).  Other candidates are those in other places, so the same candidate
  twice is a tie.
* A call adds one diagnostic to the queue unless it succeeds or there is nothing to call
  (`resolve_picks_unique_best`). -/

namespace Bindery

variable {α : Type} {symbols : SymbolTable} {arguments : List Argument}

namespace Candidate

/-- The candidate is applicable: it takes the arguments as `passed`, with `cost` conversions. -/
def Applies (symbols : SymbolTable) (arguments : List Argument) (c : Candidate α)
    (passed : List Expr) (cost : Nat) : Prop :=
  (c.apply symbols arguments).run = .ok (.ok (passed, cost))

/-- The candidate as an applicable one, if it is. -/
def attempt? (symbols : SymbolTable) (arguments : List Argument) (c : Candidate α) :
    Option (Applicable α) :=
  match (c.apply symbols arguments).run with
  | .ok (.ok (passed, cost)) => some ⟨c, passed, cost⟩
  | _ => none

variable {c : Candidate α}

theorem attempt?_eq_some_iff {a : Applicable α} :
    c.attempt? symbols arguments = some a ↔
      a.candidate = c ∧ c.Applies symbols arguments a.arguments a.cost := by
  unfold attempt? Applies
  obtain ⟨candidate, passed, cost⟩ := a
  split
  · next passed' cost' happly =>
    rw [happly]
    simp [eq_comm]
  · next hnot => simpa using fun _ happly => hnot _ _ happly

theorem attempt?_of_applies {passed : List Expr} {cost : Nat}
    (h : c.Applies symbols arguments passed cost) :
    c.attempt? symbols arguments = some ⟨c, passed, cost⟩ :=
  attempt?_eq_some_iff.2 ⟨rfl, h⟩

theorem attempt?_eq_none_iff :
    c.attempt? symbols arguments = none ↔
      ∀ passed cost, ¬ c.Applies symbols arguments passed cost := by
  rw [Option.eq_none_iff_forall_not_mem]
  exact ⟨fun h passed cost happly => h _ (attempt?_of_applies happly),
    fun h a ha => h _ _ (attempt?_eq_some_iff.1 ha).2⟩

end Candidate

namespace Resolution

variable {a : Applicable α} {list : List (Applicable α)}

/-! ### The cheapest candidates -/

theorem mem_cheapest :
    a ∈ cheapest list ↔ a ∈ list ∧ ∀ b ∈ list, a.cost ≤ b.cost := by
  simp [cheapest]

theorem sublist_cheapest {part : List (Applicable α)} (h : part.Sublist list)
    (hleast : ∀ a ∈ part, ∀ b ∈ list, a.cost ≤ b.cost) : part.Sublist (cheapest list) := by
  have hkept : part.filter (fun a => list.all fun b => decide (a.cost ≤ b.cost)) = part :=
    List.filter_eq_self.2 fun a ha => by simpa using hleast a ha
  rw [← hkept]
  exact h.filter _

theorem cheapest_eq_nil_iff : cheapest list = [] ↔ list = [] := by
  refine ⟨fun h => ?_, fun h => by rw [h]; rfl⟩
  by_contra hne
  have hleast : list.minOn (·.cost) hne ∈ cheapest list :=
    mem_cheapest.2 ⟨List.minOn_mem, fun b hb => List.apply_minOn_le_of_mem hb⟩
  simp [h] at hleast

theorem cheapest_eq_singleton_iff :
    cheapest list = [a] ↔ ∃ before after, list = before ++ a :: after ∧
      ∀ b ∈ before ++ after, a.cost < b.cost := by
  constructor
  · intro h
    have hleast : ∀ b ∈ list, a.cost ≤ b.cost := (mem_cheapest.1 (h ▸ List.mem_singleton_self a)).2
    obtain ⟨before, after, hsplit, hbefore, -, hafter⟩ := List.filter_eq_cons_iff.1 h
    rw [List.filter_eq_nil_iff] at hafter
    refine ⟨before, after, hsplit, fun b hb => ?_⟩
    -- a candidate that was left out costs more than some other one
    have hout : ¬ (list.all fun other => decide (b.cost ≤ other.cost)) = true :=
      (List.mem_append.1 hb).elim (hbefore b) (hafter b)
    simp only [List.all_eq_true, decide_eq_true_eq, Classical.not_forall, Nat.not_le] at hout
    obtain ⟨other, hother, hlt⟩ := hout
    exact Nat.lt_of_le_of_lt (hleast other hother) hlt
  · rintro ⟨before, after, rfl, hmore⟩
    have hout : ∀ b ∈ before ++ after,
        ¬ ((before ++ a :: after).all fun other => decide (b.cost ≤ other.cost)) = true := by
      intro b hb hall
      have hle : b.cost ≤ a.cost := by simpa using List.all_eq_true.1 hall a (by simp)
      exact absurd (hmore b hb) (by omega)
    refine List.filter_eq_cons_iff.2 ⟨before, after, rfl, fun b hb => hout b (by simp [hb]), ?_,
      List.filter_eq_nil_iff.2 fun b hb => hout b (by simp [hb])⟩
    simp only [List.all_eq_true, decide_eq_true_eq]
    intro b hb
    rcases List.mem_append.1 hb with hb | hb
    · exact Nat.le_of_lt (hmore b (by simp [hb]))
    · rcases List.mem_cons.1 hb with rfl | hb
      · exact Nat.le_refl _
      · exact Nat.le_of_lt (hmore b (by simp [hb]))

/-! ### The outcome -/

/-- The outcome of a call, given the cheapest applicable candidates. -/
def ofCheapest : List (Applicable α) → Resolution α
  | [] => failed
  | [best] => succeeded best.candidate.overload best.arguments
  | _ => ambiguous

theorem ofCheapest_eq_failed : ofCheapest list = failed ↔ list = [] := by
  match list with
  | [] => simp [ofCheapest]
  | [_] => simp [ofCheapest]
  | _ :: _ :: _ => simp [ofCheapest]

theorem ofCheapest_eq_succeeded {overload : α} {passed : List Expr} :
    ofCheapest list = succeeded overload passed ↔
      ∃ best, list = [best] ∧ best.candidate.overload = overload ∧ best.arguments = passed := by
  match list with
  | [] => simp [ofCheapest]
  | [_] => simp [ofCheapest]
  | _ :: _ :: _ => simp [ofCheapest]

theorem ofCheapest_eq_ambiguous :
    ofCheapest list = ambiguous ↔ ∃ a b, [a, b].Sublist list := by
  match list with
  | [] => simp [ofCheapest]
  | [_] => simp [ofCheapest]
  | a :: b :: rest => simpa [ofCheapest] using ⟨a, b, by simp⟩

variable (symbols arguments) in
/-- The applicable ones among the candidates, each with its arguments. -/
def attempts (candidates : List (Candidate α)) : List (Applicable α) :=
  candidates.filterMap (Candidate.attempt? symbols arguments)

variable {candidates : List (Candidate α)}

theorem mem_attempts : a ∈ attempts symbols arguments candidates ↔
    a.candidate ∈ candidates ∧ a.candidate.Applies symbols arguments a.arguments a.cost := by
  simp only [attempts, List.mem_filterMap, Candidate.attempt?_eq_some_iff]
  exact ⟨fun ⟨c, hc, heq, happlies⟩ => heq ▸ ⟨hc, heq ▸ happlies⟩, fun h => ⟨_, h.1, rfl, h.2⟩⟩

theorem eq_attempts_of_applicable (h : applicable symbols candidates arguments = .ok list) :
    list = attempts symbols arguments candidates := by
  refine eq_filterMap_of_filterMapM (fun {c found} hfound => ?_) h
  obtain ⟨result, hresult, hfound⟩ := exists_of_bind_eq_ok hfound
  unfold Candidate.attempt?
  rw [hresult]
  cases result with
  | ok passed => exact Except.ok.inj hfound
  | error mismatch => exact Except.ok.inj hfound

theorem ofCheapest_attempts_eq_failed :
    ofCheapest (cheapest (attempts symbols arguments candidates)) = failed ↔
      ∀ c ∈ candidates, ∀ passed cost, ¬ c.Applies symbols arguments passed cost := by
  rw [ofCheapest_eq_failed, cheapest_eq_nil_iff, attempts, List.filterMap_eq_nil_iff]
  exact forall_congr' fun c => imp_congr_right fun _ => Candidate.attempt?_eq_none_iff

variable (symbols arguments) in
/-- Every other applicable candidate has more conversions than this one. -/
def IsBest (candidates : List (Candidate α)) (c : Candidate α) (passed : List Expr) : Prop :=
  ∃ before after cost, candidates = before ++ c :: after ∧ c.Applies symbols arguments passed cost ∧
    ∀ d ∈ before ++ after, ∀ passed' cost',
      d.Applies symbols arguments passed' cost' → cost < cost'

theorem ofCheapest_attempts_eq_succeeded {overload : α} {passed : List Expr} :
    ofCheapest (cheapest (attempts symbols arguments candidates)) = succeeded overload passed ↔
      ∃ c, IsBest symbols arguments candidates c passed ∧ c.overload = overload := by
  rw [ofCheapest_eq_succeeded]
  constructor
  · rintro ⟨best, hbest, rfl, rfl⟩
    obtain ⟨before', after', hsplit, hmore⟩ := cheapest_eq_singleton_iff.1 hbest
    obtain ⟨before, tail, rfl, rfl, htail⟩ := List.filterMap_eq_append_iff.1 hsplit
    obtain ⟨skipped, c, after, rfl, hskipped, hc, rfl⟩ := List.filterMap_eq_cons_iff.1 htail
    obtain ⟨rfl, happlies⟩ := Candidate.attempt?_eq_some_iff.1 hc
    refine ⟨best.candidate, ⟨before ++ skipped, after, best.cost, by simp, happlies, ?_⟩, rfl⟩
    intro d hd passed cost hother
    refine hmore ⟨d, passed, cost⟩ ?_
    rw [← List.filterMap_append]
    refine mem_attempts.2 ⟨?_, hother⟩
    -- the candidates that were passed over on the way to the best one are not applicable
    have hkept : d ∉ skipped := fun hskip =>
      Candidate.attempt?_eq_none_iff.1 (hskipped d hskip) passed cost hother
    simpa [hkept] using hd
  · rintro ⟨c, ⟨before, after, cost, rfl, happlies, hmore⟩, rfl⟩
    refine ⟨⟨c, passed, cost⟩, cheapest_eq_singleton_iff.2 ⟨attempts symbols arguments before,
      attempts symbols arguments after, ?_, fun b hb => ?_⟩, rfl, rfl⟩
    · rw [attempts, List.filterMap_append,
        List.filterMap_cons_some (Candidate.attempt?_of_applies happlies)]
      rfl
    · rw [attempts, attempts, ← List.filterMap_append] at hb
      obtain ⟨hd, hother⟩ := mem_attempts.1 hb
      exact hmore b.candidate hd _ _ hother

variable (symbols arguments) in
/-- Two applicable candidates share the least number of conversions. -/
def IsTied (candidates : List (Candidate α)) : Prop :=
  ∃ c d cost, [c, d].Sublist candidates ∧
    (∃ passed, c.Applies symbols arguments passed cost) ∧
    (∃ passed, d.Applies symbols arguments passed cost) ∧
    ∀ e ∈ candidates, ∀ passed cost', e.Applies symbols arguments passed cost' → cost ≤ cost'

theorem ofCheapest_attempts_eq_ambiguous :
    ofCheapest (cheapest (attempts symbols arguments candidates)) = ambiguous ↔
      IsTied symbols arguments candidates := by
  rw [ofCheapest_eq_ambiguous]
  constructor
  · rintro ⟨a, b, htwo⟩
    obtain ⟨hain, haleast⟩ := mem_cheapest.1 (htwo.subset (by simp : a ∈ [a, b]))
    obtain ⟨hbin, hbleast⟩ := mem_cheapest.1 (htwo.subset (by simp : b ∈ [a, b]))
    have hcost : b.cost = a.cost := Nat.le_antisymm (hbleast a hain) (haleast b hbin)
    obtain ⟨tried, htried, heq⟩ := List.sublist_filterMap_iff.1 (htwo.trans List.filter_sublist)
    obtain ⟨_, c, tail, rfl, -, hc, htail⟩ := List.filterMap_eq_cons_iff.1 heq.symm
    obtain ⟨_, d, _, rfl, -, hd, -⟩ := List.filterMap_eq_cons_iff.1 htail
    obtain ⟨rfl, hc⟩ := Candidate.attempt?_eq_some_iff.1 hc
    obtain ⟨rfl, hd⟩ := Candidate.attempt?_eq_some_iff.1 hd
    refine ⟨a.candidate, b.candidate, a.cost, .trans ?_ htried, ⟨_, hc⟩, ⟨_, hcost ▸ hd⟩, ?_⟩
    · exact List.sublist_append_of_sublist_right (.cons_cons _ (by simp))
    · exact fun e he passed cost happlies => haleast ⟨e, passed, cost⟩ (mem_attempts.2 ⟨he, happlies⟩)
  · rintro ⟨c, d, cost, htwo, ⟨passed, hc⟩, ⟨passed', hd⟩, hleast⟩
    refine ⟨⟨c, passed, cost⟩, ⟨d, passed', cost⟩, ?_⟩
    have hattempts : attempts symbols arguments [c, d] = [⟨c, passed, cost⟩, ⟨d, passed', cost⟩] := by
      rw [attempts, List.filterMap_cons_some (Candidate.attempt?_of_applies hc),
        List.filterMap_cons_some (Candidate.attempt?_of_applies hd), List.filterMap_nil]
    refine sublist_cheapest (hattempts ▸ htwo.filterMap _) fun a ha b hb => ?_
    have ha : a.cost = cost := by
      rcases List.mem_pair.1 ha with rfl | rfl <;> rfl
    rw [ha]
    exact hleast b.candidate (mem_attempts.1 hb).1 _ _ (mem_attempts.1 hb).2

/-! ### Resolving a call -/

/-- The messages about calls that cannot be resolved. -/
def complaints : List Message :=
  [.argumentCount, .noSuchParameter, .parameterAlreadySpecified, .onlyExplicitConversion,
    .noConversion, .noOverload, .ambiguousOverload]

theorem complaint_mem (c : Candidate α) (count : Nat) (call : NodeId) (mismatch : Mismatch) :
    (c.complaint count call mismatch).2.1 ∈ complaints := by
  cases mismatch with
  | noImplicitConversion argument source target cast =>
    unfold Candidate.complaint
    dsimp only
    split <;> simp [complaints]
  | _ => simp [Candidate.complaint, complaints]

/-- A call is resolved by the cheapest applicable candidates, whether there are many candidates or
one. It reports nothing or one thing. -/
theorem of_resolve {tree : Tree} {node : NodeId} {resolution : Resolution α}
    {diagnostics : List Diagnostic}
    (h : resolve tree symbols candidates arguments node = .ok (resolution, diagnostics)) :
    resolution = ofCheapest (cheapest (attempts symbols arguments candidates)) ∧
      if resolution.isSucceeded ∨ candidates = [] then diagnostics = []
      else ∃ d, diagnostics = [d] ∧ d.message ∈ complaints := by
  have message_of : ∀ {complaint : NodeId × Message × List String} {d : Diagnostic},
      (do return .placed tree.fileName (← tree.span complaint.1) complaint.2.1 complaint.2.2 :
        Except Fault Diagnostic) = .ok d → d.message = complaint.2.1 := by
    intro complaint d hd
    obtain ⟨span, -, rfl⟩ := exists_of_bind_pure_eq_ok hd
    rfl
  unfold resolve at h
  split at h
  · obtain ⟨rfl, rfl⟩ := Prod.mk.inj (Except.ok.inj h)
    exact ⟨rfl, by simp⟩
  · next candidate =>
    obtain ⟨result, hresult, h⟩ := exists_of_bind_eq_ok h
    cases result with
    | ok passed =>
      obtain ⟨passed, cost⟩ := passed
      obtain ⟨rfl, rfl⟩ := Prod.mk.inj (Except.ok.inj h)
      refine ⟨?_, by simp [isSucceeded]⟩
      rw [attempts, List.filterMap_cons_some (Candidate.attempt?_of_applies hresult)]
      simp [cheapest, ofCheapest]
    | error mismatch =>
      obtain ⟨d, hd, ⟨rfl⟩⟩ := exists_of_bind_pure_eq_ok h
      refine ⟨?_, ?_⟩
      · rw [eq_comm, ofCheapest_attempts_eq_failed]
        intro c hc passed cost happlies
        rw [List.mem_singleton.1 hc, Candidate.Applies, hresult] at happlies
        simp at happlies
      · rw [if_neg (by simp [isSucceeded])]
        exact ⟨d, rfl, message_of hd ▸ complaint_mem ..⟩
  · next first rest hmany =>
    obtain ⟨list, hlist, h⟩ := exists_of_bind_eq_ok h
    obtain rfl := eq_attempts_of_applicable hlist
    split at h
    · next hnone =>
      obtain ⟨d, hd, ⟨rfl⟩⟩ := exists_of_bind_pure_eq_ok h
      refine ⟨by rw [hnone]; rfl, ?_⟩
      rw [if_neg (by simp [isSucceeded])]
      exact ⟨d, rfl, by rw [message_of hd]; simp [complaints]⟩
    · next best hbest =>
      obtain ⟨rfl, rfl⟩ := Prod.mk.inj (Except.ok.inj h)
      exact ⟨by rw [hbest]; rfl, by simp [isSucceeded]⟩
    · next hnone hone =>
      obtain ⟨names, -, h⟩ := exists_of_bind_eq_ok h
      obtain ⟨d, hd, ⟨rfl⟩⟩ := exists_of_bind_pure_eq_ok h
      refine ⟨?_, ?_⟩
      · unfold ofCheapest
        split
        · next heq => exact absurd heq hnone
        · next best heq => exact absurd heq (hone best)
        · rfl
      · rw [if_neg (by simp [isSucceeded])]
        exact ⟨d, rfl, by rw [message_of hd]; simp [complaints]⟩

end Resolution

theorem run_forM_push (list : List Diagnostic) (s : BindState) :
    (list.forM BindM.push : BindM Unit) s = .ok () { s with
      pass := { s.pass with diagnostics := s.pass.diagnostics.append ⟨list⟩ } } := by
  induction list generalizing s with
  | nil =>
    rw [DiagnosticQueue.append, List.append_nil]
    rfl
  | cons d rest ih =>
    change (rest.forM BindM.push : BindM Unit)
      { s with pass := { s.pass with diagnostics := s.pass.diagnostics.push d } } = _
    rw [ih]
    simp [DiagnosticQueue.append, DiagnosticQueue.push]

namespace Program

variable (p : Program)

variable {p} in
/-- A call is resolved without regard to what is known or reported, and reports at the end. -/
theorem run_resolve_eq_ok_iff {candidates : List (Candidate α)} {node : NodeId}
    {resolution : Resolution α} {s t : BindState} :
    p.resolve candidates arguments node s = .ok resolution t ↔ ∃ added,
      Resolution.resolve p.tree p.symbols candidates arguments node = .ok (resolution, added) ∧
      t = { s with pass := { s.pass with diagnostics := s.pass.diagnostics.append ⟨added⟩ } } := by
  unfold resolve
  constructor
  · intro h
    obtain ⟨⟨_, added⟩, hresolve, h⟩ := exists_of_run_lift h
    obtain ⟨_, s', hpush, h⟩ := exists_of_run_bind h
    rw [run_forM_push] at hpush
    obtain ⟨-, rfl⟩ := EStateM.Result.ok.inj hpush
    obtain ⟨rfl, rfl⟩ := EStateM.Result.ok.inj h
    exact ⟨added, hresolve, rfl⟩
  · rintro ⟨added, hresolve, rfl⟩
    rw [hresolve]
    change (added.forM BindM.push >>= fun _ => pure resolution : BindM (Resolution α)) s = _
    simp only [bind, EStateM.bind, run_forM_push]
    rfl

/-- Resolving a call picks the applicable candidate with the fewest conversions.  It succeeds with a
candidate exactly if every other applicable one has more, it is ambiguous exactly if two share the
least number, and it fails exactly if none is applicable.  The queue is kept and gets one more
diagnostic, unless the call succeeds or there are no candidates.  A call of known candidates with
known arguments is always resolved. -/
theorem resolve_picks_unique_best (candidates : List (Candidate α)) (arguments : List Argument)
    (node : NodeId) :
    (∀ s resolution t, p.resolve candidates arguments node s = .ok resolution t →
      (∀ overload passed, resolution = .succeeded overload passed ↔
        ∃ c, Resolution.IsBest p.symbols arguments candidates c passed ∧ c.overload = overload) ∧
      (resolution = .ambiguous ↔ Resolution.IsTied p.symbols arguments candidates) ∧
      (resolution = .failed ↔
        ∀ c ∈ candidates, ∀ passed cost, ¬ c.Applies p.symbols arguments passed cost) ∧
      (resolution.isSucceeded = false → resolution.best? = none ∧ resolution.arguments = []) ∧
      ∃ added, t = { s with
          pass := { s.pass with diagnostics := s.pass.diagnostics.append ⟨added⟩ } } ∧
        if resolution.isSucceeded ∨ candidates = [] then added = []
        else ∃ d, added = [d] ∧ d.message ∈ Resolution.complaints) ∧
    (p.Formed → (∀ a ∈ arguments, a.Known p) →
      (∀ c ∈ candidates, ∀ q ∈ c.parameters, q.type.Known p) → node < p.tree.size →
      ∀ s, ∃ resolution t, p.resolve candidates arguments node s = .ok resolution t) := by
  constructor
  · intro s resolution t h
    obtain ⟨added, hresolve, rfl⟩ := run_resolve_eq_ok_iff.1 h
    obtain ⟨rfl, hadded⟩ := Resolution.of_resolve hresolve
    refine ⟨fun overload passed => Resolution.ofCheapest_attempts_eq_succeeded,
      Resolution.ofCheapest_attempts_eq_ambiguous, Resolution.ofCheapest_attempts_eq_failed, ?_,
      added, rfl, hadded⟩
    cases Resolution.ofCheapest (Resolution.cheapest _) with
    | succeeded => simp [Resolution.isSucceeded]
    | failed => exact fun _ => ⟨rfl, rfl⟩
    | ambiguous => exact fun _ => ⟨rfl, rfl⟩
  · intro formed hknown htypes hnode s
    obtain ⟨⟨resolution, added⟩, hresolve, -⟩ := formed.resolve_yields hknown htypes hnode
    exact ⟨resolution, _, run_resolve_eq_ok_iff.2 ⟨added, hresolve, rfl⟩⟩

end Program
end Bindery
